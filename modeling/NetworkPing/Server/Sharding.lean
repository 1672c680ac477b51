import Mathlib.Data.Int.CardIntervalMod
import NetworkPing.OrderStatistic
import NetworkPing.Server.Aggregation

namespace NetworkPing

structure History where
  pings : ℕ
  buckets : List ℕ
  counted : ℕ

structure TestResult.Summarizes (ires : TestResult) (h : Fd → History) (fds : List Fd) : Prop where
  mcount : ires.mcount = (fds.map fun fd => (h fd).counted).sum
  lat : ires.latMap.Counts (fds.flatMap fun fd => (h fd).buckets)
  mess : ires.messCountForSock.Counts (fds.flatMap fun fd => List.replicate (h fd).pings fd)

namespace RunTest

variable {sockets fds : List Fd} {fd : Fd} {n i j : ℕ}

lemma mem_shard : fd ∈ shard sockets n i ↔ ∃ j, sockets[j]? = some fd ∧ j % n = i := by
  simp only [shard, List.mem_map, List.mem_filter, Prod.exists, List.mem_zipIdx_iff_getElem?,
    decide_eq_true_eq]
  constructor
  · rintro ⟨fd', j, ⟨hj, hi⟩, rfl⟩
    exact ⟨j, hj, hi⟩
  · rintro ⟨j, hj, hi⟩
    exact ⟨fd, j, ⟨hj, hi⟩, rfl⟩

lemma shard_sublist (sockets : List Fd) (n i : ℕ) : (shard sockets n i).Sublist sockets := by
  have h := (List.filter_sublist (p := fun x => x.2 % n = i) (l := sockets.zipIdx)).map Prod.fst
  rwa [List.zipIdx_map_fst] at h

lemma shard_unique (hs : sockets.Nodup) (hi : fd ∈ shard sockets n i)
    (hj : fd ∈ shard sockets n j) : i = j := by
  obtain ⟨a, ha, rfl⟩ := mem_shard.mp hi
  obtain ⟨b, hb, rfl⟩ := mem_shard.mp hj
  have hlt := (List.getElem?_eq_some_iff.mp ha).1
  rw [(List.getElem?_inj hlt hs).mp (ha.trans hb.symm)]

lemma shard_length_le (hn : 0 < n) (i : ℕ) :
    (shard sockets n i).length ≤ sockets.length / n + 1 := by
  have hcount : (shard sockets n i).length = sockets.length.count (· % n = i) := by
    rw [shard, List.length_map, ← List.countP_eq_length_filter, Nat.count, List.range_eq_range',
      ← List.zipIdx_map_snd 0 sockets, List.countP_map]
    rfl
  by_cases hi : i < n
  · have hmod : sockets.length.count (· % n = i) = sockets.length.count (· ≡ i [MOD n]) := by
      simp only [Nat.ModEq, Nat.mod_eq_of_lt hi]
    rw [hcount, hmod, Nat.count_modEq_card _ hn]
    split_ifs <;> omega
  · have hzero : sockets.length.count (· % n = i) = 0 := by
      rw [Nat.count_iff_forall_not]
      intro j _ hj
      exact hi (hj ▸ Nat.mod_lt j hn)
    rw [hcount, hzero]
    exact Nat.zero_le _

lemma shards_perm (hs : sockets.Nodup) (hn : 0 < n) :
    (List.ofFn fun i : Fin n => shard sockets n i).flatten.Perm sockets := by
  rw [List.perm_ext_iff_of_nodup ?_ hs]
  · intro fd
    simp only [List.mem_flatten, List.mem_ofFn, exists_exists_eq_and]
    constructor
    · rintro ⟨i, hi⟩
      exact (shard_sublist sockets n i).mem hi
    · intro hfd
      obtain ⟨j, hj⟩ := List.mem_iff_getElem?.mp hfd
      exact ⟨⟨j % n, Nat.mod_lt j hn⟩, mem_shard.mpr ⟨j, hj, rfl⟩⟩
  · rw [List.nodup_flatten]
    constructor
    · intro fds hfds
      obtain ⟨i, rfl⟩ := List.mem_ofFn.mp hfds
      exact (shard_sublist sockets n i).nodup hs
    · rw [List.pairwise_ofFn]
      intro i j hij fd hi hj
      exact hij.ne (Fin.ext (shard_unique hs hi hj))

variable {h : Fd → History} {parts : List (List Fd)} {ress : List TestResult}

lemma mcount_parts (hp : List.Forall₂ (fun fds ires => ires.Summarizes h fds) parts ress) :
    (ress.map TestResult.mcount).sum = (parts.flatten.map fun fd => (h fd).counted).sum := by
  induction hp with
  | nil => rfl
  | cons hs _ ih =>
    rw [List.map_cons, List.sum_cons, ih, hs.mcount, List.flatten_cons, List.map_append,
      List.sum_append]

lemma latMap_parts (hp : List.Forall₂ (fun fds ires => ires.Summarizes h fds) parts ress)
    {m : Counter ℕ} {xs : List ℕ} (hm : m.Counts xs) :
    (ress.foldl (fun m ires => m.merge ires.latMap) m).Counts
      (xs ++ parts.flatten.flatMap fun fd => (h fd).buckets) := by
  induction hp generalizing m xs with
  | nil => simpa using hm
  | cons hs _ ih =>
    have := ih (hm.merge hs.lat)
    simpa only [List.foldl_cons, List.flatten_cons, List.flatMap_append, List.append_assoc]
      using this

lemma count_replicates {f : Fd → ℕ} (hn : fds.Nodup) (hfd : fd ∈ fds) :
    (fds.flatMap fun fd => List.replicate (f fd) fd).count fd = f fd := by
  have none {fds : List Fd} (h : fd ∉ fds) :
      (fds.flatMap fun fd => List.replicate (f fd) fd).count fd = 0 := by
    rw [List.count_eq_zero, List.mem_flatMap]
    rintro ⟨fd', hmem, heq⟩
    exact h (List.eq_of_mem_replicate heq ▸ hmem)
  induction fds with
  | nil => cases hfd
  | cons x fds ih =>
    obtain ⟨hx, hn⟩ := List.nodup_cons.mp hn
    rw [List.flatMap_cons, List.count_append]
    obtain rfl | hfd := List.mem_cons.mp hfd
    · rw [List.count_replicate_self, none hx, Nat.add_zero]
    · have hne : fd ≠ x := fun he => hx (he ▸ hfd)
      rw [ih hn hfd, List.count_replicate, if_neg (by simpa using hne.symm), Nat.zero_add]

lemma messCount_perm (hn : fds.Nodup) (hp : ∀ fd ∈ fds, 0 < (h fd).pings) {ires : TestResult}
    (hs : ires.Summarizes h fds) :
    ires.messCountForSock.values.Perm (fds.map fun fd => (h fd).pings) := by
  have hd : (fds.flatMap fun fd => List.replicate (h fd).pings fd).dedup.Perm fds := by
    rw [List.perm_ext_iff_of_nodup (List.nodup_dedup _) hn]
    intro fd
    rw [List.mem_dedup, List.mem_flatMap]
    constructor
    · rintro ⟨fd', hmem, heq⟩
      exact List.eq_of_mem_replicate heq ▸ hmem
    · exact fun hfd => ⟨fd, hfd, List.mem_replicate.mpr ⟨(hp fd hfd).ne', rfl⟩⟩
  refine hs.mess.values.trans ((hd.map _).trans (List.Perm.of_eq ?_))
  exact List.map_congr_left fun fd hfd => count_replicates hn hfd

lemma messageCounts_parts (hn : parts.flatten.Nodup) (hpos : ∀ fd ∈ parts.flatten, 0 < (h fd).pings)
    (hp : List.Forall₂ (fun fds ires => ires.Summarizes h fds) parts ress) :
    (ress.flatMap fun ires => ires.messCountForSock.values).Perm
      (parts.flatten.map fun fd => (h fd).pings) := by
  induction hp with
  | nil => exact .nil
  | cons hs _ ih =>
    rw [List.flatten_cons] at hn hpos
    rw [List.flatMap_cons, List.flatten_cons, List.map_append]
    exact (messCount_perm hn.of_append_left (fun fd hfd => hpos fd (List.mem_append_left _ hfd))
      hs).append (ih hn.of_append_right fun fd hfd => hpos fd (List.mem_append_right _ hfd))

def percentiles (numConn : ℤ) (ress : List TestResult) : Checked Check (Vector ℕ 19) :=
  .ofFn fun i => percentile numConn (messageCounts ress) i

structure SameCounts (a b : TestResult) : Prop where
  mcount : a.mcount = b.mcount
  latMap : ∀ bucket, a.latMap.lookup bucket = b.latMap.lookup bucket

structure Ranked (h : Fd → History) (sockets : List Fd) (res single : Checked Check (Vector ℕ 19)) :
    Prop where
  defined : res.All Check.Ok
  same : res.value = single.value
  sorted : ∀ i j : Fin 19, i ≤ j → res.value[i] ≤ res.value[j]
  rank : ∀ i : Fin 19, IsOrderStatistic (sockets.map fun fd => (h fd).pings)
    (sockets.length * (i + 1) / 20) res.value[i]

lemma sameCounts_parts {parts' : List (List Fd)} {ress' : List TestResult} (base : ℚ) (numConn : ℤ)
    (hp : List.Forall₂ (fun fds ires => ires.Summarizes h fds) parts ress)
    (hp' : List.Forall₂ (fun fds ires => ires.Summarizes h fds) parts' ress')
    (hperm : parts.flatten.Perm parts'.flatten) :
    SameCounts (aggregate base numConn ress).value (aggregate base numConn ress').value where
  mcount := by
    have := (hperm.map fun fd => (h fd).counted).sum_eq
    exact ((mcount_parts hp).trans this).trans (mcount_parts hp').symm
  latMap bucket := by
    have hc := (latMap_parts hp' Counter.counts_empty).perm (hperm.symm.flatMap_right _)
    exact (latMap_parts hp Counter.counts_empty).lookup_eq hc bucket

lemma value_percentile {mps : List ℕ} {m : ℕ} (i : Fin 19) (hlt : m * 19 < 2 ^ 31) :
    (percentile m mps i).value = mps.getD (m * (i + 1) / 20) 0 := by
  have hle : m * (i + 1) ≤ m * 19 := Nat.mul_le_mul_left m (by omega)
  have hn : (m * (i + 1 : ℤ) % 2 ^ 64).toNat = m * (i + 1) := by
    rw [Int.emod_eq_of_lt (by positivity) (by exact_mod_cast (by omega : m * (i + 1) < 2 ^ 64))]
    exact_mod_cast rfl
  simp only [percentile, Checked.value_bind, value_mul, item, Checked.value_check, hn]

lemma all_percentiles {numConn : ℤ} {P : Check → Prop} : (percentiles numConn ress).All P ↔
    ∀ i : Fin 19, P (.int (numConn * (i + 1))) ∧
      P (.index ((numConn * (i + 1) % 2 ^ 64).toNat / (19 + 1)) (messageCounts ress).length) := by
  simp only [percentiles, Checked.all_ofFn, all_percentile]

section Percentiles

variable (hn : sockets.Nodup) (hpos : ∀ fd ∈ sockets, 0 < (h fd).pings)
  (hp : List.Forall₂ (fun fds ires => ires.Summarizes h fds) parts ress)
  (hperm : parts.flatten.Perm sockets)

include hn hpos hp hperm

lemma messageCounts_perm :
    (messageCounts ress).Perm (sockets.map fun fd => (h fd).pings) := by
  refine (List.mergeSort_perm _ _).trans (.trans ?_ (hperm.map _))
  apply messageCounts_parts (hperm.nodup_iff.mpr hn) _ hp
  exact fun fd hfd => hpos fd (hperm.mem_iff.mp hfd)

lemma percentile_rank (h1 : 1 ≤ sockets.length) (hlt : sockets.length * 19 < 2 ^ 31) (i : Fin 19) :
    IsOrderStatistic (sockets.map fun fd => (h fd).pings) (sockets.length * (i + 1) / 20)
      (percentiles sockets.length ress).value[i] := by
  have hm := messageCounts_perm hn hpos hp hperm
  have hlen : (messageCounts ress).length = sockets.length := by
    rw [hm.length_eq, List.length_map]
  have hidx : sockets.length * (i + 1) / 20 < (messageCounts ress).length := by
    have hle : sockets.length * (i + 1) ≤ sockets.length * 19 := Nat.mul_le_mul_left _ (by omega)
    omega
  have hval : (percentiles sockets.length ress).value[i] =
      (messageCounts ress)[sockets.length * (i + 1) / 20] := by
    have hv : (percentile _ (messageCounts ress) i).value = _ := value_percentile i hlt
    rw [List.getD_eq_getElem?_getD, List.getElem?_eq_getElem hidx, Option.getD_some] at hv
    simpa [percentiles, Checked.ofFn] using hv
  rw [hval]
  apply (isOrderStatistic_mergeSort hidx).perm
  exact (List.mergeSort_perm _ _).symm.trans hm

lemma percentiles_defined (h1 : 1 ≤ sockets.length) :
    (percentiles sockets.length ress).All Check.Ok ↔ sockets.length * 19 < 2 ^ 31 := by
  have hlen := (messageCounts_perm hn hpos hp hperm).length_eq
  rw [List.length_map] at hlen
  rw [all_percentiles, hlen, percentiles_ok (by exact_mod_cast h1)]
  omega

end Percentiles

structure Dealt (sockets : List Fd) (n : ℕ) : Prop where
  once : ∀ fd ∈ sockets, ∃! i, i < n ∧ fd ∈ shard sockets n i
  size : ∀ i, (shard sockets n i).length ≤ sockets.length / n + 1

lemma dealt (hs : sockets.Nodup) (hn : 0 < n) : Dealt sockets n where
  once fd hfd := by
    obtain ⟨j, hj⟩ := List.mem_iff_getElem?.mp hfd
    have hmem : fd ∈ shard sockets n (j % n) := mem_shard.mpr ⟨j, hj, rfl⟩
    exact ⟨j % n, ⟨Nat.mod_lt j hn, hmem⟩, fun i hi => shard_unique hs hi.2 hmem⟩
  size := shard_length_le hn

theorem sharding (base : ℚ) (h : Fd → History) (sockets : List Fd) (workerThreads : ℕ)
    (hs : sockets.Nodup) (h1 : 1 ≤ sockets.length) (hw : 1 ≤ workerThreads)
    (ress : Fin (min sockets.length workerThreads) → TestResult) (one : TestResult)
    (hress : ∀ i, (ress i).Summarizes h (shard sockets (min sockets.length workerThreads) i))
    (hone : one.Summarizes h sockets) :
    Dealt sockets (min sockets.length workerThreads) ∧
    SameCounts (aggregate base sockets.length (List.ofFn ress)).value
      (aggregate base sockets.length [one]).value ∧
    ((∀ fd ∈ sockets, 0 < (h fd).pings) →
      (Ranked h sockets (percentiles sockets.length (List.ofFn ress))
        (percentiles sockets.length [one]) ↔ sockets.length * 19 < 2 ^ 31)) := by
  have hn : 0 < min sockets.length workerThreads := by omega
  generalize min sockets.length workerThreads = n at *
  have hp : List.Forall₂ (fun fds ires => ires.Summarizes h fds)
      (List.ofFn fun i : Fin n => shard sockets n i) (List.ofFn ress) := by
    rw [List.ofFn_eq_map, List.ofFn_eq_map, List.forall₂_map_left_iff, List.forall₂_map_right_iff,
      List.forall₂_same]
    exact fun i _ => hress i
  have hp1 : List.Forall₂ (fun fds ires => ires.Summarizes h fds) [sockets] [one] :=
    .cons hone .nil
  have hperm := shards_perm hs hn
  have hperm1 : [sockets].flatten.Perm sockets := .of_eq (by simp)
  refine ⟨dealt hs hn, sameCounts_parts base _ hp hp1 (hperm.trans hperm1.symm), fun hpos => ?_⟩
  constructor
  · exact fun hr => (percentiles_defined hs hpos hp hperm h1).mp hr.defined
  · intro hlt
    have hrank := percentile_rank hs hpos hp hperm h1 hlt
    have hrank1 := percentile_rank hs hpos hp1 hperm1 h1 hlt
    refine ⟨(percentiles_defined hs hpos hp hperm h1).mpr hlt, ?_, fun i j hij => ?_, hrank⟩
    · ext i hi
      exact (hrank ⟨i, hi⟩).unique (hrank1 ⟨i, hi⟩)
    · apply (hrank i).mono (hrank j)
      exact Nat.div_le_div_right (Nat.mul_le_mul_left _ (by omega))

def summary (h : Fd → History) (fds : List Fd) : TestResult where
  mcount := (fds.map fun fd => (h fd).counted).sum
  latMap := (fds.flatMap fun fd => (h fd).buckets).foldl (fun m b => m.add b 1) ∅
  messCountForSock :=
    (fds.flatMap fun fd => List.replicate (h fd).pings fd).foldl (fun m fd => m.add fd 1) ∅

lemma summary_summarizes (h : Fd → History) (fds : List Fd) :
    (summary h fds).Summarizes h fds where
  mcount := rfl
  lat := Counter.counts_foldl _
  mess := Counter.counts_foldl _

theorem sharding_two :
    let h : Fd → History := fun fd => ⟨fd.toNat, [7], 1⟩
    Ranked h [5, 6, 8] (percentiles 3 (List.ofFn fun i : Fin 2 => summary h (shard [5, 6, 8] 2 i)))
      (percentiles 3 [summary h [5, 6, 8]]) := by
  intro h
  refine ((sharding 2 h [5, 6, 8] 2 (by decide) (by decide) (by decide) _ _
    (fun i => summary_summarizes h _) (summary_summarizes h _)).2.2 ?_).mpr (by decide)
  decide

def manySockets : List Fd := (List.range 113025456).map Nat.cast

theorem sharding_overflows :
    let h : Fd → History := fun _ => ⟨1, [], 1⟩
    manySockets.Nodup ∧ (∀ fd ∈ manySockets, 0 < (h fd).pings) ∧
      ¬ Ranked h manySockets
        (percentiles 113025456 (List.ofFn fun i : Fin 3 => summary h (shard manySockets 3 i)))
        (percentiles 113025456 [summary h manySockets]) := by
  intro h
  have hn : manySockets.Nodup := List.nodup_range.map Nat.cast_injective
  refine ⟨hn, fun _ _ => Nat.one_pos, fun hr => ?_⟩
  have hd := all_percentiles.mp hr.defined 18
  exact absurd hd.1 (by decide)

end RunTest

end NetworkPing
