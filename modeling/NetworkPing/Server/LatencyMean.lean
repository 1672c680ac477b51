import NetworkPing.Server.Aggregation
import NetworkPing.Server.Log2
import NetworkPing.Server.WorkerPacing

namespace NetworkPing

namespace Worker

def Config.log2Lat (c : Config) : Config :=
  { c with bucket := fun latency => (log2_64 latency).getD 0 }

def clock (c : Config) (ls : List Label) : List UInt64 := ls.filterMap fun
  | .wait (some _) now => some now
  | .ping _ bc wc now => if ping c.messageLen bc wc then some now else none
  | _ => none

def latency (s : State) : Label → Option ℤ
  | .next fd _ =>
    if fd ∈ s.lastTimeForSocket then some (s.currTime.toNat - (ltime s fd).toNat) else none
  | _ => none

def latencies (c : Config) (s : State) : List Label → List ℤ
  | [] => []
  | l :: ls => (latency s l).toList ++ match step c s l with
    | some t => latencies c t ls
    | none => []

def bucketOf (c : Config) (d : ℤ) : ℕ := c.bucket (UInt64.ofNat d.toNat)

def Pc.Polling : Pc → Prop
  | .drain | .polled | .events | .pushed => True
  | _ => False

variable {c : Config} {s t : State} {l : Label} {ls : List Label} {xs : List ℤ}

structure Behind (c : Config) (s : State) (ls : List Label) : Prop where
  sorted : (clock c ls).Pairwise (· ≤ ·)
  later : ∀ now ∈ clock c ls, ∀ fd, ltime s fd ≤ now
  polled : s.pc.Polling → ∀ fd, ltime s fd ≤ s.currTime

lemma clock_cons : clock c (l :: ls) = clock c [l] ++ clock c ls :=
  List.filterMap_append (l := [l]) ..

lemma Behind.frame (h : Behind c s (l :: ls)) (hl : clock c [l] = [])
    (hlast : ∀ fd, ltime t fd = ltime s fd)
    (hp : t.pc.Polling → s.pc.Polling ∧ t.currTime = s.currTime) : Behind c t ls := by
  have hk : clock c (l :: ls) = clock c ls := by rw [clock_cons, hl, List.nil_append]
  refine ⟨hk ▸ h.sorted, fun now hnow fd => ?_, fun ht fd => ?_⟩
  · rw [hlast]
    exact h.later now (hk ▸ hnow) fd
  · rw [hlast, (hp ht).2]
    exact h.polled (hp ht).1 fd

lemma step_behind (h : Behind c s (l :: ls)) (hl : step c s l = some t) : Behind c t ls := by
  cases step_moves hl with
  | @waited batch now hpc =>
    have hk : clock c (.wait (some batch) now :: ls) = now :: clock c ls := rfl
    refine ⟨?_, fun n hn => h.later n ?_, fun _ fd => h.later now ?_ fd⟩
    · exact (List.pairwise_cons.mp (hk ▸ h.sorted)).2
    · exact hk ▸ List.mem_cons_of_mem _ hn
    · exact hk ▸ List.mem_cons_self
  | @answered fd rest bc wc now hpc hp =>
    have hk : clock c (.ping fd bc wc now :: ls) = now :: clock c ls := by simp [clock, hp]
    obtain ⟨hnow, hs⟩ := List.pairwise_cons.mp (hk ▸ h.sorted)
    refine ⟨hs, fun n hn fd' => ?_, False.elim⟩
    by_cases he : fd' = fd
    · rw [he, ltime, AList.lookup_insert]
      exact hnow n hn
    · rw [ltime, AList.lookup_insert_ne he]
      exact h.later n (hk ▸ List.mem_cons_of_mem _ hn) fd'
  | @handled fd fds draw hpc hr =>
    refine h.frame rfl (ltime_handle fd · draw) fun _ => ⟨?_, handle_currTime fd draw⟩
    rw [hpc]
    trivial
  | @broken fd rest bc wc now hpc hp =>
    exact h.frame (by simp [clock, hp]) (fun _ => rfl) False.elim
  | failed | exhausted | pinging | stopped | pinged => exact h.frame rfl (fun _ => rfl) False.elim
  | expired hpc | drained hpc | counted hpc | pushed hpc =>
    refine h.frame rfl (fun _ => rfl) fun _ => ⟨?_, rfl⟩
    rw [hpc]
    trivial

lemma start_behind {n : ℤ} (h : (clock c ls).Pairwise (· ≤ ·)) : Behind c (start n) ls :=
  ⟨h, fun _ _ _ => UInt64.zero_le, False.elim⟩

lemma Behind.latency (h : Behind c s (l :: ls)) (hpc : s.pc.Polling) {d : ℤ} {fd : Fd}
    {draw : UInt64} (hl : Worker.latency s (.next fd draw) = some d) :
    0 ≤ d ∧ d < 2 ^ 64 ∧ bucketOf c d = c.bucket (s.currTime - ltime s fd) := by
  have hle := UInt64.le_iff_toNat_le.mp (h.polled hpc fd)
  have hlt := UInt64.toNat_lt s.currTime
  rw [Worker.latency] at hl
  split_ifs at hl
  cases Option.some.inj hl
  have hfit : ((s.currTime.toNat : ℤ) - (ltime s fd).toNat).toNat < 2 ^ 64 := by omega
  refine ⟨by omega, by omega, ?_⟩
  rw [bucketOf]
  congr 1
  apply UInt64.toNat_inj.mp
  rw [UInt64.toNat_sub_of_le _ _ (h.polled hpc fd), UInt64.toNat_ofNat_of_lt' hfit]
  omega

lemma step_latencies (h : Behind c s (l :: ls)) (hl : step c s l = some t)
    (hc : s.result.latMap.Counts (xs.map (bucketOf c))) :
    t.result.latMap.Counts ((xs ++ (latency s l).toList).map (bucketOf c)) ∧
      ∀ d ∈ latency s l, 0 ≤ d ∧ d < 2 ^ 64 := by
  cases step_moves hl with
  | @handled fd fds draw hpc hr =>
    have hpol : s.pc.Polling := by
      rw [hpc]
      trivial
    refine ⟨?_, fun d hd => ⟨(h.latency hpol hd).1, (h.latency hpol hd).2.1⟩⟩
    have hlat (s' : State) : (handle c s' fd draw).result.latMap =
        (noteLatency c s' fd).result.latMap := by
      rcases handle_cases c s' fd draw with he | he <;> rw [he]
    rw [hlat, noteLatency, List.map_append]
    by_cases hfd : fd ∈ s.lastTimeForSocket
    · have hd : latency s (.next fd draw) = some _ := if_pos hfd
      rw [if_pos hfd, hd]
      simp only [Option.toList_some, List.map_cons, (h.latency hpol hd).2.2]
      exact hc.add _
    · have hd : latency s (.next fd draw) = none := if_neg hfd
      rw [if_neg hfd, hd, Option.toList_none, List.map_nil, List.append_nil]
      exact hc
  | _ => exact ⟨by simpa [latency] using hc, by simp [latency]⟩

lemma run_latencies (h : Behind c s ls) (hr : Machine.run (step c) s ls = some t)
    (hc : s.result.latMap.Counts (xs.map (bucketOf c))) :
    t.result.latMap.Counts ((xs ++ latencies c s ls).map (bucketOf c)) ∧
      ∀ d ∈ latencies c s ls, 0 ≤ d ∧ d < 2 ^ 64 := by
  induction ls generalizing s xs with
  | nil =>
    cases Option.some.inj hr
    exact ⟨by simpa [latencies] using hc, by simp [latencies]⟩
  | cons l ls ih =>
    obtain ⟨u, hl, hr⟩ := Machine.run_cons_some.mp hr
    obtain ⟨hcu, hd⟩ := step_latencies h hl hc
    obtain ⟨hct, hds⟩ := ih (step_behind h hl) hr hcu
    simp only [latencies, hl, List.append_assoc] at hct ⊢
    refine ⟨hct, fun d hm => ?_⟩
    rcases List.mem_append.mp hm with hm | hm
    · exact hd d (Option.mem_toList.mp hm)
    · exact hds d hm

lemma Finished.latency_parts {n : ℤ} (r : Finished c n)
    (h : (clock c r.labels).Pairwise (· ≤ ·)) :
    r.state.result.latMap.Counts ((Worker.latencies c (start n) r.labels).map (bucketOf c)) ∧
      ∀ d ∈ Worker.latencies c (start n) r.labels, 0 ≤ d ∧ d < 2 ^ 64 := by
  have empty : (start n).result.latMap.Counts (([] : List ℤ).map (bucketOf c)) :=
    Counter.counts_empty
  exact run_latencies (start_behind h) r.run empty

end Worker

namespace RunTest

variable {c : Worker.Config} {sockCount : ℤ} {workerThreads : ℕ}

def recorded
    (runs : Fin workerThreads → Worker.Finished c sockCount) :
    List ℤ :=
  (List.ofFn fun i => Worker.latencies c (Worker.start sockCount) (runs i).labels).flatten

def FactorTwo (avgLatNs : ℕ) (D : ℤ) (C : ℕ) : Prop :=
  (avgLatNs : ℚ) ≤ max 1 (D / C : ℚ) + 1 ∧ (D / C : ℚ) < 2 * (avgLatNs + 1)

def merged (tresults : List TestResult) : Counter ℕ :=
  tresults.foldl (fun m ires => m.merge ires.latMap) ∅

lemma merged_counts {bucket : ℤ → ℕ} {ress : List TestResult} {dss : List (List ℤ)}
    (h : List.Forall₂ (fun ires ds => ires.latMap.Counts (ds.map bucket)) ress dss) :
    (merged ress).Counts (dss.flatten.map bucket) := by
  have fold {m : Counter ℕ} (xs : List ℤ) (hm : m.Counts (xs.map bucket)) :
      (ress.foldl (fun m ires => m.merge ires.latMap) m).Counts
        ((xs ++ dss.flatten).map bucket) := by
    induction h generalizing m xs with
    | nil => simpa using hm
    | @cons ires ds ress dss hs _ ih =>
      rw [List.flatten_cons, ← List.append_assoc]
      apply ih
      rw [List.map_append]
      exact hm.merge hs
  exact fold [] Counter.counts_empty

lemma recorded_counts
    (runs : Fin workerThreads → Worker.Finished c sockCount)
    (h : ∀ i, (Worker.clock c (runs i).labels).Pairwise (· ≤ ·)) :
    (merged (tresults runs)).Counts ((recorded runs).map (Worker.bucketOf c)) ∧
      ∀ d ∈ recorded runs, 0 ≤ d ∧ d < 2 ^ 64 := by
  constructor
  · apply merged_counts
    rw [tresults, List.ofFn_eq_map, List.ofFn_eq_map, List.forall₂_map_left_iff,
      List.forall₂_map_right_iff, List.forall₂_same]
    exact fun i _ => ((runs i).latency_parts (h i)).1
  · intro d hd
    obtain ⟨ds, hds, hd⟩ := List.mem_flatten.mp hd
    obtain ⟨i, rfl⟩ := List.mem_ofFn.mp hds
    exact ((runs i).latency_parts (h i)).2 d hd

lemma avg_lat_eq (numConn : ℤ) {ress : List TestResult} {ds : List ℤ} {bucket : ℤ → ℕ}
    (h : (merged ress).Counts (ds.map bucket)) :
    (aggregate 2 numConn ress).value.avgLatNs =
      ⌊(ds.map fun d => (2 : ℚ) ^ bucket d).sum / ds.length⌋₊ := by
  have hsum := h.weighted fun k => (2 : ℚ) ^ k
  rw [List.map_map] at hsum
  have hlen : (merged ress).total = ds.length := by rw [h.total, List.length_map]
  rw [merged] at hsum hlen
  simp only [aggregate, ratio, Checked.value_bind, Checked.value_check, Checked.value_pure, hsum,
    hlen]
  rfl

lemma bucketOf_log2 {d : ℤ} (h1 : 1 ≤ d) (h64 : d < 2 ^ 64) :
    Worker.bucketOf c.log2Lat d = d.toNat.log2 := by
  have hfit : d.toNat < 2 ^ 64 := by omega
  have hone : 1 ≤ UInt64.ofNat d.toNat := by
    rw [UInt64.le_iff_toNat_le, UInt64.toNat_ofNat_of_lt' hfit]
    exact (Int.le_toNat (by omega)).mpr h1
  simp only [Worker.bucketOf, Worker.Config.log2Lat, log2_64_eq hone, Option.getD_some,
    UInt64.toNat_ofNat_of_lt' hfit]

lemma bucketOf_zero : Worker.bucketOf c.log2Lat 0 = 63 :=
  congrArg (Option.getD · 0) log2_64_zero

lemma bucketOf_lt (d : ℤ) : Worker.bucketOf c.log2Lat d < 64 := by
  have htab : ∀ k ∈ tab64, k < 64 := by decide
  simp only [Worker.bucketOf, Worker.Config.log2Lat, log2_64]
  cases h : tab64[Log2.index (Log2.smear (UInt64.ofNat d.toNat))]? with
  | none => decide
  | some k => exact htab k (List.mem_of_getElem? h)

lemma bucket_bounds {d : ℤ} (h1 : 1 ≤ d) (h64 : d < 2 ^ 64) :
    (2 : ℚ) ^ Worker.bucketOf c.log2Lat d ≤ d ∧
      (d : ℚ) < 2 * 2 ^ Worker.bucketOf c.log2Lat d := by
  have hd : ((d.toNat : ℕ) : ℚ) = d := by exact_mod_cast Int.toNat_of_nonneg (by omega)
  have hle := Nat.log2_self_le (n := d.toNat) (by omega)
  have hlt := Nat.lt_log2_self (n := d.toNat)
  rw [pow_succ'] at hlt
  rw [bucketOf_log2 h1 h64, ← hd]
  exact ⟨by exact_mod_cast hle, by exact_mod_cast hlt⟩

section Mean

variable {bucket : ℤ → ℕ} {ds : List ℤ}

def bucketMean (bucket : ℤ → ℕ) (ds : List ℤ) : ℚ :=
  (ds.map fun d => (2 : ℚ) ^ bucket d).sum / ds.length

lemma bucketMean_nonneg : 0 ≤ bucketMean bucket ds :=
  div_nonneg (List.sum_nonneg (by simp)) (Nat.cast_nonneg _)

lemma factorTwo_of_bounds (hne : ds ≠ [])
    (h : ∀ d ∈ ds, (2 : ℚ) ^ bucket d ≤ d ∧ (d : ℚ) < 2 * 2 ^ bucket d) :
    FactorTwo ⌊bucketMean bucket ds⌋₊ ds.sum ds.length := by
  have hC : (0 : ℚ) < ds.length := by exact_mod_cast List.length_pos_iff.mpr hne
  have hD : ((ds.sum : ℤ) : ℚ) = (ds.map (Int.cast : ℤ → ℚ)).sum := Int.cast_list_sum ds
  have hle : bucketMean bucket ds ≤ ds.sum / ds.length := by
    rw [bucketMean, hD]
    apply div_le_div_of_nonneg_right _ hC.le
    exact List.sum_le_sum fun d hd => (h d hd).1
  have hlt : (ds.sum / ds.length : ℚ) < 2 * bucketMean bucket ds := by
    rw [bucketMean, hD, ← mul_div_assoc, ← List.sum_map_mul_left]
    apply div_lt_div_of_pos_right _ hC
    exact List.sum_lt_sum_of_ne_nil hne _ _ fun d hd => (h d hd).2
  constructor
  · calc (⌊bucketMean bucket ds⌋₊ : ℚ) ≤ bucketMean bucket ds := Nat.floor_le bucketMean_nonneg
      _ ≤ ds.sum / ds.length := hle
      _ ≤ max 1 (ds.sum / ds.length : ℚ) := le_max_right _ _
      _ ≤ max 1 (ds.sum / ds.length : ℚ) + 1 := le_add_of_nonneg_right zero_le_one
  · have hfloor := Nat.lt_floor_add_one (bucketMean bucket ds)
    linarith

lemma not_factorTwo (h0 : ∀ d ∈ ds, 0 ≤ d) {d : ℤ} (hd : d ∈ ds) (hb : bucket d = 63)
    (hsmall : ds.sum + 3 * ds.length ≤ 2 ^ 63) :
    ¬ FactorTwo ⌊bucketMean bucket ds⌋₊ ds.sum ds.length := by
  intro hf
  have hC : (0 : ℚ) < ds.length := by exact_mod_cast List.length_pos_of_mem hd
  have hD : (0 : ℚ) ≤ ds.sum := by exact_mod_cast List.sum_nonneg h0
  have hbig : (2 : ℚ) ^ 63 ≤ (ds.map fun d => (2 : ℚ) ^ bucket d).sum := by
    apply List.single_le_sum (by simp)
    exact List.mem_map.mpr ⟨d, hd, by rw [hb]⟩
  have hmax : max 1 (ds.sum / ds.length : ℚ) ≤ 1 + ds.sum / ds.length := by
    have := div_nonneg hD hC.le
    exact max_le (by linarith) (by linarith)
  have hmean : bucketMean bucket ds < ds.sum / ds.length + 3 := by
    have := Nat.lt_floor_add_one (bucketMean bucket ds)
    linarith [hf.1]
  rw [bucketMean, div_lt_iff₀ hC, add_mul, div_mul_cancel₀ _ hC.ne'] at hmean
  have : (ds.sum + 3 * ds.length : ℚ) ≤ 2 ^ 63 := by exact_mod_cast hsmall
  linarith

end Mean

theorem avg_lat_factor_two (c : Worker.Config) (numConn sockCount : ℤ) (workerThreads : ℕ)
    (runs : Fin workerThreads → Worker.Finished c.log2Lat sockCount)
    (hclock : ∀ i, (Worker.clock c.log2Lat (runs i).labels).Pairwise (· ≤ ·))
    (hrec : recorded runs ≠ []) :
    let avgLatNs := (aggregate 2 numConn (tresults runs)).value.avgLatNs
    let D := (recorded runs).sum
    let C := (recorded runs).length
    (0 ∉ recorded runs → FactorTwo avgLatNs D C) ∧
      (D + 3 * C ≤ 2 ^ 63 → FactorTwo avgLatNs D C → 0 ∉ recorded runs) := by
  obtain ⟨hc, hd⟩ := recorded_counts runs hclock
  rw [avg_lat_eq numConn hc]
  constructor
  · intro h0
    apply factorTwo_of_bounds hrec
    intro d hm
    have hne : d ≠ 0 := fun he => h0 (he ▸ hm)
    have hnonneg := (hd d hm).1
    exact bucket_bounds (by omega) (hd d hm).2
  · intro hsmall hf h0
    exact not_factorTwo (fun d hm => (hd d hm).1) h0 bucketOf_zero hsmall hf

def twoLatencies (now : UInt64) (i : Fin 1) :
    Worker.Served (Worker.Config.log2Lat ⟨3, 0, 0, fun _ => 0⟩) 1 (shard [5] 1 i) where
  labels := [.wait (some [5]) 10, .done false, .next 5 0, .done false, .exhausted,
    .done false, .ping 5 3 3 20, .pinged, .wait (some [5]) now, .done false, .next 5 0,
    .done false, .exhausted, .done false, .ping 5 3 3 now, .pinged, .wait (some [5]) (now + 10),
    .done false, .next 5 0, .done true]
  state := (Machine.run (Worker.step (Worker.Config.log2Lat ⟨3, 0, 0, fun _ => 0⟩))
    (Worker.start 1) _).get rfl
  out := [5]
  run := (Option.some_get _).symm
  reported := by
    rw [Fin.fin_one_eq_zero i]
    rfl
  returned := rfl

theorem avg_lat_factor_two_later :
    let runs := fun i => (twoLatencies 25 i).toFinished
    FactorTwo (aggregate 2 1 (tresults runs)).value.avgLatNs (recorded runs).sum
      (recorded runs).length :=
  (avg_lat_factor_two ⟨3, 0, 0, fun _ => 0⟩ 1 1 1 (fun i => (twoLatencies 25 i).toFinished)
    (by decide +kernel) (by decide +kernel)).1 (by decide +kernel)

theorem avg_lat_equal_readings :
    let runs := fun i => (twoLatencies 20 i).toFinished
    (∀ i, (Worker.clock (Worker.Config.log2Lat ⟨3, 0, 0, fun _ => 0⟩)
      (runs i).labels).Pairwise (· ≤ ·)) ∧
    recorded runs = [0, 10] ∧
    (aggregate 2 1 (tresults runs)).value.avgLatNs = 2 ^ 62 + 4 ∧
    ¬ FactorTwo (aggregate 2 1 (tresults runs)).value.avgLatNs (recorded runs).sum
      (recorded runs).length := by
  intro runs
  have hrec : recorded runs = [0, 10] := by decide +kernel
  have havg : (aggregate 2 1 (tresults runs)).value.avgLatNs = 2 ^ 62 + 4 := by decide +kernel
  refine ⟨by decide +kernel, hrec, havg, ?_⟩
  rw [havg, hrec, FactorTwo]
  norm_num

end RunTest

end NetworkPing
