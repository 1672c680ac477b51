import NetworkPing.Binary64
import NetworkPing.Counter
import NetworkPing.Cumulative
import NetworkPing.Sequences

/-! `get_lats`: the latencies below which given fractions of the messages stay. A float
stands for its number; what is computed in floats is rounded, `**` as if it were exact before. -/

namespace NetworkPing.Report

open Binary64 (nearest power InRange)

def sortedItems (lats : Counter ℤ) : List ((_ : ℤ) × ℕ) :=
  lats.entries.mergeSort fun e f => e.1 ≤ f.1

-- an infinity is compared by its sign
def atLeast (curr : ℕ) (product : ℚ) : Bool :=
  match Binary64.round product with
  | some x => x ≤ curr
  | none => product < 0

/-- `none` is an `OverflowError`. -/
def fill (allMess : ℤ) (logBase : ℚ) (curr : ℕ) (idx : ℤ) (perc : ℚ) (res : Option ℚ) :
    Option (Option ℚ) := do
  let total ← Binary64.round allMess
  if atLeast curr (total * perc) ∧ res = none then (power logBase idx).map some else some res

def fillRow (allMess : ℤ) (logBase : ℚ) (percs : List ℚ) (state : ℕ × List (Option ℚ))
    (e : (_ : ℤ) × ℕ) : Option (ℕ × List (Option ℚ)) :=
  let curr := state.1 + e.2
  ((percs.zip state.2).mapM fun x => fill allMess logBase curr e.1 x.1 x.2).map (curr, ·)

def perc95 : ℚ := nearest (19 / 20)

/-- `none` stands for an `OverflowError` or the assertion that `percs` is sorted. -/
def getLats (lats : Counter ℤ) (logBase : ℚ) (percs : List ℚ := [1 / 2, 3 / 4, perc95]) :
    Option (List (Option ℚ)) :=
  -- the sum of a dictionary is the sum of its keys
  let allMess := lats.keys.sum
  if 0 = allMess then some (List.replicate percs.length (some 0))
  else if percs.mergeSort = percs then
    ((sortedItems lats).foldlM (fillRow allMess logBase percs)
      (0, List.replicate percs.length none)).map Prod.snd
  else none

def firstBucket (lats : Counter ℤ) (product : ℚ) : Option ℤ :=
  firstReach (atLeast · product) 0 (sortedItems lats)

variable {lats : Counter ℤ} {logBase total product threshold v : ℚ} {percs : List ℚ} {allMess : ℤ}
  {a b : ℤ} {m n : ℕ}

lemma sortedItems_perm (lats : Counter ℤ) : (sortedItems lats).Perm lats.entries :=
  List.mergeSort_perm _ _

lemma sortedItems_lt (lats : Counter ℤ) :
    (sortedItems lats).Pairwise fun e f => e.1 < f.1 := by
  have hle : (sortedItems lats).Pairwise fun e f => e.1 ≤ f.1 := by
    have : (sortedItems lats).Pairwise fun e f => decide (e.1 ≤ f.1) :=
      List.pairwise_mergeSort (fun a b c hab hbc => by simp only [decide_eq_true_eq] at *; omega)
        (fun a b => by simpa using le_total a.1 b.1) lats.entries
    simpa using this
  have hne : (sortedItems lats).Pairwise fun e f => e.1 ≠ f.1 :=
    ((sortedItems_perm lats).pairwise_iff fun h => h.symm).mpr
      (List.nodupKeys_iff_pairwise.mp lats.nodupKeys)
  exact hle.imp₂ (fun _ _ h hn => lt_of_le_of_ne h hn) hne

lemma mem_sortedItems : b ∈ (sortedItems lats).keys ↔ b ∈ lats :=
  ((sortedItems_perm lats).map Sigma.fst).mem_iff

lemma sortedItems_ne_nil (hl : lats.keys ≠ []) : sortedItems lats ≠ [] := by
  intro hnil
  have hperm := (sortedItems_perm lats).map Sigma.fst
  rw [hnil] at hperm
  exact hl (List.nil_perm.mp hperm)

def reached (lats : Counter ℤ) (threshold : ℚ) : Set ℤ :=
  {b | b ∈ lats ∧ threshold ≤ weightUpTo lats.entries b}

def filled (lats : Counter ℤ) (product : ℚ) : Set ℤ :=
  {b | b ∈ lats ∧ atLeast (weightUpTo lats.entries b) product}

lemma isLeast_firstReach {P : ℕ → Prop} [DecidablePred P] :
    firstReach P 0 (sortedItems lats) = some b ↔
      IsLeast {b | b ∈ lats ∧ P (weightUpTo lats.entries b)} b := by
  have hset : {b | b ∈ (sortedItems lats).keys ∧ P (0 + weightUpTo (sortedItems lats) b)} =
      {b | b ∈ lats ∧ P (weightUpTo lats.entries b)} := by
    ext b
    simp only [Set.mem_ofPred_eq, mem_sortedItems, Nat.zero_add,
      weightUpTo_perm (sortedItems_perm lats)]
  rw [firstReach_eq_some (sortedItems_lt lats), hset]

lemma firstBucket_eq_some : firstBucket lats product = some b ↔ IsLeast (filled lats product) b :=
  isLeast_firstReach

lemma exists_isLeast (hl : lats.keys ≠ []) {perc : ℚ} (hp : perc ≤ 1) :
    ∃ b, IsLeast (reached lats (lats.total * perc)) b := by
  have hsome : (firstReach (fun n => lats.total * perc ≤ n) 0 (sortedItems lats)).isSome := by
    refine firstReach_isSome (sortedItems_ne_nil hl) ?_
    rw [((sortedItems_perm lats).map Sigma.snd).sum_eq, Nat.zero_add]
    exact mul_le_of_le_one_right (Nat.cast_nonneg _) hp
  obtain ⟨b, hb⟩ := Option.isSome_iff_exists.mp hsome
  exact ⟨b, isLeast_firstReach.mp hb⟩

lemma atLeast_mono (hmn : m ≤ n) (h : atLeast m product) : atLeast n product := by
  have hle : (m : ℚ) ≤ n := Nat.cast_le.mpr hmn
  cases hr : Binary64.round product with
  | some x =>
    simp only [atLeast, hr, decide_eq_true_eq] at h ⊢
    exact h.trans hle
  | none => simpa only [atLeast, hr] using h

lemma fill_eq (ht : Binary64.round allMess = some total) (curr : ℕ) (idx : ℤ) (perc : ℚ)
    (res : Option ℚ) : fill allMess logBase curr idx perc res =
      if atLeast curr (total * perc) ∧ res = none then (power logBase idx).map some
      else some res := by
  rw [fill, ht]
  rfl

def answer (logBase product : ℚ) (n : ℕ) (es : List ((_ : ℤ) × ℕ)) :
    Option ℚ → Option (Option ℚ)
  | some v => some (some v)
  | none => match firstReach (atLeast · product) n es with
    | some b => (power logBase b).map some
    | none => some none

lemma answer_cons (ht : Binary64.round allMess = some total) (e : (_ : ℤ) × ℕ)
    (es : List ((_ : ℤ) × ℕ)) (perc : ℚ) (res : Option ℚ) :
    answer logBase (total * perc) n (e :: es) res =
      (fill allMess logBase (n + e.2) e.1 perc res).bind
        (answer logBase (total * perc) (n + e.2) es) := by
  rw [fill_eq ht]
  cases res with
  | some v => simp [answer]
  | none =>
    rw [answer, firstReach]
    by_cases h : atLeast (n + e.2) (total * perc) = true
    · rw [if_pos h, if_pos ⟨h, rfl⟩]
      change (power logBase e.1).map some = _
      cases power logBase e.1 <;> rfl
    · rw [if_neg h, if_neg fun hc => h hc.1]
      rfl

lemma fillRow_map (e : (_ : ℤ) × ℕ) (g : ℚ → Option ℚ) :
    fillRow allMess logBase percs (n, percs.map g) e =
      (percs.mapM fun perc => fill allMess logBase (n + e.2) e.1 perc (g perc)).map
        (n + e.2, ·) := by
  have hzip : percs.zip (percs.map g) = percs.map fun perc => (perc, g perc) := by
    rw [List.zip_eq_zipWith, List.zipWith_map_right, List.zipWith_self]
  rw [fillRow, hzip, List.mapM_map]
  rfl

lemma foldlM_fillRow (ht : Binary64.round allMess = some total) (es : List ((_ : ℤ) × ℕ)) (n : ℕ)
    (g : ℚ → Option ℚ) :
    (es.foldlM (fillRow allMess logBase percs) (n, percs.map g)).map Prod.snd =
      percs.mapM fun perc => answer logBase (total * perc) n es (g perc) := by
  induction es generalizing n g with
  | nil =>
    have hnil (perc : ℚ) : answer logBase (total * perc) n [] (g perc) = some (g perc) := by
      cases g perc <;> rfl
    simp only [hnil]
    exact (List.mapM_pure (m := Option)).symm
  | cons e es ih =>
    simp only [List.foldlM_cons, fillRow_map, answer_cons ht]
    cases hrow : percs.mapM fun perc => fill allMess logBase (n + e.2) e.1 perc (g perc) with
    | none =>
      -- one fraction overflows, and with it all are lost
      symm
      rw [← Option.not_isSome_iff_eq_none, mapM_isSome] at hrow
      apply Option.not_isSome_iff_eq_none.mp
      rw [mapM_isSome]
      exact fun hall => hrow fun perc hperc => Option.isSome_of_isSome_bind (hall perc hperc)
    | some row =>
      obtain ⟨g', hg'⟩ : ∃ g' : ℚ → Option ℚ, ∀ perc ∈ percs,
          fill allMess logBase (n + e.2) e.1 perc (g perc) = some (g' perc) := by
        refine ⟨fun perc => (fill allMess logBase (n + e.2) e.1 perc (g perc)).getD none, ?_⟩
        intro perc hperc
        have := mapM_isSome.mp (Option.isSome_of_eq_some hrow) perc hperc
        obtain ⟨r, hr⟩ := Option.isSome_iff_exists.mp this
        simp only [hr, Option.getD_some]
      have hmap : percs.mapM (fun perc => fill allMess logBase (n + e.2) e.1 perc (g perc)) =
          some (percs.map g') := (mapM_congr hg').trans (List.mapM_pure (m := Option))
      obtain rfl := Option.some.inj (hrow.symm.trans hmap)
      refine (ih (n + e.2) g').trans (mapM_congr fun perc hperc => ?_)
      rw [hg' perc hperc]
      rfl

lemma getLats_eq (hs : lats.keys.sum ≠ 0) (hp : percs.Pairwise (· ≤ ·))
    (ht : Binary64.round lats.keys.sum = some total) :
    getLats lats logBase percs =
      percs.mapM fun perc => answer logBase (total * perc) 0 (sortedItems lats) none := by
  have hsort : percs.mergeSort = percs := List.mergeSort_of_pairwise (by simpa using hp)
  have hnone : List.replicate percs.length (none : Option ℚ) = percs.map fun _ => none := by simp
  rw [getLats, if_neg (Ne.symm hs), if_pos hsort, hnone, foldlM_fillRow ht]

lemma answer_isLeast (h : IsLeast (filled lats product) b) :
    answer logBase product 0 (sortedItems lats) none = (power logBase b).map some := by
  have : firstReach (atLeast · product) 0 (sortedItems lats) = some b := firstBucket_eq_some.mpr h
  rw [answer, this]

lemma answer_eq_some (h : answer logBase product 0 (sortedItems lats) none = some (some v)) :
    ∃ b, IsLeast (filled lats product) b ∧ power logBase b = some v := by
  rw [answer] at h
  split at h
  next b hb =>
    obtain ⟨w, hw, he⟩ := Option.map_eq_some_iff.mp h
    exact ⟨b, firstBucket_eq_some.mp hb, Option.some.inj he ▸ hw⟩
  next => cases h

structure Exact (lats : Counter ℤ) (logBase : ℚ) (percs res : List ℚ) : Prop where
  buckets : List.Forall₂ (fun perc v => ∃ b,
    IsLeast (reached lats (lats.total * perc)) b ∧ power logBase b = some v) percs res
  nonzero : ∀ v ∈ res, v ≠ 0
  sorted : res.Pairwise (· ≤ ·)

def rounded (logBase : ℚ) (b : ℤ) : ℚ := nearest (logBase ^ ⌊nearest b⌋)

structure SamePowers (lats : Counter ℤ) (logBase : ℚ) (percs : List ℚ) : Prop where
  nonzero : lats.keys.sum ≠ 0
  converted : (Binary64.round lats.keys.sum).isSome
  powers : ∀ perc ∈ percs, rounded logBase '' filled lats (nearest lats.keys.sum * perc) =
    rounded logBase '' reached lats (lats.total * perc)
  inRange : ∀ perc ∈ percs, ∀ b, IsLeast (filled lats (nearest lats.keys.sum * perc)) b ∨
    IsLeast (reached lats (lats.total * perc)) b → InRange logBase b

lemma image_eq_iff {s t : Set ℤ} {f : ℤ → ℚ} (hf : Monotone f)
    (hs : ∀ x ∈ s, ∀ y ∈ t, x ≤ y → y ∈ s) (ht : ∀ x ∈ t, ∀ y ∈ s, x ≤ y → y ∈ t)
    (ha : IsLeast s a) (hb : IsLeast t b) : f '' s = f '' t ↔ f a = f b := by
  constructor
  · intro h
    obtain ⟨y, hy, hya⟩ : f a ∈ f '' t := h ▸ Set.mem_image_of_mem f ha.1
    obtain ⟨x, hx, hxb⟩ : f b ∈ f '' s := h ▸ Set.mem_image_of_mem f hb.1
    exact le_antisymm (hxb ▸ hf (ha.2 hx)) (hya ▸ hf (hb.2 hy))
  · intro h
    have half {s t : Set ℤ} {a b : ℤ} (ha : IsLeast s a) (hb : IsLeast t b) (h : f a = f b)
        (ht : ∀ x ∈ t, ∀ y ∈ s, x ≤ y → y ∈ t) : f '' s ⊆ f '' t := by
      rintro _ ⟨x, hx, rfl⟩
      obtain hbx | hxb := le_total b x
      · exact ⟨x, ht b hb.1 x hx hbx, rfl⟩
      · exact ⟨b, hb.1, le_antisymm (h ▸ hf (ha.2 hx)) (hf hxb)⟩
    exact (half ha hb h ht).antisymm (half hb ha h.symm hs)

lemma rounded_mono (hb : 1 < logBase) : Monotone (rounded logBase) := fun _ _ h =>
  Binary64.nearest_mono (zpow_le_zpow_right₀ hb.le
    (Int.floor_le_floor (Binary64.nearest_mono (Int.cast_le.mpr h))))

lemma filled_upward (hbm : b ∈ filled lats product) (ha : a ∈ lats) (hba : b ≤ a) :
    a ∈ filled lats product := ⟨ha, atLeast_mono (weightUpTo_mono hba) hbm.2⟩

lemma reached_upward (hbm : b ∈ reached lats threshold) (ha : a ∈ lats) (hba : b ≤ a) :
    a ∈ reached lats threshold :=
  ⟨ha, hbm.2.trans (by exact_mod_cast weightUpTo_mono hba)⟩

lemma image_powers (hb : 1 < logBase) (hf : IsLeast (filled lats product) a)
    (hr : IsLeast (reached lats threshold) b) :
    rounded logBase '' filled lats product = rounded logBase '' reached lats threshold ↔
      rounded logBase a = rounded logBase b :=
  image_eq_iff (rounded_mono hb) (fun _ hx _ hy => filled_upward hx hy.1)
    (fun _ hx _ hy => reached_upward hx hy.1) hf hr

lemma exists_filled (h : (filled lats product).Nonempty) :
    ∃ a, IsLeast (filled lats product) a := by
  have hfinite : (filled lats product).Finite :=
    (List.finite_toSet lats.keys).subset fun b hb => AList.mem_keys.mp hb.1
  obtain ⟨a, ha, hle⟩ := Set.exists_min_image _ id hfinite h
  exact ⟨a, ha, hle⟩

lemma rounded_eq (h : power logBase b = some v) : rounded logBase b = v :=
  (Binary64.round_eq_some.mp (Binary64.power_eq_some.mp h).2).1

lemma InRange.power (hb : 1 < logBase) (h : InRange logBase b) :
    power logBase b = some (rounded logBase b) ∧ 0 < rounded logBase b := by
  obtain ⟨v, hv, hpos⟩ := (Binary64.power_pos_iff (zero_lt_one.trans hb)).mpr h
  rw [rounded_eq hv]
  exact ⟨hv, hpos⟩

lemma getLats_overflow (hl : lats.keys ≠ []) (hs : lats.keys.sum ≠ 0) (hne : percs ≠ [])
    (ht : Binary64.round lats.keys.sum = none) : getLats lats logBase percs = none := by
  rw [getLats, if_neg (Ne.symm hs)]
  split_ifs
  · obtain ⟨e, es, he⟩ := List.exists_cons_of_ne_nil (sortedItems_ne_nil hl)
    obtain ⟨perc, percs, rfl⟩ := List.exists_cons_of_ne_nil hne
    have hfill (curr : ℕ) (idx : ℤ) (perc : ℚ) (res : Option ℚ) :
        fill lats.keys.sum logBase curr idx perc res = none := by
      rw [fill, ht]
      rfl
    rw [he, List.foldlM_cons, fillRow, List.length_cons, List.replicate_succ, List.zip_cons_cons,
      List.mapM_cons, hfill]
    rfl
  · rfl

lemma getLats_nil (lats : Counter ℤ) (logBase : ℚ) : getLats lats logBase [] = some [] := by
  have hfold (es : List ((_ : ℤ) × ℕ)) (n : ℕ) :
      (es.foldlM (fillRow lats.keys.sum logBase []) (n, [])).map Prod.snd = some [] := by
    induction es generalizing n with
    | nil => rfl
    | cons e es ih => exact ih (n + e.2)
  rw [getLats]
  split_ifs
  · rfl
  · exact hfold _ 0
  · next h => exact (h List.mergeSort_nil).elim

lemma exact_of_samePowers (hl : lats.keys ≠ []) (hb : 1 < logBase) (hp : percs.Pairwise (· ≤ ·))
    (h01 : ∀ perc ∈ percs, 0 < perc ∧ perc ≤ 1) (h : SamePowers lats logBase percs) :
    ∃ res, getLats lats logBase percs = some (res.map some) ∧ Exact lats logBase percs res := by
  obtain ⟨total, ht⟩ := Option.isSome_iff_exists.mp h.converted
  have htotal : nearest lats.keys.sum = total := (Binary64.round_eq_some.mp ht).1
  have hleast (perc : ℚ) : ∃ b, perc ∈ percs → IsLeast (reached lats (lats.total * perc)) b := by
    by_cases hmem : perc ∈ percs
    · obtain ⟨b, hb⟩ := exists_isLeast hl (h01 perc hmem).2
      exact ⟨b, fun _ => hb⟩
    · exact ⟨0, fun hm => (hmem hm).elim⟩
  choose bucket hbucket using hleast
  have hanswer : ∀ perc ∈ percs, answer logBase (total * perc) 0 (sortedItems lats) none =
      some (some (rounded logBase (bucket perc))) := by
    intro perc hperc
    have hpowers := h.powers perc hperc
    have hreached := hbucket perc hperc
    have hfilled : (filled lats (nearest lats.keys.sum * perc)).Nonempty := by
      rw [← Set.image_nonempty (f := rounded logBase), hpowers]
      exact ⟨_, Set.mem_image_of_mem _ hreached.1⟩
    obtain ⟨a, ha⟩ := exists_filled hfilled
    have heq := (image_powers hb ha hreached).mp hpowers
    rw [htotal] at ha
    rw [answer_isLeast ha, (InRange.power hb (h.inRange perc hperc a (.inl (htotal ▸ ha)))).1, heq]
    rfl
  refine ⟨percs.map fun perc => rounded logBase (bucket perc), ?_, ?_, ?_, ?_⟩
  · rw [getLats_eq h.nonzero hp ht, mapM_congr hanswer, List.map_map]
    exact List.mapM_pure (m := Option)
  · rw [List.forall₂_map_right_iff, List.forall₂_same]
    exact fun perc hperc => ⟨bucket perc, hbucket perc hperc,
      (InRange.power hb (h.inRange perc hperc _ (.inr (hbucket perc hperc)))).1⟩
  · rw [List.forall_mem_map]
    exact fun perc hperc =>
      (InRange.power hb (h.inRange perc hperc _ (.inr (hbucket perc hperc)))).2.ne'
  · rw [List.pairwise_map]
    refine hp.imp_of_mem fun {p q} hpm hqm hpq => rounded_mono hb ?_
    refine (hbucket q hqm).mono (hbucket p hpm) fun b hb => ⟨hb.1, hb.2.trans' ?_⟩
    exact mul_le_mul_of_nonneg_left hpq (Nat.cast_nonneg _)

lemma samePowers_of_exact (hl : lats.keys ≠ []) (hb : 1 < logBase) (hp : percs.Pairwise (· ≤ ·))
    (hne : percs ≠ []) {res : List ℚ} (hr : getLats lats logBase percs = some (res.map some))
    (he : Exact lats logBase percs res) : SamePowers lats logBase percs := by
  have hlen := he.buckets.length_eq
  have hs : lats.keys.sum ≠ 0 := by
    intro hs
    rw [getLats, if_pos hs.symm, Option.some.injEq] at hr
    obtain ⟨v, hv⟩ := List.exists_mem_of_ne_nil res fun h => hne (by simpa [h] using hlen)
    have hmem : some v ∈ List.replicate percs.length (some (0 : ℚ)) := hr ▸ List.mem_map_of_mem hv
    exact he.nonzero v hv (Option.some.inj (List.eq_of_mem_replicate hmem))
  have hconv : (Binary64.round lats.keys.sum).isSome := by
    by_contra hnone
    rw [getLats_overflow hl hs hne (Option.not_isSome_iff_eq_none.mp hnone)] at hr
    cases hr
  obtain ⟨total, ht⟩ := Option.isSome_iff_exists.mp hconv
  obtain ⟨rfl, -⟩ := Binary64.round_eq_some.mp ht
  rw [getLats_eq hs hp ht] at hr
  have hfound : ∀ perc ∈ percs, ∃ a b v, IsLeast (filled lats (nearest lats.keys.sum * perc)) a ∧
      IsLeast (reached lats (lats.total * perc)) b ∧ power logBase a = some v ∧
      power logBase b = some v ∧ v ≠ 0 := by
    intro perc hperc
    obtain ⟨i, hi, rfl⟩ := List.mem_iff_getElem.mp hperc
    obtain ⟨b, hreached, hv⟩ := (List.forall₂_iff_get.mp he.buckets).2 i hi (hlen ▸ hi)
    have hanswer := (List.forall₂_iff_get.mp (mapM_eq_some.mp hr)).2 i hi (by simpa [← hlen])
    simp only [List.get_eq_getElem, List.getElem_map] at hanswer
    obtain ⟨a, hfilled, ha⟩ := answer_eq_some hanswer
    exact ⟨a, b, _, hfilled, hreached, ha, hv, he.nonzero _ (List.getElem_mem _)⟩
  refine ⟨hs, hconv, fun perc hperc => ?_, fun perc hperc b' hb' => ?_⟩
  · obtain ⟨a, b, v, hfilled, hreached, ha, hv, -⟩ := hfound perc hperc
    rw [image_powers hb hfilled hreached, rounded_eq ha, rounded_eq hv]
  · obtain ⟨a, b, v, hfilled, hreached, ha, hv, h0⟩ := hfound perc hperc
    have hpos := zero_lt_one.trans hb
    apply (Binary64.power_pos_iff hpos).mp
    refine ⟨v, ?_, lt_of_le_of_ne (Binary64.power_nonneg hpos hv) (Ne.symm h0)⟩
    rcases hb' with hb' | hb'
    · rwa [hb'.unique hfilled]
    · rwa [hb'.unique hreached]

lemma atLeast_of_le (h : 0 ≤ product) (hn : product ≤ n) (h53 : n < 2 ^ 53) :
    atLeast n product := by
  obtain ⟨v, hv, hle⟩ := Binary64.round_le (n := n) h (by exact_mod_cast hn) (by omega)
  rw [Int.cast_natCast] at hle
  simpa only [atLeast, hv, decide_eq_true_eq] using hle

lemma perc95_bounds : 3 / 4 ≤ perc95 ∧ perc95 ≤ 1 := by
  have hlo : nearest (3 / 4) = 3 / 4 := by
    have := Binary64.nearest_exact (n := 3) (e := -2) (by decide) (by decide)
    norm_num at this
    exact this
  have hhi : nearest 1 = 1 := by exact_mod_cast Binary64.nearest_intCast (n := 1) (by decide)
  constructor
  · rw [← hlo]
    exact Binary64.nearest_mono (by norm_num)
  · rw [← hhi]
    exact Binary64.nearest_mono (by norm_num)

lemma percs_sorted : [1 / 2, 3 / 4, perc95].Pairwise (· ≤ ·) := by
  obtain ⟨hlo, -⟩ := perc95_bounds
  have : (1 : ℚ) / 2 ≤ perc95 := le_trans (by norm_num) hlo
  norm_num [hlo, this]

lemma percs_fractions : ∀ perc ∈ [1 / 2, 3 / 4, perc95], 0 < perc ∧ perc ≤ 1 := by
  obtain ⟨hlo, hhi⟩ := perc95_bounds
  have : 0 < perc95 := lt_of_lt_of_le (by norm_num) hlo
  norm_num [hhi, this]

structure SameBuckets (lats : Counter ℤ) (percs : List ℚ) : Prop where
  nonzero : lats.keys.sum ≠ 0
  converted : (Binary64.round lats.keys.sum).isSome
  buckets : ∀ perc ∈ percs, ∀ b ∈ lats.keys,
    (atLeast (weightUpTo lats.entries b) (nearest lats.keys.sum * perc) ↔
      lats.total * perc ≤ weightUpTo lats.entries b)

lemma SameBuckets.filled_eq (h : SameBuckets lats percs) {perc : ℚ} (hp : perc ∈ percs) :
    filled lats (nearest lats.keys.sum * perc) = reached lats (lats.total * perc) := by
  ext b
  exact and_congr_right fun hb => h.buckets perc hp b (AList.mem_keys.mp hb)

lemma SameBuckets.samePowers (h : SameBuckets lats percs)
    (hrange : ∀ b ∈ lats.keys, InRange logBase b) : SamePowers lats logBase percs where
  nonzero := h.nonzero
  converted := h.converted
  powers perc hperc := by rw [h.filled_eq hperc]
  inRange perc hperc b hb := by
    rw [h.filled_eq hperc, or_self] at hb
    exact hrange b (AList.mem_keys.mp hb.1.1)

lemma getLats_singleton (h0 : 0 < b) (hbn : b ≤ n) (hb : b < 1024) (hn : n < 2 ^ 53) :
    getLats (AList.singleton b n) 2 = some [some (2 ^ b), some (2 ^ b), some (2 ^ b)] := by
  have hitems : sortedItems (AList.singleton b n) = [⟨b, n⟩] := List.mergeSort_singleton _
  have hsum : (AList.singleton b n : Counter ℤ).keys.sum = b := add_zero b
  have hround : Binary64.round (AList.singleton b n : Counter ℤ).keys.sum = some (b : ℚ) := by
    rw [hsum]
    exact Binary64.round_intCast (by rw [abs_of_pos h0]; omega)
  have hanswer : ∀ perc ∈ [1 / 2, 3 / 4, perc95],
      answer 2 ((b : ℚ) * perc) 0 [⟨b, n⟩] none = some (some (2 ^ b)) := by
    intro perc hperc
    obtain ⟨hpos, hone⟩ := percs_fractions perc hperc
    have hb0 : (0 : ℚ) ≤ b := by exact_mod_cast h0.le
    have hat : atLeast (0 + n) ((b : ℚ) * perc) := by
      rw [Nat.zero_add]
      refine atLeast_of_le (mul_nonneg hb0 hpos.le) ?_ hn
      exact (mul_le_of_le_one_right hb0 hone).trans (by exact_mod_cast hbn)
    simp only [answer, firstReach, hat, if_true]
    rw [Binary64.power_two (by omega) hb]
    rfl
  rw [getLats_eq (by rw [hsum]; exact h0.ne') percs_sorted hround, hitems, mapM_congr hanswer]
  rfl

theorem latencies (lats : Counter ℤ) (logBase : ℚ) (percs : List ℚ) (hl : lats.keys ≠ [])
    (hb : 1 < logBase) (hp : percs.Pairwise (· ≤ ·))
    (h01 : ∀ perc ∈ percs, 0 < perc ∧ perc ≤ 1) :
    (∃ res, getLats lats logBase percs = some (res.map some) ∧ Exact lats logBase percs res) ↔
      percs = [] ∨ SamePowers lats logBase percs := by
  constructor
  · rintro ⟨res, hr, he⟩
    by_cases hne : percs = []
    · exact .inl hne
    · exact .inr (samePowers_of_exact hl hb hp hne hr he)
  · rintro (rfl | h)
    · exact ⟨[], getLats_nil lats logBase, .nil, by simp, .nil⟩
    · exact exact_of_samePowers hl hb hp h01 h

theorem latencies_two :
    let lats : Counter ℤ := (AList.insert 1 2 ∅).insert 2 1
    ∃ res, getLats lats 2 = some (res.map some) ∧ Exact lats 2 [1 / 2, 3 / 4, perc95] res := by
  intro lats
  have hsame : SameBuckets lats [1 / 2, 3 / 4, perc95] := by
    refine ⟨by decide, by decide +kernel, ?_⟩
    decide +kernel
  refine (latencies lats 2 [1 / 2, 3 / 4, perc95] (by decide) (by norm_num)
    percs_sorted percs_fractions).mpr (.inr (hsame.samePowers fun b hb => ?_))
  have hb : b = 2 ∨ b = 1 := by simpa [lats, AList.keys_insert] using hb
  rcases hb with rfl | rfl
  · exact Binary64.inRange_two (by decide) (by decide)
  · exact Binary64.inRange_two (by decide) (by decide)

theorem latencies_none :
    let lats : Counter ℤ := AList.insert 100 1 ∅
    getLats lats 2 = some [none, none, none] ∧
      ¬ ∃ res, getLats lats 2 = some (res.map some) ∧
        Exact lats 2 [1 / 2, 3 / 4, perc95] res := by
  intro lats
  have hitems : sortedItems lats = [⟨100, 1⟩] := List.mergeSort_singleton _
  have hround : Binary64.round lats.keys.sum = some 100 := by decide +kernel
  have hnone : getLats lats 2 = some [none, none, none] := by
    rw [getLats_eq (by decide) percs_sorted hround, hitems]
    decide +kernel
  refine ⟨hnone, ?_⟩
  rintro ⟨res, hr, -⟩
  rw [hnone, Option.some.injEq] at hr
  cases res with
  | nil => simp at hr
  | cons v res => simp at hr

-- three times `0.6666666666666667` is 2 as a double
example : atLeast 2 (3 * (6004799503160662 / 2 ^ 53)) := by decide +kernel

example : power 2 1024 = none := by decide +kernel

end NetworkPing.Report
