import NetworkPing.Wire.StatsRoundTrip

namespace NetworkPing.Stats

variable {res : TestResult} {ws us : List (List Char)} {u v p : List Char}

def Raises (result : List Char) : Prop := ∃ e, getRunStats result = .error e

def leading (res : TestResult) : List ℕ :=
  res.latMap.entries.length :: ((res.latMap.entries.flatMap fun val => [val.1, val.2]) ++
    19 :: res.percentiles.pop.toList)

lemma percentiles_split (res : TestResult) :
    res.percentiles.toList = res.percentiles.pop.toList ++ [res.percentiles.back] := by
  conv_lhs => rw [← Vector.push_pop_back res.percentiles, Vector.toList_push]

lemma numbers_split (res : TestResult) : numbers res = leading res ++ [res.percentiles.back] := by
  rw [numbers, leading, percentiles_split]
  simp

lemma ofDecimal_pos (h : decimal 19 = u ++ v) (hu : u ≠ []) : ofDecimal u ≠ 0 := by
  have hd : decimal 19 = ['1', '9'] := rfl
  rw [hd] at h
  obtain ⟨c, cs, rfl⟩ := List.exists_cons_of_ne_nil hu
  cases cs with
  | nil =>
    obtain ⟨rfl, _⟩ : '1' = c ∧ ['9'] = v := by simpa using h
    decide
  | cons d ds =>
    obtain ⟨rfl, rfl, rfl, _⟩ : '1' = c ∧ '9' = d ∧ ds = [] ∧ v = [] := by simpa using h
    decide

lemma isNumeral_cut (ns : List ℕ) {k : ℕ} (hk : decimal k = u ++ v) (hu : u ≠ []) :
    ∀ w ∈ ns.map decimal ++ [u], IsNumeral w := by
  simp only [List.forall_mem_append, List.forall_mem_map, List.forall_mem_singleton]
  exact ⟨fun n _ => isNumeral_decimal n, (hk ▸ isNumeral_decimal k).of_append hu⟩

lemma readSections_cut {ns : List ℕ} {k : ℕ} (h : ns ++ [k] <+: leading res) (hu : u ≠ [])
    (hk : decimal k = u ++ v) :
    ∃ e, readSections (ns.map Nat.cast ++ [(ofDecimal u : ℤ)]) = .error e := by
  cases ns with
  | nil => exact ⟨.indexError, by simp [readSections_cons]⟩
  | cons n ns =>
    obtain ⟨t, ht⟩ := h
    rw [leading, List.cons_append, List.cons_append, List.cons.injEq] at ht
    obtain ⟨rfl, ht⟩ := ht
    set m := res.latMap.entries.length
    have hlen := congrArg List.length ht
    have hat : (ns ++ [k] ++ t)[2 * m]? = some 19 := by
      rw [ht, ← pairs_length, List.getElem?_append_right le_rfl, Nat.sub_self]
      rfl
    simp only [List.length_append, List.length_cons, List.length_nil, pairs_length,
      Vector.length_toList] at hlen
    rw [List.map_cons, List.cons_append, readSections_cons]
    cases hd : (ns.map Nat.cast ++ [(ofDecimal u : ℤ)]).drop (2 * m) with
    | nil => exact ⟨_, rfl⟩
    | cons x rest =>
      have hx := congrArg (·[0]?) hd
      have hl := congrArg List.length hd
      simp only [List.getElem?_drop, Nat.add_zero, List.getElem?_cons_zero] at hx
      simp only [List.length_drop, List.length_append, List.length_map, List.length_cons,
        List.length_nil] at hl
      refine ⟨.assertionError, if_neg fun hrest => ?_⟩
      by_cases hm : 2 * m < ns.length
      · rw [List.append_assoc, List.getElem?_append_left hm] at hat
        rw [List.getElem?_append_left (by simpa using hm), List.getElem?_map, hat] at hx
        obtain rfl := Option.some.inj hx
        have : (rest.length : ℤ) = 19 := hrest
        omega
      · have hm : 2 * m = ns.length := by omega
        rw [hm, List.append_assoc, List.getElem?_append_right le_rfl, Nat.sub_self] at hat
        obtain rfl := Option.some.inj hat
        rw [hm, ← List.length_map (Nat.cast : ℕ → ℤ), List.getElem?_append_right le_rfl,
          Nat.sub_self] at hx
        obtain rfl := Option.some.inj hx
        have := ofDecimal_pos hk hu
        omega

lemma raises_cut {b : Bool} (hu : u ≠ []) (h : split p = us ++ [u])
    (hp : us ++ [u ++ v] <+: decimal res.mcount :: latBase b :: (leading res).map decimal) :
    Raises p := by
  match us, h, hp with
  | [], h, _ => exact ⟨.valueError, by simp [getRunStats, h]⟩
  | [m], h, _ => exact ⟨.indexError, by simp only [getRunStats, h]; rfl⟩
  | m :: b' :: us, h, hp =>
    obtain ⟨t, ht⟩ := hp
    simp only [List.cons_append, List.cons.injEq] at ht
    obtain ⟨rfl, rfl, ht⟩ := ht
    obtain ⟨cut, rest, hcut, hmap, rfl⟩ := List.map_eq_append_iff.mp ht.symm
    obtain ⟨ns, ks, rfl, rfl, hks⟩ := List.map_eq_append_iff.mp hmap
    obtain ⟨k, rfl, hk⟩ : ∃ k, ks = [k] ∧ decimal k = u ++ v := by
      simpa [List.map_eq_singleton_iff] using hks
    obtain ⟨e, he⟩ := readSections_cut ⟨rest, hcut.symm⟩ hu hk
    obtain ⟨q, hq⟩ := getRunStats_words (isNumeral_decimal res.mcount) (isNumeral_cut ns hk hu) h
    refine ⟨e, ?_⟩
    rw [hq, List.map_append, numbers_ofDecimal, List.map_singleton, he]
    rfl

lemma not_raises_cut {b : Bool} (hu : u ≠ []) (hv : decimal res.percentiles.back = u ++ v)
    (h : split p = decimal res.mcount :: latBase b :: (leading res).map decimal ++ [u]) :
    ¬ Raises p := by
  obtain ⟨q, hq⟩ := getRunStats_words (isNumeral_decimal res.mcount) (isNumeral_cut _ hv hu) h
  have hr := readSections_flat res (res.percentiles.pop.toList.map Nat.cast ++ [(ofDecimal u : ℤ)])
  have hlead : (leading res).map Nat.cast ++ [(ofDecimal u : ℤ)] =
      (res.latMap.entries.length : ℤ) ::
      ((res.latMap.entries.flatMap fun val => [val.1, val.2]).map Nat.cast ++
        ((res.percentiles.pop.toList.map Nat.cast ++ [(ofDecimal u : ℤ)]).length : ℤ) ::
          (res.percentiles.pop.toList.map Nat.cast ++ [(ofDecimal u : ℤ)])) := by
    simp [leading]
  rintro ⟨e, he⟩
  rw [hq, List.map_append, numbers_ofDecimal, List.map_singleton, hlead, hr] at he
  cases he

theorem truncated_answer (log2Lat : Bool) (res : TestResult) (p : List Char)
    (hp : p <+: serializeToStr log2Lat res) :
    Raises p ↔
      p.length + (decimal res.percentiles.back).length ≤ (serializeToStr log2Lat res).length := by
  have hws : ∀ w ∈ decimal res.mcount :: latBase log2Lat :: (leading res).map decimal,
      IsWord isSpace w := by
    simp only [List.forall_mem_cons, List.forall_mem_map]
    exact ⟨(isNumeral_decimal _).isWord, isWord_latBase log2Lat,
      fun n _ => (isNumeral_decimal n).isWord⟩
  have htext : serializeToStr log2Lat res = [' '].intercalate ((decimal res.mcount ::
      latBase log2Lat :: (leading res).map decimal) ++ [decimal res.percentiles.back]) := by
    rw [serializeToStr_words, numbers_split, List.map_append]
    rfl
  rw [htext] at hp ⊢
  obtain ⟨hle, hcut⟩ | ⟨u, v, hu, hv, rfl, hlen⟩ := words_cut rfl hws (by simp) hp
  · refine iff_of_true ?_ hle
    rcases hcut with hnil | ⟨us, u, v, hu, h, hpre⟩
    · exact ⟨.valueError, by simp [getRunStats, split, hnil]⟩
    · exact raises_cut hu h hpre
  · apply iff_of_false
    · refine not_raises_cut hu hv (words_intercalate rfl ?_)
      simp only [List.forall_mem_append, List.forall_mem_singleton]
      exact ⟨hws, (hv ▸ isNumeral_decimal _).isWord.of_append hu⟩
    · have := List.length_pos_iff.mpr hu
      omega

def cutResult : TestResult where
  mcount := 320
  latMap := AList.singleton 14 316
  percentiles := .ofFn fun i => 10 + 3 * i

theorem truncated_answer_ranks :
    let text := serializeToStr true cutResult
    ¬ Raises text.dropLast ∧ Raises text.dropLast.dropLast := by
  intro text
  have hcut : text.dropLast <+: text := List.dropLast_prefix _
  constructor
  · exact mt (truncated_answer true cutResult _ hcut).mp (by decide +kernel)
  · exact (truncated_answer true cutResult _ ((List.dropLast_prefix _).trans hcut)).mpr
      (by decide +kernel)

theorem truncated_answer_twelve :
    let res : TestResult := { percentiles := (Vector.replicate 19 7).set 18 12 }
    let p := (serializeToStr false res).dropLast
    (p <+: serializeToStr false res ∧ p ≠ serializeToStr false res) ∧
      (getRunStats p).map RunStats.percentiles = .ok (List.replicate 18 7 ++ [1]) := by
  intro res p
  exact ⟨⟨List.dropLast_prefix _, by decide⟩, by decide +kernel⟩

end NetworkPing.Stats
