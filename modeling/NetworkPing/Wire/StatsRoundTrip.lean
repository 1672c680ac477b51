import Mathlib.Data.List.TakeWhile
import NetworkPing.Wire.Stats

namespace NetworkPing.Stats

variable {w : List Char} {ws : List (List Char)}

lemma strip_word (h : IsWord isSpace w) : strip w = w := by
  have hd {v : List Char} (hv : IsWord isSpace v) : v.dropWhile isSpace = v := by
    obtain ⟨c, cs, rfl⟩ := List.exists_cons_of_ne_nil hv.ne_nil
    rw [List.dropWhile_cons_of_neg]
    simpa using hv.solid c List.mem_cons_self
  have hr : IsWord isSpace w.reverse :=
    ⟨by simpa using h.ne_nil, fun c hc => h.solid c (List.mem_reverse.mp hc)⟩
  rw [strip, hd h, hd hr, List.reverse_reverse]

lemma digits_numeral (h : IsNumeral w) : digits w = .ok w := by
  have hs : w.splitOn '_' = [w] :=
    List.splitOn_eq_singleton fun hm => ne_of_isDigit (h.2 _ hm) rfl rfl
  rw [digits, hs, if_pos (by simpa [IsNumeral] using h), List.flatten_singleton]

lemma int_numeral (h : IsNumeral w) : int w = .ok (ofDecimal w : ℤ) := by
  have hs := sign_numeral h []
  rw [List.append_nil] at hs
  simp [int, strip_word h.isWord, hs, digits_numeral h, Except.map]

lemma toLower_digit {c : Char} (h : c.isDigit) : c.toLower = c := by
  rw [Char.toLower.eq_def, dif_neg]
  simp only [Char.isDigit, Bool.and_eq_true, decide_eq_true_eq] at h
  intro hu
  have h1 := UInt32.le_iff_toNat_le.mp h.2
  have h2 := UInt32.le_iff_toNat_le.mp hu.1
  simp at h1 h2
  omega

lemma span_numeral {p : Char → Bool} (h : IsNumeral w) (hp : ∀ c, c.isDigit → p c) :
    w.span p = (w, []) := by
  have hw : ∀ c ∈ w, p c := fun c hc => hp c (h.2 c hc)
  rw [List.span_eq_takeWhile_dropWhile, List.takeWhile_eq_self_iff.mpr hw,
    List.dropWhile_eq_nil_iff.mpr hw]

lemma float_numeral (h : IsNumeral w) : float w = .ok (.finite (ofDecimal w)) := by
  have hs := sign_numeral h []
  rw [List.append_nil] at hs
  have hlow : w.map Char.toLower = w := by
    rw [List.map_congr_left fun c hc => toLower_digit (h.2 c hc), List.map_id']
  have hne {c : Char} {cs : List Char} (hc : c.isDigit = false) : w ≠ c :: cs := by
    rintro rfl
    rw [h.2 c List.mem_cons_self] at hc
    cases hc
  have hexp : w.span (fun c => c ≠ 'e' ∧ c ≠ 'E') = (w, []) := by
    apply span_numeral h
    intro c hc
    simpa using ⟨ne_of_isDigit hc rfl, ne_of_isDigit hc rfl⟩
  have hdot : w.span (· ≠ '.') = (w, []) := by
    apply span_numeral h
    intro c hc
    simpa using ne_of_isDigit hc rfl
  have hinf : ¬ (w = "inf".toList ∨ w = "infinity".toList) := by
    rintro (he | he) <;> exact hne (by decide) he
  have hnan : w ≠ "nan".toList := hne (by decide)
  simp only [float, strip_word h.isWord, hs, hlow, if_neg hinf, if_neg hnan, hexp, hdot]
  simp [optDigits, h.1, digits_numeral h, exponent, bind, Except.bind]

lemma mapM_int (h : ∀ w ∈ ws, IsNumeral w) :
    ws.mapM int = .ok (ws.map fun w => (ofDecimal w : ℤ)) := by
  induction ws with
  | nil => rfl
  | cons w ws ih =>
    rw [List.mapM_cons, int_numeral (h w List.mem_cons_self),
      ih fun v hv => h v (List.mem_cons_of_mem w hv)]
    rfl

lemma isWord_latBase (b : Bool) : IsWord isSpace (latBase b) := by
  cases b <;> exact ⟨by simp [latBase], by simp [latBase, isSpace]⟩

lemma float_latBase (b : Bool) : ∃ q, float (latBase b) = .ok (.finite q) := by
  cases b <;> exact ⟨_, rfl⟩

def numbers (res : TestResult) : List ℕ :=
  res.latMap.entries.length :: ((res.latMap.entries.flatMap fun val => [val.1, val.2]) ++
    res.percentiles.toList.length :: res.percentiles.toList)

lemma serializeToStr_words (b : Bool) (res : TestResult) : serializeToStr b res =
    [' '].intercalate (decimal res.mcount :: latBase b :: (numbers res).map decimal) := by
  simp [intercalate_cons_flatMap, serializeToStr, numbers, List.flatMap_map, List.flatMap_assoc]

lemma getRunStats_words {result m : List Char} {b : Bool} (hm : IsNumeral m)
    (hws : ∀ w ∈ ws, IsNumeral w) (h : split result = m :: latBase b :: ws) :
    ∃ q, getRunStats result = (readSections (ws.map fun w => (ofDecimal w : ℤ))).map
      fun r => ⟨ofDecimal m, .finite q, r.1, r.2⟩ := by
  obtain ⟨q, hq⟩ := float_latBase b
  refine ⟨q, ?_⟩
  simp only [getRunStats, h, mapM_int hws, int_numeral hm, hq, bind, Except.bind]
  cases readSections (ws.map fun w => (ofDecimal w : ℤ)) <;> rfl

lemma bound_nat {len n : ℕ} : bound len n = min n len := by
  rw [bound, if_neg (by omega), Nat.min_comm]
  omega

lemma sliceFrom_nat {α : Type} (xs : List α) (n : ℕ) : sliceFrom xs n = xs.drop n := by
  rw [sliceFrom, bound_nat, ← List.drop_eq_drop_min]

lemma slice_one {α : Type} (x : α) (xs : List α) (n : ℕ) :
    slice (x :: xs) 1 (n + 1 : ℕ) = xs.take n := by
  have h1 : bound (x :: xs).length 1 = 1 := by
    rw [← Nat.cast_one, bound_nat, List.length_cons]
    omega
  rw [slice, bound_nat, ← List.take_eq_take_min, List.take_succ_cons, h1, List.drop_one,
    List.tail_cons]

lemma readSections_cons (n : ℕ) (body : List ℤ) : readSections (n :: body) =
    match body.drop (2 * n) with
    | [] => .error .indexError
    | k :: rest => if (rest.length : ℤ) = k then
        .ok (dict ((everyOther (body.take (2 * n))).zip (everyOther ((body.take (2 * n)).drop 1))),
          rest)
      else .error .assertionError := by
  have hn : (1 + n * 2 : ℤ) = (2 * n + 1 : ℕ) := by omega
  have hitem : item ((n : ℤ) :: body) 0 = .ok (n : ℤ) := rfl
  simp only [readSections, hitem, bind, Except.bind, hn, slice_one, sliceFrom_nat,
    List.drop_succ_cons]
  cases body.drop (2 * n) with
  | nil => rfl
  | cons k rest =>
    have hk : item (k :: rest) 0 = .ok k := rfl
    have h1 {xs : List ℤ} : sliceFrom xs 1 = xs.drop 1 := sliceFrom_nat xs 1
    simp [hk, h1, pure, Except.pure]

lemma everyOther_cons {α : Type} (x : α) (xs : List α) :
    everyOther (x :: xs) = x :: everyOther (xs.drop 1) := by
  cases xs <;> rfl

lemma everyOther_zip (es : List (ℤ × ℤ)) :
    (everyOther (es.flatMap fun e => [e.1, e.2])).zip
      (everyOther ((es.flatMap fun e => [e.1, e.2]).drop 1)) = es := by
  induction es with
  | nil => rfl
  | cons e es ih =>
    simp only [List.flatMap_cons, List.cons_append, List.nil_append, everyOther_cons,
      List.drop_succ_cons, List.drop_zero, List.zip_cons_cons, ih]

lemma dict_entries {es : List (ℤ × ℤ)} (h : (es.map Prod.fst).Nodup) :
    (dict es).entries.Perm (es.map fun e => ⟨e.1, e.2⟩) := by
  have fold (d : AList fun _ : ℤ => ℤ) (hd : ∀ e ∈ es, e.1 ∉ d) :
      (es.foldl (fun d e => d.insert e.1 e.2) d).entries.Perm
        (es.map (fun e => ⟨e.1, e.2⟩) ++ d.entries) := by
    induction es generalizing d with
    | nil => exact .refl _
    | cons e es ih =>
      obtain ⟨he, hes⟩ := List.nodup_cons.mp h
      refine (ih hes (d.insert e.1 e.2) fun e' he' hm => ?_).trans ?_
      · rcases (AList.mem_insert d).mp hm with heq | hm
        · exact he (heq ▸ List.mem_map_of_mem he')
        · exact hd e' (List.mem_cons_of_mem e he') hm
      · rw [AList.entries_insert_of_notMem (hd e List.mem_cons_self)]
        exact List.perm_middle
  simpa [dict] using fold ∅ fun e _ => AList.notMem_empty e.1

lemma pairs_length (es : List ((_ : ℕ) × ℕ)) :
    (es.flatMap fun val => [val.1, val.2]).length = 2 * es.length := by
  simp [List.length_flatMap, Nat.mul_comm]

lemma numbers_ofDecimal (ns : List ℕ) :
    (ns.map decimal).map (fun w => (ofDecimal w : ℤ)) = ns.map Nat.cast := by
  simp

def latEntries (res : TestResult) : List (ℤ × ℤ) :=
  res.latMap.entries.map fun e => ((e.1 : ℤ), (e.2 : ℤ))

lemma latEntries_flat (res : TestResult) :
    (res.latMap.entries.flatMap fun val => [val.1, val.2]).map (Nat.cast : ℕ → ℤ) =
      (latEntries res).flatMap fun e => [e.1, e.2] := by
  rw [latEntries, List.map_flatMap, List.flatMap_map]
  rfl

lemma latEntries_dict (res : TestResult) : (dict (latEntries res)).entries.Perm
    (res.latMap.entries.map fun e => ⟨(e.1 : ℤ), (e.2 : ℤ)⟩) := by
  have hk : ((latEntries res).map Prod.fst) = res.latMap.keys.map Nat.cast := by
    simp [latEntries, AList.keys, List.keys]
  have hd := dict_entries (hk ▸ res.latMap.keys_nodup.map Nat.cast_injective)
  rwa [latEntries, List.map_map] at hd

lemma readSections_flat (res : TestResult) (ps : List ℤ) :
    readSections ((res.latMap.entries.length : ℤ) ::
      ((res.latMap.entries.flatMap fun val => [val.1, val.2]).map Nat.cast ++
        (ps.length : ℤ) :: ps)) = .ok (dict (latEntries res), ps) := by
  rw [readSections_cons, ← pairs_length, ← List.length_map (Nat.cast : ℕ → ℤ), List.drop_left,
    List.take_left, latEntries_flat, everyOther_zip]
  simp

lemma readSections_numbers (res : TestResult) : readSections ((numbers res).map Nat.cast) =
    .ok (dict (latEntries res), res.percentiles.toList.map Nat.cast) := by
  have := readSections_flat res (res.percentiles.toList.map Nat.cast)
  rw [numbers, List.map_cons, List.map_append, List.map_cons]
  rwa [List.length_map] at this

theorem stats_round_trip (log2Lat : Bool) (res : TestResult) :
    ∃ stats, getRunStats (serializeToStr log2Lat res) = .ok stats ∧
      stats.msgProcessed = res.mcount ∧
      stats.latDistribution.entries.Perm
        (res.latMap.entries.map fun e => ⟨(e.1 : ℤ), (e.2 : ℤ)⟩) ∧
      stats.percentiles = res.percentiles.toList.map Nat.cast := by
  have hws : ∀ w ∈ (numbers res).map decimal, IsNumeral w := by
    simp only [List.forall_mem_map]
    exact fun n _ => isNumeral_decimal n
  have hsplit : split (serializeToStr log2Lat res) =
      decimal res.mcount :: latBase log2Lat :: (numbers res).map decimal := by
    rw [split, serializeToStr_words]
    apply words_intercalate rfl
    simp only [List.forall_mem_cons]
    exact ⟨(isNumeral_decimal _).isWord, isWord_latBase log2Lat, fun w hw => (hws w hw).isWord⟩
  obtain ⟨q, hq⟩ := getRunStats_words (isNumeral_decimal res.mcount) hws hsplit
  rw [numbers_ofDecimal, readSections_numbers] at hq
  exact ⟨_, hq, congrArg Nat.cast (ofDecimal_decimal _), latEntries_dict res, rfl⟩

end NetworkPing.Stats
