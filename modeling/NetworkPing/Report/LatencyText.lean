import Mathlib.Data.List.DropRight
import NetworkPing.Report.Cells
import NetworkPing.Wire.StatsRoundTrip

namespace NetworkPing.Report

def TimeUnit.ext : TimeUnit → List Char
  | s => []
  | ms => ['m']
  | us => ['u']
  | ns => ['n']

def Readable.text (r : Readable) : List Char := decimal r.value ++ r.unit.ext ++ ['s']

namespace LatencyText

open Stats

def nsToReadable (val : ℚ) : Option (List Char) :=
  [(10 ^ 9, []), (10 ^ 6, ['m']), (10 ^ 3, ['u']), (1, ['n'])].findSome? fun (limit, ext) =>
    if val ≥ limit then some (decimal (val / limit).floor.toNat ++ ext ++ ['s']) else none

def mul : PyFloat → ℚ → PyFloat
  | .finite q, k => .finite (q * k)
  | x, _ => x

def stimeToNs (data : List Char) : Except PyError PyFloat :=
  if ['n', 's'] <:+ data then float (data.rdrop 2)
  else if ['u', 's'] <:+ data then (float (data.rdrop 2)).map (mul · 1000)
  else if ['m', 's'] <:+ data then (float (data.rdrop 2)).map (mul · 1000000)
  else if ['s'] <:+ data then (float (data.rdrop 1)).map (mul · 1000000000)
  else .error .valueError

lemma nsToReadable_eq (val : ℚ) : nsToReadable val = (Readable.ofNs val).map Readable.text := by
  have hunits : [((10 : ℚ) ^ 9, []), (10 ^ 6, ['m']), (10 ^ 3, ['u']), (1, ['n'])] =
      [TimeUnit.s, .ms, .us, .ns].map fun unit => ((unit.inNs : ℚ), unit.ext) := by
    norm_num [TimeUnit.inNs, TimeUnit.ext]
  rw [nsToReadable, Readable.ofNs, hunits, List.findSome?_map, List.map_findSome?]
  congr 1
  funext unit
  by_cases h : val ≥ unit.inNs
  · simp [h, Readable.text]
  · simp [h]

lemma suffix_two {w : List Char} {a b c d : Char} :
    [a, b] <:+ w ++ [c, d] ↔ a = c ∧ b = d := by
  constructor
  · rintro ⟨v, hv⟩
    simpa using (List.append_inj' hv rfl).2
  · rintro ⟨rfl, rfl⟩
    exact List.suffix_append _ _

lemma stimeToNs_seconds {w : List Char} (h : IsNumeral w) :
    stimeToNs (w ++ ['s']) = (float w).map (mul · 1000000000) := by
  have hlast := List.dropLast_append_getLast h.1
  have hdigit := h.2 _ (List.getLast_mem h.1)
  have hw (c : Char) (hc : c.isDigit = false) : ¬ [c, 's'] <:+ w ++ ['s'] := by
    rw [← hlast, List.append_assoc, List.singleton_append, suffix_two]
    exact fun he => ne_of_isDigit hdigit hc he.1.symm
  have hdrop : (w ++ ['s']).rdrop 1 = w := List.rdrop_append_length
  rw [stimeToNs, if_neg (hw 'n' rfl), if_neg (hw 'u' rfl), if_neg (hw 'm' rfl),
    if_pos (List.suffix_append _ _), hdrop]

lemma stimeToNs_text (r : Readable) :
    stimeToNs r.text = .ok (.finite (r.value * r.unit.inNs)) := by
  have hf := float_numeral (isNumeral_decimal r.value)
  rw [ofDecimal_decimal] at hf
  have hdrop (c d : Char) : (decimal r.value ++ [c, d]).rdrop 2 = decimal r.value :=
    List.rdrop_append_length
  obtain ⟨value, unit⟩ := r
  cases unit with
  | s =>
    rw [Readable.text, TimeUnit.ext, List.append_nil, stimeToNs_seconds (isNumeral_decimal value),
      hf]
    norm_num [TimeUnit.inNs, Except.map, mul]
  | _ => simp [Readable.text, TimeUnit.ext, stimeToNs, suffix_two, hdrop, hf, TimeUnit.inNs,
      Except.map, mul]

end LatencyText

structure TimeUnit.Chosen (unit : TimeUnit) (val : ℚ) : Prop where
  le : unit.inNs ≤ val
  max : ∀ unit' : TimeUnit, unit'.inNs ≤ val → unit'.inNs ≤ unit.inNs

lemma TimeUnit.inNs_pos (unit : TimeUnit) : (0 : ℚ) < unit.inNs := by
  cases unit <;> simp [inNs]

lemma TimeUnit.inNs_injective : Function.Injective TimeUnit.inNs := by
  intro unit unit' h
  cases unit <;> cases unit' <;> first | rfl | simp [inNs] at h

variable {val v w : ℚ} {r r' : Readable} {unit unit' : TimeUnit}

lemma ofNs_chosen (h : Readable.ofNs val = some r) :
    r.unit.Chosen val ∧ r.value = ⌊val / r.unit.inNs⌋₊ := by
  have hall : ∀ unit, unit ∈ [TimeUnit.s, .ms, .us, .ns] := by
    intro unit
    cases unit <;> decide
  have hdesc : [TimeUnit.s, .ms, .us, .ns].Pairwise fun u u' => u'.inNs ≤ u.inNs := by decide
  obtain ⟨before, unit, after, hl, hf, hbefore⟩ := List.findSome?_eq_some_iff.mp h
  split_ifs at hf with hle
  cases Option.some.inj hf
  rw [hl] at hall hdesc
  refine ⟨⟨hle, fun unit' hle' => ?_⟩, rfl⟩
  obtain hm | hm := List.mem_append.mp (hall unit')
  · have := hbefore unit' hm
    rw [if_pos hle'] at this
    cases this
  · obtain rfl | hm := List.mem_cons.mp hm
    · exact le_rfl
    · exact (List.pairwise_cons.mp (List.pairwise_append.mp hdesc).2.1).1 unit' hm

lemma TimeUnit.Chosen.unique (h : unit.Chosen val) (h' : unit'.Chosen val) : unit = unit' :=
  inNs_injective (Nat.le_antisymm (h'.max unit h.le) (h.max unit' h'.le))

def Readable.ns (r : Readable) : ℚ := r.value * r.unit.inNs

lemma ns_bounds (h : Readable.ofNs val = some r) :
    r.unit.inNs ≤ r.ns ∧ r.ns ≤ val ∧ val < r.ns + r.unit.inNs := by
  obtain ⟨hc, hv⟩ := ofNs_chosen h
  have hu := r.unit.inNs_pos
  have hone : 1 ≤ val / r.unit.inNs := (one_le_div₀ hu).mpr hc.le
  have hfloor := Nat.floor_le (zero_le_one.trans hone)
  have hlt := Nat.lt_floor_add_one (val / r.unit.inNs)
  have hpos : 1 ≤ ⌊val / r.unit.inNs⌋₊ := Nat.floor_pos.mpr hone
  rw [Readable.ns, hv]
  rw [le_div_iff₀ hu] at hfloor
  rw [div_lt_iff₀ hu, add_mul, one_mul] at hlt
  refine ⟨?_, hfloor, hlt⟩
  exact le_mul_of_one_le_left hu.le (by exact_mod_cast hpos)

lemma ofNs_ns (h : Readable.ofNs val = some r) : Readable.ofNs r.ns = some r := by
  obtain ⟨hle, hval, -⟩ := ns_bounds h
  obtain ⟨hc, -⟩ := ofNs_chosen h
  have hone : (1 : ℚ) ≤ r.ns := by
    have : 1 ≤ r.unit.inNs := by exact_mod_cast r.unit.inNs_pos
    exact (by exact_mod_cast this : (1 : ℚ) ≤ r.unit.inNs).trans hle
  obtain ⟨r', hr'⟩ := Option.isSome_iff_exists.mp (ofNs_isSome.mpr hone)
  obtain ⟨hc', hv'⟩ := ofNs_chosen hr'
  have hunit : r'.unit = r.unit :=
    hc'.unique ⟨hle, fun unit' hle' => hc.max unit' (hle'.trans hval)⟩
  have hvalue : r'.value = r.value := by
    rw [hv', hunit, Readable.ns, mul_div_cancel_right₀ _ r.unit.inNs_pos.ne', Nat.floor_natCast]
  obtain ⟨value, unit⟩ := r'
  cases hvalue
  cases hunit
  exact hr'

lemma ns_mono (hv : Readable.ofNs v = some r) (hw : Readable.ofNs w = some r') (h : v ≤ w) :
    r.ns ≤ r'.ns := by
  obtain ⟨hc, hvalue⟩ := ofNs_chosen hv
  obtain ⟨hc', hvalue'⟩ := ofNs_chosen hw
  obtain ⟨-, hle, -⟩ := ns_bounds hv
  obtain ⟨hle', -, -⟩ := ns_bounds hw
  by_cases hu : (r'.unit.inNs : ℚ) ≤ v
  · have hunit : r.unit = r'.unit :=
      hc.unique ⟨hu, fun unit hle => hc'.max unit (hle.trans h)⟩
    rw [Readable.ns, Readable.ns, hvalue, hvalue', hunit]
    have hpos := r'.unit.inNs_pos
    gcongr
  · exact hle.trans ((not_le.mp hu).le.trans hle')

namespace LatencyText

theorem latency_read_back (v : ℚ) (h : 1 ≤ v) : ∃ (r : Readable) (x : ℚ),
    r.unit.Chosen v ∧ nsToReadable v = some r.text ∧ stimeToNs r.text = .ok (.finite x) ∧
    x ≤ v ∧ v < x + r.unit.inNs ∧ v < 2 * x ∧ nsToReadable x = some r.text ∧
    ∀ w, v ≤ w → ∃ text y, nsToReadable w = some text ∧ stimeToNs text = .ok (.finite y) ∧
      x ≤ y := by
  have written {u : ℚ} {q : Readable} (hq : Readable.ofNs u = some q) :
      nsToReadable u = some q.text := by rw [nsToReadable_eq, hq, Option.map_some]
  obtain ⟨r, hr⟩ := Option.isSome_iff_exists.mp (ofNs_isSome.mpr h)
  obtain ⟨hunit, hle, hlt⟩ := ns_bounds hr
  refine ⟨r, r.ns, (ofNs_chosen hr).1, written hr, stimeToNs_text r, hle, hlt, by linarith,
    written (ofNs_ns hr), fun w hw => ?_⟩
  obtain ⟨r', hr'⟩ := Option.isSome_iff_exists.mp (ofNs_isSome.mpr (h.trans hw))
  exact ⟨r'.text, r'.ns, written hr', stimeToNs_text r', ns_mono hr hr' hw⟩

theorem latency_read_back_ms : ∃ (r : Readable) (x : ℚ),
    r.unit.Chosen 1999999 ∧ nsToReadable 1999999 = some r.text ∧
    stimeToNs r.text = .ok (.finite x) ∧ x ≤ 1999999 ∧ 1999999 < x + r.unit.inNs ∧
    1999999 < 2 * x ∧ nsToReadable x = some r.text ∧
    ∀ w, 1999999 ≤ w → ∃ text y, nsToReadable w = some text ∧
      stimeToNs text = .ok (.finite y) ∧ x ≤ y :=
  latency_read_back 1999999 (by norm_num)

end LatencyText

end NetworkPing.Report
