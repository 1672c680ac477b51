import NetworkPing.Yaml.Printer

namespace NetworkPing.Yaml

def Alnum.Bare (A : Alnum) (x : Char) : Prop := A.isAlnum x ∨ x = '_' ∨ x = '.'

def punctuation : List Char := ['"', ',', ':', ' ', '[', ']', '{', '}', '-', '\n']

variable {A : Alnum} {s t : List Char} {x : Char}

lemma Alnum.not_bare (hx : x ∈ punctuation) : ¬ A.Bare x := by
  have ascii : x.val < 128 ∧ x.isAlphanum = false ∧ x ≠ '_' ∧ x ≠ '.' := by
    simp only [punctuation, List.mem_cons, List.not_mem_nil, or_false] at hx
    rcases hx with rfl | rfl | rfl | rfl | rfl | rfl | rfl | rfl | rfl | rfl <;> decide
  rw [Alnum.Bare, A.ascii x ascii.1, ascii.2.1]
  simp [ascii.2.2.1, ascii.2.2.2]

lemma bare_chars (h : bare A s = true) : s ≠ [] ∧ ∀ x ∈ s, A.Bare x := by
  simp only [bare, Bool.and_eq_true, decide_eq_true_eq, List.all_eq_true, List.mem_filter] at h
  refine ⟨by rintro rfl; exact h.1 rfl, fun x hx => ?_⟩
  by_cases hu : x = '_'
  · exact .inr (.inl hu)
  by_cases hd : x = '.'
  · exact .inr (.inr hd)
  · exact .inl (h.2 x ⟨⟨hx, by simpa using hu⟩, by simpa using hd⟩)

lemma bare_mem (h : bare A s = true) (hx : x ∈ punctuation) : x ∉ s := fun hm =>
  A.not_bare hx ((bare_chars h).2 x hm)

lemma dumpsSimple_bare (h : bare A s = true) : dumpsSimple A (.str s) = s := if_pos h

lemma dumpsSimple_quoted (h : ¬ bare A s = true) :
    dumpsSimple A (.str s) = '"' :: (s ++ ['"']) := if_neg h

lemma dumpsSimple_start (s : List Char) :
    ∃ x rest, dumpsSimple A (.str s) = x :: rest ∧ (A.Bare x ∨ x = '"') := by
  by_cases h : bare A s = true
  · obtain ⟨hn, hb⟩ := bare_chars h
    obtain ⟨x, rest, rfl⟩ := List.exists_cons_of_ne_nil hn
    exact ⟨x, rest, dumpsSimple_bare h, .inl (hb x List.mem_cons_self)⟩
  · exact ⟨'"', s ++ ['"'], dumpsSimple_quoted h, .inr rfl⟩

lemma bare_append_ne (h : bare A s = true) (u v : List Char) : s ++ u ≠ '"' :: v := by
  obtain ⟨hn, hb⟩ := bare_chars h
  obtain ⟨x, rest, rfl⟩ := List.exists_cons_of_ne_nil hn
  intro he
  obtain ⟨rfl, _⟩ := List.cons.inj he
  exact A.not_bare (by decide) (hb _ List.mem_cons_self)

lemma str_prefixCode : PrefixCode (fun s => '"' ∉ s) A.Bare fun s => dumpsSimple A (.str s) := by
  intro s t u v hs ht hu hv h
  dsimp only at h
  by_cases hbs : bare A s = true <;> by_cases hbt : bare A t = true
  · rw [dumpsSimple_bare hbs, dumpsSimple_bare hbt] at h
    exact span_unique (bare_chars hbs).2 (bare_chars hbt).2 hu hv h
  · rw [dumpsSimple_bare hbs, dumpsSimple_quoted hbt] at h
    exact absurd h (bare_append_ne hbs u _)
  · rw [dumpsSimple_quoted hbs, dumpsSimple_bare hbt] at h
    exact absurd h.symm (bare_append_ne hbt v _)
  · rw [dumpsSimple_quoted hbs, dumpsSimple_quoted hbt, List.cons_append, List.cons_append,
      List.append_assoc, List.append_assoc] at h
    exact split_unique hs ht (List.cons.inj h).2

lemma dumpsSimple_append_ne {x : Char} (hx : x ∈ punctuation) (hq : x ≠ '"') (u v : List Char) :
    dumpsSimple A (.str s) ++ u ≠ x :: v := by
  obtain ⟨y, rest, hy, hb⟩ := dumpsSimple_start (A := A) s
  rw [hy]
  intro h
  obtain ⟨rfl, _⟩ := List.cons.inj h
  exact hb.elim (A.not_bare hx) hq

def Simple.Plain (v : Simple) : Prop := ∃ s, v = .str s ∧ '"' ∉ s

variable {vals vals' : List Simple} {pairs pairs' : List (Simple × Simple)}

lemma simple_prefixCode : PrefixCode Simple.Plain A.Bare (dumpsSimple A) := str_prefixCode.image

lemma Simple.Plain.exists_str {v : Simple} (h : v.Plain) : ∃ s, v = .str s := h.imp fun _ h => h.1

lemma Simple.Plain.append_ne {v : Simple} (h : v.Plain) {x : Char} (hx : x ∈ punctuation)
    (hq : x ≠ '"') (u w : List Char) : dumpsSimple A v ++ u ≠ x :: w := by
  obtain ⟨s, rfl, _⟩ := h
  exact dumpsSimple_append_ne hx hq u w

lemma stops_closing {x y : Char} (hx : x ∈ punctuation) (hxy : x ≠ y) :
    Stops (fun z => A.Bare z ∨ z = y) [x] :=
  stops_cons (p := fun z => A.Bare z ∨ z = y) (not_or.mpr ⟨A.not_bare hx, hxy⟩) []

lemma listText_strs (h : ∀ v ∈ vals, ∃ s, v = .str s) :
    listText A vals = '[' :: ([','].intercalate (vals.map (dumpsSimple A)) ++ [']']) := by
  cases vals with
  | nil => rfl
  | cons v vals =>
    obtain ⟨s, rfl⟩ := h v List.mem_cons_self
    rfl

lemma listText_injective (h : ∀ v ∈ vals, v.Plain) (h' : ∀ v ∈ vals', v.Plain)
    (he : listText A vals = listText A vals') : vals = vals' := by
  rw [listText_strs fun v hv => (h v hv).exists_str,
    listText_strs fun v hv => (h' v hv).exists_str] at he
  exact simple_prefixCode.intercalate (A.not_bare (by decide)) h h'
    (stops_closing (by decide) (by decide))
    (fun _ w hv => hv.append_ne (by decide) (by decide) w [])
    (List.cons.inj he).2

lemma item_prefixCode :
    PrefixCode (fun e : Simple × Simple => e.1.Plain ∧ e.2.Plain) A.Bare (itemText A) :=
  simple_prefixCode.pair (A.not_bare (by decide)) simple_prefixCode

lemma dictText_injective (h : ∀ e ∈ pairs, e.1.Plain ∧ e.2.Plain)
    (h' : ∀ e ∈ pairs', e.1.Plain ∧ e.2.Plain) (he : dictText A pairs = dictText A pairs') :
    pairs = pairs' := by
  refine item_prefixCode.intercalate (A.not_bare (by decide)) h h'
    (stops_closing (by decide) (by decide)) (fun e w hv => ?_) (List.cons.inj he).2
  rw [itemText, List.append_assoc, List.append_assoc]
  exact hv.1.append_ne (by decide) (by decide) _ _

end NetworkPing.Yaml
