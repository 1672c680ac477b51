import Mathlib.Logic.Relation
import NetworkPing.Yaml.Scalars

namespace NetworkPing.Yaml

variable (A : Alnum)

def strings (l : List (List Char)) : Data := .list (l.map fun s => .simple (.str s))

def separated (sep : List Char) (l : List (List Char)) : List Char :=
  l.flatMap fun s => sep ++ dumpsSimple A (.str s)

def glue (sep p : List Char) (ms : List (List Char)) (q : List Char) : List Char :=
  p ++ '"' :: (ms.flatMap (sep ++ ·) ++ (sep ++ '"' :: q))

inductive Glues (sep : List Char) : List (List Char) → List (List Char) → Prop
  | mk (before : List (List Char)) (p : List Char) (ms : List (List Char)) (q : List Char)
    (after : List (List Char)) (hp : ¬ bare A p) (hms : ∀ m ∈ ms, bare A m) (hq : ¬ bare A q) :
    Glues sep (before ++ p :: (ms ++ q :: after)) (before ++ glue sep p ms q :: after)

inductive Glued : List (List Char) → Prop
  | unquoted (l : List (List Char)) (h : ∀ s ∈ l, bare A s) : Glued l
  | quoted (l : List (List Char)) (s : List Char) (l' : List (List Char))
    (h : ∀ t ∈ l, bare A t) (hs : ¬ bare A s) (h' : ∀ t ∈ l', bare A t) : Glued (l ++ s :: l')

variable {A} {sep xs : List Char} {x : Char} {l l' n n' : List (List Char)}

lemma not_bare_of_quote {s : List Char} (h : '"' ∈ s) : ¬ bare A s := fun hb =>
  bare_mem hb (by decide) h

lemma separated_append (l l' : List (List Char)) :
    separated A sep (l ++ l') = separated A sep l ++ separated A sep l' := List.flatMap_append

lemma separated_cons (s : List Char) (l : List (List Char)) :
    separated A sep (s :: l) = sep ++ (dumpsSimple A (.str s) ++ separated A sep l) := by
  rw [separated, List.flatMap_cons, List.append_assoc]
  rfl

lemma separated_bare (h : ∀ s ∈ l, bare A s) : separated A sep l = l.flatMap (sep ++ ·) := by
  rw [separated, List.flatMap_def, List.flatMap_def]
  exact congrArg List.flatten (List.map_congr_left fun s hs => by rw [dumpsSimple_bare (h s hs)])

lemma Glues.separated (h : Glues A sep l l') : separated A sep l = separated A sep l' := by
  cases h with
  | mk before p ms q after hp hms hq =>
    have hg : ¬ bare A (glue sep p ms q) := not_bare_of_quote (by simp [glue])
    rw [separated_append, separated_append, separated_cons, separated_append, separated_cons,
      separated_cons, separated_bare hms, dumpsSimple_quoted hp, dumpsSimple_quoted hq,
      dumpsSimple_quoted hg, glue]
    simp only [List.cons_append, List.append_assoc, List.nil_append]

lemma Glues.cons (s : List Char) (h : Glues A sep l l') : Glues A sep (s :: l) (s :: l') := by
  cases h with
  | mk before p ms q after hp hms hq => exact .mk (s :: before) p ms q after hp hms hq

lemma exists_glued (A : Alnum) (sep : List Char) (l : List (List Char)) :
    ∃ n, Glued A n ∧ Relation.ReflTransGen (Glues A sep) l n := by
  induction l with
  | nil => exact ⟨[], .unquoted [] (List.forall_mem_nil _), .refl⟩
  | cons s l ih =>
    obtain ⟨n, hn, hl⟩ := ih
    have hs : Relation.ReflTransGen (Glues A sep) (s :: l) (s :: n) := hl.lift _ fun _ _ => .cons s
    by_cases hb : bare A s = true
    · refine ⟨s :: n, ?_, hs⟩
      cases hn with
      | unquoted _ h => exact .unquoted _ (List.forall_mem_cons.mpr ⟨hb, h⟩)
      | quoted m t m' h ht h' =>
        exact .quoted (s :: m) t m' (List.forall_mem_cons.mpr ⟨hb, h⟩) ht h'
    · cases hn with
      | unquoted _ h => exact ⟨s :: n, .quoted [] s n (List.forall_mem_nil _) hb h, hs⟩
      | quoted m t m' h ht h' =>
        refine ⟨glue sep s m t :: m', ?_, hs.tail (.mk [] s m t m' hb h ht)⟩
        exact .quoted [] _ m' (List.forall_mem_nil _) (not_bare_of_quote (by simp [glue])) h'

lemma quote_not_mem_separated (hsep : '"' ∉ sep) (h : ∀ s ∈ l, bare A s) :
    '"' ∉ separated A sep l := by
  rw [separated_bare h, List.mem_flatMap]
  rintro ⟨s, hs, hm⟩
  exact (List.mem_append.mp hm).elim hsep (bare_mem (h s hs) (by decide))

lemma separated_quoted {s : List Char} (hs : ¬ bare A s) : separated A sep (l ++ s :: l') =
    (separated A sep l ++ sep) ++ '"' :: (s ++ '"' :: separated A sep l') := by
  rw [separated_append, separated_cons, dumpsSimple_quoted hs]
  simp only [List.cons_append, List.append_assoc, List.nil_append]

lemma separated_injective (hx : x ∈ punctuation) (h : ∀ s ∈ l, '"' ∉ s) (h' : ∀ s ∈ l', '"' ∉ s)
    (he : separated A (x :: xs) l = separated A (x :: xs) l') : l = l' := by
  rw [← List.append_nil (separated A _ l), ← List.append_nil (separated A _ l')] at he
  exact str_prefixCode.flatMap (A.not_bare hx) h h' stops_nil he

lemma separated_bare_injective (hx : x ∈ punctuation) (h : ∀ s ∈ l, bare A s)
    (h' : ∀ s ∈ l', bare A s) (he : separated A (x :: xs) l = separated A (x :: xs) l') : l = l' :=
  separated_injective hx (fun s hs => bare_mem (h s hs) (by decide))
    (fun s hs => bare_mem (h' s hs) (by decide)) he

lemma Glued.unique (hx : x ∈ punctuation) (hq : '"' ∉ x :: xs) (hn : Glued A n) (hn' : Glued A n')
    (he : separated A (x :: xs) n = separated A (x :: xs) n') : n = n' := by
  have quote (m : List (List Char)) (s : List Char) (m' : List (List Char)) (hs : ¬ bare A s) :
      '"' ∈ separated A (x :: xs) (m ++ s :: m') := by
    rw [separated_quoted hs]
    exact List.mem_append_right _ List.mem_cons_self
  cases hn with
  | unquoted _ h =>
    cases hn' with
    | unquoted _ h' => exact separated_bare_injective hx h h' he
    | quoted m s m' _ hs _ => exact absurd (he ▸ quote m s m' hs) (quote_not_mem_separated hq h)
  | quoted m s m' h hs h' =>
    cases hn' with
    | unquoted _ hb => exact absurd (he ▸ quote m s m' hs) (quote_not_mem_separated hq hb)
    | quoted k t k' hk ht hk' =>
      rw [separated_quoted hs, separated_quoted ht] at he
      have front {l : List (List Char)} (h : ∀ s ∈ l, bare A s) :
          '"' ∉ separated A (x :: xs) l ++ x :: xs := fun hm =>
        (List.mem_append.mp hm).elim (quote_not_mem_separated hq h) hq
      obtain ⟨hb, hr⟩ := split_unique (front h) (front hk) he
      obtain ⟨rfl, ha⟩ := split_unique_right (quote_not_mem_separated hq h')
        (quote_not_mem_separated hq hk') hr
      rw [separated_bare_injective hx h hk (List.append_cancel_right hb),
        separated_bare_injective hx h' hk' ha]

lemma separated_eq_iff (hx : x ∈ punctuation) (hq : '"' ∉ x :: xs) :
    separated A (x :: xs) l = separated A (x :: xs) l' ↔
      Relation.EqvGen (Glues A (x :: xs)) l l' := by
  constructor
  · intro h
    obtain ⟨n, hn, hl⟩ := exists_glued A (x :: xs) l
    obtain ⟨n', hn', hl'⟩ := exists_glued A (x :: xs) l'
    have run {l n : List (List Char)} (h : Relation.ReflTransGen (Glues A (x :: xs)) l n) :
        separated A (x :: xs) l = separated A (x :: xs) n := by
      induction h with
      | refl => rfl
      | tail _ hg ih => exact ih.trans hg.separated
    obtain rfl := hn.unique hx hq hn' ((run hl).symm.trans (h.trans (run hl')))
    exact .trans _ n _ (Relation.EqvGen.reflTransGen_le_eqvGen _ _ _ hl)
      (.symm _ _ (Relation.EqvGen.reflTransGen_le_eqvGen _ _ _ hl'))
  · intro h
    induction h with
    | rel l l' hg => exact hg.separated
    | refl l => rfl
    | symm l l' _ ih => exact ih.symm
    | trans l m l' _ _ ih ih' => exact ih.trans ih'

def joined (A : Alnum) (sep : List Char) (l : List (List Char)) : List Char :=
  join sep (l.map fun s => dumpsSimple A (.str s))

lemma separated_eq_joined (hn : l ≠ []) : separated A sep l = sep ++ joined A sep l := by
  obtain ⟨s, l, rfl⟩ := List.exists_cons_of_ne_nil hn
  rw [joined, join, List.map_cons, intercalate_cons_eq, List.flatMap_map, separated_cons]
  rfl

lemma joined_ne_nil (hn : l ≠ []) : joined A sep l ≠ [] := by
  obtain ⟨s, l, rfl⟩ := List.exists_cons_of_ne_nil hn
  obtain ⟨x, rest, hx, _⟩ := dumpsSimple_start (A := A) s
  rw [joined, join, List.map_cons, intercalate_cons_eq, hx]
  exact List.cons_ne_nil _ _

lemma joined_eq_iff : joined A (x :: xs) l = joined A (x :: xs) l' ↔
    separated A (x :: xs) l = separated A (x :: xs) l' := by
  by_cases hl : l = [] <;> by_cases hl' : l' = []
  · rw [hl, hl']
    exact iff_of_true rfl rfl
  · rw [hl, separated_eq_joined hl']
    exact iff_of_false (joined_ne_nil hl').symm (List.cons_ne_nil _ _).symm
  · rw [hl', separated_eq_joined hl]
    exact iff_of_false (joined_ne_nil hl) (List.cons_ne_nil _ _)
  · rw [separated_eq_joined hl, separated_eq_joined hl', List.append_right_inj]

def OnOneLine (A : Alnum) (width : ℤ) (l : List (List Char)) : Prop :=
  ((listText A (l.map .str)).length : ℤ) ≤ max width 40

instance (A : Alnum) (width : ℤ) : DecidablePred (OnOneLine A width) := fun l =>
  inferInstanceAs (Decidable (((listText A (l.map .str)).length : ℤ) ≤ max width 40))

def separator (A : Alnum) (width : ℤ) (l : List (List Char)) : List Char :=
  if OnOneLine A width l then [','] else ['\n', '-', ' ', ' ', ' ']

variable {width : ℤ}

lemma listText_strings (l : List (List Char)) :
    listText A (l.map .str) = '[' :: (joined A [','] l ++ [']']) := by
  rw [listText_strs (List.forall_mem_map.mpr fun s _ => ⟨s, rfl⟩), List.map_map]
  rfl

lemma simples_strings (l : List (List Char)) :
    simples (l.map fun s => .simple (.str s)) = some (l.map .str) :=
  simples_eq_some.mpr (by rw [List.map_map]; rfl)

lemma dumps_oneLine (h : OnOneLine A width l) :
    dumps A {} width (strings l) = some ('[' :: (joined A [','] l ++ [']'])) := by
  have hl : oneLineList A (max width 40) (l.map fun s => .simple (.str s)) =
      some (listText A (l.map .str)) := by
    rw [oneLineList, simples_strings]
    exact if_pos h
  rw [dumps, strings, dumpv, hl, listText_strings]
  simp [join]

lemma dumpElements_strings (w : ℤ) (l : List (List Char)) :
    dumpElements A {} w (l.map fun s => .simple (.str s)) =
      some (l.map fun s => [dumpsSimple A (.str s)]) := by
  rw [dumpElements_eq, mapM_eq_some, List.forall₂_map_left_iff, List.forall₂_map_right_iff,
    List.forall₂_same]
  exact fun s _ => rfl

lemma elementLines_strings (l : List (List Char)) :
    (l.map fun s => [dumpsSimple A (.str s)]).mapM (elementLines {}) =
      some (l.map fun s => [['-', ' ', ' ', ' '] ++ dumpsSimple A (.str s)]) := by
  rw [mapM_eq_some, List.forall₂_map_left_iff, List.forall₂_map_right_iff, List.forall₂_same]
  exact fun s _ => rfl

lemma join_block (hn : l ≠ []) :
    join ['\n'] (l.map fun s => ['-', ' ', ' ', ' '] ++ dumpsSimple A (.str s)) =
      '-' :: ' ' :: ' ' :: ' ' :: joined A ['\n', '-', ' ', ' ', ' '] l := by
  obtain ⟨s, l, rfl⟩ := List.exists_cons_of_ne_nil hn
  rw [joined, join, join, List.map_cons, List.map_cons, intercalate_cons_eq, intercalate_cons_eq,
    List.flatMap_map, List.flatMap_map]
  rfl

lemma dumps_block (h : ¬ OnOneLine A width l) : dumps A {} width (strings l) =
    some ('-' :: ' ' :: ' ' :: ' ' :: joined A ['\n', '-', ' ', ' ', ' '] l) := by
  have hn : l ≠ [] := by
    rintro rfl
    exact h (le_max_of_le_right (show (2 : ℤ) ≤ 40 by decide))
  have hl : oneLineList A (max width 40) (l.map fun s => .simple (.str s)) = none := by
    rw [oneLineList, simples_strings]
    exact if_neg h
  rw [dumps, strings, dumpv, hl]
  dsimp only
  rw [dumpElements_strings, Option.bind_some, elementLines_strings, Option.map_some,
    Option.map_some, ← List.flatMap_def, ← List.map_eq_flatMap, join_block hn]

lemma dumps_strings_eq_iff : dumps A {} width (strings l) = dumps A {} width (strings l') ↔
    separator A width l = separator A width l' ∧
      Relation.EqvGen (Glues A (separator A width l)) l l' := by
  by_cases h : OnOneLine A width l <;> by_cases h' : OnOneLine A width l'
  · rw [dumps_oneLine h, dumps_oneLine h', separator, separator, if_pos h, if_pos h',
      ← separated_eq_iff (by decide) (by decide), ← joined_eq_iff]
    simp
  · rw [dumps_oneLine h, dumps_block h', separator, separator, if_pos h, if_neg h']
    simp
  · rw [dumps_block h, dumps_oneLine h', separator, separator, if_neg h, if_pos h']
    simp
  · rw [dumps_block h, dumps_block h', separator, separator, if_neg h, if_neg h',
      ← separated_eq_iff (by decide) (by decide), ← joined_eq_iff]
    simp

theorem dumps_strings_injective_iff (A : Alnum) (width : ℤ) (l l' : List (List Char)) :
    (dumps A {} width (strings l) = dumps A {} width (strings l') → l = l') ↔
      l = l' ∨ separator A width l ≠ separator A width l' ∨
        ¬ Relation.EqvGen (Glues A (separator A width l)) l l' := by
  rw [dumps_strings_eq_iff, imp_iff_not_or, not_and_or, or_comm]

theorem dumps_strings_not_injective :
    ¬ (dumps asciiAlnum {} 120 (strings [['a', ' ', 'b'], ['c', ' ', 'd']]) =
        dumps asciiAlnum {} 120 (strings [['a', ' ', 'b', '"', ',', '"', 'c', ' ', 'd']]) →
      [['a', ' ', 'b'], ['c', ' ', 'd']] = [['a', ' ', 'b', '"', ',', '"', 'c', ' ', 'd']]) := by
  intro h
  cases congrArg List.length (h (by decide +kernel))

theorem dumps_strings_injective (h : ∀ s ∈ l, '"' ∉ s) (h' : ∀ s ∈ l', '"' ∉ s)
    (he : dumps A {} width (strings l) = dumps A {} width (strings l')) : l = l' := by
  obtain ⟨hs, hg⟩ := dumps_strings_eq_iff.mp he
  by_cases ho : OnOneLine A width l
  · rw [separator, if_pos ho, ← separated_eq_iff (by decide) (by decide)] at hg
    exact separated_injective (by decide) h h' hg
  · rw [separator, if_neg ho, ← separated_eq_iff (by decide) (by decide)] at hg
    exact separated_injective (by decide) h h' hg

end NetworkPing.Yaml
