import NetworkPing.Yaml.Printer

namespace NetworkPing.Yaml

structure Line where
  text : List Char
  flow : Option ℕ

def Line.under (p : List Char) (line : Line) : Line := { line with text := p ++ line.text }

variable (A : Alnum) (c : Layout)

def markedElement : List Line → Option (List Line)
  | [] => none
  | first :: rest => some (first.under c.pref :: rest.map (Line.under c.tab))

def markedKey (width : ℤ) (item : Simple × Data) (valRes : List Line) : List Line :=
  let keyStr := dumpsSimple A item.1 ++ [':', ' ']
  match valRes with
  | [line] =>
    if ((keyStr ++ line.text).length : ℤ) < width ∧ ¬ item.2.isDict ∧
        ¬ ['-'] <+: Stats.strip line.text then
      [line.under keyStr]
    else [⟨keyStr, none⟩, line.under c.tab]
  | valRes => ⟨keyStr, none⟩ :: valRes.map (Line.under c.tab)

mutual

/-- `dumpv` of a value at nesting depth `d`, with the marks. -/
def markedv (width : ℤ) (d : ℕ) : Data → Option (List Line)
  | .simple v => some [⟨dumpsSimple A v, none⟩]
  | .list xs =>
    let width := max width c.minWidth
    match oneLineList A width xs with
    | some line => some [⟨line, some d⟩]
    | none => (markedElements (width - c.tabSz) (d + 1) xs).bind fun res =>
      (res.mapM (markedElement c)).map List.flatten
  | .dict items =>
    let width := max width c.minWidth
    if items = [] then some [⟨['{', '}'], some d⟩]
    else (oneLineDict A width items).bind fun line =>
      match line with
      | some line => some [⟨line, some d⟩]
      | none => (markedValues (width - c.tabSz) (d + 1) items).map fun res =>
        (List.zipWith (markedKey A c width) items res).flatten

def markedElements (width : ℤ) (d : ℕ) : List Data → Option (List (List Line))
  | [] => some []
  | x :: xs =>
    (markedv width d x).bind fun lines => (markedElements width d xs).map (lines :: ·)

def markedValues (width : ℤ) (d : ℕ) : List (Simple × Data) → Option (List (List Line))
  | [] => some []
  | (_, x) :: items =>
    (markedv width d x).bind fun lines => (markedValues width d items).map (lines :: ·)

end

variable {A c} {width : ℤ} {d : ℕ} {xs : List Data} {items : List (Simple × Data)} {data : Data}

lemma markedElements_eq : markedElements A c width d xs = xs.mapM (markedv A c width d) := by
  induction xs with
  | nil => rfl
  | cons x xs ih => rw [markedElements, mapM_cons_eq_bind, ih]

lemma markedValues_eq :
    markedValues A c width d items = items.mapM fun e => markedv A c width d e.2 := by
  induction items with
  | nil => rfl
  | cons e items ih => rw [markedValues, mapM_cons_eq_bind, ih]

lemma Line.map_under_text (p : List Char) (lines : List Line) :
    (lines.map (under p)).map text = (lines.map text).map (p ++ ·) := by
  rw [List.map_map, List.map_map]
  rfl

lemma markedElement_text (lines : List Line) :
    (markedElement c lines).map (List.map Line.text) = elementLines c (lines.map Line.text) := by
  cases lines with
  | nil => rfl
  | cons first rest =>
    rw [markedElement, Option.map_some, List.map_cons, Line.map_under_text, List.map_cons,
      elementLines]
    rfl

lemma markedKey_text (item : Simple × Data) (lines : List Line) :
    (markedKey A c width item lines).map Line.text =
      keyLines A c width item (lines.map Line.text) := by
  rcases lines with _ | ⟨line, _ | ⟨line', rest⟩⟩
  · rfl
  · simp only [markedKey, keyLines, List.map_cons, List.map_nil]
    split <;> rfl
  · rw [markedKey, List.map_cons, Line.map_under_text]
    · rfl
    · simp

lemma flatten_blocks_text {α : Type*} {f : α → Option (List Line)}
    {g : α → Option (List (List Char))} {l : List α}
    (h : ∀ a ∈ l, (f a).map (List.map Line.text) = g a) :
    (l.mapM f).map (List.map (List.map Line.text)) = l.mapM g := by
  rw [mapM_map_comm h, List.map_id']

lemma markedv_text :
    (markedv A c width d data).map (List.map Line.text) = dumpv A c width data := by
  induction data using Data.induct generalizing width d with
  | simple v => rfl
  | list xs ih =>
    rw [markedv, dumpv]
    cases oneLineList A (max width c.minWidth) xs with
    | some line => rfl
    | none =>
      dsimp only
      rw [markedElements_eq, dumpElements_eq,
        ← flatten_blocks_text fun x hx => ih x hx (d := d + 1)]
      cases xs.mapM (markedv A c (max width c.minWidth - c.tabSz) (d + 1)) with
      | none => rfl
      | some res =>
        rw [Option.bind_some, Option.map_some, Option.bind_some,
          ← mapM_map_comm fun lines _ => markedElement_text lines, Option.map_map, Option.map_map]
        exact congrArg (Option.map · _) (funext fun res => List.map_flatten)
  | dict items ih =>
    rw [markedv, dumpv]
    split_ifs with hn
    · rfl
    cases oneLineDict A (max width c.minWidth) items with
    | none => rfl
    | some line =>
      rw [Option.bind_some, Option.bind_some]
      cases line with
      | some line => rfl
      | none =>
        dsimp only
        rw [markedValues_eq, dumpValues_eq,
          ← flatten_blocks_text fun e he => ih e he (d := d + 1), Option.map_map, Option.map_map]
        refine congrArg (Option.map · _) (funext fun res => ?_)
        simp only [Function.comp_apply, List.map_flatten, List.map_zipWith, List.zipWith_map_right,
          markedKey_text]

inductive Sortable : Data → Prop
  | simple (v : Simple) : Sortable (.simple v)
  | list (xs : List Data) (h : ∀ x ∈ xs, Sortable x) : Sortable (.list xs)
  | dict (items : List (Simple × Data))
    (hk : (∀ e ∈ items, ∃ v, e.2 = .simple v) →
      (items.map Prod.fst).Pairwise Simple.Comparable)
    (h : ∀ e ∈ items, Sortable e.2) : Sortable (.dict items)

def Line.Kept (c : Layout) (width : ℤ) (d : ℕ) (line : Line) : Prop :=
  ∀ d', line.flow = some d' → d ≤ d' ∧
    line.text.length + (c.tabSz * d : ℤ) ≤ max (width + c.tabSz * d) (c.minWidth + c.tabSz * d')

lemma Line.kept_flow {line : List Char} (h : (line.length : ℤ) ≤ max width c.minWidth) :
    Line.Kept c width d ⟨line, some d⟩ := by
  rintro d' ⟨⟩
  refine ⟨le_rfl, ?_⟩
  rw [max_add_add_right]
  exact add_le_add_left h _

lemma Line.kept_plain (text : List Char) : Line.Kept c width d ⟨text, none⟩ := fun _ h => by cases h

lemma indent_le {d' : ℕ} (hd : d ≤ d') : (c.tabSz * d : ℤ) ≤ c.tabSz * d' :=
  mul_le_mul_of_nonneg_left (by exact_mod_cast hd) (by positivity)

lemma Line.Kept.under {line : Line} {p : List Char} (hp : p.length = c.tabSz)
    (h : line.Kept c (max width c.minWidth - c.tabSz) (d + 1)) : (line.under p).Kept c width d := by
  intro d' hd'
  obtain ⟨hle, hlen⟩ := h d' hd'
  have hi : (c.tabSz * d : ℤ) ≤ c.tabSz * d' := indent_le (by omega)
  refine ⟨by omega, ?_⟩
  rw [Nat.cast_add, Nat.cast_one, mul_add, mul_one] at hlen
  rw [Line.under, List.length_append, hp, Nat.cast_add]
  omega

lemma Line.Kept.inline {line : Line} {key : List Char}
    (hw : ((key ++ line.text).length : ℤ) < max width c.minWidth)
    (h : line.Kept c (max width c.minWidth - c.tabSz) (d + 1)) :
    (line.under key).Kept c width d := by
  intro d' hd'
  have hle := (h d' hd').1
  have hi : (c.tabSz * d : ℤ) ≤ c.tabSz * d' := indent_le (by omega)
  refine ⟨by omega, ?_⟩
  change ((key ++ line.text).length : ℤ) + _ ≤ _
  omega

def Block (c : Layout) (width : ℤ) (d : ℕ) (lines : List Line) : Prop :=
  lines ≠ [] ∧ ∀ line ∈ lines, line.Kept c width d

lemma Block.single {line : Line} (h : line.Kept c width d) : Block c width d [line] :=
  ⟨List.cons_ne_nil _ _, List.forall_mem_singleton.mpr h⟩

lemma Block.flatten {blocks : List (List Line)} (hn : blocks ≠ [])
    (h : ∀ lines ∈ blocks, Block c width d lines) : Block c width d blocks.flatten := by
  constructor
  · obtain ⟨lines, rest, rfl⟩ := List.exists_cons_of_ne_nil hn
    exact List.append_ne_nil_of_left_ne_nil (h lines List.mem_cons_self).1 _
  · intro line hl
    obtain ⟨lines, hlines, hl⟩ := List.mem_flatten.mp hl
    exact (h lines hlines).2 line hl

lemma tab_length : c.tab.length = c.tabSz := List.length_replicate

lemma pref_length (htab : 1 ≤ c.tabSz) : c.pref.length = c.tabSz := by
  rw [Layout.pref, List.length_cons, List.length_replicate]
  omega

lemma map_under_kept {lines : List Line}
    (h : ∀ line ∈ lines, line.Kept c (max width c.minWidth - c.tabSz) (d + 1)) :
    ∀ line ∈ lines.map (Line.under c.tab), line.Kept c width d := by
  rw [List.forall_mem_map]
  exact fun line hl => (h line hl).under tab_length

lemma Block.element (htab : 1 ≤ c.tabSz) {lines : List Line}
    (h : Block c (max width c.minWidth - c.tabSz) (d + 1) lines) :
    ∃ block, markedElement c lines = some block ∧ Block c width d block := by
  obtain ⟨first, rest, rfl⟩ := List.exists_cons_of_ne_nil h.1
  refine ⟨_, rfl, List.cons_ne_nil _ _, List.forall_mem_cons.mpr ⟨?_, ?_⟩⟩
  · exact (h.2 first List.mem_cons_self).under (pref_length htab)
  · exact map_under_kept fun line hl => h.2 line (List.mem_cons_of_mem first hl)

lemma Block.key {item : Simple × Data} {lines : List Line}
    (h : Block c (max width c.minWidth - c.tabSz) (d + 1) lines) :
    Block c width d (markedKey A c (max width c.minWidth) item lines) := by
  obtain ⟨first, rest, rfl⟩ := List.exists_cons_of_ne_nil h.1
  have hrest := map_under_kept h.2
  cases rest with
  | nil =>
    rw [markedKey]
    split_ifs with hw
    · exact .single ((h.2 first List.mem_cons_self).inline hw.1)
    · exact ⟨List.cons_ne_nil _ _, List.forall_mem_cons.mpr ⟨Line.kept_plain _, hrest⟩⟩
  | cons second rest =>
    exact ⟨List.cons_ne_nil _ _, List.forall_mem_cons.mpr ⟨Line.kept_plain _, hrest⟩⟩

lemma fitting_eq_some {line line' : List Char} :
    fitting width line = some line' ↔ line' = line ∧ (line.length : ℤ) ≤ width := by
  rw [fitting]
  split_ifs with hw
  · rw [Option.some.injEq, eq_comm]
    exact (and_iff_left hw).symm
  · exact iff_of_false id fun h => hw h.2

lemma oneLineList_length {line : List Char} (h : oneLineList A width xs = some line) :
    (line.length : ℤ) ≤ width := by
  obtain ⟨vals, _, hf⟩ := Option.bind_eq_some_iff.mp h
  obtain ⟨rfl, hw⟩ := fitting_eq_some.mp hf
  exact hw

lemma oneLineList_nil (hw : 2 ≤ width) : oneLineList A width [] = some ['[', ']'] :=
  if_pos hw

lemma simpleItems_isSome :
    (simpleItems items).isSome ↔ ∀ e ∈ items, ∃ v, e.2 = .simple v := by
  rw [simpleItems, mapM_isSome]
  refine forall₂_congr fun e _ => ?_
  rw [Option.isSome_map, Option.isSome_iff_exists]
  exact exists_congr fun v => Data.asSimple_eq_some

lemma oneLineDict_isSome : (oneLineDict A width items).isSome ↔
    ((∀ e ∈ items, ∃ v, e.2 = .simple v) →
      (items.map Prod.fst).Pairwise Simple.Comparable) := by
  rw [oneLineDict]
  cases h : simpleItems items with
  | none =>
    exact iff_of_true rfl fun hs => absurd (simpleItems_isSome.mpr hs) (by rw [h]; decide)
  | some pairs =>
    have hk : items.map Prod.fst = pairs.map Prod.fst := by
      rw [simpleItems_eq_some.mp h, List.map_map]
      rfl
    have hs : ∀ e ∈ items, ∃ v, e.2 = .simple v := simpleItems_isSome.mp (by rw [h]; rfl)
    rw [Option.isSome_map, sorted, hk]
    split_ifs with hp
    · exact iff_of_true rfl fun _ => hp
    · exact iff_of_false Bool.false_ne_true fun hi => hp (hi hs)

lemma oneLineDict_length {line : List Char} (h : oneLineDict A width items = some (some line)) :
    (line.length : ℤ) ≤ width := by
  rw [oneLineDict] at h
  cases hs : simpleItems items with
  | none =>
    rw [hs] at h
    cases h
  | some pairs =>
    rw [hs] at h
    obtain ⟨pairs, _, hf⟩ := Option.map_eq_some_iff.mp h
    obtain ⟨rfl, hw⟩ := fitting_eq_some.mp hf
    exact hw

lemma Block.elements (htab : 1 ≤ c.tabSz) (hn : xs ≠ []) (h : ∀ x ∈ xs, ∃ lines,
      markedv A c (max width c.minWidth - c.tabSz) (d + 1) x = some lines ∧
        Block c (max width c.minWidth - c.tabSz) (d + 1) lines) :
    ∃ lines, ((markedElements A c (max width c.minWidth - c.tabSz) (d + 1) xs).bind fun res =>
      (res.mapM (markedElement c)).map List.flatten) = some lines ∧ Block c width d lines := by
  obtain ⟨res, hres⟩ := exists_forall₂ h
  obtain ⟨blocks, hblocks⟩ := exists_forall₂ (l := res) fun lines hlines =>
    have ⟨_, _, _, hb⟩ := forall₂_exists_right hres hlines
    hb.element htab
  refine ⟨blocks.flatten, ?_, .flatten ?_ ?_⟩
  · rw [markedElements_eq, mapM_eq_some.mpr (hres.imp fun _ _ h => h.1), Option.bind_some,
      mapM_eq_some.mpr (hblocks.imp fun _ _ h => h.1), Option.map_some]
  · rw [← List.length_pos_iff, ← hblocks.length_eq, ← hres.length_eq]
    exact List.length_pos_iff.mpr hn
  · intro block hblock
    obtain ⟨_, _, _, hb⟩ := forall₂_exists_right hblocks hblock
    exact hb

lemma Block.values (hn : items ≠ []) (h : ∀ e ∈ items, ∃ lines,
      markedv A c (max width c.minWidth - c.tabSz) (d + 1) e.2 = some lines ∧
        Block c (max width c.minWidth - c.tabSz) (d + 1) lines) :
    ∃ lines, ((markedValues A c (max width c.minWidth - c.tabSz) (d + 1) items).map fun res =>
      (List.zipWith (markedKey A c (max width c.minWidth)) items res).flatten) = some lines ∧
        Block c width d lines := by
  obtain ⟨res, hres⟩ := exists_forall₂ h
  refine ⟨(List.zipWith (markedKey A c (max width c.minWidth)) items res).flatten, ?_,
    .flatten ?_ ?_⟩
  · rw [markedValues_eq, mapM_eq_some.mpr (hres.imp fun _ _ h => h.1), Option.map_some]
  · rw [← List.length_pos_iff, List.length_zipWith, ← hres.length_eq, min_self]
    exact List.length_pos_iff.mpr hn
  · intro block hblock
    obtain ⟨_, _, _, ⟨_, hb⟩, rfl⟩ := forall₂_exists_right (forall₂_zipWith hres) hblock
    exact hb.key

lemma Sortable.printed (htab : 1 ≤ c.tabSz) (hmin : 2 ≤ c.minWidth) (h : Sortable data) :
    ∃ lines, markedv A c width d data = some lines ∧ Block c width d lines := by
  have wide (w : ℤ) : 2 ≤ max w c.minWidth := le_max_of_le_right hmin
  induction h generalizing width d with
  | simple v => exact ⟨_, rfl, .single (Line.kept_plain _)⟩
  | list xs _ ih =>
    rw [markedv]
    cases hl : oneLineList A (max width c.minWidth) xs with
    | some line => exact ⟨_, rfl, .single (Line.kept_flow (oneLineList_length hl))⟩
    | none =>
      have hn : xs ≠ [] := by
        rintro rfl
        rw [oneLineList_nil (wide width)] at hl
        cases hl
      exact Block.elements htab hn fun x hx => ih x hx
  | dict items hk _ ih =>
    rw [markedv]
    split_ifs with hn
    · exact ⟨_, rfl, .single (Line.kept_flow (wide width))⟩
    obtain ⟨line, hl⟩ : ∃ line, oneLineDict A (max width c.minWidth) items = some line :=
      Option.isSome_iff_exists.mp (oneLineDict_isSome.mpr hk)
    rw [hl, Option.bind_some]
    cases line with
    | some line => exact ⟨_, rfl, .single (Line.kept_flow (oneLineDict_length hl))⟩
    | none => exact Block.values hn fun e he => ih e he

lemma sortable_of_simple (h : ∀ x ∈ xs, ∃ v, x = .simple v) : ∀ x ∈ xs, Sortable x := by
  intro x hx
  obtain ⟨v, rfl⟩ := h x hx
  exact .simple v

lemma sortable_of_marked {lines : List Line} (h : markedv A c width d data = some lines) :
    Sortable data := by
  induction data using Data.induct generalizing width d lines with
  | simple v => exact .simple v
  | list xs ih =>
    rw [markedv] at h
    cases hl : oneLineList A (max width c.minWidth) xs with
    | some line =>
      obtain ⟨vals, hv, _⟩ := Option.bind_eq_some_iff.mp hl
      refine .list xs (sortable_of_simple ?_)
      rw [simples_eq_some.mp hv, List.forall_mem_map]
      exact fun v _ => ⟨v, rfl⟩
    | none =>
      rw [hl, markedElements_eq] at h
      obtain ⟨res, hres, _⟩ := Option.bind_eq_some_iff.mp h
      refine .list xs fun x hx => ?_
      obtain ⟨_, _, hx'⟩ := forall₂_exists_left (mapM_eq_some.mp hres) hx
      exact ih x hx hx'
  | dict items ih =>
    rw [markedv] at h
    split_ifs at h with hn
    · subst hn
      exact .dict [] (fun _ => .nil) (List.forall_mem_nil _)
    obtain ⟨line, hl, h⟩ := Option.bind_eq_some_iff.mp h
    have hk := oneLineDict_isSome.mp (Option.isSome_iff_exists.mpr ⟨line, hl⟩)
    refine .dict items hk fun e he => ?_
    cases line with
    | some line =>
      have hs : (simpleItems items).isSome := by
        rw [oneLineDict] at hl
        cases hs : simpleItems items with
        | none =>
          rw [hs] at hl
          cases hl
        | some pairs => rfl
      obtain ⟨v, hv⟩ := simpleItems_isSome.mp hs e he
      exact hv ▸ .simple v
    | none =>
      rw [markedValues_eq] at h
      obtain ⟨res, hres, _⟩ := Option.map_eq_some_iff.mp h
      obtain ⟨_, _, he'⟩ := forall₂_exists_left (mapM_eq_some.mp hres) he
      exact ih e he he'

lemma dumpv_ne_nil {lines : List (List Char)} (htab : 1 ≤ c.tabSz) (hmin : 2 ≤ c.minWidth)
    (h : dumpv A c width data = some lines) : lines ≠ [] := by
  rw [← markedv_text (d := 0)] at h
  obtain ⟨marked, hm, rfl⟩ := Option.map_eq_some_iff.mp h
  obtain ⟨marked', hm', hn, _⟩ := (sortable_of_marked hm).printed htab hmin
  rw [hm, Option.some.injEq] at hm'
  exact fun he => hn (hm' ▸ List.map_eq_nil_iff.mp he)

lemma Sortable.exists_lines (h : Sortable data) (htab : 1 ≤ c.tabSz) (hmin : 2 ≤ c.minWidth)
    (A : Alnum) (width : ℤ) : ∃ lines, dumpv A c width data = some lines := by
  obtain ⟨lines, hl, _⟩ : ∃ lines, markedv A c width 0 data = some lines ∧
      Block c width 0 lines := h.printed htab hmin
  exact ⟨lines.map Line.text, by rw [← markedv_text, hl, Option.map_some]⟩

variable (A c) in
theorem dumpv_keeps_width_iff (htab : 1 ≤ c.tabSz) (hmin : 2 ≤ c.minWidth) (width : ℤ)
    (data : Data) :
    (∃ lines, markedv A c width 0 data = some lines ∧
      dumpv A c width data = some (lines.map Line.text) ∧ lines ≠ [] ∧
      ∀ line ∈ lines, ∀ d, line.flow = some d →
        (line.text.length : ℤ) ≤ max width (c.minWidth + c.tabSz * d)) ↔ Sortable data := by
  constructor
  · rintro ⟨lines, hl, _⟩
    exact sortable_of_marked hl
  · intro h
    obtain ⟨lines, hl, hn, hkept⟩ : ∃ lines, markedv A c width 0 data = some lines ∧
        Block c width 0 lines := h.printed htab hmin
    refine ⟨lines, hl, by rw [← markedv_text, hl, Option.map_some], hn, fun line hm d hd => ?_⟩
    simpa using (hkept line hm d hd).2

def mixedKeys : Data :=
  .dict [(.int 1, .simple (.str ['a'])), (.str ['b'], .simple (.str ['c']))]

theorem dumpv_mixed_keys_fails : ¬ ∃ lines, dumpv asciiAlnum {} 120 mixedKeys = some lines := by
  rintro ⟨lines, h⟩
  have hn : dumpv asciiAlnum {} 120 mixedKeys = none := by rfl
  cases hn ▸ h

def nestedLists : Data :=
  .list [.dict [(.str ['l', 'a', 't', 's'], .list [.simple (.int 1), .simple (.int 20)]),
    (.str ['n'], .simple (.int 3))]]

theorem dumpv_keeps_width_nested : ∃ lines,
    markedv asciiAlnum {} 40 0 nestedLists = some lines ∧
      dumpv asciiAlnum {} 40 nestedLists = some (lines.map Line.text) ∧ lines ≠ [] ∧
      ∀ line ∈ lines, ∀ d, line.flow = some d →
        (line.text.length : ℤ) ≤ max 40 ((40 : ℤ) + (4 : ℕ) * d) := by
  apply (dumpv_keeps_width_iff asciiAlnum {} (by decide) (by decide) 40 nestedLists).mpr
  apply Sortable.list
  rw [List.forall_mem_singleton]
  refine .dict _ (fun h => ?_) ?_
  · obtain ⟨v, hv⟩ := h _ List.mem_cons_self
    cases hv
  · refine List.forall_mem_cons.mpr ⟨.list _ ?_, List.forall_mem_singleton.mpr (.simple _)⟩
    exact List.forall_mem_cons.mpr ⟨.simple _, List.forall_mem_singleton.mpr (.simple _)⟩

end NetworkPing.Yaml
