import NetworkPing.Yaml.Scalars
import NetworkPing.Yaml.Width

namespace NetworkPing.Yaml

def Simple.PlainLine (v : Simple) : Prop := ∃ s, v = .str s ∧ '"' ∉ s ∧ '\n' ∉ s

inductive Data.Plain : Data → Prop
  | simple (v : Simple) (h : v.PlainLine) : Plain (.simple v)
  | list (xs : List Data) (h : ∀ x ∈ xs, Plain x) : Plain (.list xs)
  | dict (items : List (Simple × Data)) (hk : ∀ e ∈ items, e.1.PlainLine)
    (hn : (items.map Prod.fst).Nodup) (h : ∀ e ∈ items, Plain e.2) : Plain (.dict items)

inductive Data.Same : Data → Data → Prop
  | simple (v : Simple) : Same (.simple v) (.simple v)
  | list {xs ys : List Data} (h : List.Forall₂ Same xs ys) : Same (.list xs) (.list ys)
  | dict {items items' : List (Simple × Data)}
    (hk : ∀ k, k ∈ items.map Prod.fst ↔ k ∈ items'.map Prod.fst)
    (h : ∀ k x y, (k, x) ∈ items → (k, y) ∈ items' → Same x y) : Same (.dict items) (.dict items')

inductive Kind
  | token | bracket | dash | brace

def kind : List (List Char) → Kind
  | (x :: _) :: _ =>
    if x = '[' then .bracket else if x = '-' then .dash else if x = '{' then .brace else .token
  | _ => .token

variable (A : Alnum) (c : Layout)

inductive Shape (width : ℤ) : Kind → Data → List (List Char) → Prop
  | simple (v : Simple) : Shape width .token (.simple v) [dumpsSimple A v]
  | listLine (vals : List Simple) :
    Shape width .bracket (.list (vals.map .simple)) [listText A vals]
  | listBlock {xs : List Data} {res : List (List (List Char))} (hn : xs ≠ [])
    (h : List.Forall₂ (fun x block => ∃ lines,
      dumpv A c (max width c.minWidth - c.tabSz) x = some lines ∧
        elementLines c lines = some block) xs res) :
    Shape width .dash (.list xs) res.flatten
  | dictLine {pairs pairs' : List (Simple × Simple)} (h : pairs'.Perm pairs) :
    Shape width .brace (.dict (pairs.map fun e => (e.1, .simple e.2))) [dictText A pairs']
  | dictBlock {items : List (Simple × Data)} {res : List (List (List Char))} (hn : items ≠ [])
    (h : List.Forall₂ (fun e block => ∃ lines,
      dumpv A c (max width c.minWidth - c.tabSz) e.2 = some lines ∧ lines ≠ [] ∧
        block = keyLines A c (max width c.minWidth) e lines) items res) :
    Shape width .token (.dict items) res.flatten

variable {A c} {width : ℤ} {data a b : Data} {lines lines' : List (List Char)} {k : Kind}
  {items items' : List (Simple × Data)} {xs : List Data}

lemma sorted_perm {pairs pairs' : List (Simple × Simple)} (h : sorted pairs = some pairs') :
    pairs'.Perm pairs := by
  rw [sorted] at h
  split_ifs at h
  obtain rfl := Option.some.inj h
  exact List.perm_insertionSort _ _

lemma shape_list (hmin : 2 ≤ c.minWidth) (h : dumpv A c width (.list xs) = some lines) :
    ∃ k, Shape A c width k (.list xs) lines := by
  rw [dumpv] at h
  cases hl : oneLineList A (max width c.minWidth) xs with
  | some line =>
    rw [hl, Option.some.injEq] at h
    obtain ⟨vals, hv, hf⟩ := Option.bind_eq_some_iff.mp hl
    rw [simples_eq_some.mp hv, ← h, (fitting_eq_some.mp hf).1]
    exact ⟨_, .listLine vals⟩
  | none =>
    rw [hl, dumpElements_eq] at h
    obtain ⟨vals, hv, h⟩ := Option.bind_eq_some_iff.mp h
    obtain ⟨res, hr, rfl⟩ := Option.map_eq_some_iff.mp h
    refine ⟨_, .listBlock ?_ ?_⟩
    · rintro rfl
      rw [oneLineList_nil (le_max_of_le_right hmin)] at hl
      cases hl
    · exact forall₂_trans (mapM_eq_some.mp hv) (mapM_eq_some.mp hr)

lemma shape_dict (htab : 1 ≤ c.tabSz) (hmin : 2 ≤ c.minWidth)
    (h : dumpv A c width (.dict items) = some lines) :
    ∃ k, Shape A c width k (.dict items) lines := by
  rw [dumpv] at h
  split_ifs at h with hn
  · subst hn
    obtain rfl := Option.some.inj h
    exact ⟨_, .dictLine (List.Perm.refl [])⟩
  obtain ⟨line, hl, h⟩ := Option.bind_eq_some_iff.mp h
  cases line with
  | some line =>
    rw [oneLineDict] at hl
    cases hs : simpleItems items with
    | none =>
      rw [hs] at hl
      cases hl
    | some pairs =>
      rw [hs] at hl
      obtain ⟨pairs', hp, hf⟩ := Option.map_eq_some_iff.mp hl
      rw [simpleItems_eq_some.mp hs, ← Option.some.inj h, (fitting_eq_some.mp hf).1]
      exact ⟨_, .dictLine (sorted_perm hp)⟩
  | none =>
    dsimp only at h
    rw [dumpValues_eq] at h
    obtain ⟨res, hr, rfl⟩ := Option.map_eq_some_iff.mp h
    refine ⟨_, .dictBlock hn ((forall₂_zipWith (mapM_eq_some.mp hr)).imp ?_)⟩
    rintro e _ ⟨lines, hl, rfl⟩
    exact ⟨lines, hl, dumpv_ne_nil htab hmin hl, rfl⟩

lemma dumpv_shape (htab : 1 ≤ c.tabSz) (hmin : 2 ≤ c.minWidth)
    (h : dumpv A c width data = some lines) : ∃ k, Shape A c width k data lines := by
  cases data with
  | simple v =>
    obtain rfl := Option.some.inj h
    exact ⟨_, .simple v⟩
  | list xs => exact shape_list hmin h
  | dict items => exact shape_dict htab hmin h

lemma Simple.PlainLine.plain {v : Simple} (h : v.PlainLine) : v.Plain := by
  obtain ⟨s, rfl, hq, _⟩ := h
  exact ⟨s, rfl, hq⟩

lemma plain_of_map_simple {vals : List Simple} (h : (Data.list (vals.map .simple)).Plain) :
    ∀ v ∈ vals, v.PlainLine := by
  cases h with
  | list _ h =>
    intro v hv
    cases h _ (List.mem_map_of_mem hv) with
    | simple _ h => exact h

lemma plain_of_map_items {pairs : List (Simple × Simple)}
    (h : (Data.dict (pairs.map fun e => (e.1, .simple e.2))).Plain) :
    (∀ e ∈ pairs, e.1.PlainLine ∧ e.2.PlainLine) ∧ (pairs.map Prod.fst).Nodup := by
  cases h with
  | dict _ hk hn h =>
    rw [List.map_map] at hn
    refine ⟨fun e he => ⟨hk _ (List.mem_map_of_mem he), ?_⟩, hn⟩
    cases h _ (List.mem_map_of_mem he) with
    | simple _ h => exact h

lemma keyLines_cases (A : Alnum) (c : Layout) (width : ℤ) (item : Simple × Data)
    (hn : lines ≠ []) :
    (∃ line, lines = [line] ∧ keyLines A c width item lines =
      [dumpsSimple A item.1 ++ ([':', ' '] ++ line)]) ∨
    keyLines A c width item lines =
      (dumpsSimple A item.1 ++ [':', ' ']) :: lines.map (c.tab ++ ·) := by
  rcases lines with _ | ⟨line, _ | ⟨second, rest⟩⟩
  · exact absurd rfl hn
  · rw [keyLines]
    split_ifs
    · exact .inl ⟨line, rfl, by rw [List.append_assoc]⟩
    · exact .inr rfl
  · exact .inr rfl

lemma tab_injective : Function.Injective (c.tab ++ ·) := fun _ _ h => List.append_cancel_left h

lemma keyLines_injective {item item' : Simple × Data} (hk : item.1.Plain) (hk' : item'.1.Plain)
    (hn : lines ≠ []) (hn' : lines' ≠ [])
    (h : keyLines A c width item lines = keyLines A c width item' lines') :
    item.1 = item'.1 ∧ lines = lines' := by
  have stops (rest : List Char) : Stops A.Bare (':' :: ' ' :: rest) :=
    stops_cons (A.not_bare (by decide)) _
  rcases keyLines_cases A c width item hn with
    ⟨line, rfl, he⟩ | he <;>
  rcases keyLines_cases A c width item' hn' with
    ⟨line', rfl, he'⟩ | he'
  · rw [he, he', List.cons_eq_cons] at h
    obtain ⟨h₁, h₂⟩ := simple_prefixCode hk hk' (stops line) (stops line') h.1
    exact ⟨h₁, by simpa using h₂⟩
  · rw [he, he', List.cons_eq_cons] at h
    exact absurd (List.map_eq_nil_iff.mp h.2.symm) hn'
  · rw [he, he', List.cons_eq_cons] at h
    exact absurd (List.map_eq_nil_iff.mp h.2) hn
  · rw [he, he', List.cons_eq_cons] at h
    exact ⟨(simple_prefixCode hk hk' (stops []) (stops []) h.1).1, tab_injective.list_map h.2⟩

lemma elementLines_injective {block : List (List Char)} (h : elementLines c lines = some block)
    (h' : elementLines c lines' = some block) : lines = lines' := by
  cases lines with
  | nil => cases h
  | cons first rest =>
    cases lines' with
    | nil => cases h'
    | cons first' rest' =>
      rw [elementLines, Option.some.injEq] at h h'
      rw [← h, List.cons_eq_cons] at h'
      rw [List.append_cancel_left h'.1, tab_injective.list_map h'.2]

lemma kind_token {v : Simple} (hv : v.Plain) (u : List Char) (rest : List (List Char)) :
    kind ((dumpsSimple A v ++ u) :: rest) = .token := by
  obtain ⟨s, rfl, _⟩ := hv
  obtain ⟨x, w, hx, hb⟩ := dumpsSimple_start (A := A) s
  have other (y : Char) (hy : y ∈ punctuation) (hq : y ≠ '"') : x ≠ y := by
    rintro rfl
    exact hb.elim (A.not_bare hy) hq
  rw [hx, List.cons_append, kind, if_neg (other '[' (by decide) (by decide)),
    if_neg (other '-' (by decide) (by decide)), if_neg (other '{' (by decide) (by decide))]

lemma keyLines_head (A : Alnum) (c : Layout) (width : ℤ) (item : Simple × Data)
    (hn : lines ≠ []) :
    ∃ u, keyLines A c width item lines = (dumpsSimple A item.1 ++ ':' :: u) ::
      (keyLines A c width item lines).tail := by
  rcases keyLines_cases A c width item hn with
    ⟨line, rfl, he⟩ | he
  · exact ⟨' ' :: line, by rw [he]; rfl⟩
  · exact ⟨[' '], by rw [he]; rfl⟩

lemma Shape.kind_eq (hp : data.Plain) (h : Shape A c width k data lines) : kind lines = k := by
  cases h with
  | simple v =>
    cases hp with
    | simple _ hv =>
      rw [← List.append_nil (dumpsSimple A v)]
      exact kind_token hv.plain [] []
  | listLine vals => rfl
  | listBlock hn h =>
    cases h with
    | nil => exact absurd rfl hn
    | cons hx _ =>
      obtain ⟨lines, _, he⟩ := hx
      cases lines with
      | nil => cases he
      | cons first rest =>
        obtain rfl := Option.some.inj he
        rfl
  | dictLine _ => rfl
  | @dictBlock items _ hn h =>
    cases h with
    | nil => exact absurd rfl hn
    | cons he _ =>
      obtain ⟨lines, _, hl, rfl⟩ := he
      obtain ⟨u, hu⟩ := keyLines_head A c _ _ hl
      cases hp with
      | dict _ hk _ _ =>
        rw [hu]
        exact kind_token (hk _ List.mem_cons_self).plain _ _

def Flush (line : List Char) : Prop := line.head? ≠ some ' '

lemma tab_not_flush (htab : 1 ≤ c.tabSz) : ∀ line ∈ lines.map (c.tab ++ ·), ¬ Flush line := by
  rw [List.forall_mem_map]
  intro line _ hf
  refine hf ?_
  obtain ⟨n, hn⟩ : ∃ n, c.tabSz = n + 1 := ⟨c.tabSz - 1, by omega⟩
  rw [Layout.tab, hn, List.replicate_succ]
  rfl

lemma elementLines_marked (htab : 1 ≤ c.tabSz) {block : List (List Char)}
    (h : elementLines c lines = some block) : Marked Flush block := by
  cases lines with
  | nil => cases h
  | cons first rest =>
    obtain rfl := Option.some.inj h
    refine ⟨_, _, rfl, ?_, tab_not_flush htab⟩
    rw [Flush, Layout.pref, List.cons_append, List.head?_cons]
    decide

lemma keyLines_marked (htab : 1 ≤ c.tabSz) {item : Simple × Data} (hk : item.1.Plain)
    (hn : lines ≠ []) : Marked Flush (keyLines A c width item lines) := by
  have flush (u : List Char) : Flush (dumpsSimple A item.1 ++ u) := by
    intro hf
    obtain ⟨w, hw⟩ := List.head?_eq_some_iff.mp hf
    exact hk.append_ne (by decide) (by decide) u w hw
  rcases keyLines_cases A c width item hn with
    ⟨line, rfl, he⟩ | he
  · exact ⟨_, [], he, flush _, List.forall_mem_nil _⟩
  · exact ⟨_, _, he, flush _, tab_not_flush htab⟩

lemma elements_marked (htab : 1 ≤ c.tabSz) {res : List (List (List Char))}
    (h : List.Forall₂ (fun x block => ∃ lines, dumpv A c width x = some lines ∧
      elementLines c lines = some block) xs res) : ∀ block ∈ res, Marked Flush block := by
  intro block hb
  obtain ⟨_, _, _, _, he⟩ := forall₂_exists_right h hb
  exact elementLines_marked htab he

lemma items_marked {w : ℤ} (htab : 1 ≤ c.tabSz) {res : List (List (List Char))}
    (hk : ∀ e ∈ items, e.1.PlainLine)
    (h : List.Forall₂ (fun e block => ∃ lines, dumpv A c w e.2 = some lines ∧ lines ≠ [] ∧
      block = keyLines A c width e lines) items res) : ∀ block ∈ res, Marked Flush block := by
  intro block hb
  obtain ⟨e, he, _, _, hl, rfl⟩ := forall₂_exists_right h hb
  exact keyLines_marked htab (hk e he).plain hl

lemma same_simples (vals : List Simple) :
    (Data.list (vals.map .simple)).Same (.list (vals.map .simple)) := by
  refine .list (List.forall₂_same.mpr ?_)
  rw [List.forall_mem_map]
  exact fun v _ => .simple v

lemma same_of_perm {pairs pairs' : List (Simple × Simple)} (hn : (pairs'.map Prod.fst).Nodup)
    (h : pairs.Perm pairs') :
    (Data.dict (pairs.map fun e => (e.1, .simple e.2))).Same
      (.dict (pairs'.map fun e => (e.1, .simple e.2))) := by
  refine .dict (fun k => (h.map _).map Prod.fst |>.mem_iff) ?_
  intro k x y hx hy
  obtain ⟨e, he, hex⟩ := List.mem_map.mp hx
  obtain ⟨f, hf, hfy⟩ := List.mem_map.mp hy
  obtain ⟨rfl, rfl⟩ := Prod.mk.inj hex
  obtain ⟨hk, rfl⟩ := Prod.mk.inj hfy
  rw [List.inj_on_of_nodup_map hn hf (h.mem_iff.mp he) hk]
  exact .simple e.2

lemma same_of_items (hn : (items'.map Prod.fst).Nodup)
    (h : List.Forall₂ (fun e f => e.1 = f.1 ∧ e.2.Same f.2) items items') :
    (Data.dict items).Same (.dict items') := by
  refine .dict (fun k => ?_) ?_
  · have hk : items.map Prod.fst = items'.map Prod.fst := by
      rw [← List.forall₂_eq_eq_eq, List.forall₂_map_left_iff, List.forall₂_map_right_iff]
      exact h.imp fun _ _ h => h.1
    rw [hk]
  · intro k x y hx hy
    obtain ⟨f, hf, hk, hs⟩ := forall₂_exists_left h hx
    rw [List.inj_on_of_nodup_map hn hf hy hk.symm] at hs
    exact hs

def Data.children : Data → List Data
  | .simple _ => []
  | .list xs => xs
  | .dict items => items.map Prod.snd

theorem Data.induct_children {P : Data → Prop} (h : ∀ a, (∀ x ∈ a.children, P x) → P a)
    (a : Data) : P a := by
  induction a using Data.induct with
  | simple v => exact h _ (List.forall_mem_nil _)
  | list xs ih => exact h _ ih
  | dict items ih => exact h _ (List.forall_mem_map.mpr ih)

lemma Data.Plain.children (h : a.Plain) : ∀ x ∈ a.children, x.Plain := by
  cases h with
  | simple => exact List.forall_mem_nil _
  | list _ h => exact h
  | dict _ _ _ h => exact List.forall_mem_map.mpr h

lemma simple_ne_dictBlock {v : Simple} (hv : v.Plain) {res : List (List (List Char))}
    (hk : ∀ e ∈ items, e.1.PlainLine) (hn : items ≠ [])
    (h : List.Forall₂ (fun e block => ∃ lines,
      dumpv A c (max width c.minWidth - c.tabSz) e.2 = some lines ∧ lines ≠ [] ∧
        block = keyLines A c (max width c.minWidth) e lines) items res) :
    [dumpsSimple A v] ≠ res.flatten := by
  cases h with
  | nil => exact absurd rfl hn
  | @cons item _ items _ he _ =>
    obtain ⟨lines, _, hl, rfl⟩ := he
    obtain ⟨u, hu⟩ := keyLines_head A c (max width c.minWidth) item hl
    rw [List.flatten_cons, hu, List.cons_append]
    intro he
    have ht := (List.cons.inj he).1
    rw [← List.append_nil (dumpsSimple A v)] at ht
    have hc := simple_prefixCode hv (hk item List.mem_cons_self).plain stops_nil
      (stops_cons (A.not_bare (by decide)) u) ht
    cases hc.2

section Blocks

variable {w : ℤ} {ys : List Data} {res res' : List (List (List Char))}

lemma same_of_elements (htab : 1 ≤ c.tabSz)
    (hr : List.Forall₂ (fun x block => ∃ lines, dumpv A c width x = some lines ∧
      elementLines c lines = some block) xs res)
    (hr' : List.Forall₂ (fun x block => ∃ lines, dumpv A c width x = some lines ∧
      elementLines c lines = some block) ys res')
    (h : res.flatten = res'.flatten)
    (ih : ∀ x ∈ xs, ∀ y ∈ ys, ∀ (w : ℤ) (ls : List (List Char)),
      dumpv A c w x = some ls → dumpv A c w y = some ls → x.Same y) :
    (Data.list xs).Same (.list ys) := by
  obtain rfl := flatten_injective (elements_marked htab hr) (elements_marked htab hr') h
  refine .list ((forall₂_match hr hr').imp ?_)
  rintro x y ⟨hx, hy, block, ⟨ls, hl, he⟩, ⟨ls', hl', he'⟩⟩
  rw [elementLines_injective he he'] at hl
  exact ih x hx y hy _ ls' hl hl'

lemma forall₂_of_items (htab : 1 ≤ c.tabSz) (hk : ∀ e ∈ items, e.1.PlainLine)
    (hk' : ∀ e ∈ items', e.1.PlainLine)
    (hr : List.Forall₂ (fun e block => ∃ lines, dumpv A c w e.2 = some lines ∧ lines ≠ [] ∧
      block = keyLines A c width e lines) items res)
    (hr' : List.Forall₂ (fun e block => ∃ lines, dumpv A c w e.2 = some lines ∧ lines ≠ [] ∧
      block = keyLines A c width e lines) items' res')
    (h : res.flatten = res'.flatten)
    (ih : ∀ x ∈ items.map Prod.snd, ∀ y ∈ items'.map Prod.snd, ∀ (w : ℤ) (ls : List (List Char)),
      dumpv A c w x = some ls → dumpv A c w y = some ls → x.Same y) :
    List.Forall₂ (fun e f => e.1 = f.1 ∧ e.2.Same f.2) items items' := by
  obtain rfl := flatten_injective (items_marked htab hk hr) (items_marked htab hk' hr') h
  refine (forall₂_match hr hr').imp ?_
  rintro e f ⟨he, hf, block, ⟨ls, hl, hne, rfl⟩, ⟨ls', hl', hne', heq⟩⟩
  obtain ⟨hkey, rfl⟩ := keyLines_injective (hk e he).plain (hk' f hf).plain hne hne' heq
  exact ⟨hkey, ih e.2 (List.mem_map_of_mem he) f.2 (List.mem_map_of_mem hf) _ ls hl hl'⟩

end Blocks

lemma Shape.same (htab : 1 ≤ c.tabSz) (ha : a.Plain) (hb : b.Plain)
    (hs : Shape A c width k a lines) (hs' : Shape A c width k b lines') (h : lines = lines')
    (ih : ∀ x ∈ a.children, ∀ y ∈ b.children, ∀ (w : ℤ) (ls : List (List Char)),
      dumpv A c w x = some ls → dumpv A c w y = some ls → x.Same y) : a.Same b := by
  cases hs with
  | simple v =>
    cases ha with
    | simple _ hv =>
    cases hs' with
    | simple v' =>
      cases hb with
      | simple _ hv' =>
      rw [simple_prefixCode.injective hv.plain hv'.plain (List.cons.inj h).1]
      exact .simple v'
    | dictBlock hn hr =>
      cases hb with
      | dict _ hk => exact absurd h (simple_ne_dictBlock hv.plain hk hn hr)
  | listLine vals =>
    cases hs' with
    | listLine vals' =>
      rw [listText_injective (fun v hv => (plain_of_map_simple ha v hv).plain)
        (fun v hv => (plain_of_map_simple hb v hv).plain) (List.cons.inj h).1]
      exact same_simples vals'
  | listBlock hn hr =>
    cases hs' with
    | listBlock hn' hr' => exact same_of_elements htab hr hr' h ih
  | dictLine hp =>
    cases hs' with
    | dictLine hp' =>
      obtain ⟨hk, _⟩ := plain_of_map_items ha
      obtain ⟨hk', hn'⟩ := plain_of_map_items hb
      have he := dictText_injective
        (fun e he => (hk e (hp.mem_iff.mp he)).imp Simple.PlainLine.plain Simple.PlainLine.plain)
        (fun e he => (hk' e (hp'.mem_iff.mp he)).imp Simple.PlainLine.plain Simple.PlainLine.plain)
        (List.cons.inj h).1
      exact same_of_perm hn' (hp.symm.trans (he ▸ hp'))
  | dictBlock hn hr =>
    cases hs' with
    | simple v' =>
      cases ha with
      | dict _ hk =>
      cases hb with
      | simple _ hv' => exact absurd h.symm (simple_ne_dictBlock hv'.plain hk hn hr)
    | dictBlock hn' hr' =>
      cases ha with
      | dict _ hk =>
      cases hb with
      | dict _ hk' hd' =>
      exact same_of_items hd' (forall₂_of_items htab hk hk' hr hr' h ih)

lemma dumpv_injective (htab : 1 ≤ c.tabSz) (hmin : 2 ≤ c.minWidth) (ha : a.Plain) (hb : b.Plain)
    (hl : dumpv A c width a = some lines) (hl' : dumpv A c width b = some lines) : a.Same b := by
  induction a using Data.induct_children generalizing width b lines with
  | h a ih =>
    obtain ⟨k, hs⟩ := dumpv_shape htab hmin hl
    obtain ⟨k', hs'⟩ := dumpv_shape htab hmin hl'
    obtain rfl : k = k' := (hs.kind_eq ha).symm.trans (hs'.kind_eq hb)
    exact hs.same htab ha hb hs' rfl fun x hx y hy w ls hlx hly =>
      ih x hx (ha.children x hx) (hb.children y hy) hlx hly

lemma Simple.PlainLine.oneLine {v : Simple} (h : v.PlainLine) : '\n' ∉ dumpsSimple A v := by
  obtain ⟨s, rfl, _, hs⟩ := h
  by_cases hb : bare A s = true
  · rwa [dumpsSimple_bare hb]
  · rw [dumpsSimple_quoted hb]
    simpa using hs

lemma itemText_oneLine {e : Simple × Simple} (h : e.1.PlainLine ∧ e.2.PlainLine) :
    '\n' ∉ itemText A e := by
  simp [itemText, h.1.oneLine, h.2.oneLine]

lemma listText_oneLine {vals : List Simple} (h : ∀ v ∈ vals, v.PlainLine) :
    '\n' ∉ listText A vals := by
  have hj : '\n' ∉ [','].intercalate (vals.map (dumpsSimple A)) := by
    apply not_mem_intercalate (by decide)
    rw [List.forall_mem_map]
    exact fun v hv => (h v hv).oneLine
  rw [listText_strs fun v hv => (h v hv).plain.exists_str]
  simpa using hj

lemma dictText_oneLine {pairs : List (Simple × Simple)}
    (h : ∀ e ∈ pairs, e.1.PlainLine ∧ e.2.PlainLine) : '\n' ∉ dictText A pairs := by
  have hj : '\n' ∉ join [',', ' '] (pairs.map (itemText A)) := by
    apply not_mem_intercalate (by decide)
    rw [List.forall_mem_map]
    exact fun e he => itemText_oneLine (h e he)
  simpa [dictText] using hj

lemma indent_oneLine {p : List Char} (hp : '\n' ∉ p) (h : ∀ line ∈ lines, '\n' ∉ line) :
    ∀ line ∈ lines.map (p ++ ·), '\n' ∉ line := by
  rw [List.forall_mem_map]
  exact fun line hl hm => (List.mem_append.mp hm).elim hp (h line hl)

lemma tab_oneLine : '\n' ∉ c.tab := fun h => by cases List.eq_of_mem_replicate h

lemma pref_oneLine : '\n' ∉ c.pref := by
  rw [Layout.pref, List.mem_cons, not_or]
  exact ⟨by decide, fun h => by cases List.eq_of_mem_replicate h⟩

lemma elementLines_oneLine {block : List (List Char)} (h : elementLines c lines = some block)
    (hl : ∀ line ∈ lines, '\n' ∉ line) : ∀ line ∈ block, '\n' ∉ line := by
  cases lines with
  | nil => cases h
  | cons first rest =>
    obtain rfl := Option.some.inj h
    rw [List.forall_mem_cons] at hl ⊢
    refine ⟨?_, indent_oneLine tab_oneLine hl.2⟩
    exact fun hm => (List.mem_append.mp hm).elim pref_oneLine hl.1

lemma keyLines_oneLine {item : Simple × Data} (hk : item.1.PlainLine) (hn : lines ≠ [])
    (hl : ∀ line ∈ lines, '\n' ∉ line) : ∀ line ∈ keyLines A c width item lines, '\n' ∉ line := by
  rcases keyLines_cases A c width item hn with
    ⟨line, rfl, he⟩ | he
  · rw [he, List.forall_mem_singleton]
    rw [List.forall_mem_singleton] at hl
    simp [hk.oneLine, hl]
  · rw [he, List.forall_mem_cons]
    exact ⟨by simp [hk.oneLine], indent_oneLine tab_oneLine hl⟩

lemma forall_mem_flatten {res : List (List (List Char))}
    (h : ∀ block ∈ res, ∀ line ∈ block, '\n' ∉ line) : ∀ line ∈ res.flatten, '\n' ∉ line := by
  intro line hl
  obtain ⟨block, hb, hl⟩ := List.mem_flatten.mp hl
  exact h block hb line hl

lemma dumpv_oneLine (htab : 1 ≤ c.tabSz) (hmin : 2 ≤ c.minWidth) (ha : a.Plain)
    (hl : dumpv A c width a = some lines) : ∀ line ∈ lines, '\n' ∉ line := by
  induction a using Data.induct_children generalizing width lines with
  | h a ih =>
    obtain ⟨k, hs⟩ := dumpv_shape htab hmin hl
    cases hs with
    | simple v =>
      cases ha with
      | simple _ hv => exact List.forall_mem_singleton.mpr hv.oneLine
    | listLine vals =>
      exact List.forall_mem_singleton.mpr (listText_oneLine (plain_of_map_simple ha))
    | listBlock hn hr =>
      refine forall_mem_flatten fun block hb => ?_
      obtain ⟨x, hx, ls, hlx, he⟩ := forall₂_exists_right hr hb
      exact elementLines_oneLine he (ih x hx (ha.children x hx) hlx)
    | dictLine hp =>
      exact List.forall_mem_singleton.mpr
        (dictText_oneLine fun e he => (plain_of_map_items ha).1 e (hp.mem_iff.mp he))
    | dictBlock hn hr =>
      refine forall_mem_flatten fun block hb => ?_
      obtain ⟨e, he, ls, hle, hne, rfl⟩ := forall₂_exists_right hr hb
      have hm := List.mem_map_of_mem (f := Prod.snd) he
      cases ha with
      | dict items hk hd h =>
        exact keyLines_oneLine (hk e he) hne (ih e.2 hm (h e he) hle)

lemma Data.Plain.sortable (h : a.Plain) : Sortable a := by
  induction h with
  | simple v _ => exact .simple v
  | list xs _ ih => exact .list xs ih
  | dict items hk _ _ ih =>
    refine .dict items (fun _ => List.pairwise_of_forall_mem_list fun k hk₁ l hl => ?_) ih
    have keys : ∀ k ∈ items.map Prod.fst, k.PlainLine := List.forall_mem_map.mpr hk
    obtain ⟨s, rfl, _⟩ := keys k hk₁
    obtain ⟨t, rfl, _⟩ := keys l hl
    exact rfl

variable (A c) in
theorem dumps_injective (htab : 1 ≤ c.tabSz) (hmin : 2 ≤ c.minWidth) (width : ℤ) (ha : a.Plain)
    (hb : b.Plain) (h : dumps A c width a = dumps A c width b) : a.Same b := by
  obtain ⟨lines, hl⟩ := ha.sortable.exists_lines htab hmin A width
  obtain ⟨lines', hl'⟩ := hb.sortable.exists_lines htab hmin A width
  rw [dumps, dumps, hl, hl', Option.map_some, Option.map_some, Option.some.injEq] at h
  have hs := congrArg (List.splitOn '\n') h
  rw [join, join,
    List.splitOn_intercalate _ (dumpv_oneLine htab hmin ha hl) (dumpv_ne_nil htab hmin hl),
    List.splitOn_intercalate _ (dumpv_oneLine htab hmin hb hl') (dumpv_ne_nil htab hmin hl')] at hs
  subst hs
  exact dumpv_injective htab hmin ha hb hl hl'

theorem dumps_injective_reordered :
    (Data.dict [(.str ['a'], .simple (.str ['x'])), (.str ['b'], .simple (.str []))]).Same
      (.dict [(.str ['b'], .simple (.str [])), (.str ['a'], .simple (.str ['x']))]) := by
  have leaf (s : List Char) (h : '"' ∉ s ∧ '\n' ∉ s) : Simple.PlainLine (.str s) := ⟨s, rfl, h⟩
  have ha : Simple.PlainLine (.str ['a']) := leaf _ (by decide)
  have hb : Simple.PlainLine (.str ['b']) := leaf _ (by decide)
  have hx : Simple.PlainLine (.str ['x']) := leaf _ (by decide)
  have hn : Simple.PlainLine (.str []) := leaf _ (by decide)
  refine dumps_injective asciiAlnum {} (by decide) (by decide) 120 (.dict _ ?_ (by decide) ?_)
    (.dict _ ?_ (by decide) ?_) (by decide +kernel)
  · exact List.forall_mem_cons.mpr ⟨ha, List.forall_mem_singleton.mpr hb⟩
  · exact List.forall_mem_cons.mpr ⟨.simple _ hx, List.forall_mem_singleton.mpr (.simple _ hn)⟩
  · exact List.forall_mem_cons.mpr ⟨hb, List.forall_mem_singleton.mpr ha⟩
  · exact List.forall_mem_cons.mpr ⟨.simple _ hn, List.forall_mem_singleton.mpr (.simple _ hx)⟩

end NetworkPing.Yaml
