import Mathlib.Data.List.AList
import Mathlib.Tactic

namespace NetworkPing

variable {κ κ' ι α β : Type*} [DecidableEq κ] [DecidableEq κ']

lemma perm_flatMap_filter (f : α → κ) {ks : List κ} (hn : ks.Nodup) {xs : List α}
    (h : ∀ x ∈ xs, f x ∈ ks) : (ks.flatMap fun k => xs.filter (f · = k)).Perm xs := by
  induction ks generalizing xs with
  | nil =>
    obtain rfl : xs = [] := List.eq_nil_iff_forall_not_mem.mpr fun x hx => by simpa using h x hx
    exact .nil
  | cons k ks ih =>
    obtain ⟨hk, hks⟩ := List.nodup_cons.mp hn
    have hrest : (ks.flatMap fun k' => xs.filter (f · = k')) =
        ks.flatMap fun k' => (xs.filter (f · ≠ k)).filter (f · = k') := by
      apply List.flatMap_congr
      intro k' hk'
      rw [List.filter_filter]
      apply List.filter_congr
      intro x _
      have hne : k' ≠ k := fun he => hk (he ▸ hk')
      by_cases he : f x = k' <;> simp [he, hne]
    rw [List.flatMap_cons, hrest]
    refine ((ih hks fun x hx => ?_).append_left _).trans ?_
    · obtain ⟨hx, hne⟩ := List.mem_filter.mp hx
      exact (List.mem_cons.mp (h x hx)).resolve_left (by simpa using hne)
    · have := List.filter_append_perm (f · = k) xs
      simpa using this

abbrev Groups (κ α : Type*) := AList fun _ : κ => List α

namespace Groups

def append (m : Groups κ α) (k : κ) (a : α) : Groups κ α := m.insert k ((m.lookup k).getD [] ++ [a])

def group (ps : List (κ × α)) : Groups κ α := ps.foldl (fun m p => m.append p.1 p.2) ∅

def valuesOf (k : κ) (ps : List (κ × α)) : List α := (ps.filter (·.1 = k)).map Prod.snd

variable {m : Groups κ α} {k : κ} {a : α} {ps : List (κ × α)}

lemma mem_valuesOf : a ∈ valuesOf k ps ↔ (k, a) ∈ ps := by
  simp [valuesOf]

lemma valuesOf_append_singleton (p : κ × α) :
    valuesOf k (ps ++ [p]) = valuesOf k ps ++ if p.1 = k then [p.2] else [] := by
  by_cases h : p.1 = k <;> simp [valuesOf, h]

lemma lookup_group (k : κ) (ps : List (κ × α)) : (group ps).lookup k =
    if valuesOf k ps = [] then none else some (valuesOf k ps) := by
  induction ps using List.reverseRecOn with
  | nil => rfl
  | append_singleton ps p ih =>
    rw [group, List.foldl_append, List.foldl_cons, List.foldl_nil, ← group, append,
      valuesOf_append_singleton]
    by_cases hp : p.1 = k
    · subst hp
      rw [AList.lookup_insert, ih]
      by_cases hv : valuesOf p.1 ps = [] <;> simp [hv]
    · rw [AList.lookup_insert_ne (Ne.symm hp), ih, if_neg hp, List.append_nil]

lemma forall_entries {P : κ → List α → Prop} :
    (∀ e ∈ (group ps).entries, P e.1 e.2) ↔ ∀ p ∈ ps, P p.1 (valuesOf p.1 ps) := by
  constructor
  · intro h p hp
    have hv : valuesOf p.1 ps ≠ [] := List.ne_nil_of_mem (mem_valuesOf.mpr hp)
    have hl : (group ps).lookup p.1 = some (valuesOf p.1 ps) := by rw [lookup_group, if_neg hv]
    exact h ⟨p.1, valuesOf p.1 ps⟩ (AList.mem_lookup_iff.mp hl)
  · rintro h ⟨k, as⟩ he
    have hl : (group ps).lookup k = some as := AList.mem_lookup_iff.mpr he
    rw [lookup_group] at hl
    split_ifs at hl with hv
    cases hl
    obtain ⟨a, ha⟩ := List.exists_mem_of_ne_nil _ hv
    exact h (k, a) (mem_valuesOf.mp ha)

end Groups

abbrev Nested (κ κ' β : Type*) := AList fun _ : κ => AList fun _ : κ' => β

namespace Nested

def get (t : Nested κ κ' β) (k : κ) (j : κ') : Option β := (t.lookup k).bind (·.lookup j)

def set (t : Nested κ κ' β) (k : κ) (j : κ') (b : β) : Nested κ κ' β :=
  t.insert k (((t.lookup k).getD ∅).insert j b)

variable {t : Nested κ κ' β} {k k' : κ} {j j' : κ'} {b : β}

lemma get_set : (t.set k j b).get k' j' = if k' = k ∧ j' = j then some b else t.get k' j' := by
  by_cases hk : k' = k
  · subst hk
    rw [get, set, AList.lookup_insert, Option.bind_some]
    by_cases hj : j' = j
    · subst hj
      rw [AList.lookup_insert, if_pos ⟨rfl, rfl⟩]
    · rw [AList.lookup_insert_ne hj, if_neg fun h => hj h.2, get]
      cases t.lookup k' <;> rfl
  · rw [get, set, AList.lookup_insert_ne hk, if_neg fun h => hk h.1, get]

variable (split : ι ≃ κ × κ') (f : ι → α → Option β)

def entry (t : Nested κ κ' β) (e : (_ : ι) × α) : Option (Nested κ κ' β) :=
  (f e.1 e.2).map (t.set (split e.1).1 (split e.1).2)

def regroup (es : List ((_ : ι) × α)) : Option (Nested κ κ' β) := es.foldlM (entry split f) ∅

variable {split f} {es : List ((_ : ι) × α)}

lemma regroup_isSome : (regroup split f es).isSome ↔ ∀ e ∈ es, (f e.1 e.2).isSome := by
  have fold (t : Nested κ κ' β) :
      (es.foldlM (entry split f) t).isSome ↔ ∀ e ∈ es, (f e.1 e.2).isSome := by
    induction es generalizing t with
    | nil => simp
    | cons e es ih =>
      rw [List.foldlM_cons, List.forall_mem_cons]
      cases hf : f e.1 e.2 with
      | none => simp [entry, hf]
      | some b => simpa [entry, hf] using ih _
  exact fold ∅

variable [DecidableEq ι]

lemma get_foldlM {t₀ : Nested κ κ' β} (hn : es.NodupKeys)
    (h : es.foldlM (entry split f) t₀ = some t) (k : κ) (j : κ') :
    t.get k j = match es.dlookup (split.symm (k, j)) with
      | some a => f (split.symm (k, j)) a
      | none => t₀.get k j := by
  induction es generalizing t₀ with
  | nil =>
    cases Option.some.inj h
    rfl
  | cons e es ih =>
    obtain ⟨i, a⟩ := e
    obtain ⟨hi, hes⟩ := List.nodupKeys_cons.mp hn
    rw [List.foldlM_cons] at h
    obtain ⟨t₁, ht₁, h⟩ := Option.bind_eq_some_iff.mp h
    obtain ⟨b, hb, rfl⟩ := Option.map_eq_some_iff.mp ht₁
    rw [ih hes h, get_set]
    by_cases hk : split.symm (k, j) = i
    · have hs : (k, j) = split i := split.symm_apply_eq.mp hk
      rw [hk, List.dlookup_eq_none.mpr hi, List.dlookup_cons_eq, ← hs]
      simpa using hb.symm
    · have hs : ¬ (k = (split i).1 ∧ j = (split i).2) := by
        rintro ⟨rfl, rfl⟩
        exact hk (split.symm_apply_apply i)
      rw [List.dlookup_cons_ne _ _ hk, if_neg hs]

lemma get_regroup (hn : es.NodupKeys) (h : regroup split f es = some t) (k : κ) (j : κ') :
    t.get k j = (es.dlookup (split.symm (k, j))).bind (f (split.symm (k, j))) := by
  rw [get_foldlM hn h]
  cases es.dlookup (split.symm (k, j)) <;> rfl

end Nested

end NetworkPing
