import Mathlib.Data.List.AList
import Mathlib.Algebra.BigOperators.Group.List.Basic
import Mathlib.Tactic

namespace NetworkPing

variable {κ : Type*}

abbrev Counter (κ : Type*) := AList fun _ : κ => ℕ

namespace Counter

def values (m : Counter κ) : List ℕ := m.entries.map Sigma.snd

def total (m : Counter κ) : ℕ := m.values.sum

@[simp] lemma values_length (m : Counter κ) : m.values.length = m.keys.length := by
  simp [values, AList.keys, List.keys]

@[simp] lemma total_empty : total (∅ : Counter κ) = 0 := rfl

variable [DecidableEq κ]

def get (m : Counter κ) (k : κ) : ℕ := (m.lookup k).getD 0

def add (m : Counter κ) (k : κ) (n : ℕ) : Counter κ := m.insert k (m.get k + n)

def merge (m m' : Counter κ) : Counter κ := m'.entries.foldl (fun m e => m.add e.1 e.2) m

variable {m : Counter κ} {j k : κ} {n : ℕ}

@[simp] lemma mem_add : j ∈ m.add k n ↔ j = k ∨ j ∈ m := AList.mem_insert m

lemma total_split : m.total = m.get k + ((List.kerase k m.entries).map Sigma.snd).sum := by
  by_cases hk : k ∈ m
  · obtain ⟨v, xs, ys, hx, he, hr⟩ := List.exists_of_kerase (AList.mem_keys.mp hk)
    have hv : m.lookup k = some v := AList.mem_lookup_iff.mpr (by simp [he])
    simp only [total, values, get, hv, Option.getD_some, hr]
    rw [he]
    simp only [List.map_append, List.map_cons, List.sum_append, List.sum_cons]
    omega
  · have hk' : k ∉ m.entries.keys := hk
    simp [total, values, get, AList.lookup_eq_none.mpr hk, List.kerase_of_notMem_keys hk']

@[simp] lemma total_add : (m.add k n).total = m.total + n := by
  have hs := total_split (m := m) (k := k)
  simp only [total, values, add, AList.entries_insert, List.map_cons,
    List.sum_cons] at hs ⊢
  omega

@[simp] lemma total_merge (m m' : Counter κ) : (m.merge m').total = m.total + m'.total := by
  have fold (es : List ((_ : κ) × ℕ)) (m : Counter κ) :
      (es.foldl (fun m e => m.add e.1 e.2) m).total = m.total + (es.map Sigma.snd).sum := by
    induction es generalizing m with
    | nil => rfl
    | cons e es ih =>
      rw [List.foldl_cons, ih, total_add, List.map_cons, List.sum_cons, Nat.add_assoc]
  exact fold m'.entries m

lemma lookup_eq (m : Counter κ) (k : κ) : m.lookup k = if k ∈ m then some (m.get k) else none := by
  split_ifs with h
  · obtain ⟨n, hn⟩ := Option.isSome_iff_exists.mp (AList.lookup_isSome.mpr h)
    rw [get, hn, Option.getD_some]
  · exact AList.lookup_eq_none.mpr h

lemma get_add : (m.add k n).get j = m.get j + if j = k then n else 0 := by
  split_ifs with h
  · rw [h, add, get, AList.lookup_insert, Option.getD_some]
  · rw [add, get, AList.lookup_insert_ne h, get, Nat.add_zero]

lemma mem_merge {m' : Counter κ} : k ∈ m.merge m' ↔ k ∈ m ∨ k ∈ m' := by
  have fold (es : List ((_ : κ) × ℕ)) (m : Counter κ) :
      k ∈ es.foldl (fun m e => m.add e.1 e.2) m ↔ k ∈ m ∨ k ∈ es.keys := by
    induction es generalizing m with
    | nil => simp
    | cons e es ih =>
      rw [List.foldl_cons, ih, mem_add, List.keys_cons, List.mem_cons, ← or_assoc,
        or_comm (a := k ∈ m)]
  exact fold m'.entries m

lemma sum_entries {es : List ((_ : κ) × ℕ)} (h : es.NodupKeys) :
    (es.map fun e => if k = e.1 then e.2 else 0).sum = (es.dlookup k).getD 0 := by
  induction es with
  | nil => rfl
  | cons e es ih =>
    obtain ⟨hk, hes⟩ := List.nodupKeys_cons.mp h
    rw [List.map_cons, List.sum_cons, ih hes]
    split_ifs with he
    · subst he
      rw [List.dlookup_cons_eq, List.dlookup_eq_none.mpr hk]
      rfl
    · rw [List.dlookup_cons_ne _ _ he, Nat.zero_add]

lemma get_merge {m' : Counter κ} : (m.merge m').get k = m.get k + m'.get k := by
  have fold (es : List ((_ : κ) × ℕ)) (m : Counter κ) :
      (es.foldl (fun m e => m.add e.1 e.2) m).get k =
        m.get k + (es.map fun e => if k = e.1 then e.2 else 0).sum := by
    induction es generalizing m with
    | nil => rfl
    | cons e es ih =>
      rw [List.foldl_cons, ih, get_add, List.map_cons, List.sum_cons, Nat.add_assoc]
  rw [merge, fold, sum_entries m'.nodupKeys]
  rfl

def Counts (m : Counter κ) (xs : List κ) : Prop := ∀ k, (k ∈ m ↔ k ∈ xs) ∧ m.get k = xs.count k

variable {m' : Counter κ} {xs ys : List κ}

lemma counts_empty : Counts (∅ : Counter κ) [] := fun k => ⟨by simp, rfl⟩

lemma Counts.perm (h : Counts m xs) (hp : xs.Perm ys) : Counts m ys := fun k =>
  ⟨(h k).1.trans hp.mem_iff, (h k).2.trans (hp.count_eq k)⟩

lemma Counts.add (h : Counts m xs) (k : κ) : Counts (m.add k 1) (xs ++ [k]) := by
  intro j
  rw [mem_add, (h j).1, get_add, (h j).2, List.mem_append, List.mem_singleton, or_comm,
    List.count_append, List.count_singleton]
  exact ⟨Iff.rfl, by simp only [beq_iff_eq, eq_comm (a := k)]⟩

lemma counts_foldl (xs : List κ) : Counts (xs.foldl (fun m k => m.add k 1) ∅) xs := by
  induction xs using List.reverseRecOn with
  | nil => exact counts_empty
  | append_singleton xs k ih =>
    rw [List.foldl_append]
    exact ih.add k

lemma Counts.merge (h : Counts m xs) (h' : Counts m' ys) : Counts (m.merge m') (xs ++ ys) := by
  intro k
  rw [mem_merge, (h k).1, (h' k).1, get_merge, (h k).2, (h' k).2, List.mem_append,
    List.count_append]
  exact ⟨Iff.rfl, rfl⟩

lemma Counts.lookup_eq (h : Counts m xs) (h' : Counts m' xs) (k : κ) :
    m.lookup k = m'.lookup k := by
  simp only [Counter.lookup_eq, (h k).1, (h k).2, (h' k).1, (h' k).2]

lemma values_eq (m : Counter κ) : m.values = m.keys.map m.get := by
  rw [values, AList.keys, List.keys, List.map_map]
  apply List.map_congr_left
  intro e he
  have hl : m.lookup e.1 = some e.2 := AList.mem_lookup_iff.mpr he
  rw [Function.comp_apply, get, hl, Option.getD_some]

lemma Counts.keys (h : Counts m xs) : m.keys.Perm xs.dedup := by
  rw [List.perm_ext_iff_of_nodup m.keys_nodup xs.nodup_dedup]
  intro k
  rw [List.mem_dedup]
  exact AList.mem_keys.symm.trans (h k).1

lemma Counts.values (h : Counts m xs) : m.values.Perm (xs.dedup.map fun k => xs.count k) := by
  rw [values_eq]
  refine (h.keys.map m.get).trans (List.Perm.of_eq ?_)
  exact List.map_congr_left fun k _ => (h k).2

lemma Counts.total (h : Counts m xs) : m.total = xs.length := by
  rw [Counter.total, h.values.sum_eq, List.sum_map_count_dedup_eq_length]

lemma Counts.weighted {R : Type*} [Semiring R] (h : Counts m xs) (f : κ → R) :
    (m.entries.map fun e => (e.2 : R) * f e.1).sum = (xs.map f).sum := by
  have hkeys : (m.entries.map fun e => (e.2 : R) * f e.1) =
      m.keys.map fun k => (xs.count k : R) * f k := by
    rw [AList.keys, List.keys, List.map_map]
    apply List.map_congr_left
    intro e he
    rw [Function.comp_apply, ← (h e.1).2, get, AList.mem_lookup_iff.mpr he, Option.getD_some]
  have hset : xs.dedup.toFinset = xs.toFinset := by
    ext k
    rw [List.mem_toFinset, List.mem_dedup, List.mem_toFinset]
  rw [hkeys, (h.keys.map _).sum_eq, ← List.sum_toFinset _ xs.nodup_dedup, hset,
    Finset.sum_list_map_count]
  simp only [nsmul_eq_mul]

end Counter

end NetworkPing
