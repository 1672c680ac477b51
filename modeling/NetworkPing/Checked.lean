import Mathlib.Data.List.FinRange
import Mathlib.Tactic.TypeStar

/-! Computations together with the side conditions of the operations they execute.
A computation goes on after a condition that fails, so that each of them is recorded. -/

namespace NetworkPing

structure Checked (κ α : Type*) where
  checks : List κ
  value : α

namespace Checked

variable {κ α β : Type*}

instance {κ : Type*} : Monad (Checked κ) where
  pure a := ⟨[], a⟩
  bind x f := ⟨x.checks ++ (f x.value).checks, (f x.value).value⟩

def check (k : κ) (a : α) : Checked κ α := ⟨[k], a⟩

def ofFn {n : ℕ} (f : Fin n → Checked κ α) : Checked κ (Vector α n) where
  checks := (List.finRange n).flatMap fun i => (f i).checks
  value := Vector.ofFn fun i => (f i).value

def All (P : κ → Prop) (x : Checked κ α) : Prop := ∀ k ∈ x.checks, P k

variable {P : κ → Prop} {x : Checked κ α} {k : κ}

@[simp] lemma all_pure (a : α) : All P (pure a : Checked κ α) := by
  simp [All, pure]

@[simp] lemma all_check (a : α) : All P (check k a) ↔ P k := by
  simp [All, check]

@[simp] lemma value_pure (a : α) : (pure a : Checked κ α).value = a := rfl

@[simp] lemma value_check (a : α) : (check k a).value = a := rfl

@[simp] lemma all_bind {κ : Type*} {α β : Type _} {P : κ → Prop} (x : Checked κ α)
    (f : α → Checked κ β) : All P (x >>= f) ↔ All P x ∧ All P (f x.value) :=
  List.forall_mem_append

@[simp] lemma value_bind {κ : Type*} {α β : Type _} (x : Checked κ α) (f : α → Checked κ β) :
    (x >>= f).value = (f x.value).value := rfl

@[simp] lemma all_ofFn {n : ℕ} (f : Fin n → Checked κ α) :
    All P (ofFn f) ↔ ∀ i, All P (f i) := by
  simp only [All, ofFn, List.mem_flatMap, List.mem_finRange, true_and]
  constructor
  · exact fun h i k hk => h k ⟨i, hk⟩
  · rintro h k ⟨i, hk⟩
    exact h i k hk

lemma all_forM (xs : List α) (f : α → Checked κ Unit) :
    All P (forM xs f) ↔ ∀ a ∈ xs, All P (f a) := by
  induction xs with
  | nil => simp
  | cons a xs ih => simp [ih]

end Checked

end NetworkPing
