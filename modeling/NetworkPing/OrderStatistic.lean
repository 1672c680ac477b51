import Mathlib.Data.List.Sort
import Mathlib.Order.Basic
import Mathlib.Tactic

namespace NetworkPing

variable {α : Type*} [LinearOrder α] {xs ys : List α} {i j : ℕ} {x y : α}

def IsOrderStatistic (xs : List α) (i : ℕ) (x : α) : Prop :=
  xs.countP (· < x) ≤ i ∧ i < xs.countP (· ≤ x)

lemma countP_le_countP_lt (xs : List α) (h : x < y) :
    xs.countP (· ≤ x) ≤ xs.countP (· < y) :=
  List.countP_mono_left fun z _ hz => by simpa using (of_decide_eq_true hz).trans_lt h

lemma IsOrderStatistic.mono (hx : IsOrderStatistic xs i x) (hy : IsOrderStatistic xs j y)
    (hij : i ≤ j) : x ≤ y := by
  by_contra h
  have := countP_le_countP_lt xs (not_le.mp h)
  have := hx.1
  have := hy.2
  omega

lemma IsOrderStatistic.unique (hx : IsOrderStatistic xs i x) (hy : IsOrderStatistic xs i y) :
    x = y :=
  le_antisymm (hx.mono hy le_rfl) (hy.mono hx le_rfl)

lemma IsOrderStatistic.perm (h : IsOrderStatistic xs i x) (hp : xs.Perm ys) :
    IsOrderStatistic ys i x := by
  rwa [IsOrderStatistic, ← hp.countP_eq, ← hp.countP_eq]

lemma getElem_le_getElem (hs : xs.Pairwise (· ≤ ·)) (hij : i ≤ j) (hj : j < xs.length) :
    xs[i] ≤ xs[j] := by
  obtain rfl | hlt := hij.eq_or_lt
  · exact le_rfl
  · exact List.pairwise_iff_getElem.mp hs i j _ hj hlt

lemma isOrderStatistic_getElem (hs : xs.Pairwise (· ≤ ·)) (hi : i < xs.length) :
    IsOrderStatistic xs i xs[i] := by
  have hdrop : (xs.drop i).countP (· < xs[i]) = 0 := by
    rw [List.countP_eq_zero]
    intro y hy
    obtain ⟨j, hj, rfl⟩ := List.mem_iff_getElem.mp hy
    rw [List.getElem_drop, decide_eq_true_eq, not_lt]
    exact getElem_le_getElem hs (Nat.le_add_right i j) _
  have htake : (xs.take (i + 1)).countP (· ≤ xs[i]) = i + 1 := by
    refine (List.countP_eq_length.mpr fun y hy => ?_).trans (List.length_take_of_le hi)
    obtain ⟨j, hj, rfl⟩ := List.mem_iff_getElem.mp hy
    rw [List.getElem_take, decide_eq_true_eq]
    rw [List.length_take] at hj
    exact getElem_le_getElem hs (by omega) hi
  constructor
  · have hle := List.countP_le_length (p := (· < xs[i])) (l := xs.take i)
    have hsplit : (xs.take i ++ xs.drop i).countP (· < xs[i]) = _ := List.countP_append
    rw [List.take_append_drop, hdrop] at hsplit
    rw [List.length_take] at hle
    omega
  · have := (List.take_sublist (i + 1) xs).countP_le (p := (· ≤ xs[i]))
    omega

lemma isOrderStatistic_mergeSort (hi : i < xs.mergeSort.length) :
    IsOrderStatistic xs i xs.mergeSort[i] := by
  refine (isOrderStatistic_getElem ?_ hi).perm (List.mergeSort_perm xs _)
  exact List.pairwise_mergeSort' (· ≤ ·) xs

end NetworkPing
