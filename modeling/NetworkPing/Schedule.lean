import Mathlib.Data.List.Basic
import NetworkPing.Machine

/-! Runs of a machine whose labels are labels of one of its parts, or of none: what each part
does in a run, and how runs of the parts are put together to one of the machine. -/

namespace NetworkPing.Schedule

open Machine (run run_nil run_trans run_step)

variable {S L K ι : Type*} [DecidableEq ι] {step : S → L → Option S} {part : L → Option (ι × K)}
  {s t u : S} {l : L} {ls ks : List L} {i : ι} {k : K}

def own (part : L → Option (ι × K)) (i : ι) (l : L) : Option K :=
  (part l).bind fun x => if x.1 = i then some x.2 else none

def share (part : L → Option (ι × K)) (i : ι) (ls : List L) : List K := ls.filterMap (own part i)

lemma share_append : share part i (ls ++ ks) = share part i ls ++ share part i ks :=
  List.filterMap_append

lemma own_none (h : part l = none) : own part i l = none := by
  rw [own, h, Option.bind_none]

lemma share_quiet (h : ∀ l ∈ ls, part l = none) : share part i ls = [] :=
  List.filterMap_eq_nil_iff.mpr fun l hl => own_none (h l hl)

lemma share_map (f : K → L) (hf : ∀ k, part (f k) = some (i, k)) (js : List K) (j : ι) :
    share part j (js.map f) = if j = i then js else [] := by
  have hown (k : K) : own part j (f k) = if j = i then some k else none := by
    rw [own, hf, Option.bind_some]
    simp only [eq_comm]
  rw [share, List.filterMap_map]
  by_cases hj : j = i
  · rw [if_pos hj]
    refine (List.filterMap_congr fun k _ => ?_).trans List.filterMap_some
    rw [Function.comp_apply, hown, if_pos hj]
  · rw [if_neg hj]
    refine List.filterMap_eq_nil_iff.mpr fun k _ => ?_
    rw [Function.comp_apply, hown, if_neg hj]

def Plays (step : S → L → Option S) (part : L → Option (ι × K)) (s t : S) (runs : ι → List K) :
    Prop :=
  ∃ ls, run step s ls = some t ∧ ∀ i, share part i ls = runs i

variable {runs runs' : ι → List K}

lemma Plays.trans (h : Plays step part s t runs) (h' : Plays step part t u runs') :
    Plays step part s u fun i => runs i ++ runs' i := by
  obtain ⟨ls, hr, hs⟩ := h
  obtain ⟨ks, hr', hs'⟩ := h'
  exact ⟨ls ++ ks, run_trans hr hr', fun i => by rw [share_append, hs, hs']⟩

def Quietly (step : S → L → Option S) (part : L → Option (ι × K)) (s t : S) : Prop :=
  Plays step part s t fun _ => []

lemma Quietly.refl (s : S) : Quietly step part s s := ⟨[], run_nil, fun _ => rfl⟩

lemma quietly_step (h : step s l = some t) (hl : part l = none) : Quietly step part s t :=
  ⟨[l], run_step h run_nil, fun _ => share_quiet (by simpa using hl)⟩

lemma Quietly.trans (h : Quietly step part s t) (h' : Quietly step part t u) :
    Quietly step part s u := Plays.trans h h'

lemma Quietly.plays (h : Quietly step part s t) (h' : Plays step part t u runs) :
    Plays step part s u runs := Plays.trans h h'

lemma Plays.quietly (h : Plays step part s t runs) (h' : Quietly step part t u) :
    Plays step part s u runs := by
  simpa only [List.append_nil] using Plays.trans h h'

lemma plays_each {part : L → Option (ℕ × K)} (st : ℕ → S) (runs : ℕ → List K) {n : ℕ}
    (h : ∀ k < n, Plays step part (st k) (st (k + 1)) fun i => if i = k then runs k else []) :
    Plays step part (st 0) (st n) fun i => if i < n then runs i else [] := by
  induction n with
  | zero => exact Quietly.refl (st 0)
  | succ n ih =>
    have hfirst := ih fun k hk => h k (Nat.lt_succ_of_lt hk)
    obtain ⟨ls, hr, hs⟩ := hfirst.trans (h n n.lt_succ_self)
    refine ⟨ls, hr, fun i => (hs i).trans ?_⟩
    dsimp only
    obtain hi | rfl | hi := Nat.lt_trichotomy i n
    · rw [if_pos hi, if_neg (Nat.ne_of_lt hi), if_pos (Nat.lt_succ_of_lt hi), List.append_nil]
    · rw [if_neg (Nat.lt_irrefl i), if_pos rfl, if_pos i.lt_succ_self, List.nil_append]
    · rw [if_neg (by omega), if_neg (by omega), if_neg (by omega), List.nil_append]

lemma quietly_each (st : ℕ → S) {n : ℕ}
    (h : ∀ k < n, Quietly step part (st k) (st (k + 1))) : Quietly step part (st 0) (st n) := by
  induction n with
  | zero => exact .refl (st 0)
  | succ n ih => exact (ih fun k hk => h k (Nat.lt_succ_of_lt hk)).trans (h n n.lt_succ_self)

end NetworkPing.Schedule
