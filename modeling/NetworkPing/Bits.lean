import Mathlib.Data.Nat.Bitwise
import Mathlib.Data.Nat.Log
import Mathlib.Tactic

namespace NetworkPing.Bits

def smear (n u : ℕ) : ℕ := u ||| u >>> n

def Smeared (n v u : ℕ) : Prop := ∀ i, u.testBit i ↔ ∃ j < n, v.testBit (i + j)

variable {m n k u v : ℕ}

lemma smeared_self (v : ℕ) : Smeared 1 v v := by
  intro i
  constructor
  · intro h
    exact ⟨0, Nat.one_pos, h⟩
  · rintro ⟨j, hj, h⟩
    rwa [Nat.lt_one_iff.mp hj] at h

lemma Smeared.smear (h : Smeared n v u) (hm : m ≤ n) : Smeared (n + m) v (smear m u) := by
  intro i
  rw [Bits.smear, Nat.testBit_or, Nat.testBit_shiftRight, Bool.or_eq_true, h, h]
  constructor
  · rintro (⟨j, hj, hv⟩ | ⟨j, hj, hv⟩)
    · exact ⟨j, by omega, hv⟩
    · refine ⟨m + j, by omega, ?_⟩
      rwa [show i + (m + j) = m + i + j by omega]
  · rintro ⟨j, hj, hv⟩
    rcases lt_or_ge j n with hn | hn
    · exact Or.inl ⟨j, hn, hv⟩
    · refine Or.inr ⟨j - m, by omega, ?_⟩
      rwa [show m + i + (j - m) = i + j by omega]

lemma testBit_above_log2 (hk : v.log2 < k) : v.testBit k = false := by
  apply Nat.testBit_eq_false_of_lt
  calc v < 2 ^ (v.log2 + 1) := Nat.lt_log2_self
    _ ≤ 2 ^ k := Nat.pow_le_pow_right Nat.two_pos hk

lemma Smeared.eq (h : Smeared n v u) (hv : v ≠ 0) (hn : v < 2 ^ n) : u = 2 ^ (v.log2 + 1) - 1 := by
  have hlog : v.log2 < n := (Nat.log2_lt hv).mpr hn
  apply Nat.eq_of_testBit_eq
  intro i
  rw [Nat.testBit_two_pow_sub_one, Bool.eq_iff_iff, h, decide_eq_true_iff]
  constructor
  · rintro ⟨j, -, hj⟩
    by_contra hi
    rw [testBit_above_log2 (by omega)] at hj
    cases hj
  · intro hi
    refine ⟨v.log2 - i, by omega, ?_⟩
    rw [show i + (v.log2 - i) = v.log2 by omega]
    exact Nat.testBit_log2 hv

lemma ones_sub_half (k : ℕ) : 2 ^ (k + 1) - 1 - (2 ^ (k + 1) - 1) >>> 1 = 2 ^ k := by
  have hp : 0 < 2 ^ k := Nat.two_pow_pos k
  rw [Nat.shiftRight_eq_div_pow, Nat.pow_one]
  omega

lemma log2_mono (hu : u ≠ 0) (h : u ≤ v) : u.log2 ≤ v.log2 := by
  rw [Nat.le_log2 (by omega)]
  exact (Nat.log2_self_le hu).trans h

end NetworkPing.Bits
