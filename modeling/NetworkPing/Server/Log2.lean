import NetworkPing.Bits

namespace NetworkPing

def tab64 : List ℕ := [
  63,  0, 58,  1, 59, 47, 53,  2,
  60, 39, 48, 27, 54, 33, 42,  3,
  61, 51, 37, 40, 49, 18, 28, 20,
  55, 30, 34, 11, 43, 14, 22,  4,
  62, 57, 46, 52, 38, 26, 32, 41,
  50, 36, 17, 19, 29, 10, 13, 21,
  56, 45, 25, 31, 35, 16,  9, 12,
  44, 24, 15,  8, 23,  7,  6,  5]

namespace Log2

def smear (value : UInt64) : UInt64 :=
  let value := value ||| value >>> 1
  let value := value ||| value >>> 2
  let value := value ||| value >>> 4
  let value := value ||| value >>> 8
  let value := value ||| value >>> 16
  value ||| value >>> 32

def slot (power : UInt64) : ℕ := ((power * 0x07EDD5E59A4E28C2) >>> 58).toNat

def index (value : UInt64) : ℕ := slot (value - value >>> 1)

end Log2

def log2_64 (value : UInt64) : Option ℕ := tab64[Log2.index (Log2.smear value)]?

namespace Log2

variable {u v : UInt64} {k n : ℕ}

lemma toNat_smear_step (v : UInt64) (n : UInt64) (h : n.toNat < 64) :
    (v ||| v >>> n).toNat = Bits.smear n.toNat v.toNat := by
  rw [UInt64.toNat_or, UInt64.toNat_shiftRight, Nat.mod_eq_of_lt h]
  rfl

lemma smeared (v : UInt64) : Bits.Smeared 64 v.toNat (smear v).toNat := by
  have h := Bits.smeared_self v.toNat
  have h := h.smear (m := 1) (by omega)
  have h := h.smear (m := 2) (by omega)
  have h := h.smear (m := 4) (by omega)
  have h := h.smear (m := 8) (by omega)
  have h := h.smear (m := 16) (by omega)
  have h := h.smear (m := 32) (by omega)
  simp only [smear]
  iterate 6 rw [toNat_smear_step _ _ (by decide)]
  exact h

lemma highest (hv : 1 ≤ v) : smear v - smear v >>> 1 = UInt64.ofNat (2 ^ v.toNat.log2) := by
  have h1 : 1 ≤ v.toNat := UInt64.le_iff_toNat_le.mp hv
  have hs := (smeared v).eq (by omega) v.toNat_lt
  have hk : v.toNat.log2 < 64 := (Nat.log2_lt (by omega)).mpr v.toNat_lt
  have hp : 2 ^ v.toNat.log2 < 2 ^ 64 := Nat.pow_lt_pow_right (by omega) hk
  have hshift : (smear v >>> 1).toNat = (smear v).toNat >>> 1 := UInt64.toNat_shiftRight ..
  apply UInt64.toNat_inj.mp
  rw [UInt64.toNat_sub_of_le, hshift, hs, Bits.ones_sub_half, UInt64.toNat_ofNat_of_lt' hp]
  rw [UInt64.le_iff_toNat_le, hshift]
  exact Nat.shiftRight_le _ _

lemma index_lt (v : UInt64) : index v < tab64.length := by
  have h := UInt64.toNat_lt ((v - v >>> 1) * 0x07EDD5E59A4E28C2)
  rw [index, slot, UInt64.toNat_shiftRight, Nat.shiftRight_eq_div_pow]
  exact Nat.div_lt_of_lt_mul h

lemma tab64_slot : ∀ k : Fin 64, tab64[slot (UInt64.ofNat (2 ^ k.val))]? = some k.val := by
  decide +kernel

end Log2

lemma log2_64_eq {v : UInt64} (hv : 1 ≤ v) : log2_64 v = some v.toNat.log2 := by
  have h1 : 1 ≤ v.toNat := UInt64.le_iff_toNat_le.mp hv
  have hk : v.toNat.log2 < 64 := (Nat.log2_lt (by omega)).mpr v.toNat_lt
  rw [log2_64, Log2.index, Log2.highest hv]
  exact Log2.tab64_slot ⟨v.toNat.log2, hk⟩

theorem log2_64_correct (v : UInt64) (hv : 1 ≤ v) :
    Log2.index (Log2.smear v) < tab64.length ∧
    ∃ k, log2_64 v = some k ∧ 2 ^ k ≤ v.toNat ∧ v.toNat < 2 ^ (k + 1) ∧
      ∀ w, v ≤ w → ∃ j, log2_64 w = some j ∧ k ≤ j := by
  have h1 : 1 ≤ v.toNat := UInt64.le_iff_toNat_le.mp hv
  refine ⟨Log2.index_lt _, v.toNat.log2, log2_64_eq hv, Nat.log2_self_le (by omega),
    Nat.lt_log2_self, ?_⟩
  intro w hw
  refine ⟨w.toNat.log2, log2_64_eq (UInt64.le_trans hv hw), ?_⟩
  exact Bits.log2_mono (by omega) (UInt64.le_iff_toNat_le.mp hw)

theorem log2_64_correct_large :
    Log2.index (Log2.smear 0x8000000000000001) < tab64.length ∧
    ∃ k, log2_64 0x8000000000000001 = some k ∧ 2 ^ k ≤ (0x8000000000000001 : UInt64).toNat ∧
      (0x8000000000000001 : UInt64).toNat < 2 ^ (k + 1) ∧
      ∀ w, 0x8000000000000001 ≤ w → ∃ j, log2_64 w = some j ∧ k ≤ j :=
  log2_64_correct 0x8000000000000001 (by decide)

lemma log2_64_zero : log2_64 0 = some 63 := by decide +kernel

end NetworkPing
