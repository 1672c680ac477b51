import Mathlib.Algebra.Order.Floor.Ring
import Mathlib.Data.Int.Log
import Mathlib.Data.Rat.Floor
import Mathlib.Tactic.Linarith
import Mathlib.Tactic.NormNum
import Mathlib.Tactic.Positivity

namespace NetworkPing.Binary64

def roundEven (x : ℚ) : ℤ :=
  if Int.fract x < 1 / 2 ∨ Int.fract x = 1 / 2 ∧ Even ⌊x⌋ then ⌊x⌋ else ⌊x⌋ + 1

-- of the last of the 53 digits of `q`
def exponent (q : ℚ) : ℤ := max (Int.log 2 q - 52) (-1074)

def magnitude (q : ℚ) : ℚ := roundEven (q / 2 ^ exponent q) * 2 ^ exponent q

def nearest (q : ℚ) : ℚ := if q < 0 then -magnitude (-q) else magnitude q

-- `none` is the infinity of the sign of `q`
@[irreducible] def round (q : ℚ) : Option ℚ :=
  if |nearest q| < 2 ^ 1024 then some (nearest q) else none

-- the exponent is rounded as well
def power (x : ℚ) (n : ℤ) : Option ℚ := (round n).bind fun y => round (x ^ ⌊y⌋)

variable {p q v w x y : ℚ} {e k m n : ℤ}

lemma floor_le_roundEven : ⌊x⌋ ≤ roundEven x := by
  rw [roundEven]
  split_ifs <;> omega

lemma roundEven_le_succ : roundEven x ≤ ⌊x⌋ + 1 := by
  rw [roundEven]
  split_ifs <;> omega

lemma roundEven_mono (h : x ≤ y) : roundEven x ≤ roundEven y := by
  obtain hlt | heq := (Int.floor_le_floor h).lt_or_eq
  · exact roundEven_le_succ.trans (Int.add_one_le_iff.mpr hlt |>.trans floor_le_roundEven)
  · have hf : Int.fract x ≤ Int.fract y := by
      rw [Int.fract, Int.fract, heq]
      linarith
    rw [roundEven, roundEven, heq]
    split_ifs with hx hy hy
    · exact le_rfl
    · omega
    · obtain hy | ⟨hy, he⟩ := hy
      · exact absurd (.inl (hf.trans_lt hy)) hx
      · obtain hlt | heq' := (hy ▸ hf).lt_or_eq
        · exact absurd (.inl hlt) hx
        · exact absurd (.inr ⟨heq', he⟩) hx
    · exact le_rfl

lemma roundEven_intCast (n : ℤ) : roundEven n = n := by
  simp [roundEven]

lemma roundEven_le (h : x ≤ n) : roundEven x ≤ n := roundEven_intCast n ▸ roundEven_mono h

lemma le_roundEven (h : n ≤ x) : n ≤ roundEven x := roundEven_intCast n ▸ roundEven_mono h

lemma roundEven_pos_iff (h : 0 ≤ x) : 0 < roundEven x ↔ 1 / 2 < x := by
  by_cases h1 : 1 ≤ x
  · have : 1 ≤ roundEven x := le_roundEven (by exact_mod_cast h1)
    exact ⟨fun _ => by linarith, fun _ => by omega⟩
  have hf : ⌊x⌋ = 0 := Int.floor_eq_zero_iff.mpr ⟨h, not_le.mp h1⟩
  have hx : Int.fract x = x := by rw [Int.fract, hf, Int.cast_zero, sub_zero]
  rw [roundEven, hf, hx]
  split_ifs with hc
  · simp only [lt_self_iff_false, false_iff, not_lt]
    exact hc.elim le_of_lt fun hc => hc.1.le
  · simp only [zero_add, zero_lt_one, true_iff]
    simp only [Even.zero, and_true, not_or] at hc
    exact lt_of_le_of_ne (not_lt.mp hc.1) (Ne.symm hc.2)

lemma two_zpow_pos (e : ℤ) : (0 : ℚ) < 2 ^ e := zpow_pos two_pos e

lemma zpow_le_log (h : 0 < q) : (2 : ℚ) ^ Int.log 2 q ≤ q := by
  simpa using Int.zpow_log_le_self (R := ℚ) one_lt_two h

lemma lt_zpow_log (q : ℚ) : q < (2 : ℚ) ^ (Int.log 2 q + 1) := by
  simpa using Int.lt_zpow_succ_log_self (R := ℚ) one_lt_two q

lemma exponent_mono (h : 0 < p) (hpq : p ≤ q) : exponent p ≤ exponent q :=
  max_le_max_right _ (Int.sub_le_sub_right (Int.log_mono_right h hpq) _)

lemma magnitude_le (hn : q ≤ n * 2 ^ exponent q) : magnitude q ≤ n * 2 ^ exponent q := by
  refine mul_le_mul_of_nonneg_right (Int.cast_le.mpr (roundEven_le ?_)) (two_zpow_pos _).le
  rwa [div_le_iff₀ (two_zpow_pos _)]

lemma le_magnitude (hn : n * 2 ^ exponent q ≤ q) : n * 2 ^ exponent q ≤ magnitude q := by
  refine mul_le_mul_of_nonneg_right (Int.cast_le.mpr (le_roundEven ?_)) (two_zpow_pos _).le
  rwa [le_div_iff₀ (two_zpow_pos _)]

lemma zpow_eq_mul (h : e ≤ k) : ((2 ^ (k - e).toNat : ℤ) : ℚ) * 2 ^ e = 2 ^ k := by
  have hz : ((2 ^ (k - e).toNat : ℤ) : ℚ) = 2 ^ (k - e) := by
    push_cast
    rw [← zpow_natCast, Int.toNat_of_nonneg (by omega)]
  rw [hz, ← zpow_add₀ two_ne_zero, Int.sub_add_cancel]

lemma magnitude_le_zpow (h : q ≤ 2 ^ k) (he : exponent q ≤ k) : magnitude q ≤ 2 ^ k := by
  rw [← zpow_eq_mul he] at h ⊢
  exact magnitude_le h

lemma zpow_le_magnitude (h : 2 ^ k ≤ q) (he : exponent q ≤ k) : 2 ^ k ≤ magnitude q := by
  rw [← zpow_eq_mul he] at h ⊢
  exact le_magnitude h

lemma magnitude_nonneg (h : 0 ≤ q) : 0 ≤ magnitude q := by
  have := le_magnitude (n := 0) (q := q) (by simpa using h)
  simpa using this

lemma magnitude_zero : magnitude 0 = 0 := by
  have : roundEven 0 = 0 := by exact_mod_cast roundEven_intCast 0
  rw [magnitude, zero_div, this, Int.cast_zero, zero_mul]

lemma magnitude_mono (h : 0 ≤ p) (hpq : p ≤ q) : magnitude p ≤ magnitude q := by
  obtain rfl | hp := h.eq_or_lt
  · exact magnitude_zero.trans_le (magnitude_nonneg hpq)
  obtain he | he := (exponent_mono hp hpq).eq_or_lt
  · rw [magnitude, magnitude, he]
    refine mul_le_mul_of_nonneg_right (Int.cast_le.mpr (roundEven_mono ?_)) (two_zpow_pos _).le
    exact div_le_div_of_nonneg_right hpq (two_zpow_pos _).le
  · -- the power of two at the binade of `q` lies between the two
    have hlog : exponent q = Int.log 2 q - 52 ∧ Int.log 2 p + 1 ≤ Int.log 2 q := by
      rw [exponent, exponent] at he
      rw [exponent]
      omega
    obtain ⟨hlog, hlt⟩ := hlog
    have hpk : p ≤ 2 ^ Int.log 2 q :=
      (lt_zpow_log p).le.trans (zpow_le_zpow_right₀ one_le_two hlt)
    exact (magnitude_le_zpow hpk (by omega)).trans
      (zpow_le_magnitude (zpow_le_log (hp.trans_le hpq)) (by omega))

lemma nearest_mono (h : p ≤ q) : nearest p ≤ nearest q := by
  rw [nearest, nearest]
  split_ifs with hp hq hq
  · exact neg_le_neg (magnitude_mono (by linarith) (by linarith))
  · exact (neg_nonpos.mpr (magnitude_nonneg (by linarith))).trans
      (magnitude_nonneg (not_lt.mp hq))
  · linarith
  · exact magnitude_mono (not_lt.mp hp) h

lemma magnitude_exact (hn : 0 ≤ n) (h : n < 2 ^ 53) (he : -1074 ≤ e) :
    magnitude (n * 2 ^ e) = n * 2 ^ e := by
  obtain rfl | hpos := hn.eq_or_lt
  · rw [Int.cast_zero, zero_mul, magnitude_zero]
  have hq : (0 : ℚ) < n * 2 ^ e := mul_pos (by exact_mod_cast hpos) (two_zpow_pos e)
  have hlog : Int.log 2 ((n : ℚ) * 2 ^ e) < 53 + e := by
    apply (Int.lt_zpow_iff_log_lt one_lt_two hq).mp
    push_cast
    rw [zpow_add₀ two_ne_zero]
    exact mul_lt_mul_of_pos_right (by exact_mod_cast h) (two_zpow_pos e)
  have hexp : exponent ((n : ℚ) * 2 ^ e) ≤ e := by
    rw [exponent]
    omega
  have hgrid : ((n * 2 ^ (e - exponent (n * 2 ^ e)).toNat : ℤ) : ℚ) *
      2 ^ exponent ((n : ℚ) * 2 ^ e) = n * 2 ^ e := by
    rw [Int.cast_mul, mul_assoc, zpow_eq_mul hexp]
  apply le_antisymm
  · have := magnitude_le hgrid.ge
    rwa [hgrid] at this
  · have := le_magnitude hgrid.le
    rwa [hgrid] at this

lemma nearest_exact (h : |n| < 2 ^ 53) (he : -1074 ≤ e) : nearest (n * 2 ^ e) = n * 2 ^ e := by
  have hpow := two_zpow_pos e
  rw [nearest]
  split_ifs with hneg
  · have hn : n < 0 := by
      by_contra hn
      exact absurd hneg (not_lt.mpr (mul_nonneg (by exact_mod_cast not_lt.mp hn) hpow.le))
    have := magnitude_exact (n := -n) (by omega) (abs_of_neg hn ▸ h) he
    rw [← neg_mul, ← Int.cast_neg, this, Int.cast_neg, neg_mul, neg_neg]
  · have hn : 0 ≤ n := by
      by_contra hn
      exact hneg (mul_neg_of_neg_of_pos (by exact_mod_cast not_le.mp hn) hpow)
    exact magnitude_exact hn (abs_of_nonneg hn ▸ h) he

lemma nearest_intCast (h : |n| < 2 ^ 53) : nearest n = n := by
  simpa using nearest_exact h (e := 0) (by decide)

lemma nearest_zpow (h : -1074 ≤ k) : nearest (2 ^ k) = 2 ^ k := by
  simpa using nearest_exact (n := 1) (by decide) h

lemma magnitude_pos_iff (h : 0 ≤ q) : 0 < magnitude q ↔ 2 ^ (-1075 : ℤ) < q := by
  obtain rfl | hpos := h.eq_or_lt
  · rw [magnitude_zero]
    exact ⟨fun h => absurd h (lt_irrefl 0), fun h => absurd h (two_zpow_pos _).le.not_gt⟩
  have hpow := two_zpow_pos (exponent q)
  have hhalf : (1 : ℚ) / 2 * 2 ^ exponent q = 2 ^ (exponent q - 1) := by
    rw [zpow_sub_one₀ two_ne_zero, mul_comm]
    ring
  rw [magnitude, mul_pos_iff_of_pos_right hpow, Int.cast_pos,
    roundEven_pos_iff (div_nonneg h hpow.le), lt_div_iff₀ hpow, hhalf]
  obtain he | he := (le_max_right (Int.log 2 q - 52) (-1074)).eq_or_lt
  · rw [exponent, ← he]
    norm_num
  · -- above the least binade both sides hold
    have hlog : exponent q = Int.log 2 q - 52 := max_eq_left (by omega)
    have hq (k : ℤ) (hk : k < Int.log 2 q) : (2 : ℚ) ^ k < q :=
      (zpow_lt_zpow_right₀ one_lt_two hk).trans_le (zpow_le_log hpos)
    exact iff_of_true (hq _ (by omega)) (hq _ (by omega))

lemma roundEven_lt (h : x < n - 1 / 2) : roundEven x < n := by
  have hfloor : ⌊x⌋ < n := Int.floor_lt.mpr (by linarith)
  by_cases hlt : ⌊x⌋ + 1 < n
  · exact roundEven_le_succ.trans_lt hlt
  · have heq : ⌊x⌋ = n - 1 := by omega
    have hfract : Int.fract x < 1 / 2 := by
      rw [Int.fract, heq]
      push_cast
      linarith
    rwa [roundEven, if_pos (.inl hfract)]

lemma binades : ∃ u : ℚ, 0 < u ∧ (2 : ℚ) ^ 970 = u ∧ (2 : ℚ) ^ (971 : ℤ) = 2 * u ∧
    (2 : ℚ) ^ (1023 : ℤ) = 2 ^ 53 * u ∧ (2 : ℚ) ^ 1024 = 2 ^ 54 * u :=
  ⟨2 ^ 970, by positivity, rfl,
    (zpow_natCast 2 971).trans ((pow_add 2 1 970).trans (by rw [pow_one])),
    (zpow_natCast 2 1023).trans (pow_add 2 53 970), pow_add 2 54 970⟩

lemma exponent_top (hlo : 2 ^ (1023 : ℤ) ≤ q) (hhi : q < 2 ^ 1024) : exponent q = 971 := by
  have hq : 0 < q := (two_zpow_pos _).trans_le hlo
  have h1 : 1023 ≤ Int.log 2 q := (Int.zpow_le_iff_le_log (b := 2) one_lt_two hq).mp hlo
  have h2 : Int.log 2 q < 1024 := (Int.lt_zpow_iff_log_lt (b := 2) one_lt_two hq).mp hhi
  rw [exponent]
  omega

lemma roundEven_top : roundEven (((2 ^ 53 - 1 : ℤ) : ℚ) + 1 / 2) = 2 ^ 53 := by
  have hfloor : ⌊((2 ^ 53 - 1 : ℤ) : ℚ) + 1 / 2⌋ = 2 ^ 53 - 1 := by
    rw [Int.floor_intCast_add]
    norm_num
  have hfract : Int.fract (((2 ^ 53 - 1 : ℤ) : ℚ) + 1 / 2) = 1 / 2 := by
    rw [Int.fract, hfloor]
    ring
  have hodd : ¬ Even (2 ^ 53 - 1 : ℤ) := by decide
  rw [roundEven, hfloor, hfract, if_neg (by simp only [lt_self_iff_false, hodd, and_false, or_false,
    not_false_eq_true])]
  norm_num

-- halfway between the largest double and the next power of two
lemma magnitude_top : magnitude (2 ^ 1024 - 2 ^ 970) = 2 ^ 1024 := by
  obtain ⟨u, hu, h970, h971, h1023, h1024⟩ := binades
  have hexp : exponent (2 ^ 1024 - 2 ^ 970) = 971 :=
    exponent_top (by rw [h1023, h970, h1024]; linarith only [hu])
      (by rw [h970, h1024]; linarith only [hu])
  have hdiv : ((2 : ℚ) ^ 1024 - 2 ^ 970) / 2 ^ (971 : ℤ) = (2 ^ 53 - 1 : ℤ) + 1 / 2 := by
    rw [h970, h971, h1024, div_eq_iff (by positivity)]
    push_cast
    ring
  rw [magnitude, hexp, hdiv, roundEven_top, h971, h1024]
  push_cast
  ring

lemma magnitude_lt_iff (h : 0 ≤ q) : magnitude q < 2 ^ 1024 ↔ q < 2 ^ 1024 - 2 ^ 970 := by
  obtain ⟨u, hu, h970, h971, h1023, h1024⟩ := binades
  constructor
  · intro hm
    by_contra hq
    exact absurd hm (magnitude_top.symm.trans_le
      (magnitude_mono (by rw [h970, h1024]; linarith only [hu]) (not_lt.mp hq))).not_gt
  · intro hq
    obtain hlo | hlo := lt_or_ge q (2 ^ (1023 : ℤ))
    · refine (magnitude_mono h hlo.le).trans_lt ?_
      have := nearest_zpow (k := 1023) (by decide)
      rw [nearest, if_neg (two_zpow_pos _).le.not_gt] at this
      rw [this, h1023, h1024]
      linarith only [hu]
    · have hhi : q < 2 ^ 1024 := hq.trans (sub_lt_self _ (by positivity))
      have hdiv : q / 2 ^ (971 : ℤ) < (2 ^ 53 : ℤ) - 1 / 2 := by
        rw [div_lt_iff₀ (two_zpow_pos _), h971]
        rw [h970, h1024] at hq
        refine hq.trans_eq ?_
        push_cast
        ring
      have hlt := roundEven_lt hdiv
      rw [magnitude, exponent_top hlo hhi]
      calc (roundEven (q / 2 ^ (971 : ℤ)) : ℚ) * 2 ^ (971 : ℤ)
          < (2 ^ 53 : ℤ) * 2 ^ (971 : ℤ) :=
            mul_lt_mul_of_pos_right (Int.cast_lt.mpr hlt) (two_zpow_pos _)
        _ = 2 ^ 1024 := by
          rw [h971, h1024]
          push_cast
          ring

lemma round_eq_some : round q = some v ↔ nearest q = v ∧ |nearest q| < 2 ^ 1024 := by
  unfold round
  rw [Option.ite_none_right_eq_some, Option.some.injEq]
  exact and_comm

lemma round_exact (h : |n| < 2 ^ 53) (hlo : -1074 ≤ e) (hhi : e ≤ 971) :
    round ((n : ℚ) * 2 ^ e) = some ((n : ℚ) * 2 ^ e) := by
  have hn : |(n : ℚ)| < 2 ^ 53 := by exact_mod_cast h
  refine round_eq_some.mpr ⟨nearest_exact h hlo, ?_⟩
  rw [nearest_exact h hlo, abs_mul, abs_of_pos (two_zpow_pos e)]
  calc |(n : ℚ)| * 2 ^ e < 2 ^ 53 * 2 ^ e := mul_lt_mul_of_pos_right hn (two_zpow_pos e)
    _ ≤ 2 ^ 53 * 2 ^ (971 : ℤ) :=
      mul_le_mul_of_nonneg_left (zpow_le_zpow_right₀ one_le_two hhi) (by norm_num)
    _ = 2 ^ 1024 := by
      obtain ⟨u, -, -, h971, -, h1024⟩ := binades
      rw [h971, h1024]
      ring

lemma round_intCast (h : |n| < 2 ^ 53) : round n = some (n : ℚ) := by
  simpa using round_exact h (e := 0) (by decide) (by decide)

lemma round_zpow (hlo : -1074 ≤ k) (hhi : k < 1024) : round (2 ^ k) = some (2 ^ k) := by
  refine round_eq_some.mpr ⟨nearest_zpow hlo, ?_⟩
  rw [nearest_zpow hlo, abs_of_pos (two_zpow_pos k), ← zpow_natCast]
  exact zpow_lt_zpow_right₀ one_lt_two (by exact_mod_cast hhi)

lemma round_pos_iff (h : 0 ≤ q) :
    (∃ v, round q = some v ∧ 0 < v) ↔ 2 ^ (-1075 : ℤ) < q ∧ q < 2 ^ 1024 - 2 ^ 970 := by
  rw [← magnitude_pos_iff h, ← magnitude_lt_iff h]
  simp only [round_eq_some, nearest, if_neg h.not_gt, abs_of_nonneg (magnitude_nonneg h)]
  constructor
  · rintro ⟨v, ⟨rfl, hlt⟩, hpos⟩
    exact ⟨hpos, hlt⟩
  · exact fun ⟨hpos, hlt⟩ => ⟨_, ⟨rfl, hlt⟩, hpos⟩

lemma power_eq_some : power x n = some v ↔
    (round n).isSome ∧ round (x ^ ⌊nearest n⌋) = some v := by
  rw [power, Option.bind_eq_some_iff]
  constructor
  · rintro ⟨y, hy, hv⟩
    obtain ⟨rfl, -⟩ := round_eq_some.mp hy
    exact ⟨Option.isSome_of_eq_some hy, hv⟩
  · rintro ⟨hn, hv⟩
    obtain ⟨y, hy⟩ := Option.isSome_iff_exists.mp hn
    obtain ⟨rfl, -⟩ := round_eq_some.mp hy
    exact ⟨_, hy, hv⟩

def InRange (x : ℚ) (n : ℤ) : Prop :=
  (round n).isSome ∧
    2 ^ (-1075 : ℤ) < x ^ ⌊nearest n⌋ ∧ x ^ ⌊nearest n⌋ < 2 ^ 1024 - 2 ^ 970

lemma power_pos_iff (hx : 0 < x) : (∃ v, power x n = some v ∧ 0 < v) ↔ InRange x n := by
  simp only [power_eq_some, and_assoc, exists_and_left, InRange,
    round_pos_iff (zpow_pos hx ⌊nearest n⌋).le]

lemma power_nonneg (hx : 0 < x) (h : power x n = some v) : 0 ≤ v := by
  obtain ⟨rfl, -⟩ := round_eq_some.mp (power_eq_some.mp h).2
  have hq : 0 ≤ x ^ ⌊nearest n⌋ := (zpow_pos hx _).le
  rw [nearest, if_neg hq.not_gt]
  exact magnitude_nonneg hq

lemma power_two (hlo : -1074 ≤ k) (hhi : k < 1024) : power 2 k = some (2 ^ k) := by
  have hk : |k| < 2 ^ 53 := abs_lt.mpr ⟨by omega, by omega⟩
  refine power_eq_some.mpr ⟨Option.isSome_of_eq_some (round_intCast hk), ?_⟩
  rw [nearest_intCast hk, Int.floor_intCast]
  exact round_zpow hlo hhi

lemma inRange_two (hlo : -1074 ≤ k) (hhi : k < 1024) : InRange 2 k :=
  (power_pos_iff two_pos).mp ⟨2 ^ k, power_two hlo hhi, two_zpow_pos k⟩

lemma round_le (h : 0 ≤ q) (hn : q ≤ n) (h53 : n < 2 ^ 53) :
    ∃ v, round q = some v ∧ v ≤ n := by
  have hq : 0 ≤ nearest q := by
    rw [nearest, if_neg h.not_gt]
    exact magnitude_nonneg h
  have habs : |n| < 2 ^ 53 := by
    rwa [abs_of_nonneg (by exact_mod_cast h.trans hn)]
  have hle : nearest q ≤ n := nearest_intCast habs ▸ nearest_mono hn
  obtain ⟨-, hfinite⟩ := round_eq_some.mp (round_intCast habs)
  rw [nearest_intCast habs] at hfinite
  refine ⟨nearest q, round_eq_some.mpr ⟨rfl, ?_⟩, hle⟩
  rw [abs_of_nonneg hq]
  exact hle.trans_lt ((le_abs_self _).trans_lt hfinite)

end NetworkPing.Binary64
