import Mathlib.Tactic
import NetworkPing.Words

namespace NetworkPing

def decimal (n : ℕ) : List Char := Nat.toDigits 10 n

def ofDecimal (cs : List Char) : ℕ := Nat.ofDigitChars 10 cs 0

def signed (n : ℤ) : List Char := if n < 0 then '-' :: decimal n.natAbs else decimal n.natAbs

def isSpace (c : Char) : Bool :=
  c = ' ' || c = '\t' || c = '\n' || c = '\r' || c = '\x0b' || c = '\x0c'

def sign (w : List Char) : Bool × List Char :=
  match w with
  | '-' :: w => (true, w)
  | '+' :: w => (false, w)
  | w => (false, w)

def IsNumeral (w : List Char) : Prop := w ≠ [] ∧ ∀ c ∈ w, c.isDigit

variable {n : ℕ} {c : Char} {cs : List Char}

@[simp] lemma ofDecimal_decimal (n : ℕ) : ofDecimal (decimal n) = n :=
  Nat.ofDigitChars_ten_toDigits

lemma decimal_ne_nil (n : ℕ) : decimal n ≠ [] := Nat.toDigits_ne_nil

lemma isDigit_decimal (h : c ∈ decimal n) : c.isDigit :=
  Nat.isDigit_of_mem_toDigits (by decide) (by decide) h

lemma isNumeral_decimal (n : ℕ) : IsNumeral (decimal n) :=
  ⟨decimal_ne_nil n, fun _ => isDigit_decimal⟩

lemma ne_of_isDigit {d : Char} (hc : c.isDigit) (hd : d.isDigit = false) : c ≠ d := by
  rintro rfl
  rw [hc] at hd
  cases hd

lemma isSpace_digit (hc : c.isDigit) : isSpace c = false := by
  simp only [isSpace, Bool.or_eq_false_iff, decide_eq_false_iff_not]
  refine ⟨⟨⟨⟨⟨?_, ?_⟩, ?_⟩, ?_⟩, ?_⟩, ?_⟩ <;> exact ne_of_isDigit hc rfl

lemma IsNumeral.isWord (h : IsNumeral cs) : IsWord isSpace cs :=
  ⟨h.1, fun c hc => isSpace_digit (h.2 c hc)⟩

lemma IsNumeral.of_append {u v : List Char} (h : IsNumeral (u ++ v)) (hu : u ≠ []) :
    IsNumeral u :=
  ⟨hu, fun c hc => h.2 c (List.mem_append_left v hc)⟩

lemma sign_numeral (h : IsNumeral cs) (rest : List Char) :
    sign (cs ++ rest) = (false, cs ++ rest) := by
  obtain ⟨c, cs, rfl⟩ := List.exists_cons_of_ne_nil h.1
  have hc := h.2 c List.mem_cons_self
  rw [sign.eq_def]
  split
  next he => exact (ne_of_isDigit hc rfl (List.cons.inj he).1).elim
  next he => exact (ne_of_isDigit hc rfl (List.cons.inj he).1).elim
  next => rfl

lemma ofDecimal_take_lt {k : ℕ} (h0 : 0 < k) (hk : k < (decimal n).length) :
    ofDecimal ((decimal n).take k) < n := by
  induction n using Nat.strong_induction_on with
  | _ n ih =>
    by_cases hn : n < 10
    · rw [decimal, Nat.toDigits_of_lt_base hn, List.length_singleton] at hk
      omega
    have hd : decimal n = decimal (n / 10) ++ [Nat.digitChar (n % 10)] :=
      Nat.toDigits_of_base_le (by decide) (by omega)
    rw [hd, List.length_append, List.length_singleton] at hk
    rw [hd, List.take_append_of_le_length (by omega)]
    by_cases hlt : k < (decimal (n / 10)).length
    · exact (ih (n / 10) (by omega) hlt).trans (by omega)
    · rw [List.take_of_length_le (by omega), ofDecimal_decimal]
      omega

end NetworkPing
