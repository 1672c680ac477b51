import Mathlib.Data.List.Basic
import Mathlib.Tactic.TypeStar

namespace NetworkPing

structure ByteStream (α : Type*) where
  arrived : List α
  inFlight : List α
  deriving DecidableEq

namespace ByteStream

variable {α : Type*} {s : ByteStream α} {n : ℕ}

def empty : ByteStream α := ⟨[], []⟩

def content (s : ByteStream α) : List α := s.arrived ++ s.inFlight

def send (s : ByteStream α) (xs : List α) : ByteStream α := { s with inFlight := s.inFlight ++ xs }

def arrive (s : ByteStream α) (k : ℕ) : ByteStream α where
  arrived := s.arrived ++ s.inFlight.take k
  inFlight := s.inFlight.drop k

def read (s : ByteStream α) (n : ℕ) : List α := s.arrived.take n

def rest (s : ByteStream α) (n : ℕ) : ByteStream α := { s with arrived := s.arrived.drop n }

@[simp] lemma content_empty : (empty : ByteStream α).content = [] := rfl

@[simp] lemma content_send (s : ByteStream α) (xs : List α) :
    (s.send xs).content = s.content ++ xs := (List.append_assoc ..).symm

@[simp] lemma content_arrive (s : ByteStream α) (k : ℕ) : (s.arrive k).content = s.content := by
  rw [content, content, arrive, List.append_assoc, List.take_append_drop]

lemma arrive_nil (h : s.inFlight = []) (k : ℕ) : s.arrive k = s := by
  obtain ⟨arrived, inFlight⟩ := s
  obtain rfl : inFlight = [] := h
  simp [arrive]

lemma arrive_all {k : ℕ} (h : s.inFlight.length ≤ k) :
    s.arrive k = ⟨s.arrived ++ s.inFlight, []⟩ := by
  rw [arrive, List.take_of_length_le h, List.drop_eq_nil_of_le h]

lemma read_content (s : ByteStream α) (n : ℕ) : s.read n ++ (s.rest n).content = s.content := by
  rw [content, content, read, rest, ← List.append_assoc, List.take_append_drop]

lemma read_length_le (s : ByteStream α) (n : ℕ) : (s.read n).length ≤ s.content.length := by
  rw [← read_content s n, List.length_append]
  exact Nat.le_add_right _ _

lemma rest_length_le (s : ByteStream α) (n : ℕ) :
    (s.rest n).content.length ≤ s.content.length := by
  rw [← read_content s n, List.length_append]
  exact Nat.le_add_left _ _

lemma arrived_of_content (h : s.content = []) : s.arrived = [] := (List.append_eq_nil_iff.mp h).1

lemma read_whole (h : (s.read n).length = s.content.length) :
    s.read n = s.content ∧ (s.rest n).content = [] := by
  have hc := read_content s n
  have hl := congrArg List.length hc
  rw [List.length_append, h] at hl
  have hnil : (s.rest n).content = [] := List.eq_nil_of_length_eq_zero (by omega)
  rw [hnil, List.append_nil] at hc
  exact ⟨hc, hnil⟩

end ByteStream

end NetworkPing
