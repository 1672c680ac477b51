import Mathlib.Data.List.AList
import Mathlib.Order.Bounds.Basic
import Mathlib.Tactic

namespace NetworkPing

variable {α : Type*} [LinearOrder α] {es fs : List ((_ : α) × ℕ)} {a b : α} {n : ℕ}

def weightUpTo (es : List ((_ : α) × ℕ)) (a : α) : ℕ :=
  (es.map fun e => if e.1 ≤ a then e.2 else 0).sum

lemma weightUpTo_perm (h : es.Perm fs) (a : α) : weightUpTo es a = weightUpTo fs a :=
  (h.map _).sum_eq

lemma weightUpTo_mono (hab : a ≤ b) : weightUpTo es a ≤ weightUpTo es b := by
  apply List.sum_le_sum
  intro e _
  split_ifs with ha hb
  · exact le_rfl
  · exact (hb (ha.trans hab)).elim
  · exact Nat.zero_le _
  · exact le_rfl

lemma weightUpTo_eq_zero (h : ∀ e ∈ es, a < e.1) : weightUpTo es a = 0 := by
  apply List.sum_eq_zero
  rw [List.forall_mem_map]
  exact fun e he => if_neg (not_le.mpr (h e he))

lemma exists_key_weightUpTo (h : weightUpTo es a ≠ 0) :
    ∃ b ∈ es.keys, b ≤ a ∧ weightUpTo es b = weightUpTo es a := by
  have hne : (es.keys.toFinset.filter (· ≤ a)).Nonempty := by
    by_contra hempty
    refine h (weightUpTo_eq_zero fun e he => not_le.mp fun hle => hempty ⟨e.1, ?_⟩)
    have hk : e.1 ∈ es.keys := List.mem_map_of_mem he
    exact Finset.mem_filter.mpr ⟨List.mem_toFinset.mpr hk, hle⟩
  obtain ⟨b, hb, hmax⟩ := Finset.exists_max_image _ id hne
  simp only [Finset.mem_filter, List.mem_toFinset, id_eq] at hb hmax
  refine ⟨b, hb.1, hb.2, congrArg List.sum (List.map_congr_left fun e he => ?_)⟩
  have hiff : e.1 ≤ b ↔ e.1 ≤ a :=
    ⟨fun hle => hle.trans hb.2, fun hle => hmax e.1 ⟨List.mem_map_of_mem he, hle⟩⟩
  simp only [hiff]

def firstReach (P : ℕ → Prop) [DecidablePred P] (n : ℕ) : List ((_ : α) × ℕ) → Option α
  | [] => none
  | e :: es => if P (n + e.2) then some e.1 else firstReach P (n + e.2) es

variable {P : ℕ → Prop} [DecidablePred P]

lemma firstReach_eq_some (h : es.Pairwise fun e f => e.1 < f.1) :
    firstReach P n es = some a ↔ IsLeast {b | b ∈ es.keys ∧ P (n + weightUpTo es b)} a := by
  induction es generalizing n with
  | nil => simp [firstReach, IsLeast]
  | cons e es ih =>
    obtain ⟨he, hes⟩ := List.pairwise_cons.mp h
    have hself : weightUpTo (e :: es) e.1 = e.2 := by
      have := weightUpTo_eq_zero he
      simpa [weightUpTo] using this
    have hrest (b : α) (hb : b ∈ es.keys) : weightUpTo (e :: es) b = e.2 + weightUpTo es b := by
      obtain ⟨f, hf, rfl⟩ := List.mem_map.mp hb
      simp [weightUpTo, (he f hf).le]
    rw [firstReach]
    split_ifs with hp
    · have hleast : IsLeast {b | b ∈ (e :: es).keys ∧ P (n + weightUpTo (e :: es) b)} e.1 := by
        refine ⟨⟨by simp, by rwa [hself]⟩, fun b hb => ?_⟩
        obtain ⟨f, hf, rfl⟩ := List.mem_map.mp hb.1
        obtain rfl | hf := List.mem_cons.mp hf
        · exact le_rfl
        · exact (he f hf).le
      rw [Option.some.injEq]
      exact ⟨fun h => h ▸ hleast, hleast.unique⟩
    · rw [ih hes]
      have hset : {b | b ∈ (e :: es).keys ∧ P (n + weightUpTo (e :: es) b)} =
          {b | b ∈ es.keys ∧ P (n + e.2 + weightUpTo es b)} := by
        ext b
        simp only [Set.mem_ofPred_eq, List.keys_cons, List.mem_cons]
        constructor
        · rintro ⟨rfl | hb, hpb⟩
          · rw [hself] at hpb
            exact (hp hpb).elim
          · rw [hrest b hb, ← Nat.add_assoc] at hpb
            exact ⟨hb, hpb⟩
        · rintro ⟨hb, hpb⟩
          rw [hrest b hb, ← Nat.add_assoc]
          exact ⟨.inr hb, hpb⟩
      rw [hset]

omit [LinearOrder α] in
lemma firstReach_isSome (h : es ≠ []) (hp : P (n + (es.map Sigma.snd).sum)) :
    (firstReach P n es).isSome := by
  induction es generalizing n with
  | nil => exact (h rfl).elim
  | cons e es ih =>
    rw [firstReach]
    split_ifs with hpe
    · rfl
    · rw [List.map_cons, List.sum_cons, ← Nat.add_assoc] at hp
      apply ih ?_ hp
      rintro rfl
      exact hpe (by simpa using hp)

end NetworkPing
