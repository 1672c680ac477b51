import NetworkPing.Sequences

namespace NetworkPing

variable {α : Type*} {sp : α → Bool} {s : α} {w cs p : List α} {ws : List (List α)}

def words (sp : α → Bool) (cs : List α) : List (List α) :=
  (cs.splitOnP sp).filter (· matches _ :: _)

structure IsWord (sp : α → Bool) (w : List α) : Prop where
  ne_nil : w ≠ []
  solid : ∀ c ∈ w, sp c = false

lemma IsWord.of_append {u v : List α} (h : IsWord sp (u ++ v)) (hu : u ≠ []) : IsWord sp u :=
  ⟨hu, fun c hc => h.solid c (List.mem_append_left v hc)⟩

@[simp] lemma words_nil : words sp [] = [] := rfl

lemma words_word (hw : IsWord sp w) : words sp w = [w] := by
  obtain ⟨c, cs, rfl⟩ := List.exists_cons_of_ne_nil hw.ne_nil
  rw [words, List.splitOnP_eq_singleton hw.solid]
  rfl

lemma words_append_sep (hs : sp s) (ds : List α) :
    words sp (cs ++ s :: ds) = words sp cs ++ words sp ds := by
  rw [words, List.splitOnP_append_cons cs ds hs, List.filter_append]
  rfl

lemma words_append (hw : IsWord sp w) (hs : sp s) : words sp (w ++ s :: cs) = w :: words sp cs := by
  rw [words_append_sep hs, words_word hw, List.singleton_append]

lemma intercalate_cons_flatMap (s : α) (w : List α) (ws : List (List α)) :
    [s].intercalate (w :: ws) = w ++ ws.flatMap (s :: ·) :=
  intercalate_cons_eq [s] w ws

lemma intercalate_concat (s : α) (w : List α) (hws : ws ≠ []) :
    [s].intercalate (ws ++ [w]) = [s].intercalate ws ++ s :: w := by
  obtain ⟨v, vs, rfl⟩ := List.exists_cons_of_ne_nil hws
  simp [intercalate_cons_flatMap]

lemma words_intercalate (hs : sp s) (hws : ∀ w ∈ ws, IsWord sp w) :
    words sp ([s].intercalate ws) = ws := by
  induction ws with
  | nil => rfl
  | cons w ws ih =>
    have hw := hws w List.mem_cons_self
    cases ws with
    | nil => rw [List.intercalate_singleton, words_word hw]
    | cons w' ws =>
      rw [List.intercalate_cons_cons, List.append_assoc, List.singleton_append, words_append hw hs,
        ih fun v hv => hws v (List.mem_cons_of_mem w hv)]

lemma prefix_append_cases {a b : List α} (hp : p <+: a ++ b) :
    p <+: a ∨ ∃ q, p = a ++ q ∧ q <+: b := by
  rcases List.prefix_or_prefix_of_prefix hp (List.prefix_append a b) with h | ⟨q, rfl⟩
  · exact .inl h
  · exact .inr ⟨q, rfl, (List.prefix_append_right_inj a).mp hp⟩

lemma words_of_cut (hs : sp s) (hws : ∀ w ∈ ws, IsWord sp w) (hp : p <+: [s].intercalate ws) :
    words sp p = [] ∨
      ∃ us u v, u ≠ [] ∧ words sp p = us ++ [u] ∧ us ++ [u ++ v] <+: ws := by
  induction ws generalizing p with
  | nil => exact .inl (by rw [List.prefix_nil.mp hp, words_nil])
  | cons w ws ih =>
    have hw := hws w List.mem_cons_self
    have first (hp : p <+: w) : words sp p = [] ∨
        ∃ us u v, u ≠ [] ∧ words sp p = us ++ [u] ∧ us ++ [u ++ v] <+: w :: ws := by
      obtain ⟨v, rfl⟩ := hp
      by_cases hp : p = []
      · exact .inl (by rw [hp, words_nil])
      · refine .inr ⟨[], p, v, hp, words_word (hw.of_append hp), ws, rfl⟩
    cases ws with
    | nil => exact first (by rwa [List.intercalate_singleton] at hp)
    | cons w' ws =>
      rw [List.intercalate_cons_cons, List.append_assoc, List.singleton_append] at hp
      rcases prefix_append_cases hp with hp | ⟨q, rfl, hq⟩
      · exact first hp
      rcases List.prefix_cons_iff.mp hq with rfl | ⟨t, rfl, ht⟩
      · exact first (by simp)
      rw [words_append hw hs]
      rcases ih (fun v hv => hws v (List.mem_cons_of_mem w hv)) ht with hn | ⟨us, u, v, hu, he, hv⟩
      · exact .inr ⟨[], w, [], hw.ne_nil, by rw [hn, List.nil_append], by simp⟩
      · exact .inr ⟨w :: us, u, v, hu, by rw [he, List.cons_append],
          (List.prefix_cons_inj w).mpr hv⟩

lemma words_cut (hs : sp s) (hws : ∀ w ∈ ws, IsWord sp w) (hn : ws ≠ [])
    (hp : p <+: [s].intercalate (ws ++ [w])) :
    (p.length + w.length ≤ ([s].intercalate (ws ++ [w])).length ∧ (words sp p = [] ∨
      ∃ us u v, u ≠ [] ∧ words sp p = us ++ [u] ∧ us ++ [u ++ v] <+: ws)) ∨
    ∃ u v, u ≠ [] ∧ w = u ++ v ∧ p = [s].intercalate (ws ++ [u]) ∧
      p.length + w.length = ([s].intercalate (ws ++ [w])).length + u.length := by
  rw [intercalate_concat s w hn] at hp ⊢
  have whole : words sp ([s].intercalate ws) = ws := words_intercalate hs hws
  obtain ⟨us, u, rfl⟩ : ∃ us u, ws = us ++ [u] :=
    ⟨ws.dropLast, ws.getLast hn, (List.dropLast_append_getLast hn).symm⟩
  rcases prefix_append_cases hp with hp | ⟨q, rfl, hq⟩
  · refine .inl ⟨?_, words_of_cut hs hws hp⟩
    have := hp.length_le
    simp only [List.length_append, List.length_cons]
    omega
  rcases List.prefix_cons_iff.mp hq with rfl | ⟨t, rfl, ht⟩
  · refine .inl ⟨by simp, .inr ⟨us, u, [], ?_, by rw [List.append_nil, whole], by simp⟩⟩
    exact (hws u (by simp)).ne_nil
  by_cases htn : t = []
  · refine .inl ⟨?_, .inr ⟨us, u, [], ?_, ?_, by simp⟩⟩
    · simp only [htn, List.length_append, List.length_cons, List.length_nil]
      omega
    · exact (hws u (by simp)).ne_nil
    · rw [htn, words_append_sep hs, whole, words_nil, List.append_nil]
  · obtain ⟨v, rfl⟩ := ht
    refine .inr ⟨t, v, htn, rfl, (intercalate_concat s t hn).symm, ?_⟩
    simp only [List.length_append, List.length_cons]
    omega

end NetworkPing
