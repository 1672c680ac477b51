import Mathlib.Data.List.Forall2
import Mathlib.Data.List.Basic

namespace NetworkPing

variable {α β : Type*}

section Mapped

variable {f : α → Option β} {R : α → β → Prop} {l : List α} {bs : List β}

lemma mapM_cons_eq_bind (a : α) (l : List α) :
    (a :: l).mapM f = (f a).bind fun b => (l.mapM f).map (b :: ·) := by
  rw [List.mapM_cons]
  cases f a with
  | none => rfl
  | some b => cases l.mapM f <;> rfl

lemma mapM_eq_some : l.mapM f = some bs ↔ List.Forall₂ (fun a b => f a = some b) l bs := by
  induction l generalizing bs with
  | nil => simp [eq_comm]
  | cons a l ih =>
    rw [mapM_cons_eq_bind, List.forall₂_cons_left_iff]
    simp only [Option.bind_eq_some_iff, Option.map_eq_some_iff, ih]
    constructor
    · rintro ⟨b, hb, cs, hcs, rfl⟩
      exact ⟨b, cs, hb, hcs, rfl⟩
    · rintro ⟨b, cs, hb, hcs, rfl⟩
      exact ⟨b, hb, cs, hcs, rfl⟩

lemma mapM_isSome : (l.mapM f).isSome ↔ ∀ a ∈ l, (f a).isSome := by
  induction l with
  | nil => simp
  | cons a l ih =>
    rw [mapM_cons_eq_bind, List.forall_mem_cons, ← ih]
    cases f a <;> cases l.mapM f <;> simp

lemma mapM_map_comm {γ δ : Type*} {g : β → δ} {h : α → γ} {f' : γ → Option δ}
    (hc : ∀ a ∈ l, (f a).map g = f' (h a)) : (l.mapM f).map (List.map g) = (l.map h).mapM f' := by
  induction l with
  | nil => rfl
  | cons a l ih =>
    rw [List.map_cons, mapM_cons_eq_bind, mapM_cons_eq_bind, ← hc a List.mem_cons_self,
      ← ih fun b hb => hc b (List.mem_cons_of_mem a hb)]
    cases f a with
    | none => rfl
    | some b => cases l.mapM f <;> rfl

lemma mapM_congr {f' : α → Option β} (h : ∀ a ∈ l, f a = f' a) : l.mapM f = l.mapM f' := by
  have hc : ∀ a ∈ l, (f a).map id = f' (id a) := fun a ha => by simp [h a ha]
  simpa using mapM_map_comm hc

lemma exists_forall₂ (h : ∀ a ∈ l, ∃ b, R a b) : ∃ bs, List.Forall₂ R l bs := by
  induction l with
  | nil => exact ⟨[], .nil⟩
  | cons a l ih =>
    obtain ⟨b, hb⟩ := h a List.mem_cons_self
    obtain ⟨bs, hbs⟩ := ih fun a' ha => h a' (List.mem_cons_of_mem a ha)
    exact ⟨b :: bs, .cons hb hbs⟩

lemma forall₂_exists_left (h : List.Forall₂ R l bs) {a : α} (ha : a ∈ l) : ∃ b ∈ bs, R a b := by
  induction h with
  | nil => cases ha
  | @cons a' b l bs hb _ ih =>
    rcases List.mem_cons.mp ha with rfl | ha
    · exact ⟨b, List.mem_cons_self, hb⟩
    · obtain ⟨b', hm, hb'⟩ := ih ha
      exact ⟨b', List.mem_cons_of_mem b hm, hb'⟩

lemma forall₂_exists_right (h : List.Forall₂ R l bs) {b : β} (hb : b ∈ bs) : ∃ a ∈ l, R a b := by
  obtain ⟨a, ha, hr⟩ := forall₂_exists_left h.flip hb
  exact ⟨a, ha, hr⟩

lemma forall₂_zipWith {γ : Type*} {g : α → β → γ} (h : List.Forall₂ R l bs) :
    List.Forall₂ (fun a x => ∃ b, R a b ∧ x = g a b) l (List.zipWith g l bs) := by
  induction h with
  | nil => exact .nil
  | @cons a b l bs hab _ ih => exact .cons ⟨b, hab, rfl⟩ ih

lemma forall₂_trans {γ : Type*} {S : β → γ → Prop} {cs : List γ} (h : List.Forall₂ R l bs)
    (h' : List.Forall₂ S bs cs) : List.Forall₂ (fun a x => ∃ b, R a b ∧ S b x) l cs := by
  induction h generalizing cs with
  | nil =>
    cases h'
    exact .nil
  | @cons a b l bs hab _ ih =>
    cases h' with
    | cons hbc h' => exact .cons ⟨b, hab, hbc⟩ (ih h')

lemma forall₂_match {α' : Type*} {l' : List α'} {R' : α' → β → Prop} (h : List.Forall₂ R l bs)
    (h' : List.Forall₂ R' l' bs) :
    List.Forall₂ (fun a a' => a ∈ l ∧ a' ∈ l' ∧ ∃ b, R a b ∧ R' a' b) l l' := by
  induction h generalizing l' with
  | nil =>
    cases h'
    exact .nil
  | @cons a b l bs hab _ ih =>
    cases h' with
    | @cons a' _ l' _ hab' h' =>
      refine .cons ⟨List.mem_cons_self, List.mem_cons_self, b, hab, hab'⟩ ((ih h').imp ?_)
      exact fun _ _ ⟨ha, ha', hr⟩ => ⟨List.mem_cons_of_mem a ha, List.mem_cons_of_mem a' ha', hr⟩

end Mapped

section Codes

variable {p : β → Prop} {s t u v : List β}

def Stops (p : β → Prop) (u : List β) : Prop := ∀ x ∈ u.head?, ¬ p x

lemma stops_nil : Stops p [] := fun _ h => by cases h

lemma stops_cons {x : β} (h : ¬ p x) (u : List β) : Stops p (x :: u) := by
  rintro _ ⟨⟩
  exact h

lemma span_unique (hs : ∀ x ∈ s, p x) (ht : ∀ x ∈ t, p x) (hu : Stops p u) (hv : Stops p v)
    (h : s ++ u = t ++ v) : s = t ∧ u = v := by
  induction s generalizing t with
  | nil =>
    cases t with
    | nil => exact ⟨rfl, h⟩
    | cons y t =>
      rw [List.nil_append] at h
      exact absurd (ht y List.mem_cons_self) (hu y (by rw [h]; rfl))
  | cons x s ih =>
    cases t with
    | nil =>
      rw [List.nil_append] at h
      exact absurd (hs x List.mem_cons_self) (hv x (by rw [← h]; rfl))
    | cons y t =>
      rw [List.cons_append, List.cons_append, List.cons_eq_cons] at h
      obtain ⟨rfl, h⟩ := h
      obtain ⟨rfl, rfl⟩ := ih (fun z hz => hs z (List.mem_cons_of_mem x hz))
        (fun z hz => ht z (List.mem_cons_of_mem x hz)) h
      exact ⟨rfl, rfl⟩

lemma split_unique {x : β} (hs : x ∉ s) (ht : x ∉ t) (h : s ++ x :: u = t ++ x :: v) :
    s = t ∧ u = v := by
  have stops (w : List β) : Stops (· ≠ x) (x :: w) :=
    stops_cons (p := (· ≠ x)) (not_not.mpr rfl) w
  obtain ⟨hst, hr⟩ := span_unique (fun y hy => ne_of_mem_of_not_mem hy hs)
    (fun y hy => ne_of_mem_of_not_mem hy ht) (stops u) (stops v) h
  exact ⟨hst, (List.cons.inj hr).2⟩

lemma split_unique_right {x : β} (hu : x ∉ u) (hv : x ∉ v) (h : s ++ x :: u = t ++ x :: v) :
    s = t ∧ u = v := by
  have hr := congrArg List.reverse h
  rw [List.reverse_append, List.reverse_append, List.reverse_cons, List.reverse_cons,
    List.append_assoc, List.append_assoc] at hr
  obtain ⟨huv, hst⟩ := split_unique (mt List.mem_reverse.mp hu) (mt List.mem_reverse.mp hv) hr
  exact ⟨List.reverse_injective hst, List.reverse_injective huv⟩

/-- The words of `enc` end where the text stops, and tell what they stand for. -/
def PrefixCode (ok : α → Prop) (p : β → Prop) (enc : α → List β) : Prop :=
  ∀ ⦃a b u v⦄, ok a → ok b → Stops p u → Stops p v → enc a ++ u = enc b ++ v → a = b ∧ u = v

variable {ok : α → Prop} {enc : α → List β} {as bs : List α} {x : β} {xs : List β}

lemma PrefixCode.injective (hc : PrefixCode ok p enc) {a b : α} (ha : ok a) (hb : ok b)
    (h : enc a = enc b) : a = b :=
  (hc ha hb stops_nil stops_nil (congrArg (· ++ []) h)).1

lemma PrefixCode.pair {α' : Type*} {ok' : α' → Prop} {enc' : α' → List β} (hx : ¬ p x)
    (hc : PrefixCode ok p enc) (hc' : PrefixCode ok' p enc') :
    PrefixCode (fun a : α × α' => ok a.1 ∧ ok' a.2) p
      fun a => enc a.1 ++ x :: xs ++ enc' a.2 := by
  intro a b u v ha hb hu hv h
  rw [List.append_assoc, List.append_assoc, List.append_assoc, List.append_assoc] at h
  obtain ⟨h₁, hr⟩ := hc ha.1 hb.1 (stops_cons hx _) (stops_cons hx _) h
  obtain ⟨h₂, hr⟩ := hc' ha.2 hb.2 hu hv (List.append_cancel_left (List.cons.inj hr).2)
  exact ⟨Prod.ext h₁ h₂, hr⟩

lemma stops_flatMap (hx : ¬ p x) (hu : Stops (fun y => p y ∨ y = x) u) (as : List α) :
    Stops p ((as.flatMap fun a => x :: xs ++ enc a) ++ u) := by
  cases as with
  | nil => exact fun y hy hp => hu y hy (.inl hp)
  | cons a as => exact stops_cons hx _

lemma PrefixCode.flatMap (hc : PrefixCode ok p enc) (hx : ¬ p x) (has : ∀ a ∈ as, ok a)
    (hbs : ∀ b ∈ bs, ok b) (hu : Stops (fun y => p y ∨ y = x) u)
    (h : (as.flatMap fun a => x :: xs ++ enc a) ++ u =
      (bs.flatMap fun b => x :: xs ++ enc b) ++ u) : as = bs := by
  have start (a : α) (l : List α) : u ≠ ((a :: l).flatMap fun a => x :: xs ++ enc a) ++ u := by
    intro h
    exact hu x (by rw [h]; rfl) (.inr rfl)
  induction as generalizing bs with
  | nil =>
    cases bs with
    | nil => rfl
    | cons b bs => exact absurd h (start b bs)
  | cons a as ih =>
    cases bs with
    | nil => exact absurd h.symm (start a as)
    | cons b bs =>
      rw [List.forall_mem_cons] at has hbs
      rw [List.flatMap_cons, List.flatMap_cons, List.append_assoc, List.append_assoc,
        List.append_assoc, List.append_assoc] at h
      obtain ⟨rfl, hr⟩ := hc has.1 hbs.1 (stops_flatMap hx hu as)
        (stops_flatMap hx hu bs) (List.append_cancel_left h)
      rw [ih has.2 hbs.2 hr]

lemma PrefixCode.image {γ : Type*} {g : α → γ} {enc' : γ → List β}
    (hc : PrefixCode ok p fun a => enc' (g a)) :
    PrefixCode (fun b => ∃ a, b = g a ∧ ok a) p enc' := by
  rintro _ _ u v ⟨a, rfl, ha⟩ ⟨b, rfl, hb⟩ hu hv h
  obtain ⟨hab, hr⟩ := hc ha hb hu hv h
  exact ⟨congrArg g hab, hr⟩

lemma intercalate_cons_eq (sep w : List β) (ws : List (List β)) :
    sep.intercalate (w :: ws) = w ++ ws.flatMap (sep ++ ·) := by
  induction ws generalizing w with
  | nil => simp
  | cons w' ws ih =>
    rw [List.intercalate_cons_cons, ih, List.flatMap_cons, List.append_assoc, List.append_assoc]

lemma not_mem_intercalate {sep : List β} {ws : List (List β)} (hs : x ∉ sep)
    (h : ∀ w ∈ ws, x ∉ w) : x ∉ sep.intercalate ws := by
  cases ws with
  | nil => exact List.not_mem_nil
  | cons w ws =>
    rw [List.forall_mem_cons] at h
    rw [intercalate_cons_eq, List.mem_append, List.mem_flatMap]
    rintro (hw | ⟨w', hw', hm⟩)
    · exact h.1 hw
    · exact (List.mem_append.mp hm).elim hs (h.2 w' hw')

lemma PrefixCode.intercalate (hc : PrefixCode ok p enc) (hx : ¬ p x) (has : ∀ a ∈ as, ok a)
    (hbs : ∀ b ∈ bs, ok b) (hu : Stops (fun y => p y ∨ y = x) u) (hn : ∀ a w, ok a → enc a ++ w ≠ u)
    (h : (x :: xs).intercalate (as.map enc) ++ u = (x :: xs).intercalate (bs.map enc) ++ u) :
    as = bs := by
  cases as with
  | nil =>
    cases bs with
    | nil => rfl
    | cons b bs =>
      rw [List.map_cons, intercalate_cons_eq, List.append_assoc] at h
      exact absurd h.symm (hn b _ (hbs b List.mem_cons_self))
  | cons a as =>
    cases bs with
    | nil =>
      rw [List.map_cons, intercalate_cons_eq, List.append_assoc] at h
      exact absurd h (hn a _ (has a List.mem_cons_self))
    | cons b bs =>
      rw [List.forall_mem_cons] at has hbs
      rw [List.map_cons, List.map_cons, intercalate_cons_eq, intercalate_cons_eq,
        List.flatMap_map, List.flatMap_map, List.append_assoc, List.append_assoc] at h
      obtain ⟨rfl, hr⟩ := hc has.1 hbs.1 (stops_flatMap hx hu as) (stops_flatMap hx hu bs) h
      rw [hc.flatMap hx has.2 hbs.2 hu hr]

end Codes

section Blocks

variable {q : β → Prop} {block : List β} {as bs : List (List β)}

def Marked (q : β → Prop) (block : List β) : Prop :=
  ∃ x rest, block = x :: rest ∧ q x ∧ ∀ y ∈ rest, ¬ q y

lemma stops_flatten (has : ∀ a ∈ as, Marked q a) : Stops (fun x => ¬ q x) as.flatten := by
  cases as with
  | nil => exact stops_nil
  | cons a as =>
    obtain ⟨x, rest, rfl, hx, _⟩ := has a List.mem_cons_self
    exact stops_cons (p := fun x => ¬ q x) (not_not.mpr hx) _

lemma flatten_injective (has : ∀ a ∈ as, Marked q a) (hbs : ∀ b ∈ bs, Marked q b)
    (h : as.flatten = bs.flatten) : as = bs := by
  induction as generalizing bs with
  | nil =>
    cases bs with
    | nil => rfl
    | cons b bs =>
      obtain ⟨x, rest, rfl, _⟩ := hbs b List.mem_cons_self
      cases h
  | cons a as ih =>
    rw [List.forall_mem_cons] at has
    obtain ⟨x, rest, rfl, hx, hrest⟩ := has.1
    cases bs with
    | nil => cases h
    | cons b bs =>
      rw [List.forall_mem_cons] at hbs
      obtain ⟨y, rest', rfl, hy, hrest'⟩ := hbs.1
      rw [List.flatten_cons, List.flatten_cons, List.cons_append, List.cons_append,
        List.cons_eq_cons] at h
      obtain ⟨rfl, h⟩ := h
      obtain ⟨rfl, hr⟩ := span_unique hrest hrest' (stops_flatten has.2) (stops_flatten hbs.2) h
      rw [ih has.2 hbs.2 hr]

end Blocks

end NetworkPing
