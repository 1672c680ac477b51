import Mathlib.Data.List.Basic
import Mathlib.Tactic.TypeStar

/-! Machines driven by a list of labels. A label holds what the environment
answers in one step, so the lists of labels are the runs of the machine. -/

namespace NetworkPing.Machine

variable {S T L K M : Type*}

def run (step : S → L → Option S) (s : S) (ls : List L) : Option S := ls.foldlM step s

variable {step : S → L → Option S} {s t u v : S} {l : L} {ls ks js : List L}

@[simp] lemma run_nil : run step s [] = some s := rfl

@[simp] lemma run_cons : run step s (l :: ls) = (step s l).bind (run step · ls) := rfl

lemma run_append : run step s (ls ++ ks) = (run step s ls).bind (run step · ks) := by
  simp [run, List.foldlM_append]

lemma run_step (h : step s l = some t) (hr : run step t ls = some u) :
    run step s (l :: ls) = some u := by
  rw [run_cons, h, Option.bind_some, hr]

lemma run_trans (h : run step s ls = some t) (hr : run step t ks = some u) :
    run step s (ls ++ ks) = some u := by
  rw [run_append, h, Option.bind_some, hr]

lemma run_cons_some : run step s (l :: ls) = some u ↔
    ∃ t, step s l = some t ∧ run step t ls = some u := by
  rw [run_cons, Option.bind_eq_some_iff]

lemma run_invariant (I : S → Prop) (hstep : ∀ s l t, I s → step s l = some t → I t)
    (h : I s) (hr : run step s ls = some t) : I t := by
  induction ls generalizing s with
  | nil => cases Option.some.inj hr; exact h
  | cons l ls ih =>
    obtain ⟨u, hs, hr⟩ := run_cons_some.mp hr
    exact ih (hstep s l u h hs) hr

def watched (step : S → L → Option S) (mon : M → L → Option M) (s : S × M) (l : L) :
    Option (S × M) :=
  (step s.1 l).bind fun t => (mon s.2 l).map fun m => (t, m)

variable {mon : M → L → Option M} {m n : M}

lemma watched_some : watched step mon (s, m) l = some (t, n) ↔
    step s l = some t ∧ mon m l = some n := by
  simp [watched, Option.bind_eq_some_iff]

lemma run_watched : run (watched step mon) (s, m) ls = some (t, n) ↔
    run step s ls = some t ∧ run mon m ls = some n := by
  induction ls generalizing s m with
  | nil => simp
  | cons l ls ih =>
    simp only [run_cons_some, Prod.exists, watched_some, ih]
    constructor
    · rintro ⟨u, v, ⟨hs, hm⟩, hr, hn⟩
      exact ⟨⟨u, hs, hr⟩, v, hm, hn⟩
    · rintro ⟨⟨u, hs, hr⟩, v, hm, hn⟩
      exact ⟨u, v, ⟨hs, hm⟩, hr, hn⟩

lemma run_monitored (I : S → M → Prop)
    (hstep : ∀ s m l t n, I s m → step s l = some t → mon m l = some n → I t n)
    (h : I s m) (hr : run step s ls = some t) (hm : run mon m ls = some n) : I t n := by
  have hw := run_watched.mpr ⟨hr, hm⟩
  refine run_invariant (fun x : S × M => I x.1 x.2) ?_ h hw
  rintro ⟨s, m⟩ l ⟨t, n⟩ hi hs
  obtain ⟨hs, hm⟩ := watched_some.mp hs
  exact hstep s m l t n hi hs hm

lemma run_observed (I : S → List L → Prop)
    (hstep : ∀ s ls l t, I s ls → step s l = some t → I t (ls ++ [l]))
    (h : I s []) (hr : run step s ls = some t) : I t ls := by
  have hm (ls ks : List L) : run (fun m l => some (m ++ [l])) ks ls = some (ks ++ ls) := by
    induction ls generalizing ks with
    | nil => simp
    | cons l ls ih => simp [ih]
  refine run_monitored I ?_ h hr (hm ls [])
  intro s m l t n hi hs hn
  cases Option.some.inj hn
  exact hstep s m l t hi hs

def collect {O : Type*} (step : S → L → Option S) (f : S → L → List O) (s : S) : List L → List O
  | [] => []
  | l :: ls => f s l ++ match step s l with
    | some t => collect step f t ls
    | none => []

lemma run_collected {O : Type*} {f : S → L → List O} (I : S → M → List O → Prop)
    (hstep : ∀ s m os l t n, I s m os → step s l = some t → mon m l = some n → I t n (os ++ f s l))
    (h : I s m []) (hr : run step s ls = some t) (hm : run mon m ls = some n) :
    I t n (collect step f s ls) := by
  have go (os : List O) (ls : List L) (s : S) (m : M) (h : I s m os) (hr : run step s ls = some t)
      (hm : run mon m ls = some n) : I t n (os ++ collect step f s ls) := by
    induction ls generalizing os s m with
    | nil =>
      cases Option.some.inj hr
      cases Option.some.inj hm
      rwa [collect, List.append_nil]
    | cons l ls ih =>
      obtain ⟨u, hs, hr⟩ := run_cons_some.mp hr
      obtain ⟨k, hk, hm⟩ := run_cons_some.mp hm
      have := ih (os ++ f s l) u k (hstep s m os l u k h hs hk) hr hm
      simpa only [collect, hs, List.append_assoc] using this
  exact go [] ls s m h hr hm

variable {step' : T → K → Option T}

lemma run_simulates (f : S → T) (g : L → Option K) (hstep : ∀ s l t, step s l = some t →
      match g l with
      | some k => step' (f s) k = some (f t)
      | none => f t = f s)
    (hr : run step s ls = some t) : run step' (f s) (ls.filterMap g) = some (f t) := by
  induction ls generalizing s with
  | nil => cases Option.some.inj hr; rfl
  | cons l ls ih =>
    obtain ⟨u, hs, hr⟩ := run_cons_some.mp hr
    have hu := hstep s l u hs
    cases hg : g l with
    | none =>
      simp only [hg] at hu
      simpa only [List.filterMap_cons_none hg, ← hu] using ih hr
    | some k =>
      simp only [hg] at hu
      rw [List.filterMap_cons_some hg]
      exact run_step hu (ih hr)

lemma run_refines {step' : T → L → Option T} {b : T} (R : S → T → Prop) (I : T → Prop)
    (hinv : ∀ t l v, I t → step' t l = some v → I v)
    (hstep : ∀ s t l u, R s t → I t → step s l = some u → ∃ v, step' t l = some v ∧ R u v)
    (h : R s b) (hi : I b) (hr : run step s ls = some u) :
    ∃ v, run step' b ls = some v ∧ R u v ∧ I v := by
  induction ls generalizing s b with
  | nil =>
    cases Option.some.inj hr
    exact ⟨b, rfl, h, hi⟩
  | cons l ls ih =>
    obtain ⟨m, hs, hr⟩ := run_cons_some.mp hr
    obtain ⟨n, ht, hn⟩ := hstep s b l m h hi hs
    obtain ⟨v, hv, hu⟩ := ih hn (hinv b l n hi ht) hr
    exact ⟨v, run_step ht hv, hu⟩

/-- Forward simulation where a step of the first machine may take several of the second one, with
what is seen of the labels. -/
lemma run_forward {O : Type*} {b : T} (R : S → T → Prop) (see : L → List O) (see' : K → List O)
    (hstep : ∀ s b l t, R s b → step s l = some t →
      ∃ ks c, run step' b ks = some c ∧ ks.flatMap see' = see l ∧ R t c)
    (h : R s b) (hr : run step s ls = some t) :
    ∃ ks c, run step' b ks = some c ∧ ks.flatMap see' = ls.flatMap see ∧ R t c := by
  induction ls generalizing s b with
  | nil =>
    cases Option.some.inj hr
    exact ⟨[], b, rfl, rfl, h⟩
  | cons l ls ih =>
    obtain ⟨u, hs, hr⟩ := run_cons_some.mp hr
    obtain ⟨ks, c, hk, hsee, hc⟩ := hstep s b l u h hs
    obtain ⟨js, d, hj, hsee', hd⟩ := ih hc hr
    refine ⟨ks ++ js, d, run_trans hk hj, ?_, hd⟩
    rw [List.flatMap_append, List.flatMap_cons, hsee, hsee']

def Reaches (step : S → L → Option S) (s t : S) : Prop := ∃ ls, run step s ls = some t

lemma Reaches.refl (s : S) : Reaches step s s := ⟨[], rfl⟩

lemma Reaches.trans (h : Reaches step s t) (h' : Reaches step t u) : Reaches step s u := by
  obtain ⟨ls, hr⟩ := h
  obtain ⟨ks, hr'⟩ := h'
  exact ⟨ls ++ ks, run_trans hr hr'⟩

lemma Reaches.head (h : step s l = some t) (h' : Reaches step t u) : Reaches step s u := by
  obtain ⟨ks, hr⟩ := h'
  exact ⟨l :: ks, run_step h hr⟩

/-- The machine with finer labels, which a state works out to labels of `step`. -/
def refine (step : S → L → Option S) (g : S → K → Option L) (s : S) (k : K) : Option S :=
  (g s k).bind (step s)

variable {g : S → K → Option L}

lemma refine_some {k : K} : refine step g s k = some t ↔ ∃ l, g s k = some l ∧ step s l = some t :=
  Option.bind_eq_some_iff

variable {P : S → L → Prop}

def Along (step : S → L → Option S) (P : S → L → Prop) (s : S) : List L → Prop
  | [] => True
  | l :: ls => P s l ∧ match step s l with
    | some t => Along step P t ls
    | none => True

instance decidableAlong [∀ s l, Decidable (P s l)] :
    ∀ (s : S) (ls : List L), Decidable (Along step P s ls)
  | _, [] => isTrue trivial
  | s, l :: ls =>
    match h : step s l with
    | some t =>
      have := decidableAlong t ls
      decidable_of_iff (P s l ∧ Along step P t ls) (by rw [Along, h])
    | none => decidable_of_iff (P s l) (by simp [Along, h])

lemma Along.at (h : Along step P s (ls ++ l :: ks)) (hr : run step s ls = some t) : P t l := by
  induction ls generalizing s with
  | nil => cases Option.some.inj hr; exact h.1
  | cons k ls ih =>
    obtain ⟨u, hs, hr⟩ := run_cons_some.mp hr
    have ht := h.2
    simp only [hs] at ht
    exact ih ht hr

lemma run_history (I : List L → S → Prop) (h : I [] s)
    (hstep : ∀ ls l ks t u, js = ls ++ l :: ks → run step s ls = some t → I ls t →
      step t l = some u → I (ls ++ [l]) u)
    (hr : run step s js = some v) : I js v := by
  have go (ls ks : List L) (hj : js = ls ++ ks) (t : S) (hls : run step s ls = some t)
      (hi : I ls t) (hks : run step t ks = some v) : I js v := by
    induction ks generalizing ls t with
    | nil =>
      cases Option.some.inj hks
      rwa [hj, List.append_nil]
    | cons l ks ih =>
      obtain ⟨u, hl, hks⟩ := run_cons_some.mp hks
      apply ih (ls ++ [l]) (by rw [hj, List.append_assoc]; rfl) u
      · exact run_trans hls (run_step hl rfl)
      · exact hstep ls l ks t u hj hls hi hl
      · exact hks
  exact go [] js rfl s rfl h hr

end NetworkPing.Machine
