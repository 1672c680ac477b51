import NetworkPing.Server.StartStop
import NetworkPing.Server.WorkerStop

namespace NetworkPing.StartStop

open Machine (Reaches)

variable {c : Config} {s t : State} {l : Label}

def Returns (c : Config) (s : State) (i : ℕ) : Prop :=
  ∃ t, Reaches (step c) s t ∧ ∃ w, t.threads[i]? = some (.returned w)

lemma Returns.head {i : ℕ} (h : step c s l = some t) (ht : Returns c t i) : Returns c s i := by
  obtain ⟨u, hu, hw⟩ := ht
  exact ⟨u, hu.head h, hw⟩

lemma set_self {xs : List Thread} {i : ℕ} {x : Thread} (h : xs[i]? = some x) (y : Thread) :
    (xs.set i y)[i]? = some y :=
  List.getElem?_set_self (List.getElem?_eq_some_iff.mp h).1

lemma returns_loop {i : ℕ} {w : Worker.State} (hd : s.sync.done = true)
    (hx : s.threads[i]? = some (.loop w)) : Returns c s i := by
  have exit {s : State} {w : Worker.State} (hx : s.threads[i]? = some (.loop w))
      (hw : w.pc = .returned) : Returns c s i := by
    apply Returns.head (Moves.step (.left hx hw))
    exact ⟨_, .refl _, w, set_self hx _⟩
  by_cases hw : w.pc = .returned
  · exact exit hx hw
  obtain ⟨ls, w', hr, hw', hls⟩ := Worker.stops c.worker w hw
  induction ls generalizing s w with
  | nil => cases Option.some.inj hr; exact exit hx hw'
  | cons l ls ih =>
    obtain ⟨v, hv, hr⟩ := Machine.run_cons_some.mp hr
    have hread : Reads s.sync.done l := by
      cases l with
      | done b => exact (hls b List.mem_cons_self).trans hd.symm
      | _ => trivial
    apply Returns.head (Moves.step (.looped hx hread hv))
    by_cases hpc : v.pc = .returned
    · exact exit (set_self hx _) hpc
    · exact ih hd (set_self hx _) hpc hr fun b hb => hls b (List.mem_cons_of_mem _ hb)

lemma returns_locked {i : ℕ} (hd : s.sync.done = true) (hx : s.threads[i]? = some .locked) :
    Returns c s i := by
  apply Returns.head (Moves.step (.entered hx))
  apply returns_loop
  · exact hd
  · exact set_self hx _

lemma returns_counted {i : ℕ} (hd : s.sync.done = true) (hm : s.sync.runLolaRun = none)
    (hx : s.threads[i]? = some .counted) : Returns c s i := by
  apply Returns.head (Moves.step (.locked hx hm))
  apply returns_locked
  · exact hd
  · exact set_self hx _

lemma returns_started {i : ℕ} (hd : s.sync.done = true) (hm : s.sync.runLolaRun = none)
    (hx : s.threads[i]? = some .started) : Returns c s i := by
  apply Returns.head (Moves.step (.counted hx))
  apply returns_counted
  · exact hd
  · exact hm
  · exact set_self hx _

lemma returns_free {i : ℕ} {x : Thread} (hd : s.sync.done = true) (hm : s.sync.runLolaRun = none)
    (hx : s.threads[i]? = some x) (hn : x ≠ .notStarted) : Returns c s i := by
  cases x with
  | notStarted => exact (hn rfl).elim
  | started => exact returns_started hd hm hx
  | counted => exact returns_counted hd hm hx
  | locked => exact returns_locked hd hx
  | loop w => exact returns_loop hd hx
  | returned w => exact ⟨s, .refl s, w, hx⟩

lemma returns_unlocked {i : ℕ} {x : Thread} (hs : Inv c s) (hd : s.sync.done = true)
    (hm : s.sync.runLolaRun ≠ some .main) (hx : s.threads[i]? = some x) (hn : x ≠ .notStarted) :
    Returns c s i := by
  cases ho : s.sync.runLolaRun with
  | none => exact returns_free hd ho hx hn
  | some o =>
    cases o with
    | main => exact (hm ho).elim
    | worker j =>
      have hj := hs.owner j ho
      by_cases hij : i = j
      · exact returns_locked hd (hij ▸ hj)
      apply Returns.head (Moves.step (.entered hj))
      apply returns_free
      · exact hd
      · rfl
      · exact set_ne hij hx
      · exact hn

structure Stuck (c : Config) (s : State) : Prop where
  inv : Inv c s
  failed : s.failed = true

lemma step_failed (h : step c s l = some t) :
    t.failed = true ↔ s.failed = true ∨ l = .write false := by
  cases step_moves h <;> simp

lemma run_failed {ls : List Label} (h : Machine.run (step c) (start c) ls = some s) :
    s.failed = true ↔ .write false ∈ ls := by
  refine Machine.run_observed (fun s ls => s.failed = true ↔ .write false ∈ ls) ?_
    (by simp [start]) h
  intro s ls l t hi hl
  rw [step_failed hl, hi, List.mem_append, List.mem_singleton, eq_comm]

lemma run_stuck {ls : List Label} (hs : Stuck c s) (h : Machine.run (step c) s ls = some t) :
    Stuck c t := by
  refine Machine.run_invariant (Stuck c) ?_ hs h
  intro s l t hs hl
  exact ⟨step_inv hs.inv hl, (step_failed hl).mpr (.inl hs.failed)⟩

lemma Stuck.not_returns (hs : Stuck c s) (i : ℕ) : ¬ Returns c s i := by
  rintro ⟨t, ⟨ls, hr⟩, w, hw⟩
  have ht := run_stuck hs hr
  have hm := ht.inv.lock.mpr (.inr ht.failed)
  cases ht.inv.quiet hm i _ hw

def Stoppable (c : Config) (s : State) : Prop :=
  (∀ i, ¬ Blocked s i) ∧ ∀ i < c.workerThreads, Returns c s i

theorem stoppable_iff (c : Config) (ls : List Label) (s : State) (k : ℕ)
    (h : Machine.run (step c) (start c) ls = some s) (hk : s.main = .join k) :
    Stoppable c s ↔ c.workerThreads = 0 ∨ .write false ∉ ls := by
  have hs := run_inv h
  have hf := run_failed h
  constructor
  · rintro ⟨_, hr⟩
    by_contra hc
    rw [not_or, not_not] at hc
    exact Stuck.not_returns ⟨hs, hf.mpr hc.2⟩ 0 (hr 0 (Nat.pos_of_ne_zero hc.1))
  · intro hc
    have hidx {i : ℕ} {x : Thread} (hx : s.threads[i]? = some x) : i < c.workerThreads :=
      hs.length ▸ (List.getElem?_eq_some_iff.mp hx).1
    rcases hc with h0 | hw
    · exact ⟨fun i hb => absurd (hidx hb.1) (by omega), fun i hi => absurd hi (by omega)⟩
    have hm : s.sync.runLolaRun ≠ some .main := by
      rw [Ne, hs.lock, hf, hk]
      simpa [Main.beforeUnlock] using hw
    refine ⟨fun i hb => hm hb.2, fun i hi => ?_⟩
    obtain ⟨x, hx⟩ : ∃ x, s.threads[i]? = some x :=
      ⟨_, List.getElem?_eq_getElem (hs.length ▸ hi)⟩
    apply returns_unlocked hs (hs.done (by rw [hk]; rfl)) hm hx
    rintro rfl
    exact not_spawned hs (by simp [hk]) i hx

def oneWorker : Config := ⟨1, 1, 0, 2, ⟨3, 0, 0, fun _ => 0⟩⟩

theorem stoppable_iff_written :
    let ls : List Label := [.main, .main, .write true, .main, .thread 0, .main, .main, .main, .main]
    ∃ s, Machine.run (step oneWorker) (start oneWorker) ls = some s ∧ s.main = .join 0 ∧
      Stoppable oneWorker s := by
  intro ls
  refine ⟨_, rfl, rfl, ?_⟩
  exact (stoppable_iff oneWorker ls _ 0 rfl rfl).mpr (.inr (by simp [ls]))

theorem unwritten_not_stoppable :
    let ls : List Label := [.main, .main, .write false, .main, .thread 0]
    ∃ s, Machine.run (step oneWorker) (start oneWorker) ls = some s ∧ s.main = .join 0 ∧
      s.sync.done = true ∧ Blocked s 0 ∧ ¬ Returns oneWorker s 0 := by
  intro ls
  refine ⟨_, rfl, rfl, rfl, ⟨rfl, rfl⟩, ?_⟩
  exact Stuck.not_returns ⟨@run_inv oneWorker _ ls rfl, rfl⟩ 0

end NetworkPing.StartStop
