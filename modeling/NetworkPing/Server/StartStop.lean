import NetworkPing.Server.WorkerHolding

/-! The start and stop protocol of `run_test`: the main thread, which has locked
`run_lola_run`, and its workers, which share `Sync` with it. -/

namespace NetworkPing.StartStop

inductive Owner
  | main
  | worker (i : ℕ)
  deriving DecidableEq

structure Sync where
  done : Bool
  runLolaRun : Option Owner
  activeCount : ℤ

inductive Thread
  | notStarted
  | started
  -- after `active_count++`, in front of `run_lola_run.lock()`
  | counted
  | locked
  | loop (w : Worker.State)
  | returned (w : Worker.State)

inductive Main
  | spawn (i : ℕ)
  | write (i : ℕ)
  | await
  | unlock
  | running (sleeps : ℤ)
  | store
  | join (i : ℕ)
  | joined
  deriving DecidableEq

structure Config where
  workerThreads : ℕ
  sockets : ℕ
  runtime : ℤ
  sockCount : ℤ
  worker : Worker.Config

structure State where
  sync : Sync
  main : Main
  failed : Bool
  threads : List Thread

def start (c : Config) : State where
  sync := ⟨false, some .main, 0⟩
  main := .spawn 0
  failed := false
  threads := List.replicate c.workerThreads .notStarted

inductive Label
  | main
  | write (ok : Bool)
  | thread (i : ℕ)
  | loop (i : ℕ) (l : Worker.Label)

def mainStep (c : Config) (s : State) : Option State :=
  match s.main with
  | .spawn i =>
    if i < c.workerThreads then
      some { s with main := .spawn (i + 1), threads := s.threads.set i .started }
    else some { s with main := .write 0 }
  | .write i => if i < c.sockets then none else some { s with main := .await }
  | .await =>
    if s.sync.activeCount ≠ c.workerThreads then some s else some { s with main := .unlock }
  | .unlock => some { s with sync.runLolaRun := none, main := .running (c.runtime * 10) }
  | .running sleeps =>
    if sleeps > 0 ∧ s.sync.activeCount ≠ 0 then some { s with main := .running (sleeps - 1) }
    else some { s with main := .store }
  | .store => some { s with sync.done := true, main := .join 0 }
  | .join i =>
    match s.threads[i]? with
    | some (.returned _) => some { s with main := .join (i + 1) }
    | some _ => none
    | none => some { s with main := .joined }
  | .joined => none

def writeStep (c : Config) (s : State) (ok : Bool) : Option State :=
  match s.main with
  | .write i =>
    if i < c.sockets then
      if ok then some { s with main := .write (i + 1) }
      else some { s with failed := true, main := .store }
    else none
  | _ => none

def threadStep (c : Config) (s : State) (i : ℕ) : Option State :=
  match s.threads[i]? with
  | some .started => some { s with
      sync.activeCount := s.sync.activeCount + 1, threads := s.threads.set i .counted }
  | some .counted =>
    match s.sync.runLolaRun with
    | none => some { s with
        sync.runLolaRun := some (.worker i), threads := s.threads.set i .locked }
    | some _ => none
  | some .locked => some { s with
      sync.runLolaRun := none, threads := s.threads.set i (.loop (Worker.start c.sockCount)) }
  -- the destructor of `DecOnExit`
  | some (.loop w) =>
    if w.pc = .returned then some { s with
      sync.activeCount := s.sync.activeCount - 1, threads := s.threads.set i (.returned w) }
    else none
  | _ => none

def Reads (done : Bool) : Worker.Label → Prop
  | .done b => b = done
  | _ => True

instance (done : Bool) : DecidablePred (Reads done)
  | .done b => inferInstanceAs (Decidable (b = done))
  | .wait _ _ | .drain _ | .drained | .next _ _ | .exhausted | .ping _ _ _ _ | .pinged =>
    isTrue trivial

def loopStep (c : Config) (s : State) (i : ℕ) (l : Worker.Label) : Option State :=
  match s.threads[i]? with
  | some (.loop w) =>
    if Reads s.sync.done l then
      (Worker.step c.worker w l).map fun w => { s with threads := s.threads.set i (.loop w) }
    else none
  | _ => none

def step (c : Config) (s : State) : Label → Option State
  | .main => mainStep c s
  | .write ok => writeStep c s ok
  | .thread i => threadStep c s i
  | .loop i l => loopStep c s i l

variable {c : Config} {s t : State} {l : Label}

inductive Moves (c : Config) (s : State) : Label → State → Prop
  | spawned {k} (hm : s.main = .spawn k) (hk : k < c.workerThreads) :
      Moves c s .main { s with main := .spawn (k + 1), threads := s.threads.set k .started }
  | spawnedAll {k} (hm : s.main = .spawn k) (hk : ¬ k < c.workerThreads) :
      Moves c s .main { s with main := .write 0 }
  | wroteAll {k} (hm : s.main = .write k) (hk : ¬ k < c.sockets) :
      Moves c s .main { s with main := .await }
  | waited (hm : s.main = .await) (hn : s.sync.activeCount ≠ c.workerThreads) : Moves c s .main s
  | passed (hm : s.main = .await) (hn : s.sync.activeCount = c.workerThreads) :
      Moves c s .main { s with main := .unlock }
  | unlocked (hm : s.main = .unlock) :
      Moves c s .main { s with sync.runLolaRun := none, main := .running (c.runtime * 10) }
  | slept {k} (hm : s.main = .running k) (hk : k > 0 ∧ s.sync.activeCount ≠ 0) :
      Moves c s .main { s with main := .running (k - 1) }
  | ended {k} (hm : s.main = .running k) (hk : ¬ (k > 0 ∧ s.sync.activeCount ≠ 0)) :
      Moves c s .main { s with main := .store }
  | stored (hm : s.main = .store) : Moves c s .main { s with sync.done := true, main := .join 0 }
  | joined {k w} (hm : s.main = .join k) (hx : s.threads[k]? = some (.returned w)) :
      Moves c s .main { s with main := .join (k + 1) }
  | joinedAll {k} (hm : s.main = .join k) (hx : s.threads[k]? = none) :
      Moves c s .main { s with main := .joined }
  | wrote {k} (hm : s.main = .write k) (hk : k < c.sockets) :
      Moves c s (.write true) { s with main := .write (k + 1) }
  | writeFailed {k} (hm : s.main = .write k) (hk : k < c.sockets) :
      Moves c s (.write false) { s with failed := true, main := .store }
  | counted {i} (hx : s.threads[i]? = some .started) :
      Moves c s (.thread i) { s with
        sync.activeCount := s.sync.activeCount + 1, threads := s.threads.set i .counted }
  | locked {i} (hx : s.threads[i]? = some .counted) (hm : s.sync.runLolaRun = none) :
      Moves c s (.thread i) { s with
        sync.runLolaRun := some (.worker i), threads := s.threads.set i .locked }
  | entered {i} (hx : s.threads[i]? = some .locked) :
      Moves c s (.thread i) { s with
        sync.runLolaRun := none, threads := s.threads.set i (.loop (Worker.start c.sockCount)) }
  | left {i w} (hx : s.threads[i]? = some (.loop w)) (hw : w.pc = .returned) :
      Moves c s (.thread i) { s with
        sync.activeCount := s.sync.activeCount - 1, threads := s.threads.set i (.returned w) }
  | looped {i k w w'} (hx : s.threads[i]? = some (.loop w)) (hr : Reads s.sync.done k)
      (hw : Worker.step c.worker w k = some w') :
      Moves c s (.loop i k) { s with threads := s.threads.set i (.loop w') }

lemma mainStep_moves (h : mainStep c s = some t) : Moves c s .main t := by
  rw [mainStep.eq_def] at h
  split at h
  next k hm =>
    split_ifs at h with hk <;> cases h
    · exact .spawned hm hk
    · exact .spawnedAll hm hk
  next k hm =>
    split_ifs at h with hk
    cases h
    exact .wroteAll hm hk
  next hm =>
    split_ifs at h with hn <;> cases h
    · exact .waited hm hn
    · exact .passed hm (not_not.mp hn)
  next hm => cases h; exact .unlocked hm
  next k hm =>
    split_ifs at h with hk <;> cases h
    · exact .slept hm hk
    · exact .ended hm hk
  next hm => cases h; exact .stored hm
  next k hm =>
    split at h <;> cases h
    · exact .joined hm ‹_›
    · exact .joinedAll hm ‹_›
  next => cases h

lemma threadStep_moves {i : ℕ} (h : threadStep c s i = some t) : Moves c s (.thread i) t := by
  rw [threadStep.eq_def] at h
  split at h
  next hx => cases h; exact .counted hx
  next hx =>
    split at h <;> cases h
    exact .locked hx ‹_›
  next hx => cases h; exact .entered hx
  next w hx =>
    split_ifs at h with hw
    cases h
    exact .left hx hw
  next => cases h

lemma step_moves (h : step c s l = some t) : Moves c s l t := by
  cases l with
  | main => exact mainStep_moves h
  | write ok =>
    simp only [step, writeStep.eq_def] at h
    split at h
    next k hm =>
      split_ifs at h with hk hok <;> cases h
      · exact hok ▸ .wrote hm hk
      · rw [Bool.not_eq_true] at hok
        exact hok ▸ .writeFailed hm hk
    next => cases h
  | thread i => exact threadStep_moves h
  | loop i k =>
    simp only [step, loopStep.eq_def] at h
    split at h
    next w hx =>
      split_ifs at h with hr
      obtain ⟨w', hw, rfl⟩ := Option.map_eq_some_iff.mp h
      exact .looped hx hr hw
    next => cases h

lemma Moves.step (h : Moves c s l t) : step c s l = some t := by
  cases h with
  | spawned hm hk | spawnedAll hm hk | wroteAll hm hk => simp [StartStop.step, mainStep, hm, hk]
  | waited hm hn | passed hm hn => simp [StartStop.step, mainStep, hm, hn]
  | unlocked hm | stored hm => simp only [StartStop.step, mainStep, hm]
  | slept hm hk => simp only [StartStop.step, mainStep, hm, if_pos hk]
  | ended hm hk => simp only [StartStop.step, mainStep, hm, if_neg hk]
  | joined hm hx | joinedAll hm hx => simp only [StartStop.step, mainStep, hm, hx]
  | wrote hm hk | writeFailed hm hk => simp [StartStop.step, writeStep, hm, hk]
  | counted hx | entered hx => simp only [StartStop.step, threadStep, hx]
  | locked hx hm => simp only [StartStop.step, threadStep, hx, hm]
  | left hx hw => simp only [StartStop.step, threadStep, hx, if_pos hw]
  | looped hx hr hw => simp only [StartStop.step, loopStep, hx, if_pos hr, hw, Option.map_some]

def Main.beforeUnlock : Main → Bool
  | .spawn _ | .write _ | .await | .unlock => true
  | _ => false

def Main.afterStore : Main → Bool
  | .join _ | .joined => true
  | _ => false

def Thread.early : Thread → Bool
  | .notStarted | .started | .counted => true
  | _ => false

def Blocked (s : State) (i : ℕ) : Prop :=
  s.threads[i]? = some .counted ∧ s.sync.runLolaRun = some .main

structure Inv (c : Config) (s : State) : Prop where
  length : s.threads.length = c.workerThreads
  spawned : ∀ i, s.threads[i]? = some .notStarted → ∃ k, s.main = .spawn k ∧ k ≤ i
  owner : ∀ i, s.sync.runLolaRun = some (.worker i) → s.threads[i]? = some .locked
  lock : s.sync.runLolaRun = some .main ↔ s.main.beforeUnlock ∨ s.failed
  early : s.main.beforeUnlock → ¬ s.failed
  quiet : s.sync.runLolaRun = some .main → ∀ (i : ℕ) (x : Thread), s.threads[i]? = some x → x.early
  done : s.main.afterStore → s.sync.done

lemma start_inv (c : Config) : Inv c (start c) where
  length := List.length_replicate
  spawned i _ := ⟨0, rfl, Nat.zero_le i⟩
  owner i h := by simp [start] at h
  lock := by simp [start, Main.beforeUnlock]
  early _ := by simp [start]
  quiet _ i x h := by
    obtain rfl := List.eq_of_mem_replicate (List.mem_of_getElem? h)
    rfl
  done h := by simp [start, Main.afterStore] at h

lemma set_some {xs : List Thread} {i j : ℕ} {y z : Thread} (h : (xs.set i y)[j]? = some z) :
    j = i ∧ z = y ∨ j ≠ i ∧ xs[j]? = some z := by
  rw [List.getElem?_set] at h
  split_ifs at h with hij hlt
  · exact .inl ⟨hij.symm, (Option.some.inj h).symm⟩
  · exact .inr ⟨fun he => hij he.symm, h⟩

lemma set_ne {xs : List Thread} {i j : ℕ} {y z : Thread} (hji : j ≠ i) (h : xs[j]? = some z) :
    (xs.set i y)[j]? = some z := by
  rw [List.getElem?_set_ne hji.symm, h]

lemma not_spawned (hs : Inv c s) (hm : ∀ k, s.main ≠ .spawn k) (i : ℕ) :
    s.threads[i]? ≠ some .notStarted := by
  intro hi
  obtain ⟨k, hk, _⟩ := hs.spawned i hi
  exact hm k hk

lemma Inv.move (hs : Inv c s) {m m' : Main} (hm : s.main = m) (hn : ∀ k, m ≠ .spawn k)
    (hb : m'.beforeUnlock = m.beforeUnlock) (ha : m'.afterStore = false ∨ s.sync.done) :
    Inv c { s with main := m' } where
  length := hs.length
  spawned i hi := (not_spawned hs (hm ▸ hn) i hi).elim
  owner := hs.owner
  lock := by rw [hb, ← hm]; exact hs.lock
  early := by rw [hb, ← hm]; exact hs.early
  quiet := hs.quiet
  done h := by
    rcases ha with ha | hd
    · rw [ha] at h
      cases h
    · exact hd

lemma Inv.holdsMain (hs : Inv c s) (hm : s.main.beforeUnlock) :
    s.sync.runLolaRun = some .main :=
  hs.lock.mpr (.inl hm)

lemma Inv.spawnThread (hs : Inv c s) {k : ℕ} (hm : s.main = .spawn k) :
    Inv c { s with main := .spawn (k + 1), threads := s.threads.set k .started } where
  length := by simpa using hs.length
  spawned i hi := by
    obtain ⟨_, hz⟩ | ⟨hne, hi⟩ := set_some hi
    · cases hz
    obtain ⟨j, hj, hji⟩ := hs.spawned i hi
    rw [hm, Main.spawn.injEq] at hj
    exact ⟨k + 1, rfl, by omega⟩
  owner i hi := by
    rw [hs.holdsMain (by rw [hm]; rfl)] at hi
    cases hi
  lock := by simpa [hm, Main.beforeUnlock] using hs.lock
  early := by simpa [hm, Main.beforeUnlock] using hs.early
  quiet hl i x hx := by
    obtain ⟨_, rfl⟩ | ⟨_, hx⟩ := set_some hx
    · rfl
    · exact hs.quiet hl i x hx
  done := by simp [Main.afterStore]

lemma Inv.allSpawned (hs : Inv c s) {k : ℕ} (hm : s.main = .spawn k)
    (hk : ¬ k < c.workerThreads) : Inv c { s with main := .write 0 } where
  length := hs.length
  spawned i hi := by
    obtain ⟨j, hj, hji⟩ := hs.spawned i hi
    have hlt : i < s.threads.length := (List.getElem?_eq_some_iff.mp hi).1
    rw [hm, Main.spawn.injEq] at hj
    rw [hs.length] at hlt
    omega
  owner := hs.owner
  lock := by simpa [hm, Main.beforeUnlock] using hs.lock
  early := by simpa [hm, Main.beforeUnlock] using hs.early
  quiet := hs.quiet
  done := by simp [Main.afterStore]

lemma Inv.moveThread (hs : Inv c s) {i : ℕ} {x y : Thread} (count : ℤ)
    (hx : s.threads[i]? = some x) (hy : y ≠ .notStarted) (hl : x ≠ .locked)
    (he : x.early → y.early) :
    Inv c { s with sync.activeCount := count, threads := s.threads.set i y } where
  length := by simpa using hs.length
  spawned j hj := by
    obtain ⟨_, hz⟩ | ⟨_, hj⟩ := set_some hj
    · exact (hy hz.symm).elim
    · exact hs.spawned j hj
  owner j hj := by
    have hlj := hs.owner j hj
    refine set_ne (fun hji => ?_) hlj
    rw [hji, hx] at hlj
    exact hl (Option.some.inj hlj)
  lock := hs.lock
  early := hs.early
  quiet hm j z hz := by
    obtain ⟨_, rfl⟩ | ⟨_, hz⟩ := set_some hz
    · exact he (hs.quiet hm i x hx)
    · exact hs.quiet hm j z hz
  done := hs.done

lemma Inv.lockThread (hs : Inv c s) {i : ℕ} (hx : s.threads[i]? = some .counted)
    (hm : s.sync.runLolaRun = none) : Inv c { s with
      sync.runLolaRun := some (.worker i), threads := s.threads.set i .locked } where
  length := by simpa using hs.length
  spawned j hj := by
    obtain ⟨_, hz⟩ | ⟨_, hj⟩ := set_some hj
    · cases hz
    · exact hs.spawned j hj
  owner j hj := by
    cases hj
    exact List.getElem?_set_self (List.getElem?_eq_some_iff.mp hx).1
  lock := by
    have hfree := (iff_false_left (by simp [hm])).mp hs.lock
    simpa using hfree
  early := hs.early
  quiet := by simp
  done := hs.done

lemma Inv.enterLoop (hs : Inv c s) {i : ℕ} (hx : s.threads[i]? = some .locked)
    (w : Worker.State) : Inv c { s with
      sync.runLolaRun := none, threads := s.threads.set i (.loop w) } where
  length := by simpa using hs.length
  spawned j hj := by
    obtain ⟨_, hz⟩ | ⟨_, hj⟩ := set_some hj
    · cases hz
    · exact hs.spawned j hj
  owner := by simp
  lock := by
    have hm : s.sync.runLolaRun ≠ some .main := fun hm => by cases hs.quiet hm i _ hx
    have hfree := (iff_false_left hm).mp hs.lock
    simpa using hfree
  early := hs.early
  quiet := by simp
  done := hs.done

lemma step_inv (hs : Inv c s) (h : step c s l = some t) : Inv c t := by
  cases step_moves h with
  | spawned hm => exact hs.spawnThread hm
  | spawnedAll hm hk => exact hs.allSpawned hm hk
  | waited => exact hs
  | wroteAll hm | passed hm | slept hm | ended hm | wrote hm =>
    exact hs.move hm (by simp) rfl (.inl rfl)
  | joined hm | joinedAll hm =>
    have hd := hs.done (by rw [hm]; rfl)
    exact hs.move hm (by simp) rfl (.inr hd)
  | unlocked hm =>
    have hf := hs.early (by rw [hm]; rfl)
    refine ⟨hs.length, fun i hi => ?_, by simp, ?_, by simp [Main.beforeUnlock], by simp,
      by simp [Main.afterStore]⟩
    · exact (not_spawned hs (by simp [hm]) i hi).elim
    · simpa [Main.beforeUnlock] using hf
  | stored hm =>
    refine ⟨hs.length, fun i hi => ?_, hs.owner, ?_, by simp [Main.beforeUnlock], hs.quiet,
      fun _ => rfl⟩
    · exact (not_spawned hs (by simp [hm]) i hi).elim
    · simpa [hm, Main.beforeUnlock] using hs.lock
  | writeFailed hm =>
    have hl := hs.holdsMain (by rw [hm]; rfl)
    refine ⟨hs.length, fun i hi => ?_, hs.owner, by simpa using hl, by simp [Main.beforeUnlock],
      hs.quiet, by simp [Main.afterStore]⟩
    exact (not_spawned hs (by simp [hm]) i hi).elim
  | counted hx => exact hs.moveThread _ hx (by simp) (by simp) fun _ => rfl
  | locked hx hm => exact hs.lockThread hx hm
  | entered hx => exact hs.enterLoop hx _
  | left hx | looped hx =>
    exact hs.moveThread _ hx (by simp) (by simp) (by simp [Thread.early])

lemma run_inv {ls : List Label} (h : Machine.run (step c) (start c) ls = some s) : Inv c s :=
  Machine.run_invariant (Inv c) (fun _ _ _ hs hl => step_inv hs hl) (start_inv c) h

end NetworkPing.StartStop
