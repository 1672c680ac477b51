import NetworkPing.Server.StartStopJoin

namespace NetworkPing.StartStop

open Machine (Reaches)

variable {c : Config} {s t : State} {l : Label} {ls : List Label}

def Thread.active : Thread → Bool
  | .counted | .locked | .loop _ => true
  | _ => false

def Thread.incremented : Thread → Bool
  | .notStarted | .started => false
  | _ => true

def Main.afterAwait : Main → Bool
  | .spawn _ | .write _ | .await => false
  | _ => true

def writes (ls : List Label) : ℕ := ls.countP (· matches .write true)

def Written (c : Config) (m : Main) (n : ℕ) : Prop :=
  match m with
  | .spawn _ => n = 0
  | .write k => n = k ∧ k ≤ c.sockets
  | _ => n = c.sockets

structure Barrier (c : Config) (s : State) (ls : List Label) : Prop where
  inv : Inv c s
  fresh : ∀ k, s.main = .spawn k → ∀ i, k ≤ i → ∀ x, s.threads[i]? = some x → x = .notStarted
  count : s.sync.activeCount = s.threads.countP Thread.active
  written : .write false ∉ ls → Written c s.main (writes ls)
  incremented : .write false ∉ ls → s.main.afterAwait →
    ∀ (i : ℕ) (x : Thread), s.threads[i]? = some x → x.incremented

lemma start_barrier (c : Config) : Barrier c (start c) [] where
  inv := start_inv c
  fresh _ _ _ _ _ hx := List.eq_of_mem_replicate (List.mem_of_getElem? hx)
  count := by simp [start, List.countP_replicate, Thread.active]
  written _ := rfl
  incremented _ h := by simp [start, Main.afterAwait] at h

lemma countP_set {p : Thread → Bool} {xs : List Thread} {i : ℕ} {x : Thread}
    (h : xs[i]? = some x) (y : Thread) :
    (xs.set i y).countP p + (p x).toNat = xs.countP p + (p y).toNat := by
  obtain ⟨hi, rfl⟩ := List.getElem?_eq_some_iff.mp h
  rw [List.countP_set hi]
  by_cases hx : p xs[i]
  · have hpos : 0 < xs.countP p := List.countP_pos_iff.mpr ⟨_, List.getElem_mem hi, hx⟩
    cases p y <;> simp [hx] <;> omega
  · cases p y <;> simp [hx]

lemma recount {xs : List Thread} {i : ℕ} {x y : Thread} {a b : ℤ}
    (hc : a = xs.countP Thread.active) (hx : xs[i]? = some x)
    (hb : b + x.active.toNat = a + y.active.toNat) :
    b = (xs.set i y).countP Thread.active := by
  have := countP_set (p := Thread.active) hx y
  omega

lemma fresh_set {k i : ℕ} {xs : List Thread} {x y : Thread}
    (hf : ∀ j, k ≤ j → ∀ z, xs[j]? = some z → z = .notStarted) (hx : xs[i]? = some x)
    (hn : x ≠ .notStarted) : ∀ j, k ≤ j → ∀ z, (xs.set i y)[j]? = some z → z = .notStarted := by
  intro j hj z hz
  obtain ⟨rfl, _⟩ | ⟨_, hz⟩ := set_some hz
  · exact (hn (hf j hj x hx)).elim
  · exact hf j hj z hz

lemma step_incremented (hf : ∀ k, s.main ≠ .spawn k) (h : step c s l = some t)
    (hi : ∀ (i : ℕ) (x : Thread), s.threads[i]? = some x → x.incremented) :
    ∀ (i : ℕ) (x : Thread), t.threads[i]? = some x → x.incremented := by
  have set (i : ℕ) (y : Thread) (hy : y.incremented) (j : ℕ) (z : Thread)
      (hz : (s.threads.set i y)[j]? = some z) : z.incremented := by
    obtain ⟨_, rfl⟩ | ⟨_, hz⟩ := set_some hz
    · exact hy
    · exact hi j z hz
  cases step_moves h with
  | spawned hm => exact (hf _ hm).elim
  | counted | locked | entered | left | looped => exact set _ _ rfl
  | _ => exact hi

lemma Barrier.step_fresh (hs : Barrier c s ls) (h : step c s l = some t) :
    ∀ k, t.main = .spawn k → ∀ i, k ≤ i → ∀ x, t.threads[i]? = some x → x = .notStarted := by
  cases step_moves h with
  | @spawned k hm hk =>
    intro j hj i hi x hx
    cases hj
    obtain ⟨rfl, _⟩ | ⟨_, hx⟩ := set_some hx
    · omega
    · exact hs.fresh k hm i (by omega) x hx
  | counted hx | locked hx | entered hx | left hx | looped hx =>
    intro k hk
    exact fresh_set (hs.fresh k hk) hx nofun
  | waited => exact hs.fresh
  | _ => nofun

lemma Barrier.step_count (hs : Barrier c s ls) (h : step c s l = some t) :
    t.sync.activeCount = t.threads.countP Thread.active := by
  have hc := hs.count
  cases step_moves h with
  | @spawned k hm hk =>
    obtain ⟨x, hx⟩ : ∃ x, s.threads[k]? = some x :=
      ⟨_, List.getElem?_eq_getElem (hs.inv.length ▸ hk)⟩
    obtain rfl := hs.fresh k hm k le_rfl x hx
    exact recount hc hx (by simp [Thread.active])
  | counted hx | locked hx | entered hx | left hx | looped hx =>
    exact recount hc hx (by simp [Thread.active])
  | _ => exact hc

lemma writes_append (ls : List Label) (l : Label) :
    writes (ls ++ [l]) = writes ls + (l matches .write true).toNat := by
  cases l with
  | write ok => cases ok <;> simp [writes]
  | _ => simp [writes]

lemma Barrier.step_written (hs : Barrier c s ls) (h : step c s l = some t)
    (hw : .write false ∉ ls ++ [l]) : Written c t.main (writes (ls ++ [l])) := by
  rw [List.mem_append, List.mem_singleton, not_or] at hw
  have hn := hs.written hw.1
  rw [writes_append]
  cases step_moves h with
  | wrote hm hk =>
    rw [hm] at hn
    exact ⟨congrArg (· + 1) hn.1, hk⟩
  | writeFailed => exact (hw.2 rfl).elim
  | spawnedAll hm =>
    rw [hm] at hn
    exact ⟨hn, Nat.zero_le _⟩
  | wroteAll hm hk =>
    rw [hm] at hn
    have := hn.2
    exact hn.1.trans (by omega)
  | waited | counted | locked | entered | left | looped => exact hn
  | spawned hm | passed hm | unlocked hm | slept hm | ended hm | stored hm | joined hm
  | joinedAll hm =>
    rw [hm] at hn
    exact hn

lemma Barrier.all_active (hs : Barrier c s ls) (hn : s.sync.activeCount = c.workerThreads)
    (x : Thread) (hx : x ∈ s.threads) : x.active := by
  have hc : s.threads.countP Thread.active = s.threads.length := by
    rw [hs.inv.length]
    exact_mod_cast hs.count.symm.trans hn
  exact List.countP_eq_length.mp hc x hx

lemma incremented_of_active {x : Thread} (h : x.active) : x.incremented := by
  cases x with
  | notStarted | started => cases h
  | _ => rfl

lemma step_barrier (hs : Barrier c s ls) (h : step c s l = some t) :
    Barrier c t (ls ++ [l]) where
  inv := step_inv hs.inv h
  fresh := hs.step_fresh h
  count := hs.step_count h
  written := hs.step_written h
  incremented hw := by
    rw [List.mem_append, List.mem_singleton, not_or] at hw
    intro ha
    cases hb : s.main.afterAwait with
    | true =>
      apply step_incremented ?_ h (hs.incremented hw.1 hb)
      rintro k hk
      rw [hk] at hb
      cases hb
    | false =>
      cases step_moves h with
      | passed _ hn =>
        exact fun i x hx => incremented_of_active (hs.all_active hn x (List.mem_of_getElem? hx))
      | writeFailed => exact (hw.2 rfl).elim
      | spawned | spawnedAll | wroteAll | wrote => cases ha
      | waited | counted | locked | entered | left | looped =>
        rw [hb] at ha
        cases ha
      | unlocked hm | slept hm | ended hm | stored hm | joined hm | joinedAll hm =>
        rw [hm] at hb
        cases hb

lemma run_barrier (h : Machine.run (step c) (start c) ls = some s) : Barrier c s ls :=
  Machine.run_observed (Barrier c) (fun _ _ _ _ hs hl => step_barrier hs hl) (start_barrier c) h

lemma Barrier.waiting (hs : Barrier c s ls) (hm : s.main = .await) {i : ℕ} {x : Thread}
    (hx : s.threads[i]? = some x) : x = .started ∨ x = .counted := by
  have hl := hs.inv.lock.mpr (.inl (by rw [hm]; rfl))
  have he := hs.inv.quiet hl i x hx
  cases x with
  | notStarted => exact (not_spawned hs.inv (by simp [hm]) i hx).elim
  | started => exact .inl rfl
  | counted => exact .inr rfl
  | locked | loop | returned => cases he

lemma Barrier.past (hs : Barrier c s ls) {i : ℕ} {w : Worker.State}
    (hx : s.threads[i]? = some (.loop w)) : s.main.afterAwait := by
  have hl : s.sync.runLolaRun ≠ some .main := fun hl => by cases hs.inv.quiet hl i _ hx
  rw [Ne, hs.inv.lock, not_or] at hl
  cases hm : s.main with
  | spawn | write | await | unlock => exact (hl.1 (by rw [hm]; rfl)).elim
  | _ => rfl

lemma Written.all {m : Main} {n : ℕ} (h : Written c m n) (hm : m.afterAwait) : n = c.sockets := by
  cases m with
  | spawn | write | await => cases hm
  | _ => exact h

lemma reaches_unlock (hs : Barrier c s ls) (hm : s.main = .await) (k : ℕ)
    (hk : s.sync.activeCount + k = c.workerThreads) :
    ∃ t, Reaches (step c) s t ∧ t.main = .unlock := by
  -- `k` workers have not incremented `active_count` yet
  induction k generalizing s ls with
  | zero =>
    rw [Nat.cast_zero, add_zero] at hk
    exact ⟨_, .head (Moves.step (.passed hm hk)) (.refl _), rfl⟩
  | succ k ih =>
    have hne : s.threads.countP Thread.active ≠ s.threads.length := by
      have := hs.count
      have := hs.inv.length
      omega
    obtain ⟨x, hmem, hx⟩ : ∃ x ∈ s.threads, ¬ x.active := by
      by_contra hall
      exact hne (List.countP_eq_length.mpr fun x hx => not_not.mp fun ha => hall ⟨x, hx, ha⟩)
    obtain ⟨i, hi⟩ := List.mem_iff_getElem?.mp hmem
    obtain rfl | rfl := hs.waiting hm hi
    · have hstep := Moves.step (.counted (c := c) hi)
      obtain ⟨t, ht, hu⟩ := ih (step_barrier hs hstep) hm (by simp only; omega)
      exact ⟨t, ht.head hstep, hu⟩
    · exact (hx rfl).elim

def Main.atAwait (m : Main) : Prop := m = .await ∨ m.afterAwait

def Full (c : Config) (s : State) : Prop :=
  s.main = .await → s.sync.activeCount = c.workerThreads

lemma step_atAwait (hm : s.main.atAwait) (h : step c s l = some t) : t.main.atAwait := by
  cases step_moves h with
  | spawned hw | spawnedAll hw | wroteAll hw | wrote hw | writeFailed hw =>
    rw [hw] at hm
    rcases hm with hm | hm <;> cases hm
  | waited | counted | locked | entered | left | looped => exact hm
  | _ => exact .inr rfl

lemma Barrier.step_full (hs : Barrier c s ls) (hm : s.main.atAwait) (h : step c s l = some t)
    (hf : Full c s) : Full c t := by
  intro ht
  cases step_moves h with
  | counted hx =>
    cases hs.all_active (hf ht) _ (List.mem_of_getElem? hx)
  | left hx => rcases hs.waiting ht hx with hx | hx <;> cases hx
  | wroteAll hw | wrote hw =>
    rw [hw] at hm
    rcases hm with hm | hm <;> cases hm
  | waited | locked | entered | looped => exact hf ht
  | _ => cases ht

lemma run_full {ks : List Label} (hs : Barrier c s ls) (hm : s.main.atAwait) (hf : Full c s)
    (h : Machine.run (step c) s ks = some t) : Full c t := by
  refine (Machine.run_invariant (fun t => (∃ ls, Barrier c t ls) ∧ t.main.atAwait ∧ Full c t)
    ?_ ⟨⟨ls, hs⟩, hm, hf⟩ h).2.2
  rintro s l t ⟨⟨ls, hs⟩, hm, hf⟩ hl
  exact ⟨⟨_, step_barrier hs hl⟩, step_atAwait hm hl, hs.step_full hm hl hf⟩

def Started (c : Config) (s : State) (ls : List Label) : Prop :=
  writes ls = c.sockets ∧ ∀ j < c.workerThreads, ∃ x, s.threads[j]? = some x ∧ x.incremented

theorem barrier_safety (c : Config) (ls : List Label) (s : State)
    (h : Machine.run (step c) (start c) ls = some s) (hw : .write false ∉ ls) :
    (∀ i l t, step c s (.loop i l) = some t → Started c s ls) ∧
      s.sync.activeCount = s.threads.countP Thread.active ∧
      (s.main = .await → (∃ t, Reaches (step c) s t ∧ t.main = .unlock) ∧
        (s.sync.activeCount = c.workerThreads →
          ∀ ks t, Machine.run (step c) s ks = some t → t.main = .await →
            t.sync.activeCount = c.workerThreads)) ∧
      ∀ k, s.main = .running k → s.sync.activeCount = 0 →
        ∀ j < c.workerThreads, ∃ w, s.threads[j]? = some (.returned w) := by
  have hs := run_barrier h
  have hget {j : ℕ} (hj : j < c.workerThreads) : ∃ x, s.threads[j]? = some x :=
    ⟨_, List.getElem?_eq_getElem (hs.inv.length ▸ hj)⟩
  refine ⟨fun i l t hl => ?_, hs.count, fun hm => ⟨?_, fun hn ks t hr => ?_⟩,
    fun k hm hn j hj => ?_⟩
  · cases step_moves hl with
    | looped hx =>
      have ha := hs.past hx
      refine ⟨(hs.written hw).all ha, fun j hj => ?_⟩
      obtain ⟨x, hx⟩ := hget hj
      exact ⟨x, hx, hs.incremented hw ha j x hx⟩
  · have hle := List.countP_le_length (p := Thread.active) (l := s.threads)
    rw [hs.inv.length] at hle
    apply reaches_unlock hs hm (c.workerThreads - s.threads.countP Thread.active)
    rw [hs.count]
    omega
  · exact run_full hs (.inl hm) (fun _ => hn) hr
  · obtain ⟨x, hx⟩ := hget hj
    have hi := hs.incremented hw (by rw [hm]; rfl) j x hx
    have ha : ¬ x.active := by
      rw [hs.count, Nat.cast_eq_zero, List.countP_eq_zero] at hn
      exact hn x (List.mem_of_getElem? hx)
    cases x with
    | returned w => exact ⟨w, hx⟩
    | notStarted | started => cases hi
    | counted | locked | loop => exact (ha rfl).elim

theorem barrier_safety_one :
    let ls : List Label := [.main, .main, .write true, .main, .thread 0, .main, .main, .thread 0,
      .thread 0]
    ∃ s t, Machine.run (step oneWorker) (start oneWorker) ls = some s ∧
      step oneWorker s (.loop 0 (.wait none 0)) = some t ∧ Started oneWorker s ls := by
  intro ls
  refine ⟨_, _, rfl, rfl, ?_⟩
  exact (barrier_safety oneWorker ls _ rfl (by simp [ls])).1 0 (.wait none 0) _ rfl

end NetworkPing.StartStop
