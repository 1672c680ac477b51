import NetworkPing.Server.WorkerHolding

namespace NetworkPing

inductive Answer
  | wait (ready : Option (List Fd))
  | ping (fd : Fd) (bc wc : ℤ)
  deriving DecidableEq

namespace Worker

def answers : Label → List Answer
  | .wait ready _ => [.wait ready]
  | .ping fd bc wc _ => [.ping fd bc wc]
  | _ => []

end Worker

namespace WorkerFast

open Worker (Config)

inductive Pc
  | head
  | polled
  | events
  | returned
  deriving DecidableEq

structure State where
  pc : Pc
  sel : EPollRSelector Fd
  mcount : ℕ

inductive Label
  | wait (ready : Option (List Fd))
  | done (b : Bool)
  | ping (fd : Fd) (bc wc : ℤ)
  | exhausted
  deriving DecidableEq

/-- A request with timeouts is refused in front of the start barrier. -/
def start (c : Config) (sockCount : ℤ) : State where
  pc := if c.hasTimeout then .returned else .head
  sel := .create sockCount
  mcount := 0

def step (c : Config) (s : State) (l : Label) : Option State :=
  match s.pc, l with
  | .head, .wait ready =>
    match s.sel.wait ready with
    | none => some { s with pc := .returned }
    | some sel => some { s with pc := .polled, sel := sel }
  | .polled, .done b =>
    if b then some { s with pc := .returned }
    else some { s with pc := .events, mcount := s.mcount + s.sel.readyCount }
  | .events, .ping fd bc wc =>
    match s.sel.next with
    | some (fd', sel) =>
      if fd = fd' then
        if ping c.messageLen bc wc then some { s with sel := sel }
        else some { s with pc := .returned, sel := sel }
      else none
    | none => none
  | .events, .exhausted =>
    match s.sel.next with
    | some _ => none
    | none => some { s with pc := .head }
  | _, _ => none

def answers : Label → List Answer
  | .wait ready => [.wait ready]
  | .ping fd bc wc => [.ping fd bc wc]
  | _ => []

inductive Moves (c : Config) (s : State) : Label → State → Prop
  | failed (h : s.pc = .head) : Moves c s (.wait none) { s with pc := .returned }
  | waited {batch} (h : s.pc = .head) :
      Moves c s (.wait (some batch))
        { s with pc := .polled, sel := { s.sel with ready := batch, current := none } }
  | stopped (h : s.pc = .polled) : Moves c s (.done true) { s with pc := .returned }
  | counted (h : s.pc = .polled) :
      Moves c s (.done false) { s with pc := .events, mcount := s.mcount + s.sel.ready.length }
  | answered {fd fds bc wc} (h : s.pc = .events) (hr : s.sel.ready = fd :: fds)
      (hp : ping c.messageLen bc wc) :
      Moves c s (.ping fd bc wc) { s with sel := { s.sel with ready := fds, current := some fd } }
  | broken {fd fds bc wc} (h : s.pc = .events) (hr : s.sel.ready = fd :: fds)
      (hp : ¬ ping c.messageLen bc wc) :
      Moves c s (.ping fd bc wc)
        { s with pc := .returned, sel := { s.sel with ready := fds, current := some fd } }
  | exhausted (h : s.pc = .events) (hr : s.sel.ready = []) :
      Moves c s .exhausted { s with pc := .head }

variable {c : Config} {s u : Worker.State} {t v : State} {n : ℤ}

lemma step_moves {l : Label} (h : step c t l = some v) : Moves c t l v := by
  rw [step.eq_def] at h
  split at h
  next ready hpc =>
    cases ready with
    | none => cases h; exact .failed hpc
    | some batch => cases h; exact .waited hpc
  next b hpc =>
    cases b <;> cases h
    · exact .counted hpc
    · exact .stopped hpc
  next fd bc wc hpc =>
    cases hr : t.sel.ready with
    | nil => simp [EPollRSelector.next_nil hr] at h
    | cons fd' fds =>
      simp only [EPollRSelector.next_cons hr] at h
      split_ifs at h with hf hp
      · cases h
        subst hf
        exact .answered hpc hr hp
      · cases h
        subst hf
        exact .broken hpc hr hp
  next hpc =>
    cases hr : t.sel.ready with
    | nil =>
      simp only [EPollRSelector.next_nil hr] at h
      cases h
      exact .exhausted hpc hr
    | cons fd fds => simp [EPollRSelector.next_cons hr] at h
  next => cases h

lemma Moves.step {l : Label} (h : Moves c t l v) : step c t l = some v := by
  cases h with
  | failed h | waited h => simp [WorkerFast.step, h, EPollRSelector.wait]
  | stopped h => simp [WorkerFast.step, h]
  | counted h => simp [WorkerFast.step, h, EPollRSelector.readyCount]
  | answered h hr hp =>
    simp only [WorkerFast.step, h, EPollRSelector.next_cons hr, if_true, if_pos hp]
  | broken h hr hp =>
    simp only [WorkerFast.step, h, EPollRSelector.next_cons hr, if_true, if_neg hp]
  | exhausted h hr => simp only [WorkerFast.step, h, EPollRSelector.next_nil hr]

lemma start_head (hc : c.hasTimeout = false) : (start c n).pc = .head := by
  rw [start, hc]
  rfl

/-- Where the fast loop is while the plain one goes through the sockets a second time. A worker
that sees `done` in the middle of a batch leaves sockets to the fast one. -/
def Position (s : Worker.State) (t : State) : Prop :=
  match s.pc with
  | .head => t.pc = .head
  | .drain => False
  | .polled => t.pc = .polled ∧ s.readyFds = [] ∧ t.sel.ready = s.sel.ready
  | .events => t.pc = .events ∧ t.sel.ready = s.readyFds ++ s.sel.ready
  | .pushed => t.pc = .events ∧ t.sel.ready = s.readyFds ++ s.sel.ready ∧ s.readyFds ≠ []
  | .pings rest => t.pc = .events ∧ t.sel.ready = rest
  | .pinging fd rest => t.pc = .events ∧ t.sel.ready = fd :: rest
  | .returned => t.pc = .returned ∨ t.pc = .events ∧ t.sel.ready ≠ []

structure Ahead (s : Worker.State) (t : State) : Prop where
  count : t.mcount = s.result.mcount
  queue : s.waitQueue = []
  position : Position s t

lemma handle_plain (hc : c.hasTimeout = false) (fd : Fd) (draw : UInt64) :
    Worker.handle c s fd draw = { Worker.noteLatency c s fd with
      pc := .pushed, readyFds := s.readyFds ++ [fd] } := by
  rw [Worker.handle, if_neg (by simp [hc]), Worker.noteLatency_readyFds]

lemma step_ahead (hc : c.hasTimeout = false) {l : Worker.Label} (h : Ahead s t)
    (hl : Worker.step c s l = some u) : ∃ ks v, Machine.run (step c) t ks = some v ∧
      ks.flatMap answers = Worker.answers l ∧ Ahead u v := by
  have one {k : Label} {v : State} (hm : Moves c t k v) (hk : answers k = Worker.answers l)
      (ha : Ahead u v) :
      ∃ ks v, Machine.run (step c) t ks = some v ∧ ks.flatMap answers = Worker.answers l ∧
        Ahead u v := by
    refine ⟨[k], v, Machine.run_step hm.step rfl, ?_, ha⟩
    rw [List.flatMap_singleton, hk]
  have idle (hk : Worker.answers l = []) (ha : Ahead u t) :
      ∃ ks v, Machine.run (step c) t ks = some v ∧ ks.flatMap answers = Worker.answers l ∧
        Ahead u v := ⟨[], t, rfl, hk.symm, ha⟩
  obtain ⟨hcount, hqueue, hpos⟩ := h
  cases Worker.step_moves hl with
  | failed hpc =>
    rw [Position, hpc] at hpos
    exact one (.failed hpos) rfl ⟨hcount, hqueue, .inl rfl⟩
  | @waited batch now hpc =>
    rw [Position, hpc] at hpos
    refine one (.waited hpos) rfl ⟨hcount, hqueue, ?_⟩
    simp [Position, hqueue]
  | expired hpc | drained hpc =>
    rw [Position, hpc] at hpos
    exact hpos.elim
  | counted hpc =>
    rw [Position, hpc] at hpos
    obtain ⟨hp, hready, hsel⟩ := hpos
    refine one (.counted hp) rfl ⟨?_, hqueue, ?_⟩
    · simp only [hcount, hsel, EPollRSelector.readyCount]
    · simp only [Position, hready, hsel, List.nil_append, and_self]
  | @handled fd fds draw hpc hr =>
    rw [Position, hpc, hr] at hpos
    apply idle rfl
    rw [handle_plain hc]
    refine ⟨?_, ?_, hpos.1, ?_, by simp⟩
    · simpa only [Worker.noteLatency_mcount] using hcount
    · simpa only [Worker.noteLatency_waitQueue] using hqueue
    · simpa only [Worker.noteLatency_sel, List.append_assoc, List.singleton_append] using hpos.2
  | exhausted hpc hr =>
    rw [Position, hpc, hr, List.append_nil] at hpos
    exact idle rfl ⟨hcount, hqueue, hpos⟩
  | pushed hpc =>
    rw [Position, hpc] at hpos
    exact idle rfl ⟨hcount, hqueue, hpos.1, hpos.2.1⟩
  | pinging hpc =>
    rw [Position, hpc] at hpos
    exact idle rfl ⟨hcount, hqueue, hpos⟩
  | stopped hpc =>
    rcases hpc with hpc | hpc | ⟨fd, rest, hpc⟩ <;> rw [Position, hpc] at hpos
    · exact one (.stopped hpos.1) rfl ⟨hcount, hqueue, .inl rfl⟩
    · refine idle rfl ⟨hcount, hqueue, .inr ⟨hpos.1, ?_⟩⟩
      rw [hpos.2.1]
      exact List.append_ne_nil_of_left_ne_nil hpos.2.2 _
    · refine idle rfl ⟨hcount, hqueue, .inr ⟨hpos.1, ?_⟩⟩
      rw [hpos.2]
      exact List.cons_ne_nil _ _
  | pinged hpc =>
    rw [Position, hpc] at hpos
    exact one (.exhausted hpos.1 hpos.2) rfl ⟨hcount, hqueue, rfl⟩
  | answered hpc hp =>
    rw [Position, hpc] at hpos
    exact one (.answered hpos.1 hpos.2 hp) rfl ⟨hcount, hqueue, hpos.1, rfl⟩
  | broken hpc hp =>
    rw [Position, hpc] at hpos
    exact one (.broken hpos.1 hpos.2 hp) rfl ⟨hcount, hqueue, .inl rfl⟩

structure Behind (t : State) (s : Worker.State) : Prop where
  count : s.result.mcount = t.mcount
  queue : s.waitQueue = []
  position : match t.pc with
    | .head => s.pc = .head
    | .polled => s.pc = .polled ∧ s.readyFds = [] ∧ s.sel.ready = t.sel.ready
    | .events => s.pc = .pings t.sel.ready
    | .returned => s.pc = .returned

lemma run_events (hc : c.hasTimeout = false) {fds : List Fd} (hpc : s.pc = .events)
    (hr : s.sel.ready = fds) (hq : s.waitQueue = []) : ∃ ls u,
      Machine.run (Worker.step c) s ls = some u ∧ ls.flatMap Worker.answers = [] ∧
      u.pc = .pings (s.readyFds ++ fds) ∧ u.waitQueue = [] ∧ u.result.mcount = s.result.mcount := by
  induction fds generalizing s with
  | nil =>
    refine ⟨[.exhausted], _, Machine.run_step (Worker.Moves.exhausted hpc hr).step rfl, rfl, ?_,
      hq, rfl⟩
    rw [List.append_nil]
  | cons fd fds ih =>
    have hm : Worker.Moves c s (.next fd 0) _ := .handled hpc hr
    have hh := hm.step
    rw [handle_plain hc] at hh
    have hd := Worker.Moves.step (c := c) (Worker.Moves.pushed (s := { Worker.noteLatency c
      { s with sel := { s.sel with ready := fds, current := some fd } } fd with
      pc := .pushed, readyFds := s.readyFds ++ [fd] }) rfl)
    obtain ⟨ls, u, hrun, hans, hu, huq, hum⟩ := ih (s := { Worker.noteLatency c
      { s with sel := { s.sel with ready := fds, current := some fd } } fd with
      pc := .events, readyFds := s.readyFds ++ [fd] }) rfl (by simp) (by simpa using hq)
    refine ⟨.next fd 0 :: .done false :: ls, u, ?_, hans, ?_, huq, ?_⟩
    · exact Machine.run_step hh (Machine.run_step hd hrun)
    · simpa using hu
    · simpa using hum

lemma step_behind (hc : c.hasTimeout = false) {k : Label} (h : Behind t s)
    (hk : step c t k = some v) : ∃ ls u, Machine.run (Worker.step c) s ls = some u ∧
      ls.flatMap Worker.answers = answers k ∧ Behind v u := by
  obtain ⟨hcount, hqueue, hpos⟩ := h
  cases step_moves hk with
  | failed hpc =>
    simp only [hpc] at hpos
    exact ⟨[.wait none 0], _, Machine.run_step (Worker.Moves.failed hpos).step rfl, rfl,
      hcount, hqueue, rfl⟩
  | @waited batch hpc =>
    simp only [hpc] at hpos
    refine ⟨[.wait (some batch) 0], _, Machine.run_step (Worker.Moves.waited hpos).step rfl, rfl,
      hcount, hqueue, ?_⟩
    simp [hqueue]
  | stopped hpc =>
    simp only [hpc] at hpos
    exact ⟨[.done true], _, Machine.run_step (Worker.Moves.stopped (.inl hpos.1)).step rfl, rfl,
      hcount, hqueue, rfl⟩
  | counted hpc =>
    simp only [hpc] at hpos
    obtain ⟨hp, hready, hsel⟩ := hpos
    obtain ⟨ls, u, hrun, hans, hu, huq, hum⟩ := run_events hc
      (s := { s with pc := .events, result.mcount := s.result.mcount + s.sel.readyCount })
      rfl hsel hqueue
    refine ⟨.done false :: ls, u, Machine.run_step (Worker.Moves.counted hp).step hrun, hans,
      ?_, huq, ?_⟩
    · rw [hum, ← hcount, EPollRSelector.readyCount, hsel]
    · simpa only [hready, List.nil_append] using hu
  | @answered fd fds bc wc hpc hr hp =>
    simp only [hpc, hr] at hpos
    exact ⟨[.done false, .ping fd bc wc 0], _, Machine.run_step (Worker.Moves.pinging hpos).step
      (Machine.run_step (Worker.Moves.answered rfl hp).step rfl), rfl, hcount, hqueue,
      by simp only [hpc]⟩
  | @broken fd fds bc wc hpc hr hp =>
    simp only [hpc, hr] at hpos
    exact ⟨[.done false, .ping fd bc wc 0], _, Machine.run_step (Worker.Moves.pinging hpos).step
      (Machine.run_step (Worker.Moves.broken rfl hp).step rfl), rfl, hcount, hqueue, rfl⟩
  | exhausted hpc hr =>
    simp only [hpc, hr] at hpos
    exact ⟨[.pinged], _, Machine.run_step (Worker.Moves.pinged hpos).step rfl, rfl, hcount,
      hqueue, rfl⟩

theorem worker_thread_fast_agrees (c : Config) (hc : c.hasTimeout = false) (n : ℤ) :
    (∀ ls s, Machine.run (Worker.step c) (Worker.start n) ls = some s →
      ∃ ks t, Machine.run (step c) (start c n) ks = some t ∧
        ks.flatMap answers = ls.flatMap Worker.answers ∧ t.mcount = s.result.mcount ∧
        (s.pc = .returned → t.pc = .returned ∨ t.pc = .events ∧ t.sel.ready ≠ [])) ∧
    ∀ ks t, Machine.run (step c) (start c n) ks = some t →
      ∃ ls s, Machine.run (Worker.step c) (Worker.start n) ls = some s ∧
        ls.flatMap Worker.answers = ks.flatMap answers ∧ s.result.mcount = t.mcount ∧
        (t.pc = .returned → s.pc = .returned) := by
  constructor
  · intro ls s h
    have hstart : Ahead (Worker.start n) (start c n) := ⟨rfl, rfl, start_head hc⟩
    obtain ⟨ks, t, hk, hans, ht⟩ :=
      Machine.run_forward Ahead _ _ (fun _ _ _ _ hs hl => step_ahead hc hs hl) hstart h
    refine ⟨ks, t, hk, hans, ht.count, fun hs => ?_⟩
    simpa only [Position, hs] using ht.position
  · intro ks t h
    have hstart : Behind (start c n) (Worker.start n) := by
      refine ⟨rfl, rfl, ?_⟩
      rw [start_head hc]
      rfl
    obtain ⟨ls, s, hl, hans, hs⟩ :=
      Machine.run_forward Behind _ _ (fun _ _ _ _ hs hl => step_behind hc hs hl) hstart h
    refine ⟨ls, s, hl, hans, hs.count, fun ht => ?_⟩
    simpa only [ht] using hs.position

theorem worker_thread_fast_agrees_two :
    ∃ ks t, Machine.run (step ⟨3, 0, 0, fun _ => 0⟩) (start ⟨3, 0, 0, fun _ => 0⟩ 2) ks = some t ∧
      ks.flatMap answers = [.wait (some [5, 6]), .ping 5 3 3] ∧ t.mcount = 2 ∧
      (Worker.Pc.returned = .returned → t.pc = .returned ∨ t.pc = .events ∧ t.sel.ready ≠ []) :=
  (worker_thread_fast_agrees ⟨3, 0, 0, fun _ => 0⟩ rfl 2).1
    [.wait (some [5, 6]) 10, .done false, .next 5 0, .done false, .next 6 0, .done false,
      .exhausted, .done false, .ping 5 3 3 20, .done true] _ rfl

end WorkerFast

end NetworkPing
