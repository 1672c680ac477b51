import NetworkPing.Machine
import NetworkPing.Counter
import NetworkPing.Server.Selector

/-! The loop of `worker_thread` after the start barrier. A label holds what the
loop reads in one step: the clock, the epoll batch, `done`, a random timeout and
the results of `recv` and `write`. `bucket` maps a difference of clock readings to
its latency bucket. -/

namespace NetworkPing

structure TestResult where
  mcount : ℕ := 0
  avgLatNs : ℕ := 0
  percentiles : Vector ℕ 19 := Vector.replicate 19 0
  latMap : Counter ℕ := ∅
  messCountForSock : Counter Fd := ∅

structure FdTimout where
  fd : Fd
  readyTime : UInt64
  deriving DecidableEq

def ping (buffSz bc wc : ℤ) : Bool :=
  if 0 > bc then false
  else if 0 = bc then false
  else if buffSz ≠ bc then false
  else if buffSz ≠ wc then false
  else true

namespace Worker

structure Config where
  messageLen : ℤ
  timeoutNsMin : UInt64
  timeoutNsMax : UInt64
  bucket : UInt64 → ℕ

def Config.hasTimeout (c : Config) : Bool := 0 ≠ c.timeoutNsMin || 0 ≠ c.timeoutNsMax

inductive Pc
  | head
  | drain
  | polled
  | events
  | pushed
  | pings (rest : List Fd)
  | pinging (fd : Fd) (rest : List Fd)
  | returned
  deriving DecidableEq

structure State where
  pc : Pc
  sel : EPollRSelector Fd
  lastTimeForSocket : AList fun _ : Fd => UInt64
  readyFds : List Fd
  waitQueue : List FdTimout
  currTime : UInt64
  result : TestResult

inductive Label
  | wait (ready : Option (List Fd)) (now : UInt64)
  | drain (item : FdTimout)
  | drained
  | done (b : Bool)
  | next (fd : Fd) (draw : UInt64)
  | exhausted
  | ping (fd : Fd) (bc wc : ℤ) (now : UInt64)
  | pinged
  deriving DecidableEq

def start (sockCount : ℤ) : State where
  pc := .head
  sel := .create sockCount
  lastTimeForSocket := ∅
  readyFds := []
  waitQueue := []
  currTime := 0
  result := {}

/-- An item that `wait_queue.top()` may return: none is due before it. -/
def IsTop (queue : List FdTimout) (item : FdTimout) : Prop :=
  item ∈ queue ∧ ∀ x ∈ queue, item.readyTime ≤ x.readyTime

instance (queue : List FdTimout) (item : FdTimout) : Decidable (IsTop queue item) :=
  inferInstanceAs (Decidable (_ ∧ _))

def ltime (s : State) (fd : Fd) : UInt64 := (s.lastTimeForSocket.lookup fd).getD 0

def noteLatency (c : Config) (s : State) (fd : Fd) : State :=
  if fd ∈ s.lastTimeForSocket then
    { s with result.latMap := s.result.latMap.add (c.bucket (s.currTime - ltime s fd)) 1 }
  else { s with lastTimeForSocket := s.lastTimeForSocket.insert fd 0 }

def deadline (c : Config) (s : State) (fd : Fd) (draw : UInt64) : UInt64 :=
  ltime s fd + if c.timeoutNsMax ≠ c.timeoutNsMin then draw else c.timeoutNsMax

def handle (c : Config) (s : State) (fd : Fd) (draw : UInt64) : State :=
  let s' := noteLatency c s fd
  if c.hasTimeout ∧ s.currTime < deadline c s fd draw then
    { s' with pc := .events, waitQueue := ⟨fd, deadline c s fd draw⟩ :: s'.waitQueue }
  else { s' with pc := .pushed, readyFds := s'.readyFds ++ [fd] }

def step (c : Config) (s : State) (l : Label) : Option State :=
  match s.pc, l with
  -- the clock reading before the wait only decides how long the wait may last
  | .head, .wait ready now =>
    match s.sel.wait ready with
    | none => some { s with pc := .returned, readyFds := [] }
    | some sel => some { s with
        pc := if s.waitQueue.length > 0 then .drain else .polled
        sel := sel, readyFds := [], currTime := now }
  | .drain, .drain item =>
    if IsTop s.waitQueue item ∧ item.readyTime ≤ s.currTime then
      some { s with readyFds := s.readyFds ++ [item.fd], waitQueue := s.waitQueue.erase item }
    else none
  | .drain, .drained =>
    if ∀ x ∈ s.waitQueue, s.currTime < x.readyTime then some { s with pc := .polled } else none
  | .polled, .done b =>
    if b then some { s with pc := .returned }
    else some { s with pc := .events, result.mcount := s.result.mcount + s.sel.readyCount }
  | .events, .next fd draw =>
    match s.sel.next with
    | some (fd', sel) => if fd = fd' then some (handle c { s with sel := sel } fd draw) else none
    | none => none
  | .events, .exhausted =>
    match s.sel.next with
    | some _ => none
    | none => some { s with pc := .pings s.readyFds }
  | .pushed, .done b => some { s with pc := if b then .returned else .events }
  | .pings (fd :: rest), .done b => some { s with pc := if b then .returned else .pinging fd rest }
  | .pings [], .pinged => some { s with pc := .head }
  | .pinging fd rest, .ping fd' bc wc now =>
    if fd = fd' then
      if ping c.messageLen bc wc then some { s with
        pc := .pings rest
        lastTimeForSocket := s.lastTimeForSocket.insert fd now
        result.messCountForSock := s.result.messCountForSock.add fd 1 }
      else some { s with pc := .returned }
    else none
  | _, _ => none

inductive Moves (c : Config) (s : State) : Label → State → Prop
  | failed {now} (h : s.pc = .head) :
      Moves c s (.wait none now) { s with pc := .returned, readyFds := [] }
  | waited {batch now} (h : s.pc = .head) :
      Moves c s (.wait (some batch) now) { s with
        pc := if s.waitQueue.length > 0 then .drain else .polled
        sel := { s.sel with ready := batch, current := none }, readyFds := [], currTime := now }
  | expired {item} (h : s.pc = .drain) (ht : IsTop s.waitQueue item)
      (hd : item.readyTime ≤ s.currTime) :
      Moves c s (.drain item) { s with
        readyFds := s.readyFds ++ [item.fd], waitQueue := s.waitQueue.erase item }
  | drained (h : s.pc = .drain) (hd : ∀ x ∈ s.waitQueue, s.currTime < x.readyTime) :
      Moves c s .drained { s with pc := .polled }
  | counted (h : s.pc = .polled) :
      Moves c s (.done false) { s with
        pc := .events, result.mcount := s.result.mcount + s.sel.readyCount }
  | handled {fd fds draw} (h : s.pc = .events) (hr : s.sel.ready = fd :: fds) :
      Moves c s (.next fd draw)
        (handle c { s with sel := { s.sel with ready := fds, current := some fd } } fd draw)
  | exhausted (h : s.pc = .events) (hr : s.sel.ready = []) :
      Moves c s .exhausted { s with pc := .pings s.readyFds }
  | pushed (h : s.pc = .pushed) : Moves c s (.done false) { s with pc := .events }
  | pinging {fd rest} (h : s.pc = .pings (fd :: rest)) :
      Moves c s (.done false) { s with pc := .pinging fd rest }
  | stopped (h : s.pc = .polled ∨ s.pc = .pushed ∨ ∃ fd rest, s.pc = .pings (fd :: rest)) :
      Moves c s (.done true) { s with pc := .returned }
  | pinged (h : s.pc = .pings []) : Moves c s .pinged { s with pc := .head }
  | answered {fd rest bc wc now} (h : s.pc = .pinging fd rest) (hp : ping c.messageLen bc wc) :
      Moves c s (.ping fd bc wc now) { s with
        pc := .pings rest
        lastTimeForSocket := s.lastTimeForSocket.insert fd now
        result.messCountForSock := s.result.messCountForSock.add fd 1 }
  | broken {fd rest bc wc now} (h : s.pc = .pinging fd rest) (hp : ¬ ping c.messageLen bc wc) :
      Moves c s (.ping fd bc wc now) { s with pc := .returned }

lemma step_moves {c : Config} {s t : State} {l : Label} (h : step c s l = some t) :
    Moves c s l t := by
  rw [step.eq_def] at h
  split at h
  next ready now hpc =>
    cases ready with
    | none => cases h; exact .failed hpc
    | some batch => cases h; exact .waited hpc
  next item hpc =>
    split_ifs at h with hc
    cases h
    exact .expired hpc hc.1 hc.2
  next hpc =>
    split_ifs at h with hd
    cases h
    exact .drained hpc hd
  next b hpc =>
    cases b <;> cases h
    · exact .counted hpc
    · exact .stopped (.inl hpc)
  next fd draw hpc =>
    cases hr : s.sel.ready with
    | nil => simp [EPollRSelector.next_nil hr] at h
    | cons fd' fds =>
      simp only [EPollRSelector.next_cons hr] at h
      split_ifs at h with hf
      cases h
      subst hf
      exact .handled hpc hr
  next hpc =>
    cases hr : s.sel.ready with
    | nil =>
      simp only [EPollRSelector.next_nil hr] at h
      cases h
      exact .exhausted hpc hr
    | cons fd fds => simp [EPollRSelector.next_cons hr] at h
  next b hpc =>
    cases b <;> cases h
    · exact .pushed hpc
    · exact .stopped (.inr (.inl hpc))
  next fd rest b hpc =>
    cases b <;> cases h
    · exact .pinging hpc
    · exact .stopped (.inr (.inr ⟨fd, rest, hpc⟩))
  next hpc =>
    cases h
    exact .pinged hpc
  next fd rest fd' bc wc now hpc =>
    split_ifs at h with hf hp
    · subst hf
      cases h
      exact .answered hpc hp
    · subst hf
      cases h
      exact .broken hpc hp
  next => cases h

lemma Moves.step {c : Config} {s t : State} {l : Label} (h : Moves c s l t) :
    step c s l = some t := by
  cases h with
  | failed h | waited h => simp [Worker.step, h, EPollRSelector.wait]
  | expired h ht hd => simp only [Worker.step, h, if_pos (And.intro ht hd)]
  | drained h hd => simp only [Worker.step, h, if_pos hd]
  | handled h hr => simp only [Worker.step, h, EPollRSelector.next_cons hr, if_true]
  | exhausted h hr => simp only [Worker.step, h, EPollRSelector.next_nil hr]
  | stopped h => rcases h with h | h | ⟨fd, rest, h⟩ <;> simp [Worker.step, h]
  | answered h hp => simp only [Worker.step, h, if_true, if_pos hp]
  | broken h hp => simp only [Worker.step, h, if_true, if_neg hp]
  | counted h | pushed h | pinging h | pinged h => simp [Worker.step, h]

end Worker

end NetworkPing
