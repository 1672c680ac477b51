import NetworkPing.Server.EpollWait

/-! The selectors of the clients, as `run_test` sees them through `RSelector`. An
`Outcome` is the kernel's part of a wait, and the `Bool` of `addFd` the answer of
`epoll_ctl`. `revents` is kept as the `uint32_t` that `next` makes of it. -/

namespace NetworkPing.Client

abbrev Batch := List (Fd × UInt32)

inductive Outcome
  | batch (events : Batch)
  | interrupted
  | fatal
  deriving DecidableEq

inductive Waiting (σ : Type)
  | failed
  | again
  | ready (sel : σ)

/-- `live` are the fds that the kernel watches for the selector, in the order of
their registration. -/
structure RSelector (σ : Type) where
  create : ℕ → σ
  addFd : σ → Fd → Bool → Option σ
  wait : σ → Outcome → Waiting σ
  next : σ → Option (Fd × UInt32) × σ
  removeCurrentReady : σ → σ
  live : σ → List Fd

structure Pollfd where
  fd : Fd
  revents : UInt32
  deriving DecidableEq

structure PollRSelector where
  fds : List Pollfd
  currentFree : ℕ
  currentReady : ℕ
  deriving DecidableEq

namespace PollRSelector

def create (fdCount : ℕ) : PollRSelector := ⟨List.replicate fdCount ⟨0, 0⟩, 0, 0⟩

def addFd (sel : PollRSelector) (sockfd : Fd) : Option PollRSelector :=
  if sel.currentFree = sel.fds.length then none
  else some { sel with
    fds := sel.fds.modify sel.currentFree fun p => { p with fd := sockfd }
    currentFree := sel.currentFree + 1 }

def poll (events : Batch) (p : Pollfd) : Pollfd :=
  { p with revents := if p.fd < 0 then 0 else (events.lookup p.fd).getD 0 }

def wait (sel : PollRSelector) : Outcome → Waiting PollRSelector
  | .batch events => .ready { sel with
      fds := (sel.fds.take sel.currentFree).map (poll events) ++ sel.fds.drop sel.currentFree
      currentReady := 0 }
  | .interrupted => .failed
  | .fatal => .failed

def scan : List Pollfd → ℕ → Option ((Fd × UInt32) × ℕ)
  | [], _ => none
  | p :: ps, i =>
    if p.revents = 0 ∨ p.fd = -1 then scan ps (i + 1) else some ((p.fd, p.revents), i + 1)

def next (sel : PollRSelector) : Option (Fd × UInt32) × PollRSelector :=
  match scan (sel.fds.drop sel.currentReady) sel.currentReady with
  | some (e, i) => (some e, { sel with currentReady := i })
  | none => (none, { sel with currentReady := sel.fds.length })

def removeCurrentReady (sel : PollRSelector) : PollRSelector :=
  { sel with fds := sel.fds.modify (sel.currentReady - 1) fun p => { p with fd := -1 } }

def watched (p : Pollfd) : Option Fd := if 0 ≤ p.fd then some p.fd else none

def live (sel : PollRSelector) : List Fd := (sel.fds.take sel.currentFree).filterMap watched

end PollRSelector

structure Epoll where
  sel : EPollRSelector (Fd × UInt32)
  registered : List Fd

namespace Epoll

def create (sockCount : ℕ) : Epoll := ⟨.create sockCount, []⟩

def addFd (s : Epoll) (sockfd : Fd) (ok : Bool) : Option Epoll :=
  if ok then some { s with registered := s.registered ++ [sockfd] } else none

def answered (s : Epoll) (answer : Option Batch) : Waiting Epoll :=
  match s.sel.wait answer with
  | some sel => .ready { s with sel := sel }
  | none => .failed

def wait (s : Epoll) : Outcome → Waiting Epoll
  | .batch events => s.answered (some events)
  | .interrupted => .again
  | .fatal => s.answered none

def next (s : Epoll) : Option (Fd × UInt32) × Epoll :=
  match s.sel.next with
  | some (e, sel) => (some e, { s with sel := sel })
  | none => (none, s)

def removeCurrentReady (s : Epoll) : Epoll :=
  match s.sel.removeCurrentReady with
  | some e => { s with registered := s.registered.erase e.1 }
  | none => s

end Epoll

def pollSelector : RSelector PollRSelector where
  create := PollRSelector.create
  addFd sel fd _ := sel.addFd fd
  wait := PollRSelector.wait
  next := PollRSelector.next
  removeCurrentReady := PollRSelector.removeCurrentReady
  live := PollRSelector.live

def epollSelector : RSelector Epoll where
  create := Epoll.create
  addFd := Epoll.addFd
  wait := Epoll.wait
  next := Epoll.next
  removeCurrentReady := Epoll.removeCurrentReady
  live := Epoll.registered

def Outcome.Answered : Outcome → EpollResult (Fd × UInt32) → Prop
  | .batch events, .ready events' => events = events' ∧ events ≠ []
  | .interrupted, .failed errno => errno = EINTR
  | .fatal, .failed errno => errno ≠ EINTR
  | _, _ => False

def Epoll.waits (s : Epoll) : List Outcome → Waiting Epoll
  | [] => .again
  | o :: os =>
    match s.wait o with
    | .again => s.waits os
    | w => w

open EpollWait in
lemma loop_blocking {s : Epoll} {os : List Outcome} {polls : List (Poll (Fd × UInt32))}
    (h : List.Forall₂ (fun o p => o.Answered p.result) os polls) (ret curr : UInt64)
    (already : Bool) :
    s.waits os = match loop (-1) ret curr already polls with
      | some w => s.answered (if w.ok then some w.ready else none)
      | none => .again := by
  have hx (curr : UInt64) : ¬ Expired (-1) ret curr := fun h => h.2 rfl
  induction h generalizing curr already with
  | nil => simp [Epoll.waits, loop, hx]
  | @cons o p os polls ho _ ih =>
    obtain ⟨result, now⟩ := p
    cases o with
    | batch events =>
      cases result with
      | failed => cases ho
      | ready events' =>
        obtain ⟨rfl, hne⟩ := ho
        obtain ⟨e, es, rfl⟩ := List.exists_cons_of_ne_nil hne
        simp [Epoll.waits, Epoll.wait, Epoll.answered, EPollRSelector.wait, loop, hx]
    | interrupted =>
      cases result with
      | ready => cases ho
      | failed errno =>
        obtain rfl : errno = EINTR := ho
        simp only [Epoll.waits, Epoll.wait, loop, hx, false_and, if_false, if_true, ih now true]
        cases loop (-1) ret now true polls <;> rfl
    | fatal =>
      cases result with
      | ready => cases ho
      | failed errno =>
        have hne : errno ≠ EINTR := ho
        simp [Epoll.waits, Epoll.wait, Epoll.answered, EPollRSelector.wait, loop, hx, hne]

theorem waits_epollWaitEx (s : Epoll) (start : UInt64) (os : List Outcome)
    (polls : List (Poll (Fd × UInt32)))
    (h : List.Forall₂ (fun o p => o.Answered p.result) os polls) :
    s.waits os = match epollWaitEx start (-1) polls with
      | some w => s.answered (if w.ok then some w.ready else none)
      | none => .again :=
  loop_blocking h _ _ _

theorem waits_epollWaitEx_two :
    let polls : List (Poll (Fd × UInt32)) := [⟨.failed EINTR, 3⟩, ⟨.ready [(5, 1)], 7⟩]
    (Epoll.create 1).waits [.interrupted, .batch [(5, 1)]] =
      match epollWaitEx 0 (-1) polls with
      | some w => (Epoll.create 1).answered (if w.ok then some w.ready else none)
      | none => .again := by
  intro polls
  have hfirst : Outcome.Answered .interrupted (.failed EINTR) := rfl
  have hsecond : Outcome.Answered (.batch [(5, 1)]) (.ready [(5, 1)]) := ⟨rfl, by decide⟩
  exact waits_epollWaitEx (Epoll.create 1) 0 _ polls (.cons hfirst (.cons hsecond .nil))

end NetworkPing.Client
