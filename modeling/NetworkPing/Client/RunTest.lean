import NetworkPing.Client.Watch
import NetworkPing.Machine

/-! `run_test` of the clients over any selector, from the loop that registers the
accepted sockets on. A label holds the answer of `epoll_ctl`, the outcome of a wait, or
the event that `next` gives with the answer of `process_message`. The log keeps the
sockets that `process_message` was called on and those that were removed. -/

namespace NetworkPing.Client

def POLLIN : UInt32 := 0x001
def POLLERR : UInt32 := 0x008
def POLLHUP : UInt32 := 0x010
def POLLNVAL : UInt32 := 0x020

/-- What the events decide about `close_sock`; `none` leaves it to `process_message`. -/
def dispatch (events : UInt32) : Option Bool :=
  if events &&& POLLHUP ≠ 0 ∨ events &&& POLLERR ≠ 0 then some true
  else if events &&& POLLNVAL ≠ 0 then some true
  else if events &&& POLLIN ≠ 0 then none
  else some (0 ≠ events)

def closeSock (events : UInt32) (answer : Bool) : Bool := (dispatch events).getD (!answer)

structure Log where
  calls : List Fd := []
  removed : List Fd := []
  deriving DecidableEq

def Log.note (log : Log) (fd : Fd) (events : UInt32) (answer : Bool) : Log where
  calls := if (dispatch events).isNone then log.calls ++ [fd] else log.calls
  removed := if closeSock events answer then log.removed ++ [fd] else log.removed

inductive Pc
  | adding (rest : List Fd)
  | head
  | events
  | returned (code : ℤ)
  deriving DecidableEq

structure State (σ : Type) where
  pc : Pc
  sel : σ
  fdLeft : ℤ
  log : Log

inductive Label
  | add (ok : Bool)
  | prepared
  | wait (o : Outcome)
  | finished
  | next (fd : Fd) (events : UInt32) (answer : Bool)
  | exhausted
  deriving DecidableEq

def Admissible (live : List Fd) : Outcome → Prop
  | .batch events => (events.map Prod.fst).Nodup ∧ ∀ e ∈ events, e.1 ∈ live
  | _ => True

instance (live : List Fd) : DecidablePred (Admissible live)
  | .batch _ => inferInstanceAs (Decidable (_ ∧ _))
  | .interrupted => isTrue trivial
  | .fatal => isTrue trivial

variable {σ : Type}

def start (S : RSelector σ) (thCount : ℕ) (sockets : List Fd) : State σ where
  pc := .adding sockets
  sel := S.create thCount
  fdLeft := thCount
  log := {}

def handle (S : RSelector σ) (s : State σ) (fd : Fd) (events : UInt32) (answer : Bool) :
    State σ :=
  let t := { s with log := s.log.note fd events answer }
  if closeSock events answer then
    { t with sel := S.removeCurrentReady s.sel, fdLeft := s.fdLeft - 1 }
  else t

def step (S : RSelector σ) (s : State σ) (l : Label) : Option (State σ) :=
  match s.pc, l with
  | .adding (fd :: rest), .add ok =>
    match S.addFd s.sel fd ok with
    | some sel => some { s with pc := .adding rest, sel := sel }
    | none => some { s with pc := .returned 1 }
  | .adding [], .prepared => some { s with pc := .head }
  | .head, .wait o =>
    if s.fdLeft > 0 ∧ Admissible (S.live s.sel) o then
      match S.wait s.sel o with
      | .failed => some { s with pc := .returned 1 }
      | .again => some s
      | .ready sel => some { s with pc := .events, sel := sel }
    else none
  | .head, .finished => if s.fdLeft > 0 then none else some { s with pc := .returned 0 }
  | .events, .next fd events answer =>
    match S.next s.sel with
    | (some e, sel) =>
      if e = (fd, events) then some (handle S { s with sel := sel } fd events answer) else none
    | (none, _) => none
  | .events, .exhausted =>
    match S.next s.sel with
    | (none, sel) => some { s with pc := .head, sel := sel }
    | (some _, _) => none
  | _, _ => none

inductive Moves (S : RSelector σ) (s : State σ) : Label → State σ → Prop
  | added {fd rest ok sel} (h : s.pc = .adding (fd :: rest)) (ha : S.addFd s.sel fd ok = some sel) :
      Moves S s (.add ok) { s with pc := .adding rest, sel := sel }
  | refused {fd rest ok} (h : s.pc = .adding (fd :: rest)) (ha : S.addFd s.sel fd ok = none) :
      Moves S s (.add ok) { s with pc := .returned 1 }
  | prepared (h : s.pc = .adding []) : Moves S s .prepared { s with pc := .head }
  | failed {o} (h : s.pc = .head) (hf : 0 < s.fdLeft) (ho : Admissible (S.live s.sel) o)
      (hw : S.wait s.sel o = .failed) : Moves S s (.wait o) { s with pc := .returned 1 }
  | again {o} (h : s.pc = .head) (hf : 0 < s.fdLeft) (ho : Admissible (S.live s.sel) o)
      (hw : S.wait s.sel o = .again) : Moves S s (.wait o) s
  | waited {o sel} (h : s.pc = .head) (hf : 0 < s.fdLeft) (ho : Admissible (S.live s.sel) o)
      (hw : S.wait s.sel o = .ready sel) :
      Moves S s (.wait o) { s with pc := .events, sel := sel }
  | finished (h : s.pc = .head) (hf : ¬ 0 < s.fdLeft) :
      Moves S s .finished { s with pc := .returned 0 }
  | handled {fd events answer sel} (h : s.pc = .events)
      (hn : S.next s.sel = (some (fd, events), sel)) :
      Moves S s (.next fd events answer) (handle S { s with sel := sel } fd events answer)
  | exhausted {sel} (h : s.pc = .events) (hn : S.next s.sel = (none, sel)) :
      Moves S s .exhausted { s with pc := .head, sel := sel }

lemma step_moves {S : RSelector σ} {s t : State σ} {l : Label} (h : step S s l = some t) :
    Moves S s l t := by
  rw [step.eq_def] at h
  split at h
  next fd rest ok hpc =>
    cases ha : S.addFd s.sel fd ok with
    | none =>
      simp only [ha] at h
      cases h
      exact .refused hpc ha
    | some sel =>
      simp only [ha] at h
      cases h
      exact .added hpc ha
  next hpc =>
    cases h
    exact .prepared hpc
  next o hpc =>
    split_ifs at h with hc
    cases hw : S.wait s.sel o with
    | failed =>
      simp only [hw] at h
      cases h
      exact .failed hpc hc.1 hc.2 hw
    | again =>
      simp only [hw] at h
      cases h
      exact .again hpc hc.1 hc.2 hw
    | ready sel =>
      simp only [hw] at h
      cases h
      exact .waited hpc hc.1 hc.2 hw
  next hpc =>
    split_ifs at h with hf
    cases h
    exact .finished hpc hf
  next fd events answer hpc =>
    split at h
    next e sel hn =>
      split_ifs at h with he
      cases h
      exact .handled hpc (he ▸ hn)
    next => cases h
  next hpc =>
    split at h
    next sel hn =>
      cases h
      exact .exhausted hpc hn
    next => cases h
  next => cases h

lemma Moves.step {S : RSelector σ} {s t : State σ} {l : Label} (h : Moves S s l t) :
    step S s l = some t := by
  cases h with
  | added h ha => simp only [Client.step, h, ha]
  | refused h ha => simp only [Client.step, h, ha]
  | prepared h => simp only [Client.step, h]
  | failed h hf ho hw => simp only [Client.step, h, if_pos (And.intro hf ho), hw]
  | again h hf ho hw => simp only [Client.step, h, if_pos (And.intro hf ho), hw]
  | waited h hf ho hw => simp only [Client.step, h, if_pos (And.intro hf ho), hw]
  | finished h hf => simp only [Client.step, h, if_neg hf]
  | handled h hn => simp only [Client.step, h, hn, if_true]
  | exhausted h hn => simp only [Client.step, h, hn]

end NetworkPing.Client
