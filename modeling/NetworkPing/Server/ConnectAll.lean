import NetworkPing.Machine
import NetworkPing.Server.Selector

/-! `connect_all`: a window of at most `conn_q_size` connections in progress. A
label holds the results of the system calls of one step, without `setsockopt`,
whose failure is only reported; `registered` is the kernel's interest list of the
selector, and `binds` records the calls of `bind`. -/

namespace NetworkPing

def checkSocketReady (retval error : ℤ) : Bool :=
  if 0 > retval then false
  else if error ≠ 0 then false
  else true

namespace ConnectAll

structure Config (α : Type) where
  sockCount : Int32
  clientIpAddrs : List α
  connQSize : Int32 := 32

def Config.needBind {α : Type} (c : Config α) : Bool := 0 ≠ c.clientIpAddrs.length

inductive Pc
  | resolve
  | create
  | head
  | socket (i maxConnect : ℤ)
  | confirm
  | ret (b : Bool)
  deriving DecidableEq

structure State (α : Type) where
  pc : Pc
  sockets : List Fd
  currIt : ℕ
  waitingToConnect : ℤ
  sel : EPollRSelector Fd
  registered : List Fd
  binds : List (Fd × α)

structure Attempt where
  sockfd : ℤ
  bind : ℤ
  connect : ℤ
  inProgress : Bool
  epollCtl : ℤ
  deriving DecidableEq

inductive Label
  | gethostbyname (found : Bool)
  | epollCreate (efd : ℤ)
  | loop
  | exit
  | attempt (a : Attempt)
  | wait (ready : Option (List Fd))
  | check (fd : Fd) (retval error : ℤ)
  | exhausted
  deriving DecidableEq

variable {α : Type}

def start (c : Config α) (sockets : List Fd) : State α where
  pc := .resolve
  sockets := sockets
  currIt := 0
  waitingToConnect := 0
  sel := .create c.connQSize.toInt
  registered := []
  binds := []

def Pending (c : Config α) (s : State α) : Prop :=
  -- the subtraction is one of `size_t`
  (c.sockCount.toInt - s.sockets.length) % 2 ^ 64 ≠ 0 ∨ s.waitingToConnect ≠ 0

instance (c : Config α) (s : State α) : Decidable (Pending c s) :=
  inferInstanceAs (Decidable (_ ∨ _))

def maxConnect (c : Config α) (s : State α) : ℤ :=
  min (c.sockCount.toInt - s.sockets.length) (c.connQSize.toInt - s.waitingToConnect)

def wrapped (c : Config α) (s : State α) : ℕ :=
  if s.currIt = c.clientIpAddrs.length then 0 else s.currIt

def bindEntry (c : Config α) (s : State α) (fd : Fd) : List (Fd × α) :=
  (c.clientIpAddrs[wrapped c s]?).toList.map (fd, ·)

def connectOne (c : Config α) (s : State α) (i m : ℤ) (a : Attempt) : State α :=
  if a.sockfd < 0 then { s with pc := .ret false }
  else
    let s := { s with sockets := s.sockets ++ [a.sockfd] }
    let s := if c.needBind then
      { s with currIt := wrapped c s, binds := s.binds ++ bindEntry c s a.sockfd } else s
    if c.needBind ∧ 0 > a.bind then { s with pc := .ret false }
    else
      let s := if c.needBind then { s with currIt := s.currIt + 1 } else s
      if 0 > a.connect ∧ ¬ a.inProgress then { s with pc := .ret false }
      else if -1 = a.epollCtl then { s with pc := .ret false }
      else { s with
        pc := .socket (i + 1) m
        registered := s.registered ++ [a.sockfd]
        waitingToConnect := s.waitingToConnect + 1 }

def Reportable (s : State α) (batch : List Fd) : Prop :=
  batch.Nodup ∧ ∀ fd ∈ batch, fd ∈ s.registered

instance (s : State α) (batch : List Fd) : Decidable (Reportable s batch) :=
  inferInstanceAs (Decidable (_ ∧ _))

def step (c : Config α) (s : State α) (l : Label) : Option (State α) :=
  match s.pc, l with
  | .resolve, .gethostbyname found =>
    if found then some { s with pc := .create, sockets := [] }
    else some { s with pc := .ret false }
  | .create, .epollCreate efd =>
    if efd = -1 then some { s with pc := .ret false } else some { s with pc := .head }
  | .head, .loop =>
    if Pending c s then some { s with pc := .socket 0 (maxConnect c s) } else none
  | .head, .exit => if Pending c s then none else some { s with pc := .ret true }
  | .socket i m, .attempt a => if i < m then some (connectOne c s i m a) else none
  | .socket i m, .wait ready =>
    if i < m then none
    else match ready with
      | none => some { s with pc := .ret false }
      | some batch =>
        if Reportable s batch then
          let sel := { s.sel with ready := batch, current := none }
          if 0 = sel.readyCount then some { s with pc := .ret false, sel := sel }
          else some { s with pc := .confirm, sel := sel }
        else none
  | .confirm, .check fd retval error =>
    match s.sel.next with
    | some (fd', sel) =>
      if fd = fd' then
        if checkSocketReady retval error then some { s with
          waitingToConnect := s.waitingToConnect - 1
          sel := sel
          registered := s.registered.diff sel.removeCurrentReady.toList }
        else some { s with pc := .ret false, sel := sel }
      else none
    | none => none
  | .confirm, .exhausted =>
    match s.sel.next with
    | some _ => none
    | none => some { s with pc := .head }
  | _, _ => none

def created (ls : List Label) : List Fd := ls.filterMap fun
  | .attempt a => if a.sockfd < 0 then none else some a.sockfd
  | _ => none

def confirmed (ls : List Label) : List Fd := ls.filterMap fun
  | .check fd retval error => if checkSocketReady retval error then some fd else none
  | _ => none

def rounds (ls : List Label) : ℕ := ls.count .loop

end ConnectAll

end NetworkPing
