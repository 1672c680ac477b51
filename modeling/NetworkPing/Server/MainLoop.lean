import NetworkPing.Ledger
import NetworkPing.Server.ConnectWindow
import NetworkPing.Server.RequestArithmetic
import NetworkPing.Wire.Stats

/-! `main_loop_thread` and `process_client` with all that they call, as one machine. The events of
a run are the fds that the process opens and closes and the answers that it writes; fds are closed
where the destructors of `FDCloser`, `FDList` and `EPollRSelector` run. -/

namespace NetworkPing.MainLoop

open RunTest (Check threads maxSockCountPerWorker shard)

structure Config (α : Type) where
  base : ℚ
  bucket : UInt64 → ℕ
  log2Lat : Bool
  singleShot : Bool
  clientIpAddrs : List α

def options : List String → Bool × List String
  | "-s" :: ips => (true, ips)
  | ips => (false, ips)

def Config.ofArgs {α : Type} (base : ℚ) (bucket : UInt64 → ℕ) (log2Lat : Bool)
    (inetAddr : String → α) (args : List String) : Config α where
  base := base
  bucket := bucket
  log2Lat := log2Lat
  singleShot := (options args).1
  clientIpAddrs := (options args).2.map inetAddr

inductive Event
  | opened (fd : Fd)
  | accepted (fd : Fd)
  | closed (fd : Fd)
  | answered (sock : Fd) (responce : List Char) (rc : ℤ)
  deriving DecidableEq

def Event.entry : Event → Option (Ledger.Entry Fd)
  | opened fd | accepted fd => some (.acquire fd)
  | closed fd => some (.release fd)
  | answered .. => none

structure Running where
  sock : Fd
  params : TestParams
  sockets : List Fd
  selectors : List Fd

variable {α : Type}

inductive Frame (α : Type)
  | accept
  | receive (sock : Fd)
  | connect (sock : Fd) (params : TestParams) (efd : Option Fd) (conn : ConnectAll.State α)
  | selectors (r : Running)
  | addFds (r : Running) (idx : ℕ)
  | respond (sock : Fd) (res : TestResult)

inductive Pc (α : Type)
  | signal
  | socket
  | bind (control : Fd)
  | loop (control : Fd) (frame : Frame α)
  | returned (code : ℤ) (held : List Fd)
  /-- An operation was not defined, or nothing catches its exception. -/
  | crashed (held : List Fd)
  /-- The workers wait for a mutex that is never unlocked. -/
  | blocked (held : List Fd)

abbrev State (α : Type) := Ledger.State (Pc α) Event

/-- `undef` is what an operation of `run_test` makes that is not defined: the process dies, or it
goes on with some percentiles. -/
inductive Label
  | signal (ok : Bool)
  | socket (fd : ℤ)
  | bind (rc : ℤ)
  | accept (fd : ℤ)
  | receive (buff : Vector Char Request.sizeofBuff) (recvs : ℕ → Request.Recv)
  | connect (l : ConnectAll.Label)
  | epollCreate (efd : ℤ)
  | addFd (ok : Bool)
  | test (write : ℕ → ℤ) (runs : ℕ → List Worker.Label) (undef : Option (Fin 19 → ℕ))
  | write (rc : ℤ)

def start : State α := ⟨.signal, []⟩

def Running.fds (r : Running) : List Fd := r.selectors ++ (r.sockets ++ [r.sock])

def Frame.owned : Frame α → List Fd
  | accept => []
  | receive sock => [sock]
  | connect sock _ efd conn => efd.toList ++ (conn.sockets ++ [sock])
  | selectors r | addFds r _ => r.fds
  | respond sock _ => [sock]

def Pc.owned : Pc α → List Fd
  | signal | socket => []
  | bind control => [control]
  | loop control frame => frame.owned ++ [control]
  | returned _ held | crashed held | blocked held => held

def Label.opens : Label → Option Fd
  | .socket fd => if fd = -1 then none else some fd
  | .accept fd => if fd < 0 then none else some fd
  | .connect (.epollCreate efd) | .epollCreate efd => if efd = -1 then none else some efd
  | .connect (.attempt a) => if a.sockfd < 0 then none else some a.sockfd
  | _ => none

def Label.acquired : Label → Fd → Event
  | .accept _, fd => .accepted fd
  | _, fd => .opened fd

def Label.selector : ConnectAll.Label → Option Fd
  | .epollCreate efd => if efd = -1 then none else some efd
  | _ => none

def leave (c : Config α) (control : Fd) (frame : Frame α) : Pc α × List Event :=
  (if c.singleShot then .returned 0 [control] else .loop control .accept,
    frame.owned.map .closed)

def stay (control : Fd) (frame : Frame α) : Pc α × List Event := (.loop control frame, [])

def crash (control : Fd) (frame : Frame α) : Pc α × List Event :=
  (.crashed (Pc.loop control frame).owned, [])

def receive (c : Config α) (control sock : Fd) : Request.Received → Pc α × List Event
  | .loaded (.accepted params) =>
    stay control (.connect sock params none
      (ConnectAll.start (RunTest.connectConfig params c.clientIpAddrs) []))
  | .loaded .overrun | .overrun => crash control (.receive sock)
  | .gaveUp | .tooLarge | .loaded .rejected => leave c control (.receive sock)

instance {β : Type} (x : Checked Check β) : Decidable (x.All Check.Ok) :=
  inferInstanceAs (Decidable (∀ k ∈ x.checks, Check.Ok k))

def perWorker (params : TestParams) : Checked Check Unit := do
  let n ← RunTest.div params.numConn.toInt (threads params 3)
  RunTest.size (n + 1)

def connected (c : Config α) (control sock : Fd) (params : TestParams) (efd : Option Fd)
    (conn : ConnectAll.State α) : Pc α × List Event :=
  match conn.pc with
  | .ret true =>
    let r : Running := ⟨sock, params, conn.sockets, []⟩
    if (perWorker params).All Check.Ok then (.loop control (.selectors r), efd.toList.map .closed)
    else (.crashed (r.fds ++ [control]), efd.toList.map .closed)
  | .ret false => leave c control (.connect sock params efd conn)
  | _ => stay control (.connect sock params efd conn)

def created (c : Config α) (control : Fd) (r : Running) (efd : ℤ) : Pc α × List Event :=
  if efd = -1 then leave c control (.selectors r)
  else
    let r := { r with selectors := r.selectors ++ [efd] }
    stay control (if r.selectors.length = (threads r.params 3).toNat then .addFds r 0
      else .selectors r)

def workerResult (c : Worker.Config) (sockCount : ℤ) (fds : List Fd) (ls : List Worker.Label) :
    Option TestResult :=
  (Machine.run (Worker.step c) (Worker.start sockCount) ls).bind fun s =>
    (Machine.run (Worker.report c fds) [] ls).bind fun _ =>
      if s.pc = .returned then some s.result else none

def tresults (c : Config α) (r : Running) (runs : ℕ → List Worker.Label) :
    Option (List TestResult) :=
  (List.range (threads r.params 3).toNat).mapM fun i =>
    workerResult (RunTest.workerConfig c.bucket r.params) (maxSockCountPerWorker r.params 3)
      (shard r.sockets (threads r.params 3).toNat i) (runs i)

def buffers (params : TestParams) : Checked Check Unit := do
  forM (List.range (threads params 3).toNat) fun _ =>
    RunTest.workerBuffers params.messageLen.toInt (maxSockCountPerWorker params 3)
  RunTest.size params.messageLen.toInt

def summary (c : Config α) (params : TestParams) (tresults : List TestResult) :
    Checked Check TestResult := do
  let _ ← RunTest.sleeps false params.runtime.toInt
  RunTest.aggregate c.base params.numConn.toInt tresults

def percentile (params : TestParams) (tresults : List TestResult) (undef : Fin 19 → ℕ)
    (i : Fin 19) : ℕ :=
  let x := RunTest.percentile params.numConn.toInt (RunTest.messageCounts tresults) i
  if x.All Check.Ok then x.value else undef i

-- neither the loop with `sleeps` nor `avg_lat_ns` is in the answer
def undefined (c : Config α) (params : TestParams) (tresults : List TestResult)
    (undef : Fin 19 → ℕ) : TestResult :=
  { (summary c params tresults).value with
    percentiles := .ofFn (percentile params tresults undef) }

def result (c : Config α) (params : TestParams) (tresults : List TestResult)
    (undef : Option (Fin 19 → ℕ)) : Option TestResult :=
  let res := summary c params tresults
  if res.All Check.Ok then some res.value else undef.map (undefined c params tresults)

def finished (c : Config α) (control : Fd) (r : Running) (undef : Option (Fin 19 → ℕ))
    (tresults : List TestResult) : Pc α × List Event :=
  let closed := (r.selectors ++ r.sockets).map .closed
  match result c r.params tresults undef with
  | none => crash control (.selectors r)
  | some res =>
    if r.params.runtime.toInt = 0 then (.crashed [r.sock, control], closed)
    else (.loop control (.respond r.sock res), closed)

/-- What the threads of a test have in common is in `StartStop`: without the first message to each
socket the barrier is never opened. -/
def tested (c : Config α) (control : Fd) (r : Running) (write : ℕ → ℤ)
    (runs : ℕ → List Worker.Label) (undef : Option (Fin 19 → ℕ)) : Option (Pc α × List Event) :=
  if ¬ (buffers r.params).All Check.Ok then some (crash control (.selectors r))
  else if ∃ i < r.sockets.length, r.params.messageLen.toInt ≠ write i then
    some (.blocked (r.fds ++ [control]), [])
  else (tresults c r runs).map (finished c control r undef)

def respond (c : Config α) (control sock : Fd) (res : TestResult) (rc : ℤ) : Pc α × List Event :=
  let responce := Stats.serializeToStr c.log2Lat res
  let (pc, closed) := leave c control (.respond sock res)
  (pc, .answered sock responce rc :: closed)

def move (c : Config α) : Pc α → Label → Option (Pc α × List Event)
  | .signal, .signal ok => some (if ok then .socket else .returned 1 [], [])
  | .socket, .socket fd => some (if fd = -1 then .returned 1 [] else .bind fd, [])
  | .bind control, .bind rc =>
    some (if 0 > rc then .returned 1 [control] else .loop control .accept, [])
  | .loop control .accept, .accept fd =>
    some (stay control (if fd < 0 then .accept else .receive fd))
  | .loop control (.receive sock), .receive buff recvs =>
    some (receive c control sock (Request.processClient buff recvs))
  | .loop control (.connect sock params efd conn), .connect l =>
    (ConnectAll.step (RunTest.connectConfig params c.clientIpAddrs) conn l).map
      (connected c control sock params (efd.or (Label.selector l)))
  | .loop control (.selectors r), .epollCreate efd => some (created c control r efd)
  | .loop control (.addFds r idx), .addFd ok =>
    if idx < r.sockets.length then
      some (if ok then stay control (.addFds r (idx + 1)) else leave c control (.addFds r idx))
    else none
  | .loop control (.addFds r idx), .test write runs undef =>
    if idx < r.sockets.length then none else tested c control r write runs undef
  | .loop control (.respond sock res), .write rc => some (respond c control sock res rc)
  | _, _ => none

def process (c : Config α) : Ledger.Process (Pc α) Label Event Fd where
  move := move c
  opens := Label.opens
  acquired := Label.acquired
  entry := Event.entry
  entry_acquired l fd := by cases l <;> rfl
  owned := Pc.owned

def step (c : Config α) : State α → Label → Option (State α) := (process c).step

variable {c : Config α} {s t : State α} {pc : Pc α} {l : Label} {ls : List Label}
  {x : Pc α × List Event} {control : Fd} {frame : Frame α} {owned : List Fd}

def Frame.Begun : Frame α → Prop
  | connect _ _ efd conn => (conn.pc = .resolve → conn.sockets = []) ∧
      (conn.pc = .resolve ∨ conn.pc = .create → efd = none)
  | _ => True

def Pc.Begun : Pc α → Prop
  | loop _ frame => frame.Begun
  | _ => True

lemma entries_closed (ks : List Fd) :
    (process c).entries (ks.map .closed) = ks.map .release := by
  rw [Ledger.Process.entries, List.filterMap_map]
  exact congrFun (List.filterMap_eq_map (f := Ledger.Entry.release)) ks

lemma closes {ks : List Fd} (h : owned.Perm (ks ++ pc.owned)) :
    (process c).Settles owned (pc, ks.map .closed) := ⟨ks, entries_closed ks, h⟩

lemma leave_settles (c : Config α) (control : Fd) (frame : Frame α) :
    (process c).Settles (frame.owned ++ [control]) (leave c control frame) := by
  apply closes
  split_ifs
  · exact .refl _
  · exact .refl _

lemma connect_created {d : ConnectAll.Config α} {conn conn' : ConnectAll.State α}
    {k : ConnectAll.Label} (h : ConnectAll.step d conn k = some conn')
    (hr : conn.pc = .resolve → conn.sockets = []) :
    conn'.sockets = conn.sockets ++ ConnectAll.created [k] := by
  cases ConnectAll.step_moves h with
  | found hpc => simp [hr hpc, ConnectAll.created]
  | @attempt i m a hpc hi =>
    obtain ⟨ha, hc⟩ | ⟨ha, -, hc, -⟩ | ⟨ha, hc⟩ := ConnectAll.connectOne_cases d conn i m a
    · simp [hc, ConnectAll.created, ha]
    · simp [hc, ConnectAll.created, Int.not_lt.mpr ha]
    · simp [hc, ConnectAll.created, Int.not_lt.mpr ha]
  | _ => exact (List.append_nil _).symm

lemma opens_connect (k : ConnectAll.Label) :
    (Label.connect k).opens.toList = (Label.selector k).toList ++ ConnectAll.created [k] := by
  cases k with
  | epollCreate efd =>
    simp only [Label.opens, Label.selector, ConnectAll.created]
    split_ifs <;> rfl
  | attempt a =>
    simp only [Label.opens, Label.selector, ConnectAll.created]
    by_cases ha : a.sockfd < 0
    · simp [ha]
    · simp [ha]
  | _ => rfl

lemma selector_some {d : ConnectAll.Config α} {conn conn' : ConnectAll.State α}
    {k : ConnectAll.Label} {efd : Fd} (h : ConnectAll.step d conn k = some conn')
    (hk : Label.selector k = some efd) : conn.pc = .create := by
  cases ConnectAll.step_moves h with
  | noSelector hpc => exact hpc
  | selector hpc => exact hpc
  | _ => cases hk

lemma connected_settles (sock : Fd) (params : TestParams) (efd : Option Fd)
    (conn : ConnectAll.State α) :
    (process c).Settles ((Frame.connect sock params efd conn).owned ++ [control])
      (connected c control sock params efd conn) := by
  rw [connected]
  split
  · dsimp only
    split_ifs
    · exact closes (by simp [Frame.owned, Pc.owned, Running.fds])
    · exact closes (by simp [Frame.owned, Pc.owned, Running.fds])
  · exact leave_settles c control _
  · exact Ledger.Process.settles_nil (.refl _)

lemma created_settles (r : Running) (efd : ℤ) :
    (process c).Settles ((Label.epollCreate efd).opens.toList ++ (r.fds ++ [control]))
      (created c control r efd) := by
  rw [created]
  split_ifs with he
  · rw [Label.opens, if_pos he]
    exact leave_settles c control (.selectors r)
  · rw [Label.opens, if_neg he]
    have hp : (efd :: (r.fds ++ [control])).Perm
        ({ r with selectors := r.selectors ++ [efd] }.fds ++ [control]) := by
      simpa [Running.fds] using List.perm_middle.symm
    apply Ledger.Process.settles_nil
    split_ifs
    · exact hp
    · exact hp

lemma finished_settles (r : Running) (undef : Option (Fin 19 → ℕ)) (tresults : List TestResult) :
    (process c).Settles (r.fds ++ [control]) (finished c control r undef tresults) := by
  rw [finished]
  split
  · exact Ledger.Process.settles_nil (.refl _)
  split
  · exact closes (by simp [Running.fds, Pc.owned])
  · exact closes (by simp [Frame.owned, Running.fds, Pc.owned])

lemma tested_settles {r : Running} {write : ℕ → ℤ} {runs : ℕ → List Worker.Label}
    {undef : Option (Fin 19 → ℕ)} (h : tested c control r write runs undef = some x) :
    (process c).Settles (r.fds ++ [control]) x := by
  rw [tested] at h
  split at h
  · cases h
    exact Ledger.Process.settles_nil (.refl _)
  split at h
  · cases h
    exact Ledger.Process.settles_nil (.refl _)
  · obtain ⟨tresults, -, rfl⟩ := Option.map_eq_some_iff.mp h
    exact finished_settles r undef tresults

lemma respond_settles (sock : Fd) (res : TestResult) (rc : ℤ) :
    (process c).Settles [sock, control] (respond c control sock res rc) := by
  obtain ⟨ks, he, hk⟩ := leave_settles c control (.respond sock res)
  exact ⟨ks, he, hk⟩

lemma receive_settles (sock : Fd) (received : Request.Received) :
    (process c).Settles [sock, control] (receive c control sock received) := by
  rw [receive.eq_def]
  split
  · exact Ledger.Process.settles_nil (.refl _)
  · exact Ledger.Process.settles_nil (.refl _)
  · exact Ledger.Process.settles_nil (.refl _)
  · exact leave_settles c control (.receive sock)
  · exact leave_settles c control (.receive sock)
  · exact leave_settles c control (.receive sock)

lemma move_settles (hb : pc.Begun) (h : move c pc l = some x) :
    (process c).Settles (l.opens.toList ++ pc.owned) x := by
  rw [move.eq_def] at h
  split at h
  next ok =>
    cases h
    apply Ledger.Process.settles_nil
    split_ifs <;> exact .refl _
  next fd =>
    cases h
    apply Ledger.Process.settles_nil
    rw [Label.opens]
    split_ifs <;> exact .refl _
  next control rc =>
    cases h
    apply Ledger.Process.settles_nil
    split_ifs <;> exact .refl _
  next control fd =>
    cases h
    apply Ledger.Process.settles_nil
    rw [Label.opens]
    split_ifs <;> exact .refl _
  next control sock buff recvs =>
    cases h
    exact receive_settles sock _
  next control sock params efd conn k =>
    obtain ⟨conn', hc, rfl⟩ := Option.map_eq_some_iff.mp h
    obtain ⟨hr, he⟩ : (conn.pc = .resolve → conn.sockets = []) ∧
      (conn.pc = .resolve ∨ conn.pc = .create → efd = none) := hb
    have hor : (efd.or (Label.selector k)).toList = efd.toList ++ (Label.selector k).toList := by
      cases hk : Label.selector k with
      | none => simp
      | some fd => simp [he (.inr (selector_some hc hk))]
    refine (connected_settles sock params (efd.or (Label.selector k)) conn').perm ?_
    apply List.perm_iff_count.mpr
    intro fd
    simp only [opens_connect, Pc.owned, Frame.owned, hor, connect_created hc hr,
      List.count_append]
    omega
  next control r efd =>
    cases h
    exact created_settles r efd
  next control r idx ok =>
    split_ifs at h
    · cases h
      exact Ledger.Process.settles_nil (.refl _)
    · cases h
      exact leave_settles c control (.addFds r idx)
  next control r idx write runs undef =>
    split_ifs at h
    exact tested_settles h
  next control sock res rc =>
    cases h
    exact respond_settles sock res rc
  next => cases h

lemma connect_begun {d : ConnectAll.Config α} {conn conn' : ConnectAll.State α}
    {k : ConnectAll.Label} (h : ConnectAll.step d conn k = some conn') : conn'.pc ≠ .resolve ∧
      (conn'.pc = .create → conn.pc = .resolve ∧ Label.selector k = none) := by
  cases ConnectAll.step_moves h with
  | found hpc => exact ⟨by simp, fun _ => ⟨hpc, rfl⟩⟩
  | @attempt i m a hpc hi =>
    obtain ⟨-, hc⟩ | ⟨-, hc, -⟩ | ⟨-, hc⟩ := ConnectAll.connectOne_cases d conn i m a
    · simp [hc]
    · simp [hc]
    · simp [hc]
  | waited | confirmed | refused => simp_all
  | _ => simp

lemma leave_begun (c : Config α) (control : Fd) (frame : Frame α) :
    (leave c control frame).1.Begun := by
  rw [leave]
  dsimp only
  split_ifs <;> trivial

lemma connected_begun {sock : Fd} {params : TestParams} {efd : Option Fd}
    {conn : ConnectAll.State α} (hb : (Frame.connect sock params efd conn).Begun) :
    (connected c control sock params efd conn).1.Begun := by
  rw [connected]
  split
  · dsimp only
    split_ifs <;> trivial
  · exact leave_begun ..
  · exact hb

lemma move_begun (hb : pc.Begun) (h : move c pc l = some x) : x.1.Begun := by
  rw [move.eq_def] at h
  split at h
  next ok =>
    cases h
    dsimp only
    split_ifs <;> trivial
  next fd =>
    cases h
    dsimp only
    split_ifs <;> trivial
  next control rc =>
    cases h
    dsimp only
    split_ifs <;> trivial
  next control fd =>
    cases h
    dsimp only [stay]
    split_ifs <;> trivial
  next control sock buff recvs =>
    cases h
    rw [receive.eq_def]
    split
    · exact ⟨fun _ => rfl, fun _ => rfl⟩
    · trivial
    · trivial
    · exact leave_begun ..
    · exact leave_begun ..
    · exact leave_begun ..
  next control sock params efd conn k =>
    obtain ⟨conn', hc, rfl⟩ := Option.map_eq_some_iff.mp h
    have he : conn.pc = .resolve ∨ conn.pc = .create → efd = none := And.right hb
    obtain ⟨hr, hcreate⟩ := connect_begun hc
    refine connected_begun ⟨fun hpc => (hr hpc).elim, fun hpc => ?_⟩
    obtain ⟨hresolve, hk⟩ := hcreate (hpc.resolve_left hr)
    rw [hk, he (.inl hresolve)]
    rfl
  next control r efd =>
    cases h
    rw [created]
    split
    · exact leave_begun ..
    · dsimp only [stay]
      split_ifs <;> trivial
  next control r idx ok =>
    split_ifs at h
    · cases h
      trivial
    · cases h
      exact leave_begun ..
  next control r idx write runs undef =>
    split_ifs at h
    rw [tested] at h
    split at h
    · cases h
      trivial
    split at h
    · cases h
      trivial
    · obtain ⟨tresults, -, rfl⟩ := Option.map_eq_some_iff.mp h
      rw [finished]
      split
      · trivial
      split
      · trivial
      · trivial
  next control sock res rc =>
    cases h
    exact leave_begun c control (.respond sock res)
  next => cases h

structure Accounted (c : Config α) (s : State α) : Prop where
  begun : s.pc.Begun
  accounted : (process c).Accounted s

lemma step_accounted (hi : Accounted c s) (h : step c s l = some t) : Accounted c t := by
  refine ⟨?_, hi.accounted.step h fun x hm => move_settles hi.begun hm⟩
  obtain ⟨-, x, hm, rfl⟩ := Ledger.Process.step_moves h
  exact move_begun hi.begun hm

lemma start_accounted : Accounted c start := ⟨trivial, Ledger.Process.start_accounted rfl⟩

lemma run_accounted (hr : Machine.run (step c) start ls = some s) : Accounted c s :=
  Machine.run_invariant (Accounted c) (fun _ _ _ h hs => step_accounted h hs) start_accounted hr

theorem fds_accounted (hr : Machine.run (step c) start ls = some s) :
    Ledger.replay [] ((process c).entries s.events) = some ((process c).live s) ∧
      ((process c).live s).Nodup ∧ ((process c).live s).Perm s.pc.owned ∧
      ∀ control, s.pc = .loop control .accept → (process c).live s = [control] := by
  have hi := (run_accounted hr).accounted
  refine ⟨hi.replayed, hi.nodup, hi.owned, ?_⟩
  intro control hpc
  exact List.perm_singleton.mp (by simpa [process, hpc, Pc.owned, Frame.owned] using hi.owned)

lemma workerResult_eq_some {d : Worker.Config} {n : ℤ} {fds : List Fd} {ls : List Worker.Label}
    {res : TestResult} : workerResult d n fds ls = some res ↔
      (Machine.run (Worker.report d fds) [] ls).isSome ∧ ∃ w,
        Machine.run (Worker.step d) (Worker.start n) ls = some w ∧ w.pc = .returned ∧
          w.result = res := by
  rw [workerResult]
  constructor
  · intro h
    obtain ⟨w, hw, h⟩ := Option.bind_eq_some_iff.mp h
    obtain ⟨out, ho, h⟩ := Option.bind_eq_some_iff.mp h
    split_ifs at h with hpc
    exact ⟨Option.isSome_of_eq_some ho, w, hw, hpc, Option.some.inj h⟩
  · rintro ⟨ho, w, hw, hpc, rfl⟩
    obtain ⟨out, ho⟩ := Option.isSome_iff_exists.mp ho
    rw [hw, Option.bind_some, ho, Option.bind_some, if_pos hpc]

def oneShot : Config ℕ := .ofArgs 2 (fun _ => 0) true String.length ["-s"]

def oneRequest : {b : List Char // b.length ≤ Request.sizeofBuff} :=
  ⟨"1.1.1.1 5000 1 1 0 0 3".toList, by decide⟩

def oneClient : List Label :=
  [.signal true, .socket 3, .bind 0, .accept (-1), .accept 4,
    .receive (Vector.replicate _ ' ') fun i => if i = 0 then .again else .data oneRequest,
    .connect (.gethostbyname true), .connect (.epollCreate 5), .connect .loop,
    .connect (.attempt ⟨6, 0, -1, true, 0⟩), .connect (.wait (some [6])),
    .connect (.check 6 0 0), .connect .exhausted, .connect .exit, .epollCreate 5, .addFd true,
    .test (fun _ => 3) (fun _ => [.wait (some [6]) 10, .done false, .next 6 0, .done false,
      .exhausted, .done false, .ping 6 3 3 20, .pinged, .wait (some [6]) 22, .done false,
      .next 6 0, .done true]) none, .write 49]

lemma oneClient_events : (Machine.run (step oneShot) start oneClient).map Ledger.State.events =
    some [.opened 3, .accepted 4, .opened 5, .opened 6, .closed 5, .opened 5, .closed 5, .closed 6,
      .answered 4 ("2 2 1 0 1 19".toList ++ (List.replicate 19 [' ', '1']).flatten) 49,
      .closed 4] := by
  decide +kernel

theorem fds_accounted_one : ∃ s, Machine.run (step oneShot) start oneClient = some s ∧
    (process oneShot).live s = [3] ∧
      Ledger.replay [] ((process oneShot).entries s.events) = some [3] ∧
      [3].Perm s.pc.owned := by
  obtain ⟨s, hr, he⟩ := Option.map_eq_some_iff.mp oneClient_events
  obtain ⟨hreplay, -, howned, -⟩ := fds_accounted hr
  have hlive : (process oneShot).live s = [3] := by
    rw [Ledger.Process.live, he]
    decide
  rw [hlive] at hreplay howned
  exact ⟨s, hr, hlive, hreplay, howned⟩

end NetworkPing.MainLoop
