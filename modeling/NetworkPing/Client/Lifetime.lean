import NetworkPing.Client.ConnectionAccounting
import NetworkPing.Client.WaitForConn
import NetworkPing.Ledger

namespace NetworkPing.Client.Lifetime

inductive Callback
  | readyForConnect
  | preparationDone
  | testDone
  deriving DecidableEq

inductive Event
  | opened (fd : Fd)
  | accepted (fd : Fd)
  | closed (fd : Fd)
  | called (cb : Callback)
  | removed (fd : Fd)
  deriving DecidableEq

def Event.entry : Event → Option (Ledger.Entry Fd)
  | opened fd | accepted fd => some (.acquire fd)
  | closed fd => some (.release fd)
  | called _ | removed _ => none

inductive Pc (σ : Type)
  | create
  | connecting (efd masterSock : Option Fd) (conn : WaitForConn.State (List Callback))
  | running (efd : Option Fd) (sockets : List Fd) (test : Client.State σ)
  | returned (code : ℤ)

abbrev State (σ : Type) := Ledger.State (Pc σ) Event

inductive Label
  | epollCreate (efd : ℤ)
  | conn (l : WaitForConn.Label)
  | test (l : Client.Label)
  deriving DecidableEq

def params (thCount : ℕ) : WaitForConn.Params (List Callback) where
  sockCount := thCount
  readyForConnect calls := calls ++ [.readyForConnect]
  onSockCb _ := id
  async := false

variable {σ : Type}

def start : Backend → State σ
  | .poll => ⟨.connecting none none (WaitForConn.start [] []), []⟩
  | .epoll => ⟨.create, []⟩

def Pc.owned : Pc σ → List Fd
  | create => []
  | connecting efd masterSock conn => masterSock.toList ++ (conn.sockets ++ efd.toList)
  | running efd sockets _ => sockets ++ efd.toList
  | returned _ => []

def Label.opens : Label → Option Fd
  | .epollCreate fd | .conn (.socket fd) => if fd = -1 then none else some fd
  | .conn (.accept fd) => if fd < 0 then none else some fd
  | _ => none

def Label.acquired : Label → Fd → Event
  | .conn (.accept _), fd => .accepted fd
  | _, fd => .opened fd

def Label.masterSock : WaitForConn.Label → Option Fd
  | .socket fd => if fd = -1 then none else some fd
  | _ => none

def waited (S : RSelector σ) (thCount : ℕ) (efd masterSock : Option Fd)
    (conn : WaitForConn.State (List Callback)) : Pc σ × List Event :=
  match conn.pc with
  | .returned true =>
    (.running efd conn.sockets (Client.start S thCount conn.sockets),
      masterSock.toList.map .closed)
  | .returned false =>
    (.returned 1, (Pc.connecting efd masterSock conn : Pc σ).owned.map .closed)
  | _ => (.connecting efd masterSock conn, [])

def emits : Client.Label → List Event
  | .prepared => [.called .preparationDone]
  | .finished => [.called .testDone]
  | .next fd events answer => if closeSock events answer then [.removed fd] else []
  | _ => []

def tested (efd : Option Fd) (sockets : List Fd) (test : Client.State σ) : Pc σ × List Event :=
  match test.pc with
  | .returned code => (.returned code, (sockets ++ efd.toList).map .closed)
  | _ => (.running efd sockets test, [])

def move (S : RSelector σ) (thCount : ℕ) : Pc σ → Label → Option (Pc σ × List Event)
  | .create, .epollCreate efd =>
    some (if efd = -1 then .returned 1 else .connecting (some efd) none (WaitForConn.start [] []),
      [])
  | .connecting efd masterSock conn, .conn l =>
    (WaitForConn.step (params thCount) conn l).map fun conn' =>
      let (pc, closed) := waited S thCount efd (masterSock.or (Label.masterSock l)) conn'
      (pc, (conn'.env.drop conn.env.length).map .called ++ closed)
  | .running efd sockets test, .test l =>
    (Client.step S test l).map fun test' =>
      let (pc, closed) := tested efd sockets test'
      (pc, emits l ++ closed)
  | _, _ => none

def process (S : RSelector σ) (thCount : ℕ) : Ledger.Process (Pc σ) Label Event Fd where
  move := move S thCount
  opens := Label.opens
  acquired := Label.acquired
  entry := Event.entry
  entry_acquired l fd := by
    cases l with
    | conn l => cases l <;> rfl
    | _ => rfl
  owned := Pc.owned

def step (S : RSelector σ) (thCount : ℕ) : State σ → Label → Option (State σ) :=
  (process S thCount).step

def opening (efd masterSock : Option Fd) (calls : List Callback) (sockets : List Fd) :
    List Event :=
  (efd.toList ++ masterSock.toList).map .opened ++ (calls.map .called ++ sockets.map .accepted)

def connected (efd : Option Fd) (masterSock : Fd) (calls : List Callback) (sockets : List Fd) :
    List Event :=
  opening efd masterSock calls sockets ++ [.closed masterSock]

def Unbound (ls : List Label) : Prop := ∃ k, .conn k ∈ ls ∧ k.BindFails

inductive Delivered (thCount : ℕ) (ls : List Label) : List Callback → List Fd → Prop
  | all {sockets} (hb : ¬ Unbound ls) (h : sockets.length = thCount) :
      Delivered thCount ls [.readyForConnect] sockets
  | unbound (hb : Unbound ls) : Delivered thCount ls [] []

inductive Ended (thCount : ℕ) (ls : List Label) : ℤ → List Event → Prop
  | notStarted {efd} (hb : ¬ Unbound ls) :
      Ended thCount ls 1 (opening efd none [] [] ++ efd.toList.map .closed)
  | notConnected {efd masterSock sockets} (hb : ¬ Unbound ls) (h : sockets.length < thCount) :
      Ended thCount ls 1 (opening efd (some masterSock) [.readyForConnect] sockets ++
        (masterSock :: (sockets ++ efd.toList)).map .closed)
  | failed {efd masterSock calls sockets prepared} {removed : List Fd}
      (hd : Delivered thCount ls calls sockets)
      (hc : prepared = [] ∧ removed = [] ∨ prepared = [.preparationDone])
      (hr : removed.Subperm sockets) (hn : removed.length < thCount) :
      Ended thCount ls 1 (connected efd masterSock calls sockets ++ (prepared.map .called ++
        (removed.map .removed ++ (sockets ++ efd.toList).map .closed)))
  | done {efd masterSock calls sockets} {removed : List Fd}
      (hd : Delivered thCount ls calls sockets)
      (hr : removed.Perm sockets) (hn : sockets.length = thCount) :
      Ended thCount ls 0 (connected efd masterSock calls sockets ++ .called .preparationDone ::
        (removed.map .removed ++ .called .testDone :: (sockets ++ efd.toList).map .closed))

def progress (test : Client.State σ) : List Event :=
  match test.pc with
  | .adding _ => []
  | _ => .called .preparationDone :: test.log.removed.map .removed

structure Waits (thCount : ℕ) (ls : List Label) (masterSock : Option Fd)
    (conn : WaitForConn.State (List Callback)) : Prop where
  bound : ¬ Unbound ls
  inv : ∃ ks, WaitForConn.Inv (params thCount) [] [] conn ks
  running : ∀ ok, conn.pc ≠ .returned ok
  master : conn.pc = .socket ↔ masterSock = none

inductive Returned (thCount : ℕ) (ls : List Label) :
    Bool → Option Fd → List Callback → List Fd → Prop
  | noSocket (hb : ¬ Unbound ls) : Returned thCount ls false none [] []
  | refused {masterSock sockets} (hb : ¬ Unbound ls) (h : sockets.length < thCount) :
      Returned thCount ls false (some masterSock) [.readyForConnect] sockets
  | delivered {masterSock calls sockets} (hd : Delivered thCount ls calls sockets)
      (hpos : ∀ fd ∈ sockets, 0 ≤ fd) : Returned thCount ls true (some masterSock) calls sockets

inductive History (S : RSelector σ) (thCount : ℕ) (ls : List Label) : Pc σ → List Event → Prop
  | create (hl : ls = []) : History S thCount ls .create []
  | connecting {efd masterSock conn} (hw : Waits thCount ls masterSock conn) :
      History S thCount ls (.connecting efd masterSock conn)
        (opening efd masterSock conn.env conn.sockets)
  | running {efd masterSock calls sockets test} (hd : Delivered thCount ls calls sockets)
      (hpos : ∀ fd ∈ sockets, 0 ≤ fd)
      (ht : ∃ ks, Machine.run (Client.step S) (Client.start S thCount sockets) ks = some test)
      (hr : ∀ code, test.pc ≠ .returned code) :
      History S thCount ls (.running efd sockets test)
        (connected efd masterSock calls sockets ++ progress test)
  | returned {code events} (h : Ended thCount ls code events) :
      History S thCount ls (.returned code) events

variable {S : RSelector σ} {R : σ → Watch → Prop} {k : Backend} {thCount : ℕ} {s t : State σ}
  {l : Label} {ls : List Label} {conn conn' : WaitForConn.State (List Callback)}
  {efd masterSock : Option Fd} {calls : List Callback} {sockets removed : List Fd}
  {test test' : Client.State σ} {events : List Event} {x : Pc σ × List Event}

lemma unbound_append : Unbound (ls ++ [l]) ↔ Unbound ls ∨ ∃ k, l = .conn k ∧ k.BindFails := by
  simp only [Unbound, List.mem_append, List.mem_singleton, or_and_right, exists_or, eq_comm]

lemma unbound_conn {k : WaitForConn.Label} :
    Unbound (ls ++ [.conn k]) ↔ Unbound ls ∨ k.BindFails := by
  simp [unbound_append]

lemma unbound_test {k : Client.Label} : Unbound (ls ++ [.test k]) ↔ Unbound ls := by
  simp [unbound_append]

lemma news_eq (l : Label) :
    (process S thCount).news l = l.opens.toList.map (Label.acquired l) := by
  rw [Ledger.Process.news]
  cases h : l.opens <;> simp [process, h]

lemma conn_opens {k : WaitForConn.Label} (efd : Option Fd) (hw : Waits thCount ls masterSock conn)
    (h : WaitForConn.step (params thCount) conn k = some conn') :
    opening efd masterSock conn.env conn.sockets ++
      ((process S thCount).news (.conn k) ++ (conn'.env.drop conn.env.length).map .called) =
        opening efd (masterSock.or (Label.masterSock k)) conn'.env conn'.sockets ∧
      ((Label.conn k).opens.toList ++ (masterSock.toList ++ (conn.sockets ++ efd.toList))).Perm
        ((masterSock.or (Label.masterSock k)).toList ++ (conn'.sockets ++ efd.toList)) := by
  obtain ⟨ks, hi⟩ := hw.inv
  cases WaitForConn.step_moves h with
  | noSocket hpc => simp [news_eq, Label.opens, Label.masterSock]
  | socket hpc hfd =>
    simp only [WaitForConn.Inv, hpc] at hi
    obtain rfl := hw.master.mp hpc
    simp [news_eq, Label.opens, Label.masterSock, Label.acquired, hfd, hi.sockets, hi.env, opening]
  | listen hpc =>
    simp only [WaitForConn.Inv, hpc] at hi
    simp [news_eq, Label.opens, Label.masterSock, hi.sockets, hi.env, opening, params]
  | refused hpc _ hfd => simp [news_eq, Label.opens, Label.masterSock, hfd]
  | @accepted i fd hpc _ hfd =>
    constructor
    · simp [news_eq, Label.opens, Label.masterSock, hfd, Label.acquired, WaitForConn.pushBack,
        params, opening]
    · have hp : (fd :: (masterSock.toList ++ conn.sockets ++ efd.toList)).Perm
          (masterSock.toList ++ conn.sockets ++ fd :: efd.toList) := List.perm_middle.symm
      simpa [Label.opens, Label.masterSock, hfd, WaitForConn.pushBack] using hp
  | pending _ _ _ _ ha => cases ha
  | setfl hpc hrc =>
    simp only [WaitForConn.Inv, hpc] at hi
    obtain ⟨fds, hi⟩ := hi
    cases hi.async
  | _ => simp [news_eq, Label.opens, Label.masterSock]

lemma accepting {ks : List WaitForConn.Label} {i : ℤ}
    (h : WaitForConn.Accepting (params thCount) [] [] conn ks i) :
    conn.env = [.readyForConnect] ∧ conn.sockets.length = i ∧ i ≤ thCount ∧
      ∀ fd ∈ conn.sockets, 0 ≤ fd := by
  have henv (fds : List Fd) (calls : List Callback) :
      fds.foldl (fun calls fd => (params thCount).onSockCb fd calls) calls = calls := by
    induction fds with
    | nil => rfl
    | cons fd fds ih => exact ih
  have hs := h.owns.sockets
  rw [List.nil_append] at hs
  refine ⟨h.owns.env.trans (henv _ _), by rw [hs, h.count], ?_, fun fd hfd => ?_⟩
  · have hle := h.le
    simp only [params] at hle
    omega
  · rw [hs, WaitForConn.accepted, List.mem_filterMap] at hfd
    obtain ⟨l, -, hl⟩ := hfd
    cases l with
    | accept clientSock =>
      simp only [Option.ite_none_left_eq_some, Option.some.injEq, Int.not_lt] at hl
      exact hl.2 ▸ hl.1
    | _ => cases hl

lemma conn_returned {k : WaitForConn.Label} {ok : Bool} (hw : Waits thCount ls masterSock conn)
    (h : WaitForConn.step (params thCount) conn k = some conn') (hr : conn'.pc = .returned ok) :
    Returned thCount (ls ++ [.conn k]) ok (masterSock.or (Label.masterSock k)) conn'.env
      conn'.sockets := by
  obtain ⟨ks, hi⟩ := hw.inv
  have hbound (hk : ¬ k.BindFails) : ¬ Unbound (ls ++ [.conn k]) := by
    rw [unbound_conn, not_or]
    exact ⟨hw.bound, hk⟩
  have hmaster (hpc : conn.pc ≠ .socket) : ∃ fd, masterSock = some fd :=
    Option.ne_none_iff_exists'.mp fun hn => hpc (hw.master.mpr hn)
  cases WaitForConn.step_moves h with
  | noSocket hpc =>
    cases hr
    simp only [WaitForConn.Inv, hpc] at hi
    obtain rfl := hw.master.mp hpc
    simp only [Label.masterSock, hi.sockets, hi.env]
    exact .noSocket (hbound id)
  | unbound hpc hrc =>
    cases hr
    obtain ⟨fd, rfl⟩ := hmaster (by simp [hpc])
    simp only [WaitForConn.Inv, hpc] at hi
    simp only [hi.sockets, hi.env]
    exact .delivered (.unbound (unbound_conn.mpr (.inr hrc))) (by simp)
  | refused hpc hlt =>
    cases hr
    obtain ⟨fd, rfl⟩ := hmaster (by simp [hpc])
    simp only [WaitForConn.Inv, hpc] at hi
    obtain ⟨he, hlen, -, -⟩ := accepting hi
    simp only [he]
    refine .refused (hbound id) ?_
    simp only [params] at hlt
    omega
  | finished hpc hlt =>
    cases hr
    obtain ⟨fd, rfl⟩ := hmaster (by simp [hpc])
    simp only [WaitForConn.Inv, hpc] at hi
    obtain ⟨he, hlen, hle, hpos⟩ := accepting hi
    simp only [he]
    refine .delivered (.all (hbound id) ?_) hpos
    simp only [params] at hlt
    omega
  | pending _ _ _ _ ha => cases ha
  | noFlags hpc =>
    simp only [WaitForConn.Inv, hpc] at hi
    obtain ⟨fds, hi⟩ := hi
    cases hi.async
  | blocking hpc =>
    simp only [WaitForConn.Inv, hpc] at hi
    obtain ⟨fds, hi⟩ := hi
    cases hi.async
  | _ => simp_all [WaitForConn.pushBack]

lemma conn_waits {k : WaitForConn.Label} (hw : Waits thCount ls masterSock conn)
    (h : WaitForConn.step (params thCount) conn k = some conn')
    (hr : ∀ ok, conn'.pc ≠ .returned ok) :
    Waits thCount (ls ++ [.conn k]) (masterSock.or (Label.masterSock k)) conn' := by
  obtain ⟨ks, hi⟩ := hw.inv
  refine ⟨?_, ⟨ks ++ [k], WaitForConn.step_inv hi h⟩, hr, ?_⟩
  · rw [unbound_conn, not_or]
    refine ⟨hw.bound, fun hk => ?_⟩
    cases WaitForConn.step_moves h with
    | unbound => exact hr true rfl
    | bound hpc hrc => exact hrc hk
    | _ => exact hk
  have hmaster (hpc : conn.pc ≠ .socket) : masterSock ≠ none := fun hn => hpc (hw.master.mpr hn)
  cases WaitForConn.step_moves h with
  | socket hpc hfd => simp [Label.masterSock, hfd]
  | noSocket => exact (hr false rfl).elim
  | unbound => exact (hr true rfl).elim
  | refused => exact (hr false rfl).elim
  | noFlags => exact (hr false rfl).elim
  | blocking => exact (hr false rfl).elim
  | finished => exact (hr true rfl).elim
  | _ => simp_all [WaitForConn.pushBack, Label.masterSock]

structure Kept (thCount : ℕ) (sockets : List Fd) (test : Client.State σ) : Prop where
  adding : ∀ rest, test.pc = .adding rest → test.log.removed = []
  rest : ∀ fd rest, test.pc = .adding (fd :: rest) → 0 < test.fdLeft
  removed : test.log.removed.Subperm sockets
  left : 0 < test.fdLeft → test.log.removed.length < thCount
  done : ¬ 0 < test.fdLeft → test.log.removed.Perm sockets ∧ sockets.length = thCount

lemma run_adding {ks : List Client.Label}
    (hr : Machine.run (Client.step S) (Client.start S thCount sockets) ks = some test) :
    ∀ rest, test.pc = .adding rest → test.log.removed = [] := by
  refine Machine.run_invariant
    (fun test : Client.State σ => ∀ rest, test.pc = .adding rest → test.log.removed = [])
    (fun test l test' hi h => ?_) (fun _ _ => rfl) hr
  cases Client.step_moves h with
  | added hpc => exact fun _ _ => hi _ hpc
  | handled hpc =>
    rw [handle]
    split_ifs <;> simp [hpc]
  | again hpc => simp [hpc]
  | _ => simp

structure Idle (R : σ → Watch → Prop) (thCount : ℕ) (test : Client.State σ) : Prop where
  watch : ∃ w, R test.sel w ∧ w.live = [] ∧ w.pending = []
  adding : ∀ fd rest, test.pc ≠ .adding (fd :: rest)
  fdLeft : test.fdLeft = thCount
  removed : test.log.removed = []

lemma step_idle {k' : Client.Label} (hS : Refines S k R) (hi : Idle R thCount test)
    (h : Client.step S test k' = some test') : Idle R thCount test' := by
  obtain ⟨w, hw, hlive, hpending⟩ := hi.watch
  cases Client.step_moves h with
  | added hpc => exact (hi.adding _ _ hpc).elim
  | refused hpc => exact (hi.adding _ _ hpc).elim
  | prepared => exact ⟨⟨w, hw, hlive, hpending⟩, by simp, hi.fdLeft, hi.removed⟩
  | failed => exact ⟨⟨w, hw, hlive, hpending⟩, by simp, hi.fdLeft, hi.removed⟩
  | again => exact hi
  | waited hpc hf ho hwait =>
    obtain ⟨w', hwait', hw'⟩ := hS.waited hw hwait
    obtain ⟨events, rfl, rfl⟩ := Watch.wait_ready hwait'
    have hnil : events = [] := by
      rw [hS.live hw, hlive] at ho
      exact List.eq_nil_iff_forall_not_mem.mpr fun e he => List.not_mem_nil (ho.2 e he)
    subst hnil
    refine ⟨⟨_, hw', hlive, ?_⟩, by simp, hi.fdLeft, hi.removed⟩
    cases k <;> simp [Watch.waited, Backend.arrange, hlive]
  | finished => exact ⟨⟨w, hw, hlive, hpending⟩, by simp, hi.fdLeft, hi.removed⟩
  | handled hpc he =>
    obtain ⟨w', he', -⟩ := hS.handed hw he
    obtain ⟨es, hp, -⟩ := Watch.next_some he'
    rw [hpending] at hp
    cases hp
  | exhausted hpc he =>
    obtain ⟨w', he', hw'⟩ := hS.handed hw he
    obtain ⟨-, rfl⟩ := Watch.next_none he'
    exact ⟨⟨_, hw', hlive, hpending⟩, by simp, hi.fdLeft, hi.removed⟩

lemma kept (hS : Refines S k R) (hd : Delivered thCount ls calls sockets) (hn : sockets.Nodup)
    (hpos : ∀ fd ∈ sockets, 0 ≤ fd)
    (ht : ∃ ks, Machine.run (Client.step S) (Client.start S thCount sockets) ks = some test)
    (hr : ∀ code, test.pc ≠ .returned code) : Kept thCount sockets test := by
  obtain ⟨ks, ht⟩ := ht
  have hadding := run_adding ht
  cases hd with
  | all _ hlen =>
    subst hlen
    obtain ⟨w, -, hsame, hi⟩ := run_watch hS hn hpos ht
    have ho : Open sockets w := hi.open fun code => hsame.pc ▸ hr code
    have hsockets := ho.sockets
    have hlen := hsockets.length_eq
    have hleft := ho.fdLeft
    rw [List.length_append, List.length_append] at hlen
    refine ⟨hadding, fun fd rest hpc => ?_, ?_, fun hf => ?_, fun hf => ⟨?_, rfl⟩⟩
    · rw [hsame.fdLeft, hleft, ← hsame.pc, hpc, Client.Pc.toAdd, List.length_cons]
      omega
    · rw [hsame.log]
      exact (List.sublist_append_left _ _).subperm.trans hsockets.subperm
    · rw [hsame.fdLeft] at hf
      rw [hsame.log]
      omega
    · rw [hsame.fdLeft] at hf
      have hnil : w.sel.live ++ w.pc.toAdd = [] := by
        apply List.eq_nil_of_length_eq_zero
        rw [List.length_append]
        omega
      rw [hsame.log]
      simpa only [hnil, List.append_nil] using hsockets
  | unbound =>
    have hi : Idle R thCount test := by
      refine Machine.run_invariant (Idle R thCount) (fun _ _ _ hi h => step_idle hS hi h) ?_ ht
      exact ⟨⟨_, hS.create thCount, rfl, rfl⟩, by simp [Client.start], rfl, rfl⟩
    have hf := hi.fdLeft
    refine ⟨hadding, fun fd rest hpc => (hi.adding fd rest hpc).elim, ?_, fun h => ?_, fun h => ?_⟩
    · rw [hi.removed]
    · rwa [hi.removed, List.length_nil, ← Nat.cast_pos (α := ℤ), ← hf]
    · rw [hi.removed]
      refine ⟨.nil, ?_⟩
      rw [List.length_nil]
      omega

lemma progress_step {k' : Client.Label} (hk : Kept thCount sockets test)
    (h : Client.step S test k' = some test') (hr : ∀ code, test'.pc ≠ .returned code) :
    progress test' = progress test ++ emits k' := by
  cases Client.step_moves h with
  | added hpc => simp [progress, hpc, emits]
  | refused => exact (hr 1 rfl).elim
  | prepared hpc => simp [progress, hpc, emits, hk.adding _ hpc]
  | failed => exact (hr 1 rfl).elim
  | again => simp [emits]
  | waited hpc => simp [progress, hpc, emits]
  | finished => exact (hr 0 rfl).elim
  | @handled fd events answer sel hpc he =>
    rw [handle]
    by_cases hc : closeSock events answer
    · simp [progress, hpc, emits, hc, Log.note]
    · simp [progress, hpc, emits, hc, Log.note]
  | exhausted hpc => simp [progress, hpc, emits]

lemma ended_step {k' : Client.Label} {masterSock : Fd} {code : ℤ}
    (hd : Delivered thCount ls calls sockets) (hk : Kept thCount sockets test)
    (h : Client.step S test k' = some test') (hr : test'.pc = .returned code)
    (hr' : ∀ code, test.pc ≠ .returned code) :
    Ended thCount ls code (connected efd masterSock calls sockets ++
      (progress test ++ (emits k' ++ (sockets ++ efd.toList).map .closed))) := by
  cases Client.step_moves h with
  | refused hpc =>
    cases hr
    have hremoved := hk.adding _ hpc
    have hlt := hk.left (hk.rest _ _ hpc)
    rw [hremoved] at hlt
    have hended := @Ended.failed thCount ls efd masterSock calls sockets [] [] hd
      (.inl ⟨rfl, rfl⟩) List.nil_subperm hlt
    simpa [progress, hpc, emits] using hended
  | failed hpc hf =>
    cases hr
    have hended := @Ended.failed thCount ls efd masterSock calls sockets _ _ hd
      (.inr rfl) hk.removed (hk.left hf)
    simpa [progress, hpc, emits] using hended
  | finished hpc hf =>
    cases hr
    obtain ⟨hp, hn⟩ := hk.done hf
    have hended := @Ended.done thCount ls efd masterSock calls sockets _ hd hp hn
    simpa [progress, hpc, emits] using hended
  | handled hpc =>
    rw [handle] at hr
    split_ifs at hr
    · exact (hr' _ hr).elim
    · exact (hr' _ hr).elim
  | again => exact (hr' _ hr).elim
  | _ => cases hr

lemma entries_closed (ks : List Fd) :
    (process S thCount).entries (ks.map .closed) = ks.map .release := by
  rw [Ledger.Process.entries, List.filterMap_map]
  exact congrFun (List.filterMap_eq_map (f := Ledger.Entry.release)) ks

lemma entries_called (calls : List Callback) :
    (process S thCount).entries (calls.map .called) = [] := by
  rw [Ledger.Process.entries, List.filterMap_map]
  exact List.filterMap_eq_nil_iff.mpr fun _ _ => rfl

lemma entries_emits (k : Client.Label) : (process S thCount).entries (emits k) = [] := by
  cases k with
  | next fd events answer =>
    rw [emits]
    split_ifs <;> rfl
  | _ => rfl

lemma closes {owned ks : List Fd} {pc : Pc σ} (h : owned.Perm (ks ++ pc.owned)) :
    (process S thCount).Settles owned (pc, ks.map .closed) := ⟨ks, entries_closed ks, h⟩

lemma waited_settles (efd masterSock : Option Fd) (conn : WaitForConn.State (List Callback)) :
    (process S thCount).Settles (masterSock.toList ++ (conn.sockets ++ efd.toList))
      (waited S thCount efd masterSock conn) := by
  rw [waited]
  split
  · exact closes (.refl _)
  · exact closes (by simp [Pc.owned])
  · exact Ledger.Process.settles_nil (.refl _)

lemma tested_settles (efd : Option Fd) (sockets : List Fd) (test : Client.State σ) :
    (process S thCount).Settles (sockets ++ efd.toList) (tested efd sockets test) := by
  rw [tested]
  split
  · exact closes (by simp [Pc.owned])
  · exact Ledger.Process.settles_nil (.refl _)

lemma move_settles {pc : Pc σ} (hi : History S thCount ls pc events)
    (h : move S thCount pc l = some x) :
    (process S thCount).Settles (l.opens.toList ++ pc.owned) x := by
  cases hi with
  | create =>
    cases l with
    | epollCreate efd =>
      cases h
      apply Ledger.Process.settles_nil
      rw [Label.opens]
      split_ifs <;> exact .refl _
    | _ => cases h
  | connecting hw =>
    cases l with
    | conn k =>
      obtain ⟨conn', hc, rfl⟩ := Option.map_eq_some_iff.mp h
      refine .quiet (entries_called _) ((waited_settles _ _ conn').perm ?_)
      exact (conn_opens (S := S) _ hw hc).2
    | _ => cases h
  | running =>
    cases l with
    | test k =>
      obtain ⟨test', -, rfl⟩ := Option.map_eq_some_iff.mp h
      exact .quiet (entries_emits k) (tested_settles _ _ test')
    | _ => cases h
  | returned => cases h

lemma start_waits (hb : ¬ Unbound ls) : Waits thCount ls none (WaitForConn.start [] []) where
  bound := hb
  inv := ⟨[], by simp [WaitForConn.Quiet], rfl, rfl, rfl⟩
  running _ := WaitForConn.Pc.noConfusion
  master := ⟨fun _ => rfl, fun _ => rfl⟩

lemma waited_history (efd : Option Fd)
    (hr : ∀ ok, conn.pc = .returned ok →
      Returned thCount ls ok masterSock conn.env conn.sockets)
    (hw : (∀ ok, conn.pc ≠ .returned ok) → Waits thCount ls masterSock conn) :
    History S thCount ls (waited S thCount efd masterSock conn).1
      (opening efd masterSock conn.env conn.sockets ++
        (waited S thCount efd masterSock conn).2) := by
  rw [waited]
  split
  next hpc =>
    have hret := hr true hpc
    generalize conn.env = calls, conn.sockets = sockets at hret
    cases hret with
    | @delivered masterSock _ _ hd hpos =>
      have hh : History S thCount ls (.running efd sockets (Client.start S thCount sockets))
          (connected efd masterSock calls sockets ++ []) :=
        .running hd hpos ⟨[], rfl⟩ (by simp [Client.start])
      rwa [List.append_nil] at hh
  next hpc =>
    have hret := hr false hpc
    rw [Pc.owned]
    generalize conn.env = calls, conn.sockets = sockets at hret
    cases hret with
    | noSocket hb => exact .returned (.notStarted hb)
    | refused hb hlt => exact .returned (.notConnected hb hlt)
  next htrue hfalse =>
    rw [List.append_nil]
    exact .connecting (hw fun ok => by cases ok <;> assumption)

lemma step_history (hS : Refines S k R) (ha : (process S thCount).Accounted s)
    (hi : History S thCount ls s.pc s.events) (h : step S thCount s l = some t) :
    History S thCount (ls ++ [l]) t.pc t.events := by
  obtain ⟨-, x, hm, rfl⟩ := Ledger.Process.step_moves h
  obtain ⟨pc, events⟩ := s
  have howned := ha.owned.nodup_iff.mp ha.nodup
  cases hi with
  | create hl =>
    cases l with
    | epollCreate efd =>
      cases hm
      have hb : ¬ Unbound (ls ++ [.epollCreate efd]) := by simp [Unbound, hl]
      by_cases he : efd = -1
      · simp only [news_eq, Label.opens, if_pos he]
        exact .returned (@Ended.notStarted thCount _ none hb)
      · simp only [news_eq, Label.opens, if_neg he]
        exact .connecting (start_waits hb)
    | _ => cases hm
  | @connecting efd masterSock conn hw =>
    cases l with
    | conn k =>
      obtain ⟨conn', hc, rfl⟩ := Option.map_eq_some_iff.mp hm
      have hev := (conn_opens (S := S) efd hw hc).1
      have hh : History S thCount _ _ _ := waited_history (S := S) efd
        (fun ok hr => conn_returned hw hc hr) (conn_waits hw hc)
      rw [← hev, List.append_assoc, List.append_assoc] at hh
      exact hh
    | _ => cases hm
  | @running efd masterSock calls sockets test hd hpos ht hr =>
    cases l with
    | test k =>
      obtain ⟨test', hc, rfl⟩ := Option.map_eq_some_iff.mp hm
      have hn : sockets.Nodup := (List.nodup_append.mp howned).1
      have hk := kept hS hd hn hpos ht hr
      have hd' : Delivered thCount (ls ++ [.test k]) calls sockets := by
        cases hd with
        | all hb hlen => exact .all (by rwa [unbound_test]) hlen
        | unbound hb => exact .unbound (by rwa [unbound_test])
      change History S thCount _ (tested efd sockets test').1
        (connected efd masterSock calls sockets ++ progress test ++
          (emits k ++ (tested efd sockets test').2))
      rw [List.append_assoc, tested]
      split
      next code hpc => exact .returned (ended_step hd' hk hc hpc hr)
      next hrun =>
        obtain ⟨ks, ht⟩ := ht
        have ht' := Machine.run_trans ht (Machine.run_step hc Machine.run_nil)
        rw [List.append_nil, ← progress_step hk hc hrun]
        exact .running hd' hpos ⟨_, ht'⟩ hrun
    | _ => cases hm
  | returned => cases hm

lemma start_history (k : Backend) :
    History S thCount [] (start k : State σ).pc (start k : State σ).events := by
  cases k with
  | poll => exact .connecting (start_waits (by simp [Unbound]))
  | epoll => exact .create rfl

lemma start_accounted (k : Backend) : (process S thCount).Accounted (start k) := by
  cases k <;> exact Ledger.Process.start_accounted rfl

lemma run_history (hS : Refines S k R) (hr : Machine.run (step S thCount) (start k) ls = some s) :
    (process S thCount).Accounted s ∧ History S thCount ls s.pc s.events := by
  refine Machine.run_observed
    (fun (s : State σ) ls => (process S thCount).Accounted s ∧ History S thCount ls s.pc s.events)
    ?_ ⟨start_accounted k, start_history k⟩ hr
  rintro s ls l t ⟨ha, hi⟩ h
  exact ⟨ha.step h fun x hm => move_settles hi hm, step_history hS ha hi h⟩

structure Closes (S : RSelector σ) (thCount : ℕ) (s : State σ) : Prop where
  replayed : Ledger.replay [] ((process S thCount).entries s.events) =
    some ((process S thCount).live s)
  nodup : ((process S thCount).live s).Nodup
  owned : ((process S thCount).live s).Perm s.pc.owned
  returned : ∀ code, s.pc = .returned code → (process S thCount).live s = []

lemma run_closes (hS : Refines S k R) (hr : Machine.run (step S thCount) (start k) ls = some s) :
    Closes S thCount s := by
  obtain ⟨ha, -⟩ := run_history hS hr
  refine ⟨ha.replayed, ha.nodup, ha.owned, fun code hpc => ?_⟩
  have howned := ha.owned
  rw [hpc] at howned
  exact howned.eq_nil

def served : List Label :=
  [.conn (.socket 3), .conn (.setsockopt 0), .conn (.bind 0), .conn (.listen 0),
    .conn (.accept 4), .conn (.accept 5), .conn .finished, .test (.add true), .test (.add true),
    .test .prepared, .test (.wait (.batch [(5, POLLIN), (4, POLLHUP)])),
    .test (.next 4 POLLHUP true), .test (.next 5 POLLIN false), .test .exhausted, .test .finished]

lemma served_events : (Machine.run (step pollSelector 2) (start .poll) served).map
    Ledger.State.events = some [.opened 3, .called .readyForConnect, .accepted 4, .accepted 5,
      .closed 3, .called .preparationDone, .removed 4, .removed 5, .called .testDone, .closed 4,
      .closed 5] := by
  decide +kernel

def unbound : List Label :=
  [.epollCreate 3, .conn (.socket 4), .conn (.setsockopt 0), .conn (.bind (-1)), .test .prepared,
    .test (.wait .interrupted), .test (.wait .fatal)]

lemma unbound_events : (Machine.run (step epollSelector 1) (start .epoll) unbound).map
    Ledger.State.events =
      some [.opened 3, .opened 4, .closed 4, .called .preparationDone, .closed 3] := by
  decide +kernel

theorem client_fds_accounted (thCount : ℕ) (ls : List Label) :
    (∀ s, Machine.run (step pollSelector thCount) (start .poll) ls = some s →
      Closes pollSelector thCount s) ∧
    ∀ s, Machine.run (step epollSelector thCount) (start .epoll) ls = some s →
      Closes epollSelector thCount s :=
  ⟨fun _ hr => run_closes PollRSelector.refines hr, fun _ hr => run_closes Epoll.refines hr⟩

theorem client_fds_accounted_two :
    (∃ s, Machine.run (step pollSelector 2) (start .poll) served = some s ∧
      Closes pollSelector 2 s) ∧
    ∃ s, Machine.run (step epollSelector 1) (start .epoll) unbound = some s ∧
      Closes epollSelector 1 s := by
  obtain ⟨s, hs, -⟩ := Option.map_eq_some_iff.mp served_events
  obtain ⟨t, ht, -⟩ := Option.map_eq_some_iff.mp unbound_events
  exact ⟨⟨s, hs, (client_fds_accounted 2 served).1 s hs⟩,
    t, ht, (client_fds_accounted 1 unbound).2 t ht⟩

theorem client_lifetime (thCount : ℕ) (ls : List Label) :
    (∀ s, Machine.run (step pollSelector thCount) (start .poll) ls = some s →
      History pollSelector thCount ls s.pc s.events) ∧
    ∀ s, Machine.run (step epollSelector thCount) (start .epoll) ls = some s →
      History epollSelector thCount ls s.pc s.events :=
  ⟨fun _ hr => (run_history PollRSelector.refines hr).2,
    fun _ hr => (run_history Epoll.refines hr).2⟩

theorem client_lifetime_two :
    (∃ s, Machine.run (step pollSelector 2) (start .poll) served = some s ∧
      .called .testDone ∈ s.events ∧ History pollSelector 2 served s.pc s.events) ∧
    ∃ s, Machine.run (step epollSelector 1) (start .epoll) unbound = some s ∧
      .called .readyForConnect ∉ s.events ∧ History epollSelector 1 unbound s.pc s.events := by
  obtain ⟨s, hs, he⟩ := Option.map_eq_some_iff.mp served_events
  obtain ⟨t, ht, hf⟩ := Option.map_eq_some_iff.mp unbound_events
  refine ⟨⟨s, hs, ?_, (client_lifetime 2 served).1 s hs⟩,
    t, ht, ?_, (client_lifetime 1 unbound).2 t ht⟩
  · rw [he]
    decide
  · rw [hf]
    decide

end NetworkPing.Client.Lifetime
