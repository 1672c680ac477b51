import NetworkPing.Client.Interchange
import NetworkPing.Protocol.Streams

/-! A whole test: the workers of the server on their shards, `run_test` of the client over a
selector, and the byte streams between them. A connection has one number at both of its ends.
`epoll` tells the client of bytes after an edge, `poll` as long as they are there. -/

namespace NetworkPing.Session

open Client (RSelector Backend Batch Outcome Watch Refines Same dispatch closeSock)
open Connection (Peer Side)

/-- `shards` are the sockets of the workers, `sockets` all of them as the client accepted them. -/
structure Config (α : Type*) where
  message : List α
  worker : Worker.Config
  sockCount : ℤ
  shards : List (List Fd)
  sockets : List Fd
  message_ne : message ≠ []
  length : worker.messageLen = message.length
  room : 0 < sockCount
  shared : sockets.Perm shards.flatten
  distinct : sockets.Nodup
  valid : ∀ fd ∈ sockets, 0 ≤ fd

variable {α : Type*} {σ : Type}

def Config.shard (c : Config α) (i : ℕ) : List Fd := c.shards.getD i []

def Config.owner (c : Config α) (fd : Fd) : ℕ := c.shards.findIdx (fd ∈ ·)

structure State (α : Type*) (σ : Type) where
  server : ℕ → Streams.State α
  client : Client.State σ
  edges : List Fd

inductive Label
  | server (i : ℕ) (l : Streams.Label)
  | client (l : Client.Label)
  | serve (fd : Fd) (events : UInt32) (bc wc : ℤ)

/-- `epoll_ctl` raises the first edge of a socket, so at the start there is one for each. -/
def start (S : RSelector σ) (c : Config α) : State α σ where
  server _ := Streams.start c.sockCount
  client := Client.start S c.sockets.length c.sockets
  edges := c.sockets

def State.conn (s : State α σ) (c : Config α) (fd : Fd) : Connection.State α :=
  (s.server (c.owner fd)).conns fd

def streams (c : Config α) (i : ℕ) : Streams.State α → Streams.Label → Option (Streams.State α) :=
  Streams.step c.message c.worker (c.shard i)

def ofClient : Connection.Label → Bool
  | .recv .client _ | .send .client _ => true
  | _ => false

def byClient : Streams.Label → Bool
  | .conn _ l => ofClient l
  | .worker _ => false

def raise (s : State α σ) (i : ℕ) : Streams.Label → List Fd
  | .conn fd (.arrive .client k) =>
    if (((s.server i).conns fd).inbox .client).inFlight.take k |>.isEmpty then s.edges
    else s.edges.insert fd
  | _ => s.edges

def ended : Side α → Bool
  | .stopped => true
  | _ => false

@[simp] lemma ended_iff {side : Side α} : ended side ↔ side = .stopped := by
  cases side <;> simp [ended]

/-- Whether a wait may report `POLLIN`: for bytes, or for the end of the stream. Errors are
reported at any time. -/
def readable (k : Backend) (edge : Bool) (conn : Connection.State α) : Bool :=
  !(conn.inbox .client).arrived.isEmpty && (k = .poll || edge) || ended (conn.side .server)

def Reports (k : Backend) (c : Config α) (s : State α σ) (events : Batch) : Prop :=
  ∀ e ∈ events, e.2 ≠ 0 ∧ (dispatch e.2 = none → readable k (e.1 ∈ s.edges) (s.conn c e.1))

instance (k : Backend) (c : Config α) (s : State α σ) (events : Batch) :
    Decidable (Reports k c s events) :=
  inferInstanceAs (Decidable (∀ e ∈ events, _ ∧ (_ → _)))

def calls (n : ℕ) (events : UInt32) (bc wc : ℤ) : List Connection.Label :=
  match dispatch events with
  | none => Connection.calls .client n bc wc
  | some true => [.recv .client false]
  | some false => []

def step (S : RSelector σ) (k : Backend) (c : Config α) (s : State α σ) :
    Label → Option (State α σ)
  | .server i l =>
    if i < c.shards.length ∧ byClient l = false then
      (streams c i (s.server i) l).map fun t =>
        { s with server := Function.update s.server i t, edges := raise s i l }
    else none
  | .client (.next _ _ _) => none
  | .client (.wait (.batch events)) =>
    if Reports k c s events then
      (Client.step S s.client (.wait (.batch events))).map fun t =>
        { s with client := t, edges := s.edges.filter (· ∉ events.map Prod.fst) }
    else none
  | .client l => (Client.step S s.client l).map fun t => { s with client := t }
  | .serve fd events bc wc =>
    if dispatch events = none →
        bc ≤ 0 ∨ bc = (((s.conn c fd).inbox .client).read c.message.length).length then
      (Client.step S s.client
        (.next fd events (processMessage c.message.length bc wc))).bind fun t =>
          (Machine.run (streams c (c.owner fd)) (s.server (c.owner fd))
            ((calls c.message.length events bc wc).map (.conn fd))).map fun u =>
              { s with client := t, server := Function.update s.server (c.owner fd) u }
    else none

inductive Moves (S : RSelector σ) (k : Backend) (c : Config α) (s : State α σ) :
    Label → State α σ → Prop
  | served {i l t} (hi : i < c.shards.length) (hl : byClient l = false)
      (h : streams c i (s.server i) l = some t) : Moves S k c s (.server i l)
        { s with server := Function.update s.server i t, edges := raise s i l }
  | waited {events t} (hr : Reports k c s events)
      (h : Client.step S s.client (.wait (.batch events)) = some t) :
      Moves S k c s (.client (.wait (.batch events)))
        { s with client := t, edges := s.edges.filter (· ∉ events.map Prod.fst) }
  | looped {l t} (hn : ∀ fd events answer, l ≠ .next fd events answer)
      (hw : ∀ events, l ≠ .wait (.batch events)) (h : Client.step S s.client l = some t) :
      Moves S k c s (.client l) { s with client := t }
  | handled {fd events t u} {bc wc : ℤ}
      (hbc : dispatch events = none →
        bc ≤ 0 ∨ bc = (((s.conn c fd).inbox .client).read c.message.length).length)
      (h : Client.step S s.client
        (.next fd events (processMessage c.message.length bc wc)) = some t)
      (hr : Machine.run (streams c (c.owner fd)) (s.server (c.owner fd))
        ((calls c.message.length events bc wc).map (.conn fd)) = some u) :
      Moves S k c s (.serve fd events bc wc)
        { s with client := t, server := Function.update s.server (c.owner fd) u }

variable {S : RSelector σ} {k : Backend} {R : σ → Watch → Prop} {c : Config α}
  {s t : State α σ} {l : Label} {fd : Fd}

lemma step_moves (h : step S k c s l = some t) : Moves S k c s l t := by
  rw [step.eq_def] at h
  split at h
  next i l =>
    split_ifs at h with hc
    obtain ⟨u, hu, rfl⟩ := Option.map_eq_some_iff.mp h
    exact .served hc.1 hc.2 hu
  next => cases h
  next events =>
    split_ifs at h with hr
    obtain ⟨u, hu, rfl⟩ := Option.map_eq_some_iff.mp h
    exact .waited hr hu
  next l hn hw =>
    obtain ⟨u, hu, rfl⟩ := Option.map_eq_some_iff.mp h
    exact .looped hn hw hu
  next fd events bc wc =>
    split_ifs at h with hbc
    obtain ⟨v, hv, h⟩ := Option.bind_eq_some_iff.mp h
    obtain ⟨u, hu, rfl⟩ := Option.map_eq_some_iff.mp h
    exact .handled hbc hv hu

lemma Moves.step (h : Moves S k c s l t) : step S k c s l = some t := by
  cases h with
  | served hi hl h => simp only [Session.step, if_pos (And.intro hi hl), h, Option.map_some]
  | waited hr h => simp only [Session.step, if_pos hr, h, Option.map_some]
  | looped hn hw h =>
    rw [Session.step.eq_def]
    split
    next he => cases he
    next fd events answer he =>
      cases he
      exact (hn _ _ _ rfl).elim
    next events he =>
      cases he
      exact (hw _ rfl).elim
    next he =>
      cases he
      rw [h, Option.map_some]
    next he => cases he
  | handled hbc h hr =>
    simp only [Session.step, if_pos hbc, h, hr, Option.bind_some, Option.map_some]

def forServer (c : Config α) (i : ℕ) : Label → List Streams.Label
  | .server j l => if j = i then [l] else []
  | .client _ => []
  | .serve fd events bc wc =>
    if c.owner fd = i then (calls c.message.length events bc wc).map (.conn fd) else []

lemma step_server (h : step S k c s l = some t) (i : ℕ) :
    Machine.run (streams c i) (s.server i) (forServer c i l) = some (t.server i) := by
  have update {j : ℕ} {u : Streams.State α} {ls : List Streams.Label}
      (hr : Machine.run (streams c j) (s.server j) ls = some u) :
      Machine.run (streams c i) (s.server i) (if j = i then ls else []) =
        some (Function.update s.server j u i) := by
    by_cases hj : j = i
    · subst hj
      rw [if_pos rfl, Function.update_self, hr]
    · rw [if_neg hj, Function.update_of_ne (Ne.symm hj)]
      rfl
  cases step_moves h with
  | served hi hl hu => exact update (Machine.run_step hu rfl)
  | waited | looped => rfl
  | handled hbc ht hr => exact update hr

lemma load_le {message : List α} {conn : Connection.State α}
    (h : Connection.Inv message conn) : Connection.load conn ≤ message.length := by
  rcases h.phase with hf | ⟨p, hp⟩ | ⟨p, hp⟩
  · simp [Connection.load, hf.inbox]
  · exact hp.room
  · exact hp.room

structure Grows (conn conn' : Connection.State α) : Prop where
  side : conn'.side .client = conn.side .client
  arrived : (conn.inbox .client).arrived <+: (conn'.inbox .client).arrived
  ended : conn.side .server = .stopped → conn'.side .server = .stopped

lemma Grows.step {message : List α} {conn conn' : Connection.State α} {l : Connection.Label}
    (hm : message ≠ []) (hl : ofClient l = false)
    (h : Connection.step message conn l = some conn') : Grows conn conn' := by
  have hended := Streams.stopped_step (p := .server) hm h
  cases Connection.step_moves hm h with
  | unwritten | written => exact ⟨rfl, List.prefix_rfl, hended⟩
  | arrived p n =>
    cases p with
    | server => exact ⟨rfl, List.prefix_rfl, hended⟩
    | client =>
      refine ⟨rfl, ?_, hended⟩
      simp only [Function.update_self]
      exact List.prefix_append _ _
  | @broken p | @received p | @partially p | @unsent p | @sent p =>
    cases p with
    | server => exact ⟨rfl, List.prefix_rfl, hended⟩
    | client => cases hl

lemma Grows.run {message : List α} {conn conn' : Connection.State α} {ls : List Connection.Label}
    (hm : message ≠ []) (hl : ∀ l ∈ ls, ofClient l = false)
    (h : Machine.run (Connection.step message) conn ls = some conn') : Grows conn conn' := by
  induction ls generalizing conn with
  | nil =>
    cases Option.some.inj h
    exact ⟨rfl, List.prefix_rfl, id⟩
  | cons l ls ih =>
    obtain ⟨u, hu, h⟩ := Machine.run_cons_some.mp h
    obtain ⟨hl, hls⟩ := List.forall_mem_cons.mp hl
    have hfirst := Grows.step hm hl hu
    have hrest := ih hls h
    exact ⟨hrest.side.trans hfirst.side, hfirst.arrived.trans hrest.arrived,
      fun he => hrest.ended (hfirst.ended he)⟩

def forConn (n : ℕ) (fd : Fd) : Streams.Label → List Connection.Label
  | .conn fd' l => if fd' = fd then [l] else []
  | .worker (.ping fd' bc wc _) => if fd' = fd then Connection.calls .server n bc wc else []
  | .worker _ => []

lemma streams_conn {i : ℕ} {u v : Streams.State α} {l : Streams.Label}
    (h : streams c i u l = some v) (fd : Fd) :
    Machine.run (Connection.step c.message) (u.conns fd) (forConn c.message.length fd l) =
      some (v.conns fd) := by
  have update {fd' : Fd} {conn : Connection.State α} {ls : List Connection.Label}
      (hr : Machine.run (Connection.step c.message) (u.conns fd') ls = some conn) :
      Machine.run (Connection.step c.message) (u.conns fd) (if fd' = fd then ls else []) =
        some (Function.update u.conns fd' conn fd) := by
    by_cases hfd : fd' = fd
    · subst hfd
      rw [if_pos rfl, Function.update_self, hr]
    · rw [if_neg hfd, Function.update_of_ne (Ne.symm hfd)]
      rfl
  cases l with
  | conn fd' l =>
    obtain ⟨-, -, conn, hconn, rfl⟩ := Streams.step_conn h
    exact update (Machine.run_step hconn rfl)
  | worker l =>
    rcases Streams.released_cases l with hl | ⟨fd', bc, wc, now, rfl⟩
    · obtain ⟨-, hconns, -⟩ := Streams.workerStep_spec h hl
      have hnil : forConn c.message.length fd (.worker l) = [] := by
        cases l <;> first | rfl | cases hl
      rw [hnil, hconns]
      rfl
    · simp only [streams, Streams.step, Streams.workerStep] at h
      split_ifs at h with hbc
      obtain ⟨conn, hconn, h⟩ := Option.bind_eq_some_iff.mp h
      obtain ⟨w, -, rfl⟩ := Option.map_eq_some_iff.mp h
      exact update hconn

lemma streams_inv {i : ℕ} {u v : Streams.State α} {l : Streams.Label}
    (hu : ∀ fd, Connection.Inv c.message (u.conns fd)) (h : streams c i u l = some v) (fd : Fd) :
    Connection.Inv c.message (v.conns fd) :=
  Machine.run_invariant _ (fun _ _ _ hi hl => Connection.step_inv c.message_ne hi hl) (hu fd)
    (streams_conn h fd)

lemma forConn_worker {n : ℕ} {l : Worker.Label} {k : Connection.Label}
    (hk : k ∈ forConn n fd (.worker l)) :
    (∃ ok, k = .recv .server ok) ∨ ∃ rc, k = .send .server rc := by
  cases l with
  | ping fd' bc wc now =>
    rw [forConn, Connection.calls] at hk
    split_ifs at hk
    · exact .inl ⟨false, List.mem_singleton.mp hk⟩
    · exact .inl ⟨true, List.mem_singleton.mp hk⟩
    · rcases List.mem_pair.mp hk with rfl | rfl
      · exact .inl ⟨true, rfl⟩
      · exact .inr ⟨wc, rfl⟩
    · cases hk
  | _ => cases hk

lemma forConn_server {n : ℕ} {l : Streams.Label} (hl : byClient l = false) (fd : Fd) :
    ∀ k ∈ forConn n fd l, ofClient k = false := by
  intro k hk
  cases l with
  | conn fd' l =>
    rw [forConn] at hk
    split_ifs at hk
    · rwa [List.mem_singleton.mp hk]
    · cases hk
  | worker l => rcases forConn_worker hk with ⟨ok, rfl⟩ | ⟨rc, rfl⟩ <;> rfl

lemma streams_grows {i : ℕ} {u v : Streams.State α} {l : Streams.Label}
    (hl : byClient l = false) (h : streams c i u l = some v) (fd : Fd) :
    Grows (u.conns fd) (v.conns fd) :=
  Grows.run c.message_ne (forConn_server hl fd) (streams_conn h fd)

lemma mem_raise_mono {i : ℕ} {l : Streams.Label} (h : fd ∈ s.edges) : fd ∈ raise s i l := by
  rw [raise.eq_def]
  split
  · split_ifs
    · exact h
    · exact List.mem_insert_of_mem h
  · exact h

lemma arrived_run {message : List α} {conn conn' : Connection.State α} {ls : List Connection.Label}
    (hm : message ≠ []) (hl : ∀ l ∈ ls, ofClient l = false ∧ ∀ n, l ≠ .arrive .client n)
    (h : Machine.run (Connection.step message) conn ls = some conn') :
    (conn'.inbox .client).arrived = (conn.inbox .client).arrived := by
  induction ls generalizing conn with
  | nil => rw [Option.some.inj h]
  | cons l ls ih =>
    obtain ⟨u, hu, h⟩ := Machine.run_cons_some.mp h
    obtain ⟨⟨hc, hb⟩, hls⟩ := List.forall_mem_cons.mp hl
    rw [ih hls h]
    cases Connection.step_moves hm hu with
    | unwritten | written => rfl
    | arrived p n =>
      cases p with
      | server => rfl
      | client => exact (hb n rfl).elim
    | @broken p | @received p | @partially p | @unsent p | @sent p =>
      cases p with
      | server => rfl
      | client => cases hc

lemma mem_raise {i : ℕ} {l : Streams.Label} {t : Streams.State α}
    (hl : byClient l = false) (h : streams c i (s.server i) l = some t)
    (ha : ((t.conns fd).inbox .client).arrived ≠ []) :
    (((s.server i).conns fd).inbox .client).arrived ≠ [] ∨ fd ∈ raise s i l := by
  cases l with
  | conn fd' l =>
    obtain ⟨-, -, conn, hconn, rfl⟩ := Streams.step_conn h
    by_cases hfd : fd = fd'
    · subst hfd
      simp only [Function.update_self] at ha
      by_cases hb : ∀ n, l ≠ .arrive .client n
      · rw [arrived_run c.message_ne (List.forall_mem_singleton.mpr ⟨hl, hb⟩)
          (Machine.run_step hconn Machine.run_nil)] at ha
        exact .inl ha
      · obtain ⟨n, rfl⟩ : ∃ n, l = .arrive .client n := by simpa using hb
        cases Option.some.inj hconn
        rw [raise]
        split_ifs with hnil
        · rw [List.isEmpty_iff] at hnil
          simp only [Function.update_self, ByteStream.arrive, hnil, List.append_nil] at ha
          exact .inl ha
        · exact .inr List.mem_insert_self
    · simp only [Function.update_of_ne hfd] at ha
      exact .inl ha
  | worker l =>
    refine .inl ?_
    rwa [arrived_run c.message_ne (fun k hk => ⟨forConn_server hl fd k hk, fun n => ?_⟩)
      (streams_conn h fd)] at ha
    rcases forConn_worker hk with ⟨ok, rfl⟩ | ⟨rc, rfl⟩ <;> simp

lemma calls_client {n : ℕ} {events : UInt32} {bc wc : ℤ} :
    ∀ l ∈ calls n events bc wc, ofClient l = true := by
  intro l hl
  rw [calls.eq_def] at hl
  split at hl
  · rw [Connection.calls] at hl
    split_ifs at hl
    · rw [List.mem_singleton.mp hl]
      rfl
    · rw [List.mem_singleton.mp hl]
      rfl
    · rcases List.mem_pair.mp hl with rfl | rfl <;> rfl
  · rw [List.mem_singleton.mp hl]
    rfl
  · cases hl

lemma run_conn {i : ℕ} {u v : Streams.State α} {ls : List Connection.Label}
    (hl : ∀ l ∈ ls, ofClient l = true)
    (h : Machine.run (streams c i) u (ls.map (.conn fd)) = some v) :
    v.worker = u.worker ∧ v.edges = u.edges ∧
      Machine.run (Connection.step c.message) (u.conns fd) ls = some (v.conns fd) ∧
      ∀ fd' ≠ fd, v.conns fd' = u.conns fd' := by
  induction ls generalizing u with
  | nil =>
    cases Option.some.inj h
    exact ⟨rfl, rfl, rfl, fun _ _ => rfl⟩
  | cons l ls ih =>
    obtain ⟨x, hx, h⟩ := Machine.run_cons_some.mp h
    obtain ⟨hl, hls⟩ := List.forall_mem_cons.mp hl
    obtain ⟨-, -, conn, hconn, rfl⟩ := Streams.step_conn hx
    obtain ⟨hworker, hedges, hr, hother⟩ := ih hls h
    have hraise : Streams.raises (u.conns fd) l = false := by
      cases l with
      | arrive => cases hl
      | _ => rfl
    simp only [hraise, Bool.false_eq_true, false_and, if_false] at hedges
    simp only [Function.update_self] at hr
    refine ⟨hworker, hedges, Machine.run_step hconn hr, fun fd' hfd => ?_⟩
    rw [hother fd' hfd]
    exact Function.update_of_ne hfd ..

lemma calls_empties {message : List α} {conn conn' : Connection.State α} {bc wc : ℤ}
    (hm : message ≠ []) (hi : Connection.Inv message conn)
    (hbc : bc ≤ 0 ∨ bc = ((conn.inbox .client).read message.length).length)
    (h : Machine.run (Connection.step message) conn
      (Connection.calls .client message.length bc wc) = some conn')
    (ha : processMessage message.length bc wc) : (conn'.inbox .client).arrived = [] := by
  have hex := Connection.exchange_eq .client message.length bc wc
  have hexchange : Connection.exchange .client message.length bc wc = true := ha
  rw [hexchange] at hex
  obtain ⟨⟨hpos, hn⟩, hwc⟩ : (0 < bc ∧ (message.length : ℤ) = bc) ∧ (message.length : ℤ) = wc := by
    simpa using hex.symm
  subst hn hwc
  rw [Connection.calls, if_neg hpos.not_ge, if_neg (lt_irrefl _)] at h
  obtain ⟨u, hu, h⟩ := Machine.run_cons_some.mp h
  obtain ⟨v, hv, h⟩ := Machine.run_cons_some.mp h
  cases Option.some.inj h
  have hload := load_le hi
  rw [Connection.load_eq conn .client] at hload
  have hc := congrArg List.length
    (ByteStream.read_content (conn.inbox .client) message.length)
  rw [List.length_append] at hc
  have hu' : (u.inbox .client) = (conn.inbox .client).rest message.length := by
    cases Connection.step_moves hm hu with
    | received | partially => simp
  have hv' : conn'.inbox .client = u.inbox .client := by
    cases Connection.step_moves hm hv with
    | unsent | sent => simp
  rw [hv', hu']
  apply ByteStream.arrived_of_content
  apply List.eq_nil_of_length_eq_zero
  omega

lemma calls_open {message : List α} {conn conn' : Connection.State α} {events : UInt32} {bc wc : ℤ}
    (hm : message ≠ []) (hi : Connection.Inv message conn) (hne : events ≠ 0)
    (hbc : dispatch events = none →
      bc ≤ 0 ∨ bc = ((conn.inbox .client).read message.length).length)
    (h : Machine.run (Connection.step message) conn (calls message.length events bc wc) =
      some conn')
    (hc : ¬ closeSock events (processMessage message.length bc wc)) :
    conn'.side .client = .waiting ∧ (conn'.inbox .client).arrived = [] := by
  cases hd : dispatch events with
  | none =>
    rw [closeSock, hd] at hc
    have ha : processMessage message.length bc wc = true := by simpa using hc
    rw [calls, hd] at h
    refine ⟨?_, calls_empties hm hi (hbc hd) h ha⟩
    rw [Connection.calls_side hm (hbc hd) h, Connection.exchange, if_pos ha]
  | some close =>
    cases close with
    | true =>
      rw [closeSock, hd] at hc
      exact (hc rfl).elim
    | false => exact (hne (Client.dispatch_false.mp hd)).elim

lemma calls_closed {message : List α} {conn conn' : Connection.State α} {events : UInt32}
    {bc wc : ℤ} (hm : message ≠ []) (hbc : dispatch events = none →
      bc ≤ 0 ∨ bc = ((conn.inbox .client).read message.length).length)
    (h : Machine.run (Connection.step message) conn (calls message.length events bc wc) =
      some conn')
    (hc : closeSock events (processMessage message.length bc wc)) :
    conn'.side .client = .stopped := by
  cases hd : dispatch events with
  | none =>
    rw [closeSock, hd] at hc
    have ha : processMessage message.length bc wc = false := by simpa using hc
    rw [calls, hd] at h
    rw [Connection.calls_side hm (hbc hd) h, Connection.exchange, ha]
    rfl
  | some close =>
    rw [closeSock, hd] at hc
    obtain rfl : close = true := hc
    rw [calls, hd] at h
    obtain ⟨v, hv, h⟩ := Machine.run_cons_some.mp h
    cases Option.some.inj h
    cases Connection.step_moves hm hv with
    | broken => simp

end NetworkPing.Session
