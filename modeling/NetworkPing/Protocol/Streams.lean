import NetworkPing.Protocol.Connection
import NetworkPing.Server.PingPong

/-! A worker whose sockets are byte streams. Bytes arrive in any pieces, and epoll keeps one edge
of a socket until it is reported. The messages of `PingPong` are what this looks like when each
message comes to the server in one piece. -/

namespace NetworkPing.Streams

open Connection (Peer Side Fresh Holds Dead Inv)
open Worker (Config held)

variable {α : Type*}

structure State (α : Type*) where
  worker : Worker.State
  conns : Fd → Connection.State α
  edges : List Fd

inductive Label
  | conn (fd : Fd) (l : Connection.Label)
  | worker (l : Worker.Label)

def start (sockCount : ℤ) : State α := ⟨Worker.start sockCount, fun _ => Connection.start, []⟩

def byServer : Connection.Label → Bool
  | .recv .server _ | .send .server _ => true
  | _ => false

def raises (conn : Connection.State α) : Connection.Label → Bool
  | .arrive .server k => !((conn.inbox .server).inFlight.take k).isEmpty
  | _ => false

def connStep (message : List α) (s : State α) (fd : Fd) (l : Connection.Label) :
    Option (State α) :=
  (Connection.step message (s.conns fd) l).map fun conn => { s with
    conns := Function.update s.conns fd conn
    edges := if raises (s.conns fd) l ∧ fd ∉ s.edges then s.edges ++ [fd] else s.edges }

def workerStep (message : List α) (c : Config) (s : State α) (l : Worker.Label) :
    Option (State α) :=
  match l with
  | .wait (some batch) _ =>
    if batch.length ≤ s.worker.sel.size ∧ batch.Subperm s.edges then
      (Worker.step c s.worker l).map fun w => { s with worker := w, edges := s.edges.diff batch }
    else none
  | .ping fd bc wc _ =>
    if bc ≤ 0 ∨ bc = (((s.conns fd).inbox .server).read message.length).length then
      (Machine.run (Connection.step message) (s.conns fd)
        (Connection.calls .server message.length bc wc)).bind fun conn =>
          (Worker.step c s.worker l).map fun w =>
            { s with worker := w, conns := Function.update s.conns fd conn }
    else none
  | _ => (Worker.step c s.worker l).map fun w => { s with worker := w }

def step (message : List α) (c : Config) (fds : List Fd) (s : State α) : Label → Option (State α)
  | .conn fd l => if fd ∈ fds ∧ byServer l = false then connStep message s fd l else none
  | .worker l => workerStep message c s l

structure Healthy (s : State α) : Prop where
  running : s.worker.pc ≠ .returned
  live : ∀ fd p, (s.conns fd).side p ≠ .stopped

def Whole (s : State α) : Label → Prop
  | .conn fd (.arrive .server k) => ((s.conns fd).inbox .server).inFlight.length ≤ k
  | _ => True

instance (s : State α) : ∀ l, Decidable (Whole s l)
  | .conn _ (.arrive .server _) => Nat.decLe _ _
  | .conn _ (.arrive .client _) | .conn _ (.write _) | .conn _ (.recv _ _) | .conn _ (.send _ _)
  | .worker _ => isTrue trivial

variable {message : List α} {c : Config} {fds : List Fd} {s t : State α} {l : Label} {fd : Fd}
  {conn conn' : Connection.State α} {n bc wc : ℤ} {now : UInt64}

lemma stopped_step {l : Connection.Label} {p : Peer}
    (hm : message ≠ []) (h : Connection.step message conn l = some conn')
    (hs : conn.side p = .stopped) : conn'.side p = .stopped := by
  have frame {q : Peer} {side side' : Side α} (hq : conn.side q = side) (hne : side ≠ .stopped) :
      Function.update conn.side q side' p = .stopped := by
    rw [Function.update_of_ne]
    · exact hs
    · rintro rfl
      exact hne (hq.symm.trans hs)
  cases Connection.step_moves hm h with
  | arrived => exact hs
  | unwritten hq | written hq | broken hq | received hq | partially hq | unsent hq | sent hq =>
    exact frame hq (by simp)

lemma holds_server
    (hi : Fresh conn ∨ (∃ p, Holds message conn p) ∨ ∃ p, Dead message conn p)
    (hs : conn.side .client ≠ .stopped) (hw : conn.side .server = .waiting)
    (ha : (conn.inbox .server).arrived ≠ []) :
    Holds message conn .server := by
  rcases hi with hf | ⟨p, hp⟩ | ⟨p, hp⟩
  · simp [hf.server] at hw
  · cases p with
    | server => exact hp
    | client => exact (ha (ByteStream.arrived_of_content hp.empty)).elim
  · cases p with
    | server => simp [hp.stopped] at hw
    | client => exact (hs hp.stopped).elim

lemma send_whole {p : Peer} (hm : message ≠ []) (h : Holds message conn p)
    (hs : conn.side p.other ≠ .stopped)
    (hl : Connection.step message conn (.send p message.length) = some conn') :
    Holds message conn' p.other ∧ conn'.side p = .waiting ∧
      conn'.inbox p.other = (conn.inbox p.other).send message := by
  cases Connection.step_moves hm hl with
  | unsent hb hrc => exact (lt_irrefl _ hrc).elim
  | sent hb =>
    obtain ⟨-, hbuffer, -⟩ := h.answering hb
    rw [hbuffer] at hb ⊢
    refine ⟨h.sent hb (h.other.resolve_right hs), by simp, ?_⟩
    simp [Connection.reply_eq]

lemma calls_whole (hm : message ≠ [])
    (hi : Fresh conn ∨ (∃ p, Holds message conn p) ∨ ∃ p, Dead message conn p)
    (hs : conn.side .client ≠ .stopped)
    (hread : ((conn.inbox .server).read message.length).length = message.length)
    (h : Machine.run (Connection.step message) conn
      [.recv .server true, .send .server message.length] = some conn') :
    Holds message conn .server ∧ (conn.inbox .server).arrived ≠ [] ∧
      Holds message conn' .client ∧ conn'.side .server = .waiting ∧
      (conn'.inbox .client).inFlight = message := by
  obtain ⟨v, hv, h⟩ := Machine.run_cons_some.mp h
  obtain ⟨u, hu, h⟩ := Machine.run_cons_some.mp h
  cases Option.some.inj h
  cases Connection.step_moves hm hv with
  | partially hw ha hl => exact (hl.ne hread).elim
  | received hw ha hl =>
    have hh := holds_server hi hs hw ha
    have hempty : (conn.inbox .client).inFlight = [] := (List.append_eq_nil_iff.mp hh.empty).2
    obtain ⟨ht, hside, hinbox⟩ := send_whole hm (hh.received hw hl) hs hu
    refine ⟨hh, ha, ht, hside, ?_⟩
    refine (congrArg ByteStream.inFlight hinbox).trans ?_
    show (conn.inbox .client).inFlight ++ message = message
    rw [hempty, List.nil_append]

lemma workerStep_ping (hc : c.messageLen = message.length)
    (h : workerStep message c s (.ping fd bc wc now) = some t) (ht : t.worker.pc ≠ .returned) :
    bc = message.length ∧ wc = message.length ∧
      ((((s.conns fd).inbox .server).read message.length).length = message.length) ∧
      Worker.step c s.worker (.ping fd bc wc now) = some t.worker ∧
      t.edges = s.edges ∧ ∃ conn, Machine.run (Connection.step message) (s.conns fd)
        [.recv .server true, .send .server message.length] = some conn ∧
        t.conns = Function.update s.conns fd conn := by
  simp only [workerStep] at h
  split_ifs at h with hbc
  obtain ⟨conn, hconn, h⟩ := Option.bind_eq_some_iff.mp h
  obtain ⟨w, hw, rfl⟩ := Option.map_eq_some_iff.mp h
  have hp : ping c.messageLen bc wc := by
    cases Worker.step_moves hw with
    | answered _ hp => exact hp
    | broken => exact (ht rfl).elim
  obtain ⟨hpos, hwc⟩ := Worker.ping_true hp
  have hlen : c.messageLen = bc := by
    rw [ping] at hp
    split_ifs at hp with _ _ hne
    exact not_not.mp hne
  rw [hc] at hlen hwc
  subst hlen hwc
  refine ⟨rfl, rfl, by omega, hw, rfl, conn, ?_, rfl⟩
  rwa [Connection.calls, if_neg (by omega), if_neg (lt_irrefl _)] at hconn

lemma workerStep_spec {l : Worker.Label} (h : workerStep message c s l = some t)
    (hl : Worker.released l = []) : Worker.step c s.worker l = some t.worker ∧
      t.conns = s.conns ∧
      ∀ fd, s.edges.count fd = t.edges.count fd + (Worker.gained l).count fd := by
  rw [workerStep.eq_def] at h
  split at h
  next batch now =>
    split_ifs at h with hb
    obtain ⟨w, hw, rfl⟩ := Option.map_eq_some_iff.mp h
    refine ⟨hw, rfl, fun fd => ?_⟩
    have := hb.2.count_le fd
    simp only [Worker.gained, List.count_diff]
    omega
  next => cases hl
  next hn hp =>
    obtain ⟨w, hw, rfl⟩ := Option.map_eq_some_iff.mp h
    have hg : Worker.gained l = [] := by
      rw [Worker.gained.eq_def]
      split
      · exact (hn _ _ rfl).elim
      · rfl
    refine ⟨hw, rfl, fun fd => ?_⟩
    rw [hg]
    rfl

lemma step_conn {l : Connection.Label} (h : step message c fds s (.conn fd l) = some t) :
    fd ∈ fds ∧ byServer l = false ∧ ∃ conn, Connection.step message (s.conns fd) l = some conn ∧
      t = { s with
        conns := Function.update s.conns fd conn
        edges := if raises (s.conns fd) l ∧ fd ∉ s.edges then s.edges ++ [fd] else s.edges } := by
  simp only [step, Option.ite_none_right_eq_some, connStep, Option.map_eq_some_iff] at h
  obtain ⟨⟨hfd, hl⟩, conn, hconn, rfl⟩ := h
  exact ⟨hfd, hl, conn, hconn, rfl⟩

lemma arrived_frame {l : Connection.Label} (hm : message ≠ []) (hl : byServer l = false)
    (hr : raises conn l = false) (h : Connection.step message conn l = some conn') :
    (conn'.inbox .server).arrived = (conn.inbox .server).arrived := by
  cases Connection.step_moves hm h with
  | unwritten | written | broken => rfl
  | arrived p k =>
    cases p with
    | client => rfl
    | server =>
      have htake : (conn.inbox .server).inFlight.take k = [] := by simpa [raises] using hr
      simp only [Function.update_self, ByteStream.arrive, htake, List.append_nil]
  | @received p | @partially p | @unsent p | @sent p =>
    cases p with
    | client => rfl
    | server => cases hl

lemma raise_mono {edges : List Fd} {fd' : Fd} (p : Prop) [Decidable p] (fd : Fd)
    (h : fd' ∈ edges) : fd' ∈ if p ∧ fd ∉ edges then edges ++ [fd] else edges := by
  split_ifs
  · exact List.mem_append_left _ h
  · exact h

lemma mem_raise {edges : List Fd} {p : Prop} [Decidable p] (h : p) :
    fd ∈ if p ∧ fd ∉ edges then edges ++ [fd] else edges := by
  split_ifs with hfd
  · simp
  · exact not_not.mp fun hne => hfd ⟨h, hne⟩

structure Woken (message : List α) (s : State α) : Prop where
  idle : Worker.Idle s.worker
  inv : ∀ fd, Inv message (s.conns fd)
  told : ∀ fd, ((s.conns fd).inbox .server).arrived ≠ [] → fd ∈ s.edges ∨ fd ∈ held s.worker

lemma released_cases (l : Worker.Label) :
    Worker.released l = [] ∨ ∃ fd bc wc now, l = .ping fd bc wc now := by
  cases l <;> simp [Worker.released]

lemma step_healthy (hm : message ≠ []) (hc : c.messageLen = message.length)
    (h : step message c fds s l = some t) (ht : Healthy t) : Healthy s := by
  cases l with
  | conn fd l =>
    obtain ⟨-, -, conn, hconn, rfl⟩ := step_conn h
    refine ⟨ht.running, fun fd' p hs => ?_⟩
    have hlive := ht.live fd' p
    by_cases he : fd' = fd
    · subst he
      simp only [Function.update_self] at hlive
      exact hlive (stopped_step hm hconn hs)
    · simp only [Function.update_of_ne he] at hlive
      exact hlive hs
  | worker l =>
    rcases released_cases l with hl | ⟨fd, bc, wc, now, rfl⟩
    · obtain ⟨hw, hconns, -⟩ := workerStep_spec h hl
      exact ⟨Worker.step_running hw, hconns ▸ ht.live⟩
    · obtain ⟨-, -, -, hw, -, conn, hconn, hconns⟩ := workerStep_ping hc h ht.running
      refine ⟨Worker.step_running hw, fun fd' p hs => ?_⟩
      have hlive := ht.live fd' p
      rw [hconns] at hlive
      by_cases he : fd' = fd
      · subst he
        rw [Function.update_self] at hlive
        exact hlive (Machine.run_invariant (fun conn => conn.side p = .stopped)
          (fun _ _ _ hs hl => stopped_step hm hl hs) hs hconn)
      · rw [Function.update_of_ne he] at hlive
        exact hlive hs

lemma step_woken (hm : message ≠ []) (hc : c.messageLen = message.length) (hs : Woken message s)
    (hlive : Healthy s) (h : step message c fds s l = some t) (ht : Healthy t) :
    Woken message t := by
  cases l with
  | conn fd l =>
    obtain ⟨-, hl, conn, hconn, rfl⟩ := step_conn h
    refine ⟨hs.idle, fun fd' => ?_, fun fd' hfd' => ?_⟩
    · by_cases he : fd' = fd
      · subst he
        simpa only [Function.update_self] using Connection.step_inv hm (hs.inv fd') hconn
      · simpa only [Function.update_of_ne he] using hs.inv fd'
    · have hold (h : ((s.conns fd').inbox .server).arrived ≠ []) :=
        (hs.told fd' h).imp_left (raise_mono (raises (s.conns fd) l = true) fd)
      by_cases he : fd' = fd
      · subst he
        simp only [Function.update_self] at hfd'
        by_cases hr : raises (s.conns fd') l = true
        · exact .inl (mem_raise hr)
        · rw [arrived_frame hm hl (by simpa using hr) hconn] at hfd'
          exact hold hfd'
      · simp only [Function.update_of_ne he] at hfd'
        exact hold hfd'
  | worker l =>
    rcases released_cases l with hl | ⟨fd, bc, wc, now, rfl⟩
    · obtain ⟨hw, hconns, hedges⟩ := workerStep_spec h hl
      refine ⟨Worker.step_idle hs.idle hw, hconns ▸ hs.inv, fun fd hfd => ?_⟩
      rw [hconns] at hfd
      have hheld := Worker.step_held hs.idle hw ht.running fd
      have hedge := hedges fd
      have htold := hs.told fd hfd
      rw [hl] at hheld
      simp only [← List.count_pos_iff, List.count_nil] at hheld htold ⊢
      omega
    · obtain ⟨-, -, hread, hw, hedges, conn, hconn, hconns⟩ := workerStep_ping hc h ht.running
      obtain ⟨-, -, hh, -, -⟩ := calls_whole hm (hs.inv fd).phase (hlive.live fd _) hread hconn
      refine ⟨Worker.step_idle hs.idle hw, fun fd' => ?_, fun fd' hfd' => ?_⟩
      · rw [hconns]
        by_cases he : fd' = fd
        · subst he
          rw [Function.update_self]
          exact Machine.run_invariant _ (fun _ _ _ hi hl => Connection.step_inv hm hi hl)
            (hs.inv fd') hconn
        · rw [Function.update_of_ne he]
          exact hs.inv fd'
      · rw [hconns] at hfd'
        by_cases he : fd' = fd
        · subst he
          rw [Function.update_self] at hfd'
          exact (hfd' (ByteStream.arrived_of_content hh.empty)).elim
        · rw [Function.update_of_ne he] at hfd'
          have hheld := Worker.step_held hs.idle hw ht.running fd'
          have htold := hs.told fd' hfd'
          rw [hedges]
          simp only [← List.count_pos_iff, Worker.released, Worker.gained, List.count_nil,
            List.count_singleton, beq_iff_eq, Ne.symm he, if_false] at hheld htold ⊢
          omega

theorem streams_woken (message : List α) (hm : message ≠ []) (c : Config)
    (hc : c.messageLen = message.length) (fds : List Fd) (n : ℤ) (ls : List Label) (s : State α)
    (h : Machine.run (step message c fds) (start n) ls = some s) (hs : Healthy s) (fd : Fd)
    (hfd : ((s.conns fd).inbox .server).arrived ≠ []) :
    fd ∈ s.edges ∨ fd ∈ held s.worker := by
  have hi : Healthy s → Woken message s := by
    refine Machine.run_invariant (fun s => Healthy s → Woken message s) ?_ (fun _ => ?_) h
    · intro s l t hi hl ht
      have hs := step_healthy hm hc hl ht
      exact step_woken hm hc (hi hs) hs hl ht
    · refine ⟨rfl, fun fd => ⟨by simp [start, Connection.start], .inl Connection.start_fresh⟩, ?_⟩
      intro fd hfd
      exact (hfd rfl).elim
  exact (hi hs).told fd hfd

def twoBytes : Config := ⟨2, 0, 0, fun d => d.toNat⟩

def answerArrives (k : ℕ) : List Label :=
  [.conn 7 (.write 2), .conn 7 (.arrive .client 2), .conn 7 (.recv .client true),
    .conn 7 (.send .client 2), .conn 7 (.arrive .server k)]

theorem streams_woken_first_byte :
    ∃ s, Machine.run (step [1, 2] twoBytes [7]) (start 1) (answerArrives 1) = some s ∧
      (s.conns 7).inbox .server = ⟨[1], [2]⟩ ∧ (7 ∈ s.edges ∨ 7 ∈ held s.worker) := by
  refine ⟨_, rfl, rfl, ?_⟩
  refine streams_woken [1, 2] (by simp) twoBytes rfl [7] 1 (answerArrives 1) _ rfl
    ⟨by decide, fun fd p => ?_⟩ 7 (List.cons_ne_nil 1 [])
  by_cases h : fd = 7
  · subst h
    cases p <;> decide
  · simp only [Function.update_of_ne h]
    cases p <;> simp [start, Connection.start]

end NetworkPing.Streams
