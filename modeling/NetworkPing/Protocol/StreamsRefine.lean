import NetworkPing.Protocol.Streams

namespace NetworkPing.Streams

open Connection (Peer Side Fresh Holds Inv)
open Worker (Config held)

inductive Spot
  | unwritten
  | toPeer
  | atPeer
  | toServer
  | unread
  deriving DecidableEq

def Spot.next : Spot → Spot
  | unwritten | unread => toPeer
  | toPeer => atPeer
  | atPeer => toServer
  | toServer => unread

def spots (p : PingPong.State) : Spot → List Fd
  | .unwritten => p.unwritten
  | .toPeer => p.toPeer
  | .atPeer => p.atPeer
  | .toServer => p.toServer
  | .unread => p.unread

def moving (fd : Fd) : Spot → PingPong.Label
  | .unwritten => .write fd
  | .toPeer => .deliver fd
  | .atPeer => .reply fd
  | .toServer | .unread => .arrive fd

variable {α : Type*}

def At (message : List α) (conn : Connection.State α) : Spot → Prop
  | .unwritten => Fresh conn
  | .toPeer => Holds message conn .client ∧ (conn.inbox .client).inFlight ≠ []
  | .atPeer => Holds message conn .client ∧ (conn.inbox .client).inFlight = []
  | .toServer => Holds message conn .server ∧ conn.inbox .server = ⟨[], message⟩
  | .unread => Holds message conn .server ∧ conn.inbox .server = ⟨message, []⟩

variable {message : List α} {c : Config} {fds : List Fd} {conn conn' : Connection.State α}
  {x y : Spot} {fd : Fd} {p q : PingPong.State}

def Moved (p q : PingPong.State) (fd : Fd) (x y : Spot) : Prop :=
  ∀ z fd', (spots q z).count fd' + (if z = x ∧ fd' = fd then 1 else 0) =
    (spots p z).count fd' + if z = y ∧ fd' = fd then 1 else 0

lemma count_one (fd fd' : Fd) : [fd].count fd' = if fd' = fd then 1 else 0 := by
  simp only [List.count_singleton, beq_iff_eq, eq_comm (a := fd)]

lemma step_moving (hx : x ≠ .unread) (h : fd ∈ spots p x) :
    ∃ q, PingPong.step c p (moving fd x) = some q ∧ q.worker = p.worker ∧
      q.edges = (if x = .toServer then p.edges ++ [fd] else p.edges) ∧ Moved p q fd x x.next := by
  cases x with
  | unread => exact (hx rfl).elim
  | unwritten | toPeer | atPeer | toServer =>
    refine ⟨_, if_pos h, rfl, rfl, fun z fd' => ?_⟩
    have he := PingPong.count_erase_add h fd'
    rw [count_one] at he
    cases z <;> simp only [spots, Spot.next, List.count_cons, beq_iff_eq, eq_comm (a := fd),
      reduceCtorEq, false_and, true_and, if_false] at he ⊢ <;> omega

variable {l : Connection.Label}

lemma inFlight_of_content {stream : ByteStream α} (h : stream.content = []) :
    stream.inFlight = [] := (List.append_eq_nil_iff.mp h).2

lemma At.step_fresh (hm : message ≠ []) (h : Fresh conn) (hlive : ∀ p, conn'.side p ≠ .stopped)
    (hs : Connection.step message conn l = some conn') :
    raises conn l = false ∧ (At message conn' .unwritten ∨ At message conn' .toPeer) := by
  have hnil (p : Peer) := ByteStream.arrived_of_content (h.inbox p)
  have hside (p : Peer) : conn.side p = .starting ∨ conn.side p = .waiting := by
    cases p
    · exact .inl h.server
    · exact .inr h.client
  cases Connection.step_moves hm hs with
  | unwritten | broken => exact (hlive _ (Connection.become_side ..)).elim
  | written =>
    refine ⟨rfl, .inr ⟨h.written.1, ?_⟩⟩
    show (conn.inbox .client).inFlight ++ message ≠ []
    rwa [inFlight_of_content (h.inbox _)]
  | arrived p k =>
    refine ⟨?_, .inl ⟨h.server, h.client, fun q => ?_, h.answered⟩⟩
    · cases p <;> simp [raises, inFlight_of_content (h.inbox _)]
    · rw [Connection.arrived_content]
      exact h.inbox q
  | received _ ha | partially _ ha => exact (ha (hnil _)).elim
  | unsent hb | sent hb =>
    rcases hside _ with hp | hp
    all_goals exact absurd (hb.symm.trans hp) (by simp)

lemma At.step_client (hm : message ≠ []) (h : Holds message conn .client)
    (hlive : ∀ p, conn'.side p ≠ .stopped) (hl : byServer l = false)
    (hs : Connection.step message conn l = some conn') : raises conn l = false ∧
      (Holds message conn' .client ∧
          ((conn.inbox .client).inFlight = [] → (conn'.inbox .client).inFlight = []) ∨
        At message conn' .toServer ∧ (conn.inbox .client).inFlight = []) := by
  have hserver : (conn.inbox .server).inFlight = [] := inFlight_of_content h.empty
  cases Connection.step_moves hm hs with
  | unwritten hp | written hp => exact (h.not_starting _ hp).elim
  | broken | partially | unsent => exact (hlive _ (Connection.become_side ..)).elim
  | arrived p k =>
    refine ⟨?_, .inl ⟨h.arrived p k, fun hi => ?_⟩⟩
    · cases p <;> simp [raises, hserver]
    · cases p
      · exact hi
      · simp [ByteStream.arrive, hi]
  | @received p hp ha hr =>
    cases p with
    | server => cases hl
    | client => exact ⟨rfl, .inl ⟨h.received hp hr, fun hi => hi⟩⟩
  | @sent p buffer hp =>
    cases p with
    | server => cases hl
    | client =>
      have hother : conn.side .server ≠ .stopped := fun ho => hlive .server ho
      obtain ⟨ht, -, hinbox⟩ := send_whole hm h hother hs
      refine ⟨rfl, .inr ⟨⟨ht, hinbox.trans ?_⟩, inFlight_of_content (h.answering hp).2.2⟩⟩
      show ByteStream.mk (conn.inbox .server).arrived ((conn.inbox .server).inFlight ++ message) = _
      have hnone : (conn.inbox .server).arrived = [] := ByteStream.arrived_of_content h.empty
      rw [hserver, hnone, List.nil_append]

lemma At.step_server (hm : message ≠ []) (h : Holds message conn .server)
    (hlive : ∀ p, conn'.side p ≠ .stopped) (hl : byServer l = false)
    (hw : ∀ k, l = .arrive .server k → (conn.inbox .server).inFlight.length ≤ k)
    (hs : Connection.step message conn l = some conn') : Holds message conn' .server ∧
      (raises conn l = false ∧ conn'.inbox .server = conn.inbox .server ∨
        raises conn l = true ∧ (conn.inbox .server).inFlight ≠ [] ∧ conn'.inbox .server =
          ⟨(conn.inbox .server).arrived ++ (conn.inbox .server).inFlight, []⟩) := by
  cases Connection.step_moves hm hs with
  | unwritten hp | written hp => exact (h.not_starting _ hp).elim
  | broken | partially | unsent => exact (hlive _ (Connection.become_side ..)).elim
  | arrived p k =>
    refine ⟨h.arrived p k, ?_⟩
    cases p with
    | client => exact .inl ⟨rfl, rfl⟩
    | server =>
      have hk := hw k rfl
      by_cases hi : (conn.inbox .server).inFlight = []
      · refine .inl ⟨by simp [raises, hi], ?_⟩
        simp only [Function.update_self, ByteStream.arrive_nil hi]
      · refine .inr ⟨?_, hi, ?_⟩
        · simp [raises, List.take_of_length_le hk, hi]
        · simp only [Function.update_self, ByteStream.arrive_all hk]
  | @received p hp ha =>
    cases p with
    | server => cases hl
    | client => exact (ha (ByteStream.arrived_of_content h.empty)).elim
  | @sent p buffer hp =>
    cases p with
    | server => cases hl
    | client => cases (h.answering hp).1

lemma At.step (hm : message ≠ []) (h : At message conn x) (hlive : ∀ p, conn'.side p ≠ .stopped)
    (hl : byServer l = false)
    (hw : ∀ k, l = .arrive .server k → (conn.inbox .server).inFlight.length ≤ k)
    (hs : Connection.step message conn l = some conn') :
    At message conn' x ∧ raises conn l = false ∨
      At message conn' x.next ∧ x ≠ .unread ∧ raises conn l = decide (x = .toServer) := by
  cases x with
  | unwritten =>
    obtain ⟨hr, ht | ht⟩ := At.step_fresh hm h hlive hs
    · exact .inl ⟨ht, hr⟩
    · exact .inr ⟨ht, by decide, hr⟩
  | toPeer =>
    obtain ⟨hh, hi⟩ := h
    obtain ⟨hr, ⟨ht, -⟩ | ⟨-, hn⟩⟩ := At.step_client hm hh hlive hl hs
    · by_cases hn : (conn'.inbox .client).inFlight = []
      · exact .inr ⟨⟨ht, hn⟩, by decide, hr⟩
      · exact .inl ⟨⟨ht, hn⟩, hr⟩
    · exact (hi hn).elim
  | atPeer =>
    obtain ⟨hh, hi⟩ := h
    obtain ⟨hr, ⟨ht, hn⟩ | ⟨ht, -⟩⟩ := At.step_client hm hh hlive hl hs
    · exact .inl ⟨⟨ht, hn hi⟩, hr⟩
    · exact .inr ⟨ht, by decide, hr⟩
  | toServer =>
    obtain ⟨hh, hi⟩ := h
    obtain ⟨ht, ⟨hr, hn⟩ | ⟨hr, -, hn⟩⟩ := At.step_server hm hh hlive hl hw hs
    · exact .inl ⟨⟨ht, hn.trans hi⟩, hr⟩
    · rw [hi] at hn
      exact .inr ⟨⟨ht, hn⟩, by decide, hr⟩
  | unread =>
    obtain ⟨hh, hi⟩ := h
    obtain ⟨ht, ⟨hr, hn⟩ | ⟨-, hne, -⟩⟩ := At.step_server hm hh hlive hl hw hs
    · exact .inl ⟨⟨ht, hn.trans hi⟩, hr⟩
    · rw [hi] at hne
      exact (hne rfl).elim

structure Abstracts (message : List α) (fds : List Fd) (s : State α) (p : PingPong.State) :
    Prop where
  worker : p.worker = s.worker
  edges : p.edges = s.edges
  spot : ∀ fd ∈ fds, ∃ x, At message (s.conns fd) x ∧
    ∀ z, (spots p z).count fd = if z = x then 1 else 0
  other : ∀ fd, fd ∉ fds → s.conns fd = Connection.start ∧ ∀ z, (spots p z).count fd = 0

lemma At.phase (h : At message conn x) :
    Fresh conn ∨ (∃ p, Holds message conn p) ∨ ∃ p, Connection.Dead message conn p := by
  cases x with
  | unwritten => exact .inl h
  | _ => exact .inr (.inl ⟨_, h.1⟩)

lemma At.unread (hm : message ≠ []) (h : At message conn x) (hh : Holds message conn .server)
    (hread : ((conn.inbox .server).read message.length).length = message.length) :
    x = .unread := by
  cases x with
  | unread => rfl
  | unwritten => exact (hh.not_starting _ h.server).elim
  | toPeer | atPeer => cases hh.unique hm h.1
  | toServer =>
    rw [h.2, ByteStream.read, List.take_nil] at hread
    exact (hm (List.eq_nil_of_length_eq_zero hread.symm)).elim

lemma At.arrived (hm : message ≠ []) (h : At message conn x) :
    (conn.inbox .server).arrived = [] ↔ Spot.unread ≠ x := by
  cases x with
  | unwritten => simp [ByteStream.arrived_of_content (h.inbox .server)]
  | toPeer | atPeer =>
    have hnone : (conn.inbox .server).arrived = [] := ByteStream.arrived_of_content h.1.empty
    simp [hnone]
  | toServer | unread => simp [h.2, hm]

variable {s t : State α}

lemma Abstracts.moved (h : Abstracts message fds s p) (hfd : fd ∈ fds)
    (hx : ∀ z, (spots p z).count fd = if z = x then 1 else 0) (hy : At message conn y)
    (hw : q.worker = t.worker) (he : q.edges = t.edges)
    (hc : t.conns = Function.update s.conns fd conn) (hm : Moved p q fd x y) :
    Abstracts message fds t q := by
  have hsame {fd' : Fd} (hne : fd' ≠ fd) (z : Spot) :
      (spots q z).count fd' = (spots p z).count fd' := by simpa [hne] using hm z fd'
  refine ⟨hw, he, fun fd' hfd' => ?_, fun fd' hfd' => ?_⟩
  · by_cases hne : fd' = fd
    · subst hne
      refine ⟨y, by rwa [hc, Function.update_self], fun z => ?_⟩
      have hz := hm z fd'
      rw [hx z] at hz
      simp only [and_true] at hz
      omega
    · obtain ⟨x', hx', hz⟩ := h.spot fd' hfd'
      rw [hc, Function.update_of_ne hne]
      exact ⟨x', hx', fun z => (hsame hne z).trans (hz z)⟩
  · have hne : fd' ≠ fd := fun he => hfd' (he ▸ hfd)
    rw [hc, Function.update_of_ne hne]
    exact (h.other fd' hfd').imp_right fun hz z => (hsame hne z).trans (hz z)

lemma Abstracts.step_conn {l : Connection.Label} (hm : message ≠ [])
    (h : Abstracts message fds s p) (ho : PingPong.Owned fds p) (ht : Healthy t)
    (hw : Whole s (.conn fd l)) (hs : step message c fds s (.conn fd l) = some t) :
    ∃ ks q, Machine.run (PingPong.step c) p ks = some q ∧
      ks.filterMap PingPong.workerLabel = [] ∧ Abstracts message fds t q := by
  obtain ⟨hfd, hl, conn, hconn, rfl⟩ := Streams.step_conn hs
  obtain ⟨x, hx, hz⟩ := h.spot fd hfd
  have hlive (p : Peer) : conn.side p ≠ .stopped := by
    simpa only [Function.update_self] using ht.live fd p
  have hwhole (k : ℕ) (hk : l = .arrive .server k) :
      ((s.conns fd).inbox .server).inFlight.length ≤ k := by
    rw [hk] at hw
    exact hw
  obtain ⟨hy, hr⟩ | ⟨hy, hne, hr⟩ := hx.step hm hlive hl hwhole hconn
  · refine ⟨[], p, rfl, rfl, h.moved hfd hz hy h.worker ?_ rfl fun _ _ => rfl⟩
    simp only [hr]
    exact h.edges
  · have hmem : fd ∈ spots p x := List.count_pos_iff.mp (by simp [hz])
    obtain ⟨q, hq, hqw, hqe, hmoved⟩ := step_moving (c := c) hne hmem
    refine ⟨[moving fd x], q, Machine.run_step hq rfl, ?_,
      h.moved hfd hz hy (hqw.trans h.worker) ?_ rfl hmoved⟩
    · cases x <;> rfl
    · rw [hqe, h.edges]
      by_cases hserver : x = .toServer
      · have hu := ho.owner fd
        have hun : (spots p .unread).count fd = 0 := by rw [hz, hserver]; rfl
        have hout : fd ∉ s.edges := by
          rw [← h.edges, ← List.count_eq_zero]
          simp only [spots] at hun
          omega
        simp [hr, hserver, hout]
      · simp [hr, hserver]

def workerLabel : Label → Option Worker.Label
  | .worker l => some l
  | .conn _ _ => none

end NetworkPing.Streams
