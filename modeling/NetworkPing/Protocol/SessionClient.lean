import NetworkPing.Protocol.ConnectionEnd
import NetworkPing.Protocol.SessionWoken

namespace NetworkPing.Session

open Client (RSelector Backend Watch Refines dispatch)
open Connection (Peer Holds)
open Worker (held queued unpinged)

variable {α : Type*} {σ : Type} {S : RSelector σ} {k : Backend} {R : σ → Watch → Prop}
  {c : Config α} {s t : State α σ} {l : Label} {fd : Fd} {i : ℕ} {u v : Streams.State α}

structure Sound (c : Config α) (i : ℕ) (u : Streams.State α) : Prop where
  healthy : Streams.Healthy u
  woken : Streams.Woken c.message u
  mine : ∀ fd, fd ∈ u.edges ∨ fd ∈ held u.worker → fd ∈ c.shard i
  between : ∀ fd buffer, (u.conns fd).side .server ≠ .answering buffer
  size : u.worker.sel.size = c.sockCount.toNat

lemma step_size {c : Worker.Config} {w w' : Worker.State} {l : Worker.Label}
    (h : Worker.step c w l = some w') : w'.sel.size = w.sel.size := by
  cases Worker.step_moves h with
  | handled =>
    rcases Worker.handle_cases c _ _ _ with he | he <;> rw [he] <;> simp
  | _ => rfl

lemma between_step {message : List α} {conn conn' : Connection.State α} {l : Connection.Label}
    (hm : message ≠ []) (hl : Streams.byServer l = false)
    (h : Connection.step message conn l = some conn')
    (hb : ∀ buffer, conn.side .server ≠ .answering buffer) (buffer : List α) :
    conn'.side .server ≠ .answering buffer := by
  cases Connection.step_moves hm h with
  | unwritten | written => simp
  | arrived => exact hb buffer
  | @broken p | @received p | @partially p | @unsent p | @sent p =>
    cases p with
    | server => cases hl
    | client =>
      refine fun he => hb buffer ?_
      simpa [Connection.State.become, Connection.State.finish, Connection.State.sent,
        Connection.State.drained] using he

lemma held_step {w w' : Worker.State} {wc : Worker.Config} {l : Worker.Label}
    (hi : Worker.Idle w) (h : Worker.step wc w l = some w') (ht : w'.pc ≠ .returned)
    (hfd : fd ∈ held w') : fd ∈ held w ∨ fd ∈ Worker.gained l := by
  have hcount := Worker.step_held hi h ht fd
  have hpos := List.count_pos_iff.mpr hfd
  rw [← List.count_pos_iff, ← List.count_pos_iff]
  omega

lemma Sound.step {l : Streams.Label} (hs : Sound c i u) (h : streams c i u l = some v)
    (hv : Streams.Healthy v) : Sound c i v := by
  have hwoken := Streams.step_woken c.message_ne c.length hs.woken hs.healthy h hv
  cases l with
  | conn fd l =>
    obtain ⟨hfd, hl, conn, hconn, rfl⟩ := Streams.step_conn h
    refine ⟨hv, hwoken, fun fd' hfd' => ?_, fun fd' => ?_, hs.size⟩
    · rcases hfd' with he | hh
      · split_ifs at he
        · rcases List.mem_append.mp he with he | he
          · exact hs.mine fd' (.inl he)
          · rwa [List.mem_singleton.mp he]
        · exact hs.mine fd' (.inl he)
      · exact hs.mine fd' (.inr hh)
    · by_cases he : fd' = fd
      · subst he
        simpa only [Function.update_self] using
          between_step c.message_ne hl hconn (hs.between fd')
      · simpa only [Function.update_of_ne he] using hs.between fd'
  | worker l =>
    rcases Streams.released_cases l with hl | ⟨fd, bc, wc, now, rfl⟩
    · obtain ⟨hw, hconns, hedges⟩ := Streams.workerStep_spec h hl
      refine ⟨hv, hwoken, fun fd hfd => ?_, hconns ▸ hs.between, (step_size hw).trans hs.size⟩
      have hcount := hedges fd
      rcases hfd with he | hh
      · apply hs.mine fd
        simp only [← List.count_pos_iff] at he ⊢
        omega
      · apply hs.mine fd
        have hheld := held_step hs.woken.idle hw hv.running hh
        simp only [← List.count_pos_iff] at hheld ⊢
        omega
    · obtain ⟨-, -, hread, hw, hedges, conn, hconn, hconns⟩ :=
        Streams.workerStep_ping c.length h hv.running
      refine ⟨hv, hwoken, fun fd' hfd' => ?_, fun fd' => ?_, (step_size hw).trans hs.size⟩
      · rw [hedges] at hfd'
        exact hs.mine fd' (hfd'.imp_right fun hh =>
          (held_step hs.woken.idle hw hv.running hh).resolve_right (by simp [Worker.gained]))
      · rw [hconns]
        by_cases he : fd' = fd
        · subst he
          obtain ⟨-, -, -, hside, -⟩ := Streams.calls_whole c.message_ne (hs.woken.inv fd').phase
            (hs.healthy.live fd' _) hread hconn
          simp [hside]
        · simpa only [Function.update_of_ne he] using hs.between fd'

lemma shard_eq (hi : i < c.shards.length) : c.shard i = c.shards[i] := by
  simp [Config.shard, hi]

lemma owner_shard (hfd : fd ∈ c.sockets) :
    c.owner fd < c.shards.length ∧ fd ∈ c.shard (c.owner fd) := by
  obtain ⟨fds, hfds, hmem⟩ := List.mem_flatten.mp (c.shared.mem_iff.mp hfd)
  have hlt : c.owner fd < c.shards.length :=
    List.findIdx_lt_length_of_exists ⟨fds, hfds, by simpa using hmem⟩
  refine ⟨hlt, ?_⟩
  rw [shard_eq hlt]
  exact of_decide_eq_true (List.findIdx_getElem (w := hlt))

lemma owner_eq (hi : i < c.shards.length) (hfd : fd ∈ c.shard i) :
    fd ∈ c.sockets ∧ c.owner fd = i := by
  rw [shard_eq hi] at hfd
  have hmem : fd ∈ c.sockets :=
    c.shared.mem_iff.mpr (List.mem_flatten.mpr ⟨_, List.getElem_mem hi, hfd⟩)
  obtain ⟨hlt, howner⟩ := owner_shard hmem
  rw [shard_eq hlt] at howner
  have hdisjoint := (List.nodup_flatten.mp (c.shared.nodup_iff.mp c.distinct)).2
  rw [List.pairwise_iff_getElem] at hdisjoint
  refine ⟨hmem, ?_⟩
  by_contra hne
  rcases Nat.lt_or_gt_of_ne hne with h | h
  · exact hdisjoint _ _ hlt hi h howner hfd
  · exact hdisjoint _ _ hi hlt h hfd howner

structure Good (R : σ → Watch → Prop) (c : Config α) (s : State α σ)
    (w : Client.State Watch) : Prop where
  woken : Woken R c s w
  sound : ∀ i < c.shards.length, Sound c i (s.server i)
  running : ∀ code, w.pc ≠ .returned code
  quiet : ∀ e ∈ w.sel.pending, dispatch e.2 = none

variable {w : Client.State Watch}

lemma Good.live (hg : Good R c s w) (hfd : fd ∈ c.sockets) (p : Peer) :
    (s.conn c fd).side p ≠ .stopped :=
  (hg.sound _ (owner_shard hfd).1).healthy.live fd p

lemma Good.waiting (hg : Good R c s w) (hfd : fd ∈ c.sockets) :
    (s.conn c fd).side .client = .waiting ∧ fd ∈ w.sel.live ++ w.pc.toAdd := by
  have hside := hg.woken.sides fd hfd
  have hkept : fd ∉ w.log.removed := by
    intro hr
    rw [if_pos hr] at hside
    exact hg.live hfd .client hside
  rw [if_neg hkept] at hside
  have hmem := (hg.woken.inv.open hg.running).sockets.mem_iff.mpr hfd
  exact ⟨hside, (List.mem_append.mp hmem).resolve_left hkept⟩

structure Calm (S : RSelector σ) (k : Backend) (c : Config α) (s t : State α σ) : Prop where
  reaches : Machine.Reaches (step S k c) s t
  workers : ∀ i, (t.server i).worker = (s.server i).worker

lemma Calm.refl (s : State α σ) : Calm S k c s s := ⟨.refl s, fun _ => rfl⟩

lemma Calm.trans {r : State α σ} (h : Calm S k c s t) (h' : Calm S k c t r) : Calm S k c s r :=
  ⟨h.reaches.trans h'.reaches, fun i => (h'.workers i).trans (h.workers i)⟩

lemma calm_of_step {client : Client.State σ} {edges : List Fd}
    (h : step S k c s l = some ⟨Function.update s.server i v, client, edges⟩)
    (hw : v.worker = (s.server i).worker) :
    Calm S k c s ⟨Function.update s.server i v, client, edges⟩ := by
  refine ⟨.head h (.refl _), fun j => ?_⟩
  by_cases he : j = i
  · subst he
    simpa only [Function.update_self] using hw
  · simp only [Function.update_of_ne he]

lemma sound_update {server : ℕ → Streams.State α} (hs : ∀ j < c.shards.length, Sound c j (server j))
    (hv : Sound c i v) :
    ∀ j < c.shards.length, Sound c j (Function.update server i v j) := by
  intro j hj
  by_cases he : j = i
  · subst he
    simpa only [Function.update_self] using hv
  · simpa only [Function.update_of_ne he] using hs j hj

lemma healthy_of_conn (hu : Streams.Healthy u) (hv : v.worker.pc ≠ .returned)
    (hself : ∀ p, (v.conns fd).side p ≠ .stopped) (hother : ∀ fd' ≠ fd, v.conns fd' = u.conns fd') :
    Streams.Healthy v := by
  refine ⟨hv, fun fd' p => ?_⟩
  by_cases he : fd' = fd
  · exact he ▸ hself p
  · rw [hother fd' he]
    exact hu.live fd' p

lemma Good.served (hg : Good R c s w) {l : Streams.Label} (hi : i < c.shards.length)
    (hl : byClient l = false) (h : streams c i (s.server i) l = some v)
    (hv : Streams.Healthy v) : Good R c
      { s with server := Function.update s.server i v, edges := raise s i l } w where
  woken := hg.woken.served hl h
  sound := sound_update hg.sound ((hg.sound i hi).step h hv)
  running := hg.running
  quiet := hg.quiet

lemma conn_streams {l : Connection.Label} {conn : Connection.State α} (hmem : fd ∈ c.shard i)
    (hl : Streams.byServer l = false)
    (h : Connection.step c.message (u.conns fd) l = some conn) :
    ∃ v, streams c i u (.conn fd l) = some v ∧ v.worker = u.worker ∧
      v.conns = Function.update u.conns fd conn := by
  obtain ⟨v, hv⟩ : ∃ v, streams c i u (.conn fd l) = some v := by
    rw [streams, Streams.step, if_pos ⟨hmem, hl⟩, Streams.connStep, h]
    exact ⟨_, rfl⟩
  obtain ⟨-, -, conn', hconn, rfl⟩ := Streams.step_conn hv
  cases Option.some.inj (h.symm.trans hconn)
  exact ⟨_, hv, rfl, rfl⟩

lemma Good.conn_step (hg : Good R c s w) (hfd : fd ∈ c.sockets) {l : Connection.Label}
    {conn : Connection.State α} (hl : Streams.byServer l = false) (hc : ofClient l = false)
    (h : Connection.step c.message (s.conn c fd) l = some conn)
    (hlive : ∀ p, conn.side p ≠ .stopped) : ∃ t, Calm S k c s t ∧ Good R c t w ∧
      t.client = s.client ∧ t.conn c fd = conn ∧ ∀ fd' ≠ fd, t.conn c fd' = s.conn c fd' := by
  obtain ⟨hlt, hmem⟩ := owner_shard hfd
  have hsound := hg.sound _ hlt
  obtain ⟨v, hstep, hworker, hconns⟩ := conn_streams hmem hl h
  have hself : v.conns fd = conn := by rw [hconns, Function.update_self]
  have hother (fd' : Fd) (hfd' : fd' ≠ fd) :
      v.conns fd' = (s.server (c.owner fd)).conns fd' := by
    rw [hconns, Function.update_of_ne hfd']
  have hv : Streams.Healthy v := healthy_of_conn hsound.healthy
    (hworker ▸ hsound.healthy.running) (hself ▸ hlive) hother
  have hclient : byClient (.conn fd l) = false := hc
  exact ⟨_, calm_of_step (Moves.step (.served hlt hclient hstep)) hworker,
    hg.served hlt hclient hstep hv, rfl, conn_self.trans hself,
    fun fd' hfd' => conn_other (hother fd' hfd')⟩

lemma Good.phase (hg : Good R c s w) (hfd : fd ∈ c.sockets) :
    Connection.Fresh (s.conn c fd) ∨
      ∃ p, Holds c.message (s.conn c fd) p ∧ (s.conn c fd).side p = .waiting := by
  rcases (hg.woken.conns (c.owner fd) fd).phase with hf | ⟨p, hp⟩ | ⟨p, hp⟩
  · exact .inl hf
  · refine .inr ⟨p, hp, ?_⟩
    rcases hp.holds with ⟨hw, -⟩ | ⟨hw, -⟩
    · exact hw
    · cases p with
      | server => exact ((hg.sound _ (owner_shard hfd).1).between fd _ hw).elim
      | client => exact (hg.waiting hfd).1
  · exact (hg.live hfd p hp.stopped).elim

lemma Good.arrive (hg : Good R c s w) (hfd : fd ∈ c.sockets) {p : Peer}
    (hh : Holds c.message (s.conn c fd) p) (hw : (s.conn c fd).side p = .waiting) :
    ∃ t, Calm S k c s t ∧ Good R c t w ∧ t.client = s.client ∧
      Holds c.message (t.conn c fd) p ∧ (t.conn c fd).side p = .waiting ∧
      ((t.conn c fd).inbox p).arrived = c.message ∧ ∀ fd' ≠ fd, t.conn c fd' = s.conn c fd' := by
  obtain ⟨conn, hl, hconn, hside, -, ha⟩ := hh.arrives hw
  obtain ⟨t, hc, hgt, hclient, rfl, hother⟩ :=
    hg.conn_step (S := S) (k := k) hfd rfl rfl hl fun q => hside ▸ hg.live hfd q
  exact ⟨t, hc, hgt, hclient, hconn, hside ▸ hw, ha, hother⟩

lemma exchanged {message : List α} {conn : Connection.State α} {p : Peer} (hm : message ≠ [])
    (h : Holds message conn p) (hw : conn.side p = .waiting) (ho : conn.side p.other = .waiting)
    (ha : (conn.inbox p).arrived = message) : ∃ conn', Machine.run (Connection.step message) conn
        [.recv p true, .send p message.length] = some conn' ∧ Holds message conn' p.other ∧
      conn'.side p = .waiting ∧
      conn'.answered = Function.update conn.answered p (conn.answered p ++ [message]) := by
  have hread : (conn.inbox p).read message.length = message := by
    rw [ByteStream.read, ha, List.take_length]
  have hlen := congrArg List.length hread
  have hrecv := (Connection.Moves.received hw (by rwa [ha]) hlen).step hm
  have hv := h.received hw hlen
  rw [hread] at hrecv hv
  have hside := Connection.become_side (conn.drained p message.length) p (.answering message)
  have hsend := (Connection.Moves.sent hside).step hm
  refine ⟨_, Machine.run_step hrecv (Machine.run_step hsend rfl), hv.sent hside ?_, ?_, ?_⟩
  · simpa using ho
  · simp
  · simp

lemma calls_whole {n : ℕ} (hn : 0 < n) (p : Peer) :
    Connection.calls p n n n = [.recv p true, .send p n] := by
  rw [Connection.calls, if_neg (by omega), if_neg (by omega)]

lemma Sound.run {ls : List Streams.Label} (hs : Sound c i u)
    (h : Machine.run (streams c i) u ls = some v) (hv : Streams.Healthy v) : Sound c i v := by
  refine Machine.run_invariant (fun u => Streams.Healthy u → Sound c i u) ?_ (fun _ => hs) h hv
  intro u l v hu hl hv
  exact (hu (Streams.step_healthy c.message_ne c.length hl hv)).step hl hv

lemma conns_streams {ls : List Connection.Label} {conn : Connection.State α}
    (hmem : fd ∈ c.shard i) (hl : ∀ l ∈ ls, ofClient l = true)
    (h : Machine.run (Connection.step c.message) (u.conns fd) ls = some conn) :
    ∃ v, Machine.run (streams c i) u (ls.map (.conn fd)) = some v ∧ v.conns fd = conn := by
  induction ls generalizing u with
  | nil => exact ⟨u, rfl, Option.some.inj h⟩
  | cons l ls ih =>
    obtain ⟨x, hx, h⟩ := Machine.run_cons_some.mp h
    obtain ⟨hc, hls⟩ := List.forall_mem_cons.mp hl
    have hserver : Streams.byServer l = false := by
      cases l with
      | recv p | send p =>
        cases p with
        | server => cases hc
        | client => rfl
      | _ => rfl
    obtain ⟨y, hy, -, hconns⟩ := conn_streams hmem hserver hx
    have hself : y.conns fd = x := by rw [hconns, Function.update_self]
    obtain ⟨v, hv, hconn⟩ := ih hls (hself ▸ h)
    exact ⟨v, Machine.run_step hy hv, hconn⟩

lemma Good.holds_client (hg : Good R c s w) (hfd : fd ∈ c.sockets)
    (ha : ((s.conn c fd).inbox .client).arrived ≠ []) : Holds c.message (s.conn c fd) .client := by
  rcases hg.phase hfd with hf | ⟨p, hp, -⟩
  · exact (ha (ByteStream.arrived_of_content (hf.inbox _))).elim
  · cases p with
    | server => exact (ha (ByteStream.arrived_of_content hp.empty)).elim
    | client => exact hp

lemma message_pos (c : Config α) : 0 < c.message.length := List.length_pos_iff.mpr c.message_ne

lemma exchange_whole (c : Config α) (p : Peer) :
    Connection.exchange p c.message.length c.message.length c.message.length = true := by
  have hpos := message_pos c
  rw [Connection.exchange_eq]
  simpa using hpos

lemma Good.serve (hS : Refines S k R) (hg : Good R c s w) {ev : UInt32} {es : Client.Batch}
    (hpc : w.pc = .events) (hp : w.sel.pending = (fd, ev) :: es) : ∃ t w', Calm S k c s t ∧
      Good R c t w' ∧ w'.pc = .events ∧ w'.sel.pending = es ∧
      Holds c.message (t.conn c fd) .server ∧ ∀ fd' ≠ fd, t.conn c fd' = s.conn c fd' := by
  have hmem : (fd, ev) ∈ w.sel.pending := hp ▸ List.mem_cons_self
  have hopen := hg.woken.inv.open hg.running
  have hfd := (not_removed hopen (List.mem_append_left _ (hopen.watched _ hmem))).1
  have hd : dispatch ev = none := hg.quiet _ hmem
  have hbytes := ((hg.woken.ready _ hmem).2 hd).resolve_right (hg.live hfd .server)
  have hh := hg.holds_client hfd hbytes
  obtain ⟨s₁, hcalm, hg, hclient, hh, hside, ha, hother⟩ :=
    hg.arrive (S := S) (k := k) hfd hh (hg.waiting hfd).1
  obtain ⟨hlt, hshard⟩ := owner_shard hfd
  have hcalls : calls c.message.length ev c.message.length c.message.length =
      [.recv .client true, .send .client c.message.length] := by
    rw [calls, hd]
    exact calls_whole (message_pos c) .client
  have hserver : (s₁.conn c fd).side .server = .waiting :=
    hh.other.resolve_right (hg.live hfd .server)
  obtain ⟨conn, hrun, hholds, hwaits, -⟩ := exchanged c.message_ne hh hside hserver ha
  rw [← hcalls] at hrun
  obtain ⟨u, hu, hconn⟩ := conns_streams hshard calls_client hrun
  have hread : dispatch ev = none → (c.message.length : ℤ) ≤ 0 ∨ (c.message.length : ℤ) =
      (((s₁.conn c fd).inbox .client).read c.message.length).length := by
    intro _
    rw [ByteStream.read, ha, List.take_length]
    exact .inr rfl
  have hsame := hg.woken.same
  obtain ⟨hnext, -⟩ := hS.next hsame.sel
  have hnext : S.next s₁.client.sel = (some (fd, ev), (S.next s₁.client.sel).2) := by
    rw [Watch.next, hp] at hnext
    exact Prod.ext hnext rfl
  have hloop : Client.step S s₁.client (.next fd ev
      (processMessage c.message.length c.message.length c.message.length)) = some _ :=
    (Client.Moves.handled (hsame.pc.trans hpc) hnext).step
  obtain ⟨w', hw', hwoken⟩ := hg.woken.handled hS hread hloop hu
  obtain ⟨hworker, -, -, hconns⟩ := run_conn calls_client hu
  have hv : Streams.Healthy u := by
    refine healthy_of_conn (hg.sound _ hlt).healthy
      (hworker ▸ (hg.sound _ hlt).healthy.running) (fun p => ?_) hconns
    rw [hconn]
    cases p with
    | server => exact hholds.not_stopped
    | client => simp [hwaits]
  have hafter : w'.pc = .events ∧ w'.sel.pending = es := by
    cases Client.step_moves hw' with
    | handled hpc he =>
      obtain ⟨es', hp', rfl⟩ := Watch.next_some he
      rw [hp] at hp'
      cases hp'
      rw [Client.handle_pending, Client.handle]
      split_ifs <;> exact ⟨hpc, rfl⟩
  have hcalm' := calm_of_step (k := k) (Moves.step (.handled hread hloop hu)) hworker
  refine ⟨_, w', hcalm.trans hcalm', ⟨hwoken, ?_, by simp [hafter.1], ?_⟩, hafter.1, hafter.2, ?_,
    fun fd' hfd' => (conn_other (hconns fd' hfd')).trans (hother fd' hfd')⟩
  · exact sound_update hg.sound ((hg.sound _ hlt).run hu hv)
  · rw [hafter.2]
    exact fun e he => hg.quiet e (hp ▸ List.mem_cons_of_mem _ he)
  · rw [conn_self, hconn]
    exact hholds

lemma Good.loop (hS : Refines S k R) (hg : Good R c s w) {l : Client.Label} {x : Client.State σ}
    (hl : ∀ fd events answer, l ≠ .next fd events answer) (hb : ∀ events, l ≠ .wait (.batch events))
    (h : Client.step S s.client l = some x)
    (hw : ∀ w', Client.Moves (Client.watchSelector k) w l w' →
      (∀ code, w'.pc ≠ .returned code) ∧ w'.sel.pending ⊆ w.sel.pending) :
    ∃ w', Client.Moves (Client.watchSelector k) w l w' ∧ Calm S k c s { s with client := x } ∧
      Good R c { s with client := x } w' := by
  obtain ⟨w', hstep, hwoken⟩ := hg.woken.looped hS hl hb h
  have hmoves := Client.step_moves hstep
  obtain ⟨hrunning, hpending⟩ := hw w' hmoves
  exact ⟨w', hmoves, ⟨.head (Moves.step (.looped hl hb h)) (.refl _), fun _ => rfl⟩,
    hwoken, hg.sound, hrunning, fun e he => hg.quiet e (hpending he)⟩

lemma Good.drain (hS : Refines S k R) (hg : Good R c s w) (hpc : w.pc = .events) : ∃ t w',
    Calm S k c s t ∧ Good R c t w' ∧ w'.pc = .head ∧
      (∀ fd, t.conn c fd = s.conn c fd ∨ Holds c.message (t.conn c fd) .server) ∧
      ∀ e ∈ w.sel.pending, Holds c.message (t.conn c e.1) .server := by
  induction hp : w.sel.pending generalizing s w with
  | nil =>
    have hsame := hg.woken.same
    obtain ⟨hnext, -⟩ := hS.next hsame.sel
    have hnext : S.next s.client.sel = (none, (S.next s.client.sel).2) := by
      rw [Watch.next, hp] at hnext
      exact Prod.ext hnext rfl
    have hloop := (Client.Moves.exhausted (hsame.pc.trans hpc) hnext).step
    obtain ⟨w', hm, hcalm, hg'⟩ := hg.loop hS (by simp) (by simp) hloop fun w' hm => by
      cases hm with
      | exhausted _ he =>
        obtain ⟨-, rfl⟩ := Watch.next_none he
        exact ⟨by simp, List.Subset.refl _⟩
    refine ⟨_, w', hcalm, hg', ?_, fun fd => .inl rfl, by simp⟩
    cases hm with
    | exhausted => rfl
  | cons e es ih =>
    obtain ⟨s₁, w₁, hcalm, hg₁, hpc₁, hp₁, hserved, hother⟩ := hg.serve hS hpc hp
    obtain ⟨t, w', hcalm', hg', hhead, hconns, hes⟩ := ih hg₁ hpc₁ hp₁
    have hfirst : Holds c.message (t.conn c e.1) .server := by
      rcases hconns e.1 with he | he
      · exact he ▸ hserved
      · exact he
    refine ⟨t, w', hcalm.trans hcalm', hg', hhead, fun fd => ?_, ?_⟩
    · by_cases hfd : fd = e.1
      · exact .inr (hfd ▸ hfirst)
      · rw [← hother fd hfd]
        exact hconns fd
    · exact List.forall_mem_cons.mpr ⟨hfirst, hes⟩

lemma Good.register (hS : Refines S k R) (hg : Good R c s w) {rest : List Fd}
    (hpc : w.pc = .adding rest) : ∃ t w', Calm S k c s t ∧ Good R c t w' ∧ w'.pc = .head ∧
      t.server = s.server := by
  induction rest generalizing s w with
  | nil =>
    have hsame := hg.woken.same
    have hloop := (Client.Moves.prepared (S := S) (hsame.pc.trans hpc)).step
    obtain ⟨w', hm, hcalm, hg'⟩ := hg.loop hS (by simp) (by simp) hloop fun w' hm => by
      cases hm with
      | prepared => exact ⟨by simp, List.Subset.refl _⟩
    refine ⟨_, w', hcalm, hg', ?_, rfl⟩
    cases hm with
    | prepared => rfl
  | cons fd rest ih =>
    have hsame := hg.woken.same
    have hopen := hg.woken.inv.open hg.running
    have hroom : 0 < w.sel.room := by
      rw [hopen.room, hpc]
      exact Nat.succ_pos _
    have hadd : (w.sel.addFd k fd true).isSome := Watch.addFd_isSome k hroom fd
    obtain ⟨sel, hsel⟩ : ∃ sel, S.addFd s.client.sel fd true = some sel := by
      cases ha : S.addFd s.client.sel fd true with
      | some sel => exact ⟨sel, rfl⟩
      | none =>
        have hnext : fd ∈ w.pc.toAdd := by
          rw [hpc]
          exact List.mem_cons_self
        have hnonneg := hopen.nonneg c.valid hnext
        rw [hS.refused hsame.sel hnonneg ha] at hadd
        cases hadd
    have hloop := (Client.Moves.added (hsame.pc.trans hpc) hsel).step
    obtain ⟨w₁, hm, hcalm, hg₁⟩ := hg.loop hS (by simp) (by simp) hloop fun w' hm => by
      cases hm with
      | added _ ha =>
        obtain rfl := Watch.addFd_some ha
        exact ⟨by simp, List.Subset.refl _⟩
      | refused hpc' ha =>
        rw [hpc] at hpc'
        cases hpc'
        have ha : w.sel.addFd k fd true = none := ha
        rw [ha] at hadd
        cases hadd
    have hpc₁ : w₁.pc = .adding rest := by
      cases hm with
      | added hpc' =>
        rw [hpc] at hpc'
        cases hpc'
        rfl
      | refused hpc' => exact (hg₁.running 1 rfl).elim
    obtain ⟨t, w', hcalm', hg', hhead, hserver⟩ := ih hg₁ hpc₁
    exact ⟨t, w', hcalm.trans hcalm', hg', hhead, hserver⟩

lemma Good.to_head (hS : Refines S k R) (hg : Good R c s w) : ∃ t w', Calm S k c s t ∧
    Good R c t w' ∧ w'.pc = .head ∧
      ∀ fd, t.conn c fd = s.conn c fd ∨ Holds c.message (t.conn c fd) .server := by
  cases hpc : w.pc with
  | adding rest =>
    obtain ⟨t, w', hcalm, hg', hhead, hserver⟩ := hg.register hS hpc
    exact ⟨t, w', hcalm, hg', hhead, fun fd => .inl (by rw [State.conn, hserver]; rfl)⟩
  | head => exact ⟨s, w, .refl s, hg, hpc, fun fd => .inl rfl⟩
  | events =>
    obtain ⟨t, w', hcalm, hg', hhead, hconns, -⟩ := hg.drain hS hpc
    exact ⟨t, w', hcalm, hg', hhead, hconns⟩
  | returned code => exact (hg.running code hpc).elim

lemma Good.wake (hS : Refines S k R) (hg : Good R c s w) (hpc : w.pc = .head)
    (hfd : fd ∈ c.sockets) (ha : ((s.conn c fd).inbox .client).arrived ≠ []) : ∃ t w',
      Calm S k c s t ∧ Good R c t w' ∧ w'.pc = .events ∧ t.server = s.server ∧
      (fd, Client.POLLIN) ∈ w'.sel.pending := by
  have hsame := hg.woken.same
  have hopen := hg.woken.inv.open hg.running
  have hlive : fd ∈ w.sel.live := by
    have hmem := (hg.waiting hfd).2
    simpa [hpc, Client.Pc.toAdd] using hmem
  have hedge : fd ∈ s.edges := by
    refine (hg.woken.told fd (hg.waiting hfd).2 ha).resolve_right ?_
    rw [hg.woken.idle (by simp [hpc])]
    exact List.not_mem_nil
  have hleft : 0 < s.client.fdLeft := by
    have := List.length_pos_of_mem hlive
    rw [hsame.fdLeft, hopen.fdLeft]
    omega
  have hadm : Client.Admissible (S.live s.client.sel) (.batch [(fd, Client.POLLIN)]) := by
    rw [hS.live hsame.sel]
    exact ⟨by simp, by simpa using hlive⟩
  have hreports : Reports k c s [(fd, Client.POLLIN)] := by
    rw [Reports, List.forall_mem_singleton]
    refine ⟨by simp [Client.POLLIN], fun _ => ?_⟩
    simp [readable, hedge, ha]
  obtain ⟨x, hx⟩ : ∃ x, S.wait s.client.sel (.batch [(fd, Client.POLLIN)]) = .ready x := by
    have hrel := hS.wait hsame.sel (.batch [(fd, Client.POLLIN)])
    generalize S.wait s.client.sel (.batch [(fd, Client.POLLIN)]) = y at hrel
    cases hrel with
    | ready => exact ⟨_, rfl⟩
  have hloop := (Client.Moves.waited (hsame.pc.trans hpc) hleft hadm hx).step
  obtain ⟨w', hw', hwoken⟩ := hg.woken.waited hS hreports hloop
  refine ⟨_, w', ⟨.head (Moves.step (.waited hreports hloop)) (.refl _), fun _ => rfl⟩, ?_⟩
  cases Client.step_moves hw' with
  | failed _ _ _ hwait => cases hwait
  | again _ _ _ hwait => cases hwait
  | waited _ _ ho hwait =>
    cases hwait
    refine ⟨⟨hwoken, hg.sound, by simp, fun e he => ?_⟩, rfl, rfl, ?_⟩
    · rw [List.mem_singleton.mp (Client.arrange_mem he)]
      show dispatch Client.POLLIN = none
      decide
    · exact Client.arrange_ready ho List.mem_cons_self (by simp [Client.POLLIN])

lemma Good.bring (hS : Refines S k R) (hg : Good R c s w) (hfd : fd ∈ c.sockets) : ∃ t w',
    Calm S k c s t ∧ Good R c t w' ∧ Holds c.message (t.conn c fd) .server ∧
      (t.conn c fd).side .server = .waiting ∧
      ((t.conn c fd).inbox .server).arrived = c.message := by
  -- from the server's side of the network
  have finish {s : State α σ} {w : Client.State Watch} (hg : Good R c s w)
      (hh : Holds c.message (s.conn c fd) .server) : ∃ t w', Calm S k c s t ∧ Good R c t w' ∧
        Holds c.message (t.conn c fd) .server ∧ (t.conn c fd).side .server = .waiting ∧
        ((t.conn c fd).inbox .server).arrived = c.message := by
    rcases hg.phase hfd with hf | ⟨p, hp, hside⟩
    · exact (hh.not_starting .server hf.server).elim
    · obtain rfl := hp.unique c.message_ne hh
      obtain ⟨t, hcalm, hg', -, hh', hside', ha, -⟩ := hg.arrive hfd hh hside
      exact ⟨t, w, hcalm, hg', hh', hside', ha⟩
  -- from the client's side of it
  have answer {s : State α σ} {w : Client.State Watch} (hg : Good R c s w)
      (hh : Holds c.message (s.conn c fd) .client) : ∃ t w', Calm S k c s t ∧ Good R c t w' ∧
        Holds c.message (t.conn c fd) .server ∧ (t.conn c fd).side .server = .waiting ∧
        ((t.conn c fd).inbox .server).arrived = c.message := by
    obtain ⟨s₁, w₁, hcalm₁, hg₁, hhead, hconns⟩ := hg.to_head hS
    rcases hconns fd with he | he
    · obtain ⟨s₂, hcalm₂, hg₂, hclient, hh₂, hside, ha, -⟩ :=
        hg₁.arrive (S := S) (k := k) hfd (he ▸ hh) (hg₁.waiting hfd).1
      have hne : ((s₂.conn c fd).inbox .client).arrived ≠ [] := by
        rw [ha]
        exact c.message_ne
      obtain ⟨s₃, w₃, hcalm₃, hg₃, hevents, hserver, hmem⟩ := hg₂.wake hS hhead hfd hne
      obtain ⟨s₄, w₄, hcalm₄, hg₄, -, -, hserved⟩ := hg₃.drain hS hevents
      obtain ⟨t, w', hcalm, hg', hall⟩ := finish hg₄ (hserved _ hmem)
      exact ⟨t, w', hcalm₁.trans (hcalm₂.trans (hcalm₃.trans (hcalm₄.trans hcalm))), hg', hall⟩
    · obtain ⟨t, w', hcalm, hg', hall⟩ := finish hg₁ he
      exact ⟨t, w', hcalm₁.trans hcalm, hg', hall⟩
  rcases hg.phase hfd with hf | ⟨p, hp, -⟩
  · obtain ⟨hwritten, hsides⟩ : Holds c.message _ .client ∧ _ := hf.written
    have hwrite := (Connection.Moves.written hf.server).step c.message_ne
    obtain ⟨s₁, hcalm, hg₁, -, hconn, -⟩ := hg.conn_step (S := S) (k := k) hfd rfl rfl hwrite
      fun p => by simp [hsides]
    obtain ⟨t, w', hcalm', hg', hall⟩ := answer hg₁ (hconn ▸ hwritten)
    exact ⟨t, w', hcalm.trans hcalm', hg', hall⟩
  · cases p with
    | server => exact finish hg hp
    | client => exact answer hg hp

end NetworkPing.Session
