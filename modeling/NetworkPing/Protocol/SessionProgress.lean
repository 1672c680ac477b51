import NetworkPing.Protocol.SessionClient
import NetworkPing.Server.WorkerStop

namespace NetworkPing.Session

open Client (RSelector Watch Backend Refines dispatch)
open Connection (Holds)
open Worker (held queued unpinged)

variable {α : Type*} {σ : Type} {S : RSelector σ} {k : Backend} {R : σ → Watch → Prop}
  {c : Config α} {s t : State α σ} {fd : Fd} {i : ℕ} {u v : Streams.State α}
  {w : Client.State Watch}

def count (c : Config α) (s : State α σ) (fd : Fd) : ℕ := ((s.conn c fd).answered .server).length

lemma answered_mono {message : List α} {conn conn' : Connection.State α}
    {ls : List Connection.Label} (hm : message ≠ [])
    (h : Machine.run (Connection.step message) conn ls = some conn') :
    (conn.answered .server).length ≤ (conn'.answered .server).length := by
  refine Machine.run_invariant (fun v : Connection.State α =>
    (conn.answered .server).length ≤ (v.answered .server).length) ?_ le_rfl h
  intro u l v hle hl
  cases Connection.step_moves hm hl with
  | @sent p buffer =>
    refine hle.trans ?_
    cases p <;> simp [Function.update]
  | _ => exact hle

lemma count_mono (h : Machine.Reaches (step S k c) s t) (fd : Fd) :
    count c s fd ≤ count c t fd := by
  obtain ⟨ls, hr⟩ := h
  refine Machine.run_invariant (fun v : State α σ => count c s fd ≤ count c v fd) ?_ le_rfl hr
  intro u l v hle hl
  refine hle.trans ?_
  refine Machine.run_invariant (fun x : Streams.State α =>
    count c u fd ≤ ((x.conns fd).answered .server).length) ?_ le_rfl (step_server hl (c.owner fd))
  intro x l y hxy hl
  exact hxy.trans (answered_mono c.message_ne (streams_conn hl fd))

lemma Good.worker_step (hg : Good R c s w) (hi : i < c.shards.length) {l : Worker.Label}
    (h : streams c i (s.server i) (.worker l) = some v) (hconns : v.conns = (s.server i).conns)
    (hv : v.worker.pc ≠ .returned) : ∃ t, Machine.Reaches (step S k c) s t ∧ Good R c t w ∧
      t.server i = v := by
  have hhealthy : Streams.Healthy v := ⟨hv, hconns ▸ (hg.sound i hi).healthy.live⟩
  exact ⟨_, .head (Moves.step (.served hi rfl h)) (.refl _), hg.served hi rfl h hhealthy,
    Function.update_self ..⟩

lemma Good.work (hg : Good R c s w) (hi : i < c.shards.length) {l : Worker.Label}
    {x : Worker.State} (hl : Worker.released l = []) (hb : ∀ batch now, l ≠ .wait (some batch) now)
    (h : Worker.Moves c.worker (s.server i).worker l x) (hx : x.pc ≠ .returned) :
    ∃ t, Machine.Reaches (step S k c) s t ∧ Good R c t w ∧ (t.server i).worker = x := by
  have hstep : streams c i (s.server i) (.worker l) = some { s.server i with worker := x } := by
    have hstep := h.step
    rw [streams, Streams.step, Streams.workerStep.eq_def]
    split
    next batch now => exact (hb batch now rfl).elim
    next => cases hl
    next => rw [hstep, Option.map_some]
  obtain ⟨t, hr, hgt, ht⟩ := hg.worker_step hi hstep rfl hx
  exact ⟨t, hr, hgt, by rw [ht]⟩

lemma ping_streams {x : Worker.State} {conn : Connection.State α}
    (ha : ((u.conns fd).inbox .server).arrived = c.message)
    (hr : Machine.run (Connection.step c.message) (u.conns fd)
      [.recv .server true, .send .server c.message.length] = some conn)
    (hx : Worker.step c.worker u.worker (.ping fd c.message.length c.message.length 0) = some x) :
    streams c i u (.worker (.ping fd c.message.length c.message.length 0)) =
      some { u with worker := x, conns := Function.update u.conns fd conn } := by
  have hread : (c.message.length : ℤ) =
      (((u.conns fd).inbox .server).read c.message.length).length := by
    rw [ByteStream.read, ha, List.take_length]
  rw [streams, Streams.step, Streams.workerStep, if_pos (.inr hread),
    calls_whole (message_pos c) .server, hr, Option.bind_some, hx, Option.map_some]

lemma Good.ping (hS : Refines S k R) (hg : Good R c s w) (hi : i < c.shards.length)
    {rest : List Fd} (hpc : (s.server i).worker.pc = .pinging fd rest) : ∃ t w',
      Machine.Reaches (step S k c) s t ∧ Good R c t w' ∧ (t.server i).worker.pc = .pings rest ∧
      count c s fd < count c t fd := by
  have hheld : fd ∈ held (s.server i).worker := by simp [held, unpinged, hpc]
  obtain ⟨hfd, howner⟩ := owner_eq hi ((hg.sound i hi).mine fd (.inr hheld))
  subst howner
  obtain ⟨s₁, w₁, hcalm, hg₁, hh, hside, ha⟩ := hg.bring hS hfd
  have hsound := hg₁.sound _ hi
  have hpc₁ : (s₁.server (c.owner fd)).worker.pc = .pinging fd rest := by
    rw [hcalm.workers, hpc]
  obtain ⟨conn, hrun, hh', hwaits, hanswered⟩ :=
    exchanged c.message_ne hh hside (hg₁.waiting hfd).1 ha
  have hping : ping c.worker.messageLen c.message.length c.message.length = true :=
    c.length ▸ exchange_whole c .server
  obtain ⟨x, hx, hpcx⟩ : ∃ x, Worker.step c.worker (s₁.server (c.owner fd)).worker
      (.ping fd c.message.length c.message.length 0) = some x ∧ x.pc = .pings rest :=
    ⟨_, (Worker.Moves.answered hpc₁ hping).step, rfl⟩
  have hv := ping_streams (i := c.owner fd) ha hrun hx
  have hhealthy : Streams.Healthy { s₁.server (c.owner fd) with
      worker := x, conns := Function.update (s₁.server (c.owner fd)).conns fd conn } := by
    refine healthy_of_conn hsound.healthy (by simp [hpcx]) (fun p => ?_)
      fun fd' hfd' => Function.update_of_ne hfd' ..
    simp only [Function.update_self]
    cases p with
    | server => simp [hwaits]
    | client => exact hh'.not_stopped
  refine ⟨_, w₁, hcalm.reaches.trans (.head (Moves.step (.served hi rfl hv)) (.refl _)),
    hg₁.served hi rfl hv hhealthy, ?_, ?_⟩
  · simp only [Function.update_self, hpcx]
  · refine (count_mono hcalm.reaches fd).trans_lt ?_
    simp only [count, conn_update, if_true, Function.update_self, hanswered, List.length_append,
      List.length_singleton]
    exact Nat.lt_succ_self _

/-- The worker `i` comes to its next wait, and pings `due` on the way. -/
def Rounds (S : RSelector σ) (k : Backend) (R : σ → Watch → Prop) (c : Config α) (i : ℕ)
    (s : State α σ) (due : Fd → Prop) : Prop :=
  ∃ t w, Machine.Reaches (step S k c) s t ∧ Good R c t w ∧ (t.server i).worker.pc = .head ∧
    ∀ fd, due fd → count c s fd < count c t fd

variable {due due' : Fd → Prop}

lemma Rounds.head (h : Machine.Reaches (step S k c) s t) (ht : Rounds S k R c i t due)
    (hd : ∀ fd, due' fd → due fd ∨ count c s fd < count c t fd) : Rounds S k R c i s due' := by
  obtain ⟨u, w, hr, hg, hpc, hdue⟩ := ht
  refine ⟨u, w, h.trans hr, hg, hpc, fun fd hfd => ?_⟩
  rcases hd fd hfd with hfd | hlt
  · exact (count_mono h fd).trans_lt (hdue fd hfd)
  · exact hlt.trans_le (count_mono hr fd)

lemma Good.pings (hS : Refines S k R) (hg : Good R c s w) (hi : i < c.shards.length)
    {rest : List Fd} (hpc : (s.server i).worker.pc = .pings rest) :
    Rounds S k R c i s (· ∈ rest) := by
  induction rest generalizing s w with
  | nil =>
    obtain ⟨t, hr, hgt, ht⟩ := hg.work (S := S) (k := k) hi rfl (by simp) (.pinged hpc) (by simp)
    exact ⟨t, w, hr, hgt, by rw [ht], by simp⟩
  | cons fd rest ih =>
    obtain ⟨s₁, hr₁, hg₁, hx⟩ :=
      hg.work (S := S) (k := k) hi rfl (by simp) (.pinging hpc) (by simp)
    have hpc₁ : (s₁.server i).worker.pc = .pinging fd rest := by rw [hx]
    obtain ⟨s₂, w₂, hr₂, hg₂, hpc₂, hcount⟩ := hg₁.ping hS hi hpc₁
    refine Rounds.head (hr₁.trans hr₂) (ih hg₂ hpc₂) fun fd' hfd' => ?_
    rcases List.mem_cons.mp hfd' with rfl | hfd'
    · exact .inr ((count_mono hr₁ _).trans_lt hcount)
    · exact .inl hfd'

/-- The last reading of the clock: nothing has to wait any longer. -/
def late : UInt64 := -1

lemma le_late (x : UInt64) : x ≤ late := by
  rw [UInt64.le_iff_toNat_le]
  have := x.toNat_lt
  have hlate : late.toNat = 2 ^ 64 - 1 := rfl
  omega

lemma handle_late (wc : Worker.Config) (x : Worker.State) (fd : Fd) (draw : UInt64) :
    (Worker.handle wc x fd draw).sel = x.sel ∧ (Worker.handle wc x fd draw).currTime = x.currTime ∧
      ((Worker.handle wc x fd draw).pc = .events ∧
          (Worker.handle wc x fd draw).readyFds = x.readyFds ∧ x.currTime ≠ late ∨
        (Worker.handle wc x fd draw).pc = .pushed ∧
          (Worker.handle wc x fd draw).readyFds = x.readyFds ++ [fd]) := by
  have hcurr : (Worker.noteLatency wc x fd).currTime = x.currTime := by
    rw [Worker.noteLatency]
    split_ifs <;> rfl
  rw [Worker.handle]
  by_cases hc : wc.hasTimeout ∧ x.currTime < Worker.deadline wc x fd draw
  · rw [if_pos hc]
    refine ⟨Worker.noteLatency_sel fd, hcurr, .inl ⟨rfl, Worker.noteLatency_readyFds fd, ?_⟩⟩
    intro he
    exact (UInt64.not_le.mpr hc.2) (he ▸ le_late _)
  · rw [if_neg hc]
    refine ⟨Worker.noteLatency_sel fd, hcurr, .inr ⟨rfl, ?_⟩⟩
    simp only [Worker.noteLatency_readyFds]

lemma Good.events (hS : Refines S k R) (hg : Good R c s w) (hi : i < c.shards.length)
    (hpc : (s.server i).worker.pc = .events) : Rounds S k R c i s fun fd =>
      fd ∈ (s.server i).worker.readyFds ∨ (s.server i).worker.currTime = late ∧
        fd ∈ (s.server i).worker.sel.ready := by
  induction hr : (s.server i).worker.sel.ready generalizing s with
  | nil =>
    obtain ⟨t, hrt, hgt, ht⟩ :=
      hg.work (S := S) (k := k) hi rfl (by simp) (.exhausted hpc hr) (by simp)
    refine Rounds.head hrt (hgt.pings hS hi (by rw [ht])) fun fd hfd => .inl ?_
    simpa using hfd
  | cons fd fds ih =>
    have hmove : Worker.Moves c.worker (s.server i).worker (.next fd 0) _ := .handled hpc hr
    obtain ⟨hsel, hcurr, hcase⟩ := handle_late c.worker
      { (s.server i).worker with sel := { (s.server i).worker.sel with
          ready := fds, current := some fd } } fd 0
    generalize Worker.handle c.worker _ fd 0 = x at hmove hsel hcurr hcase
    have hrunning : x.pc ≠ .returned := by rcases hcase with ⟨hx, -⟩ | ⟨hx, -⟩ <;> simp [hx]
    obtain ⟨s₁, hr₁, hg₁, rfl⟩ := hg.work (S := S) (k := k) hi rfl (by simp) hmove hrunning
    have hready : (s₁.server i).worker.sel.ready = fds := by rw [hsel]
    rcases hcase with ⟨hpc₁, hfds, hlate⟩ | ⟨hpc₁, hfds⟩
    · refine Rounds.head hr₁ (ih hg₁ hpc₁ hready) fun fd' hfd' => .inl ?_
      rw [hfds]
      exact hfd'.imp_right fun h => (hlate h.1).elim
    · obtain ⟨s₂, hr₂, hg₂, hx⟩ :=
        hg₁.work (S := S) (k := k) hi rfl (by simp) (.pushed hpc₁) (by simp)
      refine Rounds.head (hr₁.trans hr₂) (ih hg₂ (by rw [hx]) (by rw [hx, hready])) fun fd' hfd' =>
        .inl ?_
      rw [hx]
      simp only [hfds, hcurr, List.mem_append, List.mem_cons] at hfd' ⊢
      tauto

lemma Good.polled (hS : Refines S k R) (hg : Good R c s w) (hi : i < c.shards.length)
    (hpc : (s.server i).worker.pc = .polled) : Rounds S k R c i s fun fd =>
      fd ∈ (s.server i).worker.readyFds ∨ (s.server i).worker.currTime = late ∧
        fd ∈ (s.server i).worker.sel.ready := by
  obtain ⟨t, hr, hgt, hx⟩ := hg.work (S := S) (k := k) hi rfl (by simp) (.counted hpc) (by simp)
  refine Rounds.head hr (hgt.events hS hi (by rw [hx])) fun fd hfd => .inl ?_
  rwa [hx]

lemma Good.drained (hS : Refines S k R) (hg : Good R c s w) (hi : i < c.shards.length)
    (hpc : (s.server i).worker.pc = .drain) : Rounds S k R c i s fun fd =>
      fd ∈ (s.server i).worker.readyFds ∨ (s.server i).worker.currTime = late ∧
        (fd ∈ (s.server i).worker.sel.ready ∨ fd ∈ queued (s.server i).worker) := by
  have finish {s : State α σ} (hg : Good R c s w) (hpc : (s.server i).worker.pc = .drain)
      (hd : ∀ x ∈ (s.server i).worker.waitQueue, (s.server i).worker.currTime < x.readyTime) :
      Rounds S k R c i s fun fd =>
        fd ∈ (s.server i).worker.readyFds ∨ (s.server i).worker.currTime = late ∧
          (fd ∈ (s.server i).worker.sel.ready ∨ fd ∈ queued (s.server i).worker) := by
    obtain ⟨t, hr, hgt, hx⟩ :=
      hg.work (S := S) (k := k) hi rfl (by simp) (.drained hpc hd) (by simp)
    refine Rounds.head hr (hgt.polled hS hi (by rw [hx])) fun fd hfd => .inl ?_
    rw [hx]
    rcases hfd with hfd | ⟨hlate, hfd | hfd⟩
    · exact .inl hfd
    · exact .inr ⟨hlate, hfd⟩
    · obtain ⟨x, hmem, rfl⟩ := List.mem_map.mp hfd
      exact (UInt64.not_le.mpr (hd x hmem) (hlate ▸ le_late _)).elim
  induction hn : (s.server i).worker.waitQueue.length generalizing s with
  | zero =>
    have hq := List.length_eq_zero_iff.mp hn
    exact finish hg hpc (by simp [hq])
  | succ n ih =>
    obtain ⟨item, htop⟩ := Worker.exists_top (List.ne_nil_of_length_eq_add_one hn)
    by_cases hd : item.readyTime ≤ (s.server i).worker.currTime
    · obtain ⟨t, hr, hgt, hx⟩ :=
        hg.work (S := S) (k := k) hi rfl (by simp) (.expired hpc htop hd) (by simp [hpc])
      refine Rounds.head hr (ih hgt (by rw [hx, hpc]) ?_) fun fd hfd => .inl ?_
      · simp [hx, List.length_erase_of_mem htop.1, hn]
      · have hperm := ((List.perm_cons_erase htop.1).map FdTimout.fd).mem_iff (a := fd)
        simp only [List.map_cons, List.mem_cons] at hperm
        simp only [hx, queued, List.mem_append, List.mem_singleton, hperm] at hfd ⊢
        tauto
    · refine finish hg hpc fun x hx => ?_
      exact UInt64.lt_of_lt_of_le (UInt64.not_le.mp hd) (htop.2 x hx)

lemma wait_streams {batch : List Fd} {x : Worker.State} (hlen : batch.length ≤ u.worker.sel.size)
    (hb : batch.Subperm u.edges)
    (hx : Worker.step c.worker u.worker (.wait (some batch) late) = some x) :
    streams c i u (.worker (.wait (some batch) late)) =
      some { u with worker := x, edges := u.edges.diff batch } := by
  rw [streams, Streams.step, Streams.workerStep, if_pos ⟨hlen, hb⟩, hx, Option.map_some]

lemma Good.answers (hS : Refines S k R) (hg : Good R c s w) (hi : i < c.shards.length)
    (hpc : (s.server i).worker.pc = .head)
    (hfd : fd ∈ (s.server i).edges ∨ fd ∈ held (s.server i).worker) :
    Rounds S k R c i s (· = fd) := by
  have hsound := hg.sound i hi
  have hidle : (s.server i).worker.sel.ready = [] := by
    have hidle := hsound.woken.idle
    simpa only [Worker.Idle, hpc] using hidle
  obtain ⟨batch, hbatch, hlen, hmem⟩ : ∃ batch : List Fd, batch.Subperm (s.server i).edges ∧
      batch.length ≤ (s.server i).worker.sel.size ∧
      (fd ∈ batch ∨ fd ∈ queued (s.server i).worker) := by
    rcases hfd with he | hh
    · refine ⟨[fd], List.singleton_subperm_iff.mpr he, ?_, .inl List.mem_cons_self⟩
      have hroom := c.room
      rw [hsound.size, List.length_singleton]
      omega
    · refine ⟨[], List.nil_subperm, Nat.zero_le _, .inr ?_⟩
      simpa [held, hidle, unpinged, hpc] using hh
  obtain ⟨x, hx, hpcx, hlate, hready, hqueue⟩ : ∃ x,
      Worker.step c.worker (s.server i).worker (.wait (some batch) late) = some x ∧
      x.pc = (if (s.server i).worker.waitQueue.length > 0 then .drain else .polled) ∧
      x.currTime = late ∧ x.sel.ready = batch ∧ queued x = queued (s.server i).worker :=
    ⟨_, (Worker.Moves.waited hpc).step, rfl, rfl, rfl, rfl⟩
  obtain ⟨t, hr, hgt, ht⟩ := hg.worker_step (S := S) (k := k) hi
    (wait_streams hlen hbatch hx) rfl (by dsimp only; rw [hpcx]; split_ifs <;> simp)
  have hworker : (t.server i).worker = x := by rw [ht]
  split_ifs at hpcx with hq
  · refine Rounds.head hr (hgt.drained hS hi (by rw [hworker, hpcx])) fun fd' hfd' => .inl ?_
    rw [hfd', hworker, hready, hqueue]
    exact .inr ⟨hlate, hmem⟩
  · refine Rounds.head hr (hgt.polled hS hi (by rw [hworker, hpcx])) fun fd' hfd' => .inl ?_
    rw [hfd', hworker, hready]
    refine .inr ⟨hlate, hmem.resolve_right ?_⟩
    rw [queued, List.length_eq_zero_iff.mp (Nat.le_zero.mp (not_lt.mp hq))]
    exact List.not_mem_nil

structure Healthy (R : σ → Watch → Prop) (c : Config α) (s : State α σ) : Prop where
  serving : ∀ i < c.shards.length, Streams.Healthy (s.server i)
  running : ∀ code, s.client.pc ≠ .returned code
  quiet : ∃ w, R s.client.sel w ∧ ∀ e ∈ w.pending, dispatch e.2 = none

lemma Good.healthy (hg : Good R c s w) : Healthy R c s where
  serving i hi := (hg.sound i hi).healthy
  running code hpc := hg.running code (hg.woken.same.pc.symm.trans hpc)
  quiet := ⟨w.sel, hg.woken.same.sel, hg.quiet⟩

end NetworkPing.Session
