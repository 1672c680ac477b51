import NetworkPing.Protocol.Session

namespace NetworkPing.Session

open Client (RSelector Backend Batch Watch Refines Same dispatch closeSock)

variable {α : Type*} {σ : Type} {S : RSelector σ} {k : Backend} {R : σ → Watch → Prop}
  {c : Config α} {s t : State α σ} {l : Label} {fd : Fd}

/-- The client's loop follows `w`, whose events and watched sockets are those of its selector. No
bytes wait that it has not been or will not be told of, and it is told of nothing else. -/
structure Woken (R : σ → Watch → Prop) (c : Config α) (s : State α σ)
    (w : Client.State Watch) : Prop where
  same : Same R s.client w
  inv : Client.Inv c.sockets w
  conns : ∀ i fd, Connection.Inv c.message ((s.server i).conns fd)
  idle : w.pc ≠ .events → w.sel.pending = []
  sides : ∀ fd ∈ c.sockets,
    (s.conn c fd).side .client = if fd ∈ w.log.removed then .stopped else .waiting
  ready : ∀ e ∈ w.sel.pending, e.2 ≠ 0 ∧ (dispatch e.2 = none →
    ((s.conn c e.1).inbox .client).arrived ≠ [] ∨ (s.conn c e.1).side .server = .stopped)
  told : ∀ fd ∈ w.sel.live ++ w.pc.toAdd, ((s.conn c fd).inbox .client).arrived ≠ [] →
    fd ∈ s.edges ∨ fd ∈ w.sel.pending.map Prod.fst

variable {w : Client.State Watch}

lemma conn_update {i : ℕ} {u : Streams.State α} {client : Client.State σ} {edges : List Fd}
    (fd : Fd) : State.conn ⟨Function.update s.server i u, client, edges⟩ c fd =
      if c.owner fd = i then u.conns fd else s.conn c fd := by
  by_cases h : c.owner fd = i
  · subst h
    simp [State.conn]
  · simp [State.conn, h]

lemma conn_self {u : Streams.State α} {client : Client.State σ} {edges : List Fd} :
    State.conn ⟨Function.update s.server (c.owner fd) u, client, edges⟩ c fd = u.conns fd := by
  rw [conn_update, if_pos rfl]

lemma conn_other {u : Streams.State α} {client : Client.State σ} {edges : List Fd} {fd' : Fd}
    (h : u.conns fd' = (s.server (c.owner fd)).conns fd') :
    State.conn ⟨Function.update s.server (c.owner fd) u, client, edges⟩ c fd' = s.conn c fd' := by
  rw [conn_update]
  split_ifs with ho
  · rw [h, State.conn, ho]
  · rfl

lemma not_removed (h : Client.Open c.sockets w)
    (hfd : fd ∈ w.sel.live ++ w.pc.toAdd) : fd ∈ c.sockets ∧ fd ∉ w.log.removed := by
  refine ⟨h.sockets.subset (List.mem_append_right _ hfd), fun hr => ?_⟩
  have hnodup := h.sockets.nodup_iff.mpr c.distinct
  exact (List.nodup_append.mp hnodup).2.2 fd hr fd hfd rfl

lemma Woken.served (hw : Woken R c s w) {i : ℕ} {l : Streams.Label}
    {t : Streams.State α} (hl : byClient l = false) (h : streams c i (s.server i) l = some t) :
    Woken R c
      { s with server := Function.update s.server i t, edges := raise s i l } w := by
  have grows (fd : Fd) : Grows (s.conn c fd)
      (State.conn ⟨Function.update s.server i t, s.client, raise s i l⟩ c fd) := by
    rw [conn_update]
    split_ifs with hi
    · subst hi
      exact streams_grows hl h fd
    · exact ⟨rfl, List.prefix_rfl, id⟩
  refine ⟨hw.same, hw.inv, fun j fd => ?_, hw.idle, fun fd hfd => ?_, fun e he => ?_,
    fun fd hfd ha => ?_⟩
  · by_cases hj : j = i
    · subst hj
      simp only [Function.update_self]
      exact streams_inv (hw.conns j) h fd
    · simp only [Function.update_of_ne hj]
      exact hw.conns j fd
  · rw [(grows fd).side, hw.sides fd hfd]
  · obtain ⟨hne, hr⟩ := hw.ready e he
    refine ⟨hne, fun hd => (hr hd).imp (fun ha hnil => ha ?_) (grows e.1).ended⟩
    exact List.prefix_nil.mp (hnil ▸ (grows e.1).arrived)
  · rw [conn_update] at ha
    have hold := hw.told fd hfd
    split_ifs at ha with hi
    · subst hi
      rcases mem_raise hl h ha with ha | hr
      · exact (hold ha).imp_left mem_raise_mono
      · exact .inl hr
    · exact (hold ha).imp_left mem_raise_mono

lemma Woken.waited (hS : Refines S k R) (hw : Woken R c s w) {events : Batch}
    {t : Client.State σ} (hr : Reports k c s events)
    (h : Client.step S s.client (.wait (.batch events)) = some t) :
    ∃ w', Client.step (Client.watchSelector k) w (.wait (.batch events)) = some w' ∧ Woken R c
      { s with client := t, edges := s.edges.filter (· ∉ events.map Prod.fst) } w' := by
  obtain ⟨w', hstep, hsame⟩ := hw.same.step hS c.distinct c.valid hw.inv h
  have hinv := Client.step_inv c.distinct hw.inv hstep
  cases Client.step_moves hstep with
  | failed _ _ _ hwait => cases hwait
  | again _ _ _ hwait => cases hwait
  | waited hpc _ ho hwait =>
    cases hwait
    have hpending := hw.idle (by simp [hpc])
    refine ⟨_, hstep, hsame, hinv, hw.conns, fun hne => (hne rfl).elim, hw.sides, fun e he => ?_,
      fun fd hfd ha => ?_⟩
    · obtain ⟨hne, hd⟩ := hr e (Client.arrange_mem he)
      refine ⟨hne, fun hnone => ?_⟩
      have hread := hd hnone
      rw [readable, Bool.or_eq_true, Bool.and_eq_true, ended_iff] at hread
      refine hread.imp_left fun hb => ?_
      show ((s.conn c e.1).inbox .client).arrived ≠ []
      simpa using hb.1
    · simp only [Client.Pc.toAdd, List.append_nil] at hfd
      obtain hedge | he := hw.told fd (List.mem_append_left _ hfd) ha
      · by_cases hmem : fd ∈ events.map Prod.fst
        · obtain ⟨e, he, rfl⟩ := List.mem_map.mp hmem
          exact .inr (List.mem_map_of_mem (Client.arrange_ready ho he (hr e he).1))
        · exact .inl (List.mem_filter.mpr ⟨hedge, by simpa using hmem⟩)
      · rw [hpending] at he
        cases he

lemma Woken.looped (hS : Refines S k R) (hw : Woken R c s w) {l : Client.Label}
    {t : Client.State σ}
    (hl : ∀ fd events answer, l ≠ .next fd events answer)
    (hb : ∀ events, l ≠ .wait (.batch events)) (h : Client.step S s.client l = some t) :
    ∃ w', Client.step (Client.watchSelector k) w l = some w' ∧
      Woken R c { s with client := t } w' := by
  obtain ⟨w', hstep, hsame⟩ := hw.same.step hS c.distinct c.valid hw.inv h
  have hinv := Client.step_inv c.distinct hw.inv hstep
  have keep {w' : Client.State Watch} (hsame : Same R t w') (hinv : Client.Inv c.sockets w')
      (hidle : w'.pc ≠ .events → w'.sel.pending = [])
      (hlive : w'.sel.live ++ w'.pc.toAdd ⊆ w.sel.live ++ w.pc.toAdd)
      (hpending : w'.sel.pending = w.sel.pending) (hlog : w'.log = w.log) :
      Woken R c { s with client := t } w' :=
    ⟨hsame, hinv, hw.conns, hidle, hlog ▸ hw.sides, hpending ▸ hw.ready,
      fun fd hfd ha => hpending ▸ hw.told fd (hlive hfd) ha⟩
  refine ⟨w', hstep, ?_⟩
  cases Client.step_moves hstep with
  | added hpc ha =>
    obtain rfl := Watch.addFd_some ha
    refine keep hsame hinv (fun _ => hw.idle (by simp [hpc])) ?_ rfl rfl
    simp [Watch.register, Client.Pc.toAdd, hpc]
  | refused hpc | prepared hpc | failed hpc | finished hpc =>
    refine keep hsame hinv (fun _ => hw.idle (by simp [hpc])) ?_ rfl rfl
    simp [Client.Pc.toAdd]
  | again => exact keep hsame hinv hw.idle (List.Subset.refl _) rfl rfl
  | waited hpc hf ho hwait =>
    obtain ⟨events, rfl, -⟩ := Watch.wait_ready hwait
    exact (hb events rfl).elim
  | handled => exact (hl _ _ _ rfl).elim
  | exhausted hpc he =>
    obtain ⟨hp, rfl⟩ := Watch.next_none he
    exact keep hsame hinv (fun _ => hp) (by simp [Client.Pc.toAdd]) rfl rfl

lemma Woken.handled (hS : Refines S k R) (hw : Woken R c s w) {events : UInt32} {bc wc : ℤ}
    {t : Client.State σ} {u : Streams.State α}
    (hbc : dispatch events = none →
      bc ≤ 0 ∨ bc = (((s.conn c fd).inbox .client).read c.message.length).length)
    (h : Client.step S s.client
      (.next fd events (processMessage c.message.length bc wc)) = some t)
    (hr : Machine.run (streams c (c.owner fd)) (s.server (c.owner fd))
      ((calls c.message.length events bc wc).map (.conn fd)) = some u) :
    ∃ w', Client.step (Client.watchSelector k) w
        (.next fd events (processMessage c.message.length bc wc)) = some w' ∧ Woken R c
      { s with client := t, server := Function.update s.server (c.owner fd) u } w' := by
  obtain ⟨w', hstep, hsame⟩ := hw.same.step hS c.distinct c.valid hw.inv h
  have hinv := Client.step_inv c.distinct hw.inv hstep
  obtain ⟨-, -, hconn, hother⟩ := run_conn calls_client hr
  have hconns : ∀ i fd', Connection.Inv c.message
      ((Function.update s.server (c.owner fd) u i).conns fd') := by
    intro i fd'
    by_cases hi : i = c.owner fd
    · subst hi
      rw [Function.update_self]
      exact Machine.run_invariant (fun u : Streams.State α => ∀ fd, Connection.Inv _ (u.conns fd))
        (fun _ _ _ hi hl => streams_inv hi hl) (hw.conns _) hr fd'
    · rw [Function.update_of_ne hi]
      exact hw.conns i fd'
  have hsame' (fd' : Fd) (hfd : fd' ≠ fd) :
      State.conn ⟨Function.update s.server (c.owner fd) u, t, s.edges⟩ c fd' = s.conn c fd' :=
    conn_other (hother fd' hfd)
  have hself : State.conn ⟨Function.update s.server (c.owner fd) u, t, s.edges⟩ c fd =
      u.conns fd := conn_self
  have hopen : Client.Open c.sockets w := by
    apply hw.inv.open
    cases Client.step_moves hstep with
    | handled hpc => simp [hpc]
  have hnext : w'.pc = .events ∧ w.sel.pending = (fd, events) :: w'.sel.pending ∧
      w'.log = w.log.note fd events (processMessage c.message.length bc wc) := by
    cases Client.step_moves hstep with
    | handled hpc he =>
      obtain ⟨es, hp, rfl⟩ := Watch.next_some he
      rw [Client.handle_pending, hp, Client.handle]
      split_ifs <;> exact ⟨hpc, rfl, rfl⟩
  obtain ⟨hpc, hp, hlog⟩ := hnext
  obtain ⟨hmem, hnodup, hafter⟩ := Client.watch_live hw.inv c.distinct hstep
  have hready := hw.ready
  have hfresh := hopen.ready
  rw [hp] at hready hfresh
  obtain ⟨⟨hne, -⟩, hready⟩ := List.forall_mem_cons.mp hready
  have hother' : ∀ e ∈ w'.sel.pending, e.1 ≠ fd := by
    intro e he hfd
    exact (List.nodup_cons.mp hfresh).1 (List.mem_map.mpr ⟨e, he, hfd⟩)
  refine ⟨w', hstep, hsame, hinv, hconns, fun hne => (hne hpc).elim, fun fd' hfd' => ?_,
    fun e he => ?_, fun fd' hfd' ha => ?_⟩
  · by_cases hfd : fd' = fd
    · subst hfd
      have hkept := (not_removed hopen (List.mem_append_left _ hmem)).2
      rw [hself, hlog, Client.Log.note]
      by_cases hc : closeSock events (processMessage c.message.length bc wc)
      · simp [hc, calls_closed c.message_ne hbc hconn hc]
      · simp [hc, hkept, (calls_open c.message_ne (hw.conns _ fd') hne hbc hconn hc).1]
    · rw [hsame' fd' hfd, hw.sides fd' hfd', hlog, Client.Log.note]
      split_ifs <;> simp_all
  · rw [hsame' e.1 (hother' e he)]
    exact hready e he
  · simp only [hpc, Client.Pc.toAdd, List.append_nil, hafter] at hfd'
    by_cases hfd : fd' = fd
    · subst hfd
      rw [hself] at ha
      split_ifs at hfd' with hc
      · exact (hnodup.not_mem_erase hfd').elim
      · exact (ha (calls_open c.message_ne (hw.conns _ fd') hne hbc hconn hc).2).elim
    · rw [hsame' fd' hfd] at ha
      have hlive : fd' ∈ w.sel.live := by
        split_ifs at hfd'
        · exact List.mem_of_mem_erase hfd'
        · exact hfd'
      refine (hw.told fd' (List.mem_append_left _ hlive) ha).imp_right fun hp' => ?_
      rw [hp] at hp'
      exact (List.mem_cons.mp hp').resolve_left hfd

lemma step_woken (hS : Refines S k R) (hw : Woken R c s w) (h : step S k c s l = some t) :
    ∃ w', Woken R c t w' := by
  cases step_moves h with
  | served hi hl hu => exact ⟨w, hw.served hl hu⟩
  | waited hr ht => exact (hw.waited hS hr ht).imp fun _ hw => hw.2
  | looped hl hb ht => exact (hw.looped hS hl hb ht).imp fun _ hw => hw.2
  | handled hbc ht hr => exact (hw.handled hS hbc ht hr).imp fun _ hw => hw.2

end NetworkPing.Session
