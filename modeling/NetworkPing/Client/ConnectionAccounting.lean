import NetworkPing.Client.RunTest

namespace NetworkPing.Client

open Machine

variable {k : Backend} {events : Batch} {e : Fd × UInt32} {live : List Fd}

lemma ready_some {fd : Fd} (h : ready events fd = some e) : e.1 = fd ∧ e ∈ events ∧ e.2 ≠ 0 := by
  rw [ready] at h
  cases hl : events.lookup fd with
  | none => simp [hl] at h
  | some ev =>
    obtain ⟨l₁, l₂, he, _⟩ := List.lookup_eq_some_iff.mp hl
    rw [hl, Option.getD_some] at h
    split_ifs at h with hz
    cases h
    exact ⟨rfl, by simp [he], hz⟩

lemma ready_of_mem (hn : (events.map Prod.fst).Nodup) (he : e ∈ events) (hz : e.2 ≠ 0) :
    ready events e.1 = some e := by
  have hl : events.lookup e.1 = some e.2 := by
    obtain ⟨l₁, l₂, rfl⟩ := List.append_of_mem he
    rw [List.lookup_eq_some_iff]
    refine ⟨l₁, l₂, rfl, fun p hp => ?_⟩
    rw [List.map_append, List.map_cons, List.nodup_append] at hn
    simpa using (hn.2.2 p.1 (List.mem_map_of_mem hp) e.1 List.mem_cons_self).symm
  simp [ready, hl, hz]

lemma arrange_mem (h : e ∈ k.arrange live events) : e ∈ events := by
  cases k with
  | poll =>
    obtain ⟨fd, _, hf⟩ := List.mem_filterMap.mp h
    exact (ready_some hf).2.1
  | epoll => exact h

lemma arrange_ready (ho : Admissible live (.batch events)) (he : e ∈ events) (hz : e.2 ≠ 0) :
    e ∈ k.arrange live events := by
  cases k with
  | poll => exact List.mem_filterMap.mpr ⟨e.1, ho.2 e he, ready_of_mem ho.1 he hz⟩
  | epoll => exact he

lemma ready_sublist (live : List Fd) (events : Batch) :
    ((live.filterMap (ready events)).map Prod.fst).Sublist live := by
  induction live with
  | nil => exact .slnil
  | cons fd live ih =>
    cases hf : ready events fd with
    | none =>
      rw [List.filterMap_cons_none hf]
      exact ih.cons fd
    | some e =>
      obtain rfl := (ready_some hf).1
      rw [List.filterMap_cons_some hf]
      exact ih.cons_cons e.1

lemma arrange_nodup (k : Backend) (hn : live.Nodup) (ho : Admissible live (.batch events)) :
    ((k.arrange live events).map Prod.fst).Nodup := by
  cases k with
  | poll => exact hn.sublist (ready_sublist live events)
  | epoll => exact ho.1

def Pc.toAdd : Pc → List Fd
  | .adding rest => rest
  | _ => []

structure Open (sockets : List Fd) (s : State Watch) : Prop where
  sockets : (s.log.removed ++ (s.sel.live ++ s.pc.toAdd)).Perm sockets
  room : s.sel.room = s.pc.toAdd.length
  fdLeft : s.fdLeft = s.sel.live.length + s.pc.toAdd.length
  ready : (s.sel.pending.map Prod.fst).Nodup
  watched : ∀ e ∈ s.sel.pending, e.1 ∈ s.sel.live

inductive Inv (sockets : List Fd) (s : State Watch) : Prop
  | running (h : ∀ code, s.pc ≠ .returned code) (ho : Open sockets s)
  | returned {code} (h : s.pc = .returned code) (hc : code = 0 ↔ s.log.removed.Perm sockets)

lemma inv_start (sockets : List Fd) :
    Inv sockets (start (watchSelector k) sockets.length sockets) := by
  refine .running nofun ⟨.refl _, rfl, ?_, .nil, nofun⟩
  simp [start, Pc.toAdd, watchSelector, Watch.create]

lemma Open.nodup {sockets : List Fd} {s : State Watch} (h : Open sockets s)
    (hn : sockets.Nodup) : s.sel.live.Nodup :=
  (List.nodup_append.mp (List.nodup_append.mp (h.sockets.nodup_iff.mpr hn)).2.1).1

variable {sockets : List Fd} {s t : State Watch} {l : Label}

lemma Inv.open {sockets : List Fd} {s : State Watch} (h : Inv sockets s)
    (hpc : ∀ code, s.pc ≠ .returned code) : Open sockets s := by
  cases h with
  | running _ ho => exact ho
  | returned h => exact (hpc _ h).elim

lemma Open.not_perm (h : Open sockets s) (hf : 0 < s.sel.live.length + s.pc.toAdd.length) :
    ¬ s.log.removed.Perm sockets := by
  intro hp
  have := h.sockets.length_eq
  rw [List.length_append, List.length_append, hp.length_eq] at this
  omega

lemma Open.handle {fd : Fd} {ev : UInt32} {es : Batch} (h : Open sockets s)
    (hn : sockets.Nodup) (hpc : s.pc = .events) (hp : s.sel.pending = (fd, ev) :: es)
    (answer : Bool) :
    Open sockets (handle (watchSelector k)
      { s with sel := { s.sel with pending := es, last := some fd } } fd ev answer) := by
  have hready := h.ready
  have hwatched := h.watched
  rw [hp] at hready hwatched
  obtain ⟨hfd, hes⟩ := List.nodup_cons.mp hready
  obtain ⟨hmem, hlive⟩ := List.forall_mem_cons.mp hwatched
  simp only at hfd hmem
  rw [Client.handle]
  by_cases hc : closeSock ev answer
  · rw [if_pos hc]
    refine ⟨?_, h.room, ?_, hes, fun e he => ?_⟩
    · have hperm := (List.perm_cons_erase hmem).symm
      have hadd : Pc.events.toAdd = [] := rfl
      have hs := h.sockets
      rw [hpc, hadd, List.append_nil] at hs
      simp only [hpc, Pc.toAdd, List.append_nil, Log.note, hc, if_true, List.append_assoc]
      exact (hperm.append_left _).trans hs
    · have := List.length_erase_of_mem hmem
      have := List.length_pos_of_mem hmem
      have := h.fdLeft
      simp only [watchSelector, Watch.removeCurrentReady]
      omega
    · simp only [watchSelector, Watch.removeCurrentReady]
      rw [(h.nodup hn).mem_erase_iff]
      refine ⟨?_, hlive e he⟩
      rintro rfl
      exact hfd (List.mem_map.mpr ⟨e, he, rfl⟩)
  · rw [if_neg hc]
    refine ⟨?_, h.room, h.fdLeft, hes, hlive⟩
    simp only [Log.note, hc]
    exact h.sockets

lemma Open.step (h : Open sockets s) (hn : sockets.Nodup)
    (hm : Moves (watchSelector k) s l t) : Inv sockets t := by
  have hsockets := h.sockets
  have hroom := h.room
  have hleft := h.fdLeft
  cases hm with
  | added hpc ha =>
    obtain rfl := Watch.addFd_some ha
    rw [hpc, Pc.toAdd] at hsockets hroom hleft
    refine .running (by simp) ⟨?_, ?_, ?_, h.ready, fun e he => ?_⟩
    · simpa [Watch.register, Pc.toAdd] using hsockets
    · simp [Watch.register, Pc.toAdd, hroom]
    · simp only [Watch.register, Pc.toAdd, List.length_append, List.length_cons,
        List.length_nil] at hleft ⊢
      omega
    · exact List.mem_append_left _ (h.watched e he)
  | refused hpc ha =>
    refine .returned rfl (iff_of_false (by decide) ?_)
    apply h.not_perm
    simp [hpc, Pc.toAdd]
  | prepared hpc =>
    rw [hpc] at hsockets hroom hleft
    exact .running (by simp) ⟨hsockets, hroom, hleft, h.ready, h.watched⟩
  | failed hpc hf =>
    refine .returned rfl (iff_of_false (by decide) ?_)
    apply h.not_perm
    omega
  | again hpc => exact .running (by simp [hpc]) h
  | waited hpc hf ho hw =>
    obtain ⟨events, rfl, rfl⟩ := Watch.wait_ready hw
    rw [hpc] at hsockets hroom hleft
    have hready := arrange_nodup k (h.nodup hn) ho
    refine .running (by simp) ⟨hsockets, hroom, hleft, hready, fun e he => ?_⟩
    exact ho.2 e (arrange_mem he)
  | finished hpc hf =>
    refine .returned rfl (iff_of_true rfl ?_)
    have hadd : s.pc.toAdd = [] := by rw [hpc]; rfl
    rw [hadd] at hsockets hleft
    have hlive : s.sel.live = [] := by
      apply List.eq_nil_of_length_eq_zero
      rw [List.length_nil] at hleft
      omega
    simpa [hlive] using hsockets
  | handled hpc he =>
    obtain ⟨es, hp, rfl⟩ := Watch.next_some he
    refine .running ?_ (h.handle hn hpc hp _)
    rw [Client.handle]
    split_ifs <;> simp [hpc]
  | exhausted hpc he =>
    obtain ⟨_, rfl⟩ := Watch.next_none he
    rw [hpc] at hsockets hroom hleft
    exact .running (by simp) ⟨hsockets, hroom, hleft, h.ready, h.watched⟩

lemma step_inv (hn : sockets.Nodup) (h : Inv sockets s)
    (hs : step (watchSelector k) s l = some t) : Inv sockets t := by
  cases h with
  | running _ ho => exact ho.step hn (step_moves hs)
  | returned hpc => cases step_moves hs <;> simp_all

variable {σ : Type} {S : RSelector σ} {R : σ → Watch → Prop}

structure Same (R : σ → Watch → Prop) (u : State σ) (s : State Watch) : Prop where
  pc : u.pc = s.pc
  sel : R u.sel s.sel
  fdLeft : u.fdLeft = s.fdLeft
  log : u.log = s.log

lemma Open.nonneg (h : Open sockets s) (hpos : ∀ fd ∈ sockets, 0 ≤ fd) {fd : Fd}
    (hfd : fd ∈ s.pc.toAdd) : 0 ≤ fd :=
  hpos fd (h.sockets.subset (List.mem_append_right _ (List.mem_append_right _ hfd)))

lemma Same.handle {u : State σ} {w : σ} {fd : Fd} {es : Batch} {ev : UInt32}
    (hS : Refines S k R) (h : Same R u s) (ho : Open sockets s) (hn : sockets.Nodup)
    (hp : s.sel.pending = (fd, ev) :: es)
    (hw : R w { s.sel with pending := es, last := some fd }) (answer : Bool) :
    Same R (handle S { u with sel := w } fd ev answer)
      (handle (watchSelector k)
        { s with sel := { s.sel with pending := es, last := some fd } } fd ev answer) := by
  have hmem := ho.watched (fd, ev) (by rw [hp]; exact List.mem_cons_self)
  rw [Client.handle, Client.handle]
  by_cases hc : closeSock ev answer
  · rw [if_pos hc, if_pos hc]
    refine ⟨h.pc, hS.removeCurrentReady hw (ho.nodup hn) ?_ rfl, ?_, ?_⟩
    · rintro x ⟨⟩
      exact hmem
    · simp only [h.fdLeft]
    · simp only [h.log]
  · rw [if_neg hc, if_neg hc]
    exact ⟨h.pc, hw, h.fdLeft, by simp only [h.log]⟩

lemma Same.step {u v : State σ} (hS : Refines S k R) (hn : sockets.Nodup)
    (hpos : ∀ fd ∈ sockets, 0 ≤ fd) (h : Same R u s) (hi : Inv sockets s)
    (hs : step S u l = some v) : ∃ t, step (watchSelector k) s l = some t ∧ Same R v t := by
  have hm := step_moves hs
  have ho : Open sockets s := by
    apply hi.open
    intro code hpc
    rw [← h.pc] at hpc
    cases hm <;> simp_all
  have hallowed {o : Outcome} (ha : Admissible (S.live u.sel) o) : Admissible s.sel.live o :=
    hS.live h.sel ▸ ha
  have hnonneg {fd : Fd} {rest : List Fd} (hpc : u.pc = .adding (fd :: rest)) : 0 ≤ fd := by
    apply ho.nonneg hpos
    rw [← h.pc, hpc]
    exact List.mem_cons_self
  cases hm with
  | added hpc ha =>
    obtain ⟨w, hw, hr⟩ := hS.added h.sel (hnonneg hpc) ha
    exact ⟨_, Moves.step (.added (h.pc ▸ hpc) hw), rfl, hr, h.fdLeft, h.log⟩
  | refused hpc ha =>
    have hw := hS.refused h.sel (hnonneg hpc) ha
    exact ⟨_, Moves.step (.refused (h.pc ▸ hpc) hw), rfl, h.sel, h.fdLeft, h.log⟩
  | prepared hpc =>
    exact ⟨_, Moves.step (.prepared (h.pc ▸ hpc)), rfl, h.sel, h.fdLeft, h.log⟩
  | failed hpc hf hadm hw =>
    have hw := hS.failed h.sel hw
    exact ⟨_, Moves.step (.failed (h.pc ▸ hpc) (h.fdLeft ▸ hf) (hallowed hadm) hw),
      rfl, h.sel, h.fdLeft, h.log⟩
  | again hpc hf hadm hw =>
    have hw := hS.again h.sel hw
    exact ⟨_, Moves.step (.again (h.pc ▸ hpc) (h.fdLeft ▸ hf) (hallowed hadm) hw),
      h.pc, h.sel, h.fdLeft, h.log⟩
  | waited hpc hf hadm hw =>
    obtain ⟨w, hw, hr⟩ := hS.waited h.sel hw
    exact ⟨_, Moves.step (.waited (h.pc ▸ hpc) (h.fdLeft ▸ hf) (hallowed hadm) hw),
      rfl, hr, h.fdLeft, h.log⟩
  | finished hpc hf =>
    exact ⟨_, Moves.step (.finished (h.pc ▸ hpc) (h.fdLeft ▸ hf)), rfl, h.sel, h.fdLeft, h.log⟩
  | @handled fd ev answer _ hpc he =>
    obtain ⟨w, he, hr⟩ := hS.handed h.sel he
    obtain ⟨es, hp, rfl⟩ := Watch.next_some he
    have hm : Moves (watchSelector k) s (.next fd ev answer) _ := .handled (h.pc ▸ hpc) he
    exact ⟨_, hm.step, h.handle hS ho hn hp hr answer⟩
  | exhausted hpc he =>
    obtain ⟨w, he, hr⟩ := hS.handed h.sel he
    exact ⟨_, Moves.step (.exhausted (h.pc ▸ hpc) he), rfl, hr, h.fdLeft, h.log⟩

lemma same_start (hS : Refines S k R) (n : ℕ) (sockets : List Fd) :
    Same R (start S n sockets) (start (watchSelector k) n sockets) :=
  ⟨rfl, hS.create n, rfl, rfl⟩

lemma run_watch {u : State σ} {ls : List Label} (hS : Refines S k R) (hn : sockets.Nodup)
    (hpos : ∀ fd ∈ sockets, 0 ≤ fd)
    (hr : run (step S) (start S sockets.length sockets) ls = some u) :
    ∃ s, run (step (watchSelector k)) (start (watchSelector k) sockets.length sockets) ls = some s ∧
      Same R u s ∧ Inv sockets s := by
  refine run_refines (Same R) (Inv sockets) ?_ ?_ (same_start hS _ _) (inv_start sockets) hr
  · exact fun s l t hi hs => step_inv hn hi hs
  · exact fun u s l v h hi hs => h.step hS hn hpos hi hs

def Label.yield (y : (Fd × UInt32) × Bool) : Label := .next y.1.1 y.1.2 y.2

def Label.Keeps (before after : List Fd) : Label → Prop
  | .add _ => before <+: after
  | .next fd ev answer => fd ∈ before ∧ before.Nodup ∧
    after = if closeSock ev answer then before.erase fd else before
  | _ => after = before

structure Accounting (S : RSelector σ) (thCount : ℕ) (sockets : List Fd) : Prop where
  room {ls : List Label} {u : State σ} {fd : Fd} {rest : List Fd}
    (hr : run (step S) (start S thCount sockets) ls = some u)
    (hpc : u.pc = .adding (fd :: rest)) : (S.addFd u.sel fd true).isSome
  fdLeft {ls : List Label} {u : State σ}
    (hr : run (step S) (start S thCount sockets) ls = some u) (hpc : u.pc = .head) :
    u.fdLeft = (S.live u.sel).length
  live {ls : List Label} {u v : State σ} {l : Label}
    (hr : run (step S) (start S thCount sockets) ls = some u) (hs : step S u l = some v) :
    l.Keeps (S.live u.sel) (S.live v.sel)
  once {ls : List Label} {events : Batch} {ys : List ((Fd × UInt32) × Bool)} {u : State σ}
    (hr : run (step S) (start S thCount sockets)
      (ls ++ .wait (.batch events) :: ys.map Label.yield) = some u) :
    (ys.map fun y => y.1.1).Nodup ∧ ∀ y ∈ ys, y.1 ∈ events
  all {ls : List Label} {events : Batch} {ys : List ((Fd × UInt32) × Bool)} {u : State σ}
    (hr : run (step S) (start S thCount sockets)
      (ls ++ .wait (.batch events) :: ys.map Label.yield ++ [.exhausted]) = some u) :
    ∀ e ∈ events, e.2 ≠ 0 → e ∈ ys.map Prod.fst
  code {ls : List Label} {u : State σ} {code : ℤ}
    (hr : run (step S) (start S thCount sockets) ls = some u) (hpc : u.pc = .returned code) :
    code = 0 ↔ u.log.removed.Perm sockets

lemma watch_live (hi : Inv sockets s) (hn : sockets.Nodup)
    (hs : step (watchSelector k) s l = some t) : l.Keeps s.sel.live t.sel.live := by
  cases step_moves hs with
  | added _ ha =>
    obtain rfl := Watch.addFd_some ha
    exact List.prefix_append _ _
  | refused => exact List.prefix_rfl
  | prepared => rfl
  | failed => rfl
  | again => rfl
  | waited _ _ _ hw =>
    obtain ⟨events, rfl, rfl⟩ := Watch.wait_ready hw
    rfl
  | finished => rfl
  | @handled fd ev answer sel hpc he =>
    have ho := hi.open (by simp [hpc])
    obtain ⟨es, hp, rfl⟩ := Watch.next_some he
    refine ⟨ho.watched (fd, ev) (by rw [hp]; exact List.mem_cons_self), ho.nodup hn, ?_⟩
    rw [Client.handle]
    by_cases hc : closeSock ev answer
    · rw [if_pos hc, if_pos hc]
      rfl
    · rw [if_neg hc, if_neg hc]
  | exhausted _ he =>
    obtain ⟨_, rfl⟩ := Watch.next_none he
    rfl

lemma handle_pending (s : State Watch) (fd : Fd) (ev : UInt32) (answer : Bool) :
    (handle (watchSelector k) s fd ev answer).sel.pending = s.sel.pending := by
  rw [Client.handle]
  split_ifs
  · cases hl : s.sel.last <;> simp [watchSelector, Watch.removeCurrentReady, hl]
  · rfl

lemma run_yields {ys : List ((Fd × UInt32) × Bool)}
    (hr : run (step (watchSelector k)) s (ys.map Label.yield) = some t) :
    s.sel.pending = ys.map Prod.fst ++ t.sel.pending := by
  induction ys generalizing s with
  | nil =>
    cases Option.some.inj hr
    rfl
  | cons y ys ih =>
    obtain ⟨u, hs, hr⟩ := run_cons_some.mp hr
    cases step_moves hs with
    | handled hpc he =>
      obtain ⟨es, hp, rfl⟩ := Watch.next_some he
      have hu := ih hr
      rw [handle_pending] at hu
      rw [hp, List.map_cons, List.cons_append, ← hu]

lemma run_batch {ls : List Label} {ys : List ((Fd × UInt32) × Bool)} (hn : sockets.Nodup)
    (hr : run (step (watchSelector k)) (start (watchSelector k) sockets.length sockets)
      (ls ++ .wait (.batch events) :: ys.map Label.yield) = some t) :
    ∃ live, live.Nodup ∧ Admissible live (.batch events) ∧
      k.arrange live events = ys.map Prod.fst ++ t.sel.pending := by
  rw [run_append, Option.bind_eq_some_iff] at hr
  obtain ⟨u, hu, hr⟩ := hr
  obtain ⟨v, hstep, hr⟩ := run_cons_some.mp hr
  have hi := run_invariant (Inv sockets) (fun s l t hi hs => step_inv hn hi hs)
    (inv_start sockets) hu
  cases step_moves hstep with
  | failed _ _ _ hf => cases hf
  | again _ _ _ hf => cases hf
  | waited hpc _ hadm hw =>
    cases hw
    exact ⟨u.sel.live, (hi.open (by simp [hpc])).nodup hn, hadm, run_yields hr⟩

lemma accounting (hS : Refines S k R) (hn : sockets.Nodup) (hpos : ∀ fd ∈ sockets, 0 ≤ fd) :
    Accounting S sockets.length sockets where
  room {ls u fd rest} hr hpc := by
    obtain ⟨s, hr, h, hi⟩ := run_watch hS hn hpos hr
    have ho := hi.open (by simp [← h.pc, hpc])
    have hadd : s.pc.toAdd = fd :: rest := by rw [← h.pc, hpc]; rfl
    have hfd := ho.nonneg hpos (hadd ▸ List.mem_cons_self)
    have hroom := ho.room
    rw [hadd, List.length_cons] at hroom
    have hsome := Watch.addFd_isSome k (by omega : 0 < s.sel.room) fd
    cases ha : S.addFd u.sel fd true with
    | some => rfl
    | none =>
      rw [hS.refused h.sel hfd ha] at hsome
      cases hsome
  fdLeft {ls u} hr hpc := by
    obtain ⟨s, hr, h, hi⟩ := run_watch hS hn hpos hr
    have ho := hi.open (by simp [← h.pc, hpc])
    have hadd : s.pc.toAdd = [] := by rw [← h.pc, hpc]; rfl
    rw [hS.live h.sel, h.fdLeft, ho.fdLeft, hadd, List.length_nil, Nat.cast_zero, add_zero]
  live {ls u l v} hr hs := by
    obtain ⟨s, hr, h, hi⟩ := run_watch hS hn hpos hr
    obtain ⟨t, ht, hv⟩ := h.step hS hn hpos hi hs
    rw [hS.live h.sel, hS.live hv.sel]
    exact watch_live hi hn ht
  once hr := by
    obtain ⟨t, hr, -, -⟩ := run_watch hS hn hpos hr
    obtain ⟨live, hl, hadm, he⟩ := run_batch hn hr
    have hys := arrange_nodup k hl hadm
    rw [he, List.map_append, List.map_map] at hys
    refine ⟨(List.nodup_append.mp hys).1, fun y hy => ?_⟩
    refine arrange_mem (?_ : y.1 ∈ k.arrange live _)
    rw [he]
    exact List.mem_append_left _ (List.mem_map_of_mem hy)
  all hr e hmem hz := by
    obtain ⟨t, hr, -, -⟩ := run_watch hS hn hpos hr
    rw [run_append, Option.bind_eq_some_iff] at hr
    obtain ⟨u, hu, hr⟩ := hr
    obtain ⟨v, hs, -⟩ := run_cons_some.mp hr
    obtain ⟨live, _, hadm, he⟩ := run_batch hn hu
    cases step_moves hs with
    | exhausted _ hnext =>
      obtain ⟨hp, -⟩ := Watch.next_none hnext
      rw [hp, List.append_nil] at he
      exact he ▸ arrange_ready hadm hmem hz
  code hr hpc := by
    obtain ⟨s, hr, h, hi⟩ := run_watch hS hn hpos hr
    rw [h.log]
    cases hi with
    | running hrun => exact (hrun _ (h.pc ▸ hpc)).elim
    | returned hpc' hc =>
      obtain rfl := Pc.returned.inj (hpc.symm.trans (h.pc.trans hpc'))
      exact hc

theorem connection_accounting (thCount : ℕ) (sockets : List Fd)
    (hlen : sockets.length = thCount) (hn : sockets.Nodup) (hpos : ∀ fd ∈ sockets, 0 ≤ fd) :
    Accounting pollSelector thCount sockets ∧ Accounting epollSelector thCount sockets := by
  subst hlen
  exact ⟨accounting PollRSelector.refines hn hpos, accounting Epoll.refines hn hpos⟩

theorem connection_accounting_two :
    let ls := [.add true, .add true, .prepared, .wait (.batch [(4, POLLIN), (3, POLLHUP)]),
      .next 3 POLLHUP true, .next 4 POLLIN false, .exhausted, .finished]
    ∃ u, run (step pollSelector) (start pollSelector 2 [3, 4]) ls = some u ∧
      u.log.removed.Perm [3, 4] := by
  intro ls
  have h := (connection_accounting 2 [3, 4] rfl (by decide) (by decide)).1
  obtain ⟨u, hu, hpc⟩ : ∃ u, run (step pollSelector) (start pollSelector 2 [3, 4]) ls = some u ∧
      u.pc = .returned 0 := ⟨_, rfl, rfl⟩
  exact ⟨u, hu, (h.code hu hpc).mp rfl⟩

end NetworkPing.Client
