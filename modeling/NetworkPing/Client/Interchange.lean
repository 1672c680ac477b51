import NetworkPing.Client.ConnectionAccounting

namespace NetworkPing.Client

open Machine

variable {σ : Type}

def State.code (s : State σ) : Option ℤ :=
  match s.pc with
  | .returned code => some code
  | _ => none

def Label.outcome : Label → Option Outcome
  | .wait o => some o
  | _ => none

def Drives (S : RSelector σ) (accepts : Fd → Bool) (results : ℕ → Bool) (u : State σ) :
    Label → Prop
  | .add ok => u.pc.toAdd.head?.map accepts = some ok
  | .wait (.batch events) => (events.map Prod.fst).Sublist (S.live u.sel)
  | .next _ ev answer => dispatch ev = none → answer = results u.log.calls.length
  | _ => True

instance (S : RSelector σ) (accepts : Fd → Bool) (results : ℕ → Bool) (u : State σ) :
    DecidablePred (Drives S accepts results u)
  | .add ok => inferInstanceAs (Decidable (_ = some ok))
  | .wait (.batch events) => inferInstanceAs (Decidable ((events.map Prod.fst).Sublist _))
  | .next _ ev answer => inferInstanceAs (Decidable (dispatch ev = none → answer = _))
  | .wait .interrupted | .wait .fatal | .prepared | .finished | .exhausted => isTrue trivial

/-- The run `ls` from `sockets` to `u` in which `epoll_ctl` answers with `accepts`, the
waits with `outcomes` and `process_message` with `results`, up to the return of
`run_test` or to the last outcome. -/
structure Driven (S : RSelector σ) (sockets : List Fd) (accepts : Fd → Bool)
    (outcomes : List Outcome) (results : ℕ → Bool) (ls : List Label) (u : State σ) : Prop where
  run : run (step S) (start S sockets.length sockets) ls = some u
  along : Along (step S) (Drives S accepts results) (start S sockets.length sockets) ls
  waits : ls.filterMap Label.outcome <+: outcomes
  ends : u.code.isSome ∨
    u.pc = .head ∧ 0 < u.fdLeft ∧ ls.filterMap Label.outcome = outcomes

variable (results : ℕ → Bool) (n : ℕ)

def book (log : Log) (e : Fd × UInt32) : Log := log.note e.1 e.2 (results log.calls.length)

def expect (retry : Bool) : Log → List Outcome → Log × Option ℤ
  | log, [] => (log, if n ≤ log.removed.length then some 0 else none)
  | log, o :: os =>
    if n ≤ log.removed.length then (log, some 0)
    else match o with
      | .batch events => expect retry (events.foldl (book results) log) os
      | .interrupted => if retry then expect retry log os else (log, some 1)
      | .fatal => (log, some 1)

def Quiet (retry : Bool) : List Outcome → Prop
  | [] => False
  | .batch events :: os => (∀ e ∈ events, e.2 = 0) ∧ Quiet retry os
  | .interrupted :: os => retry → Quiet retry os
  | .fatal :: _ => True

def Steady : Log → List Outcome → Prop
  | _, [] => True
  | log, o :: os => n ≤ log.removed.length ∨ match o with
    | .batch events => Steady (events.foldl (book results) log) os
    | .interrupted => Quiet true os
    | .fatal => True

def Interchangeable (sockets : List Fd) (accepts : Fd → Bool) (outcomes : List Outcome) : Prop :=
  if sockets.all accepts then Steady results sockets.length {} outcomes else Quiet false outcomes

variable {results n}

lemma dispatch_false {ev : UInt32} : dispatch ev = some false ↔ ev = 0 := by
  constructor
  · intro h
    rw [dispatch] at h
    split_ifs at h
    all_goals simp_all
  · rintro rfl
    decide

def Log.size (log : Log) : ℕ := log.calls.length + log.removed.length

lemma note_zero (log : Log) (fd : Fd) (answer : Bool) : log.note fd 0 answer = log := by
  simp [Log.note, closeSock, dispatch_false.mpr rfl]

lemma size_note (log : Log) (fd : Fd) {ev : UInt32} (hev : ev ≠ 0) (answer : Bool) :
    log.size < (log.note fd ev answer).size := by
  rw [Ne, ← dispatch_false] at hev
  cases hd : dispatch ev with
  | none =>
    have hle : log.removed.length ≤ (log.note fd ev answer).removed.length := by
      rw [Log.note]
      split_ifs <;> simp
    have hlt : log.calls.length < (log.note fd ev answer).calls.length := by
      simp [Log.note, hd]
    rw [Log.size, Log.size]
    omega
  | some b =>
    cases b with
    | false => exact (hev hd).elim
    | true => simp [Log.note, Log.size, closeSock, hd]

lemma size_book (log : Log) (e : Fd × UInt32) : log.size ≤ (book results log e).size := by
  by_cases he : e.2 = 0
  · rw [book, he, note_zero]
  · exact (size_note log e.1 he _).le

lemma size_foldl (log : Log) (events : Batch) :
    log.size ≤ (events.foldl (book results) log).size := by
  induction events generalizing log with
  | nil => rfl
  | cons e events ih => exact (size_book log e).trans (ih _)

lemma foldl_of_zero {log : Log} {events : Batch} (h : ∀ e ∈ events, e.2 = 0) :
    events.foldl (book results) log = log := by
  induction events with
  | nil => rfl
  | cons e events ih =>
    obtain ⟨he, hes⟩ := List.forall_mem_cons.mp h
    rw [List.foldl_cons, book, he, note_zero, ih hes]

lemma size_foldl_lt {log : Log} {events : Batch} (h : ¬ ∀ e ∈ events, e.2 = 0) :
    log.size < (events.foldl (book results) log).size := by
  induction events generalizing log with
  | nil => exact (h nofun).elim
  | cons e events ih =>
    by_cases he : e.2 = 0
    · rw [List.foldl_cons, book, he, note_zero]
      exact ih fun hes => h (List.forall_mem_cons.mpr ⟨he, hes⟩)
    · exact (size_note log e.1 he _).trans_le (size_foldl _ events)

lemma expect_closed {retry : Bool} {log : Log} (h : n ≤ log.removed.length) (os : List Outcome) :
    expect results n retry log os = (log, some 0) := by
  cases os with
  | nil => rw [expect, if_pos h]
  | cons o os => cases o <;> rw [expect, if_pos h]

lemma size_expect {retry : Bool} (log : Log) (os : List Outcome) :
    log.size ≤ (expect results n retry log os).1.size := by
  induction os generalizing log with
  | nil => rfl
  | cons o os ih =>
    by_cases h : n ≤ log.removed.length
    · rw [expect_closed h]
    cases o with
    | batch events =>
      rw [expect, if_neg h]
      exact (size_foldl log events).trans (ih _)
    | interrupted =>
      rw [expect, if_neg h]
      cases retry with
      | false => rfl
      | true => exact ih log
    | fatal => rw [expect, if_neg h]

lemma expect_quiet {retry : Bool} {log : Log} (h : ¬ n ≤ log.removed.length)
    (os : List Outcome) : (log, some 1) = expect results n retry log os ↔ Quiet retry os := by
  induction os with
  | nil => simp [expect, h, Quiet]
  | cons o os ih =>
    cases o with
    | batch events =>
      rw [expect, if_neg h]
      by_cases hz : ∀ e ∈ events, e.2 = 0
      · rw [foldl_of_zero hz, ih, Quiet, and_iff_right hz]
      · rw [Quiet, iff_false_intro hz, false_and, iff_false]
        intro he
        have hlt : log.size < (events.foldl (book results) log).size := size_foldl_lt hz
        have hle : (events.foldl (book results) log).size ≤
            (expect results n retry (events.foldl (book results) log) os).1.size :=
          size_expect _ os
        rw [← he] at hle
        exact absurd hle (not_le.mpr hlt)
    | interrupted =>
      rw [expect, if_neg h]
      cases retry with
      | false => simp [Quiet]
      | true => simpa [Quiet] using ih
    | fatal => simp [expect, h, Quiet]

lemma expect_steady (log : Log) (os : List Outcome) :
    expect results n false log os = expect results n true log os ↔ Steady results n log os := by
  induction os generalizing log with
  | nil => simp [expect, Steady]
  | cons o os ih =>
    by_cases h : n ≤ log.removed.length
    · simp [expect_closed h, Steady, h]
    · cases o with
      | batch events => simpa [expect, Steady, h] using ih _
      | interrupted => simpa [expect, Steady, h] using expect_quiet h os
      | fatal => simp [expect, Steady, h]

def Backend.retries : Backend → Bool
  | poll => false
  | epoll => true

variable {k : Backend} {S : RSelector σ} {R : σ → Watch → Prop} {sockets : List Fd}
  {accepts : Fd → Bool} {u v : State σ} {s t : State Watch} {l : Label}

def Backend.registers (accepts : Fd → Bool) (rest : List Fd) : Backend → Bool
  | poll => true
  | epoll => rest.all accepts

def resume (accepts : Fd → Bool) (results : ℕ → Bool) (n : ℕ) (k : Backend) (s : State Watch)
    (os : List Outcome) : Log × Option ℤ :=
  match s.pc with
  | .adding rest =>
    if k.registers accepts rest then expect results n k.retries s.log os else (s.log, some 1)
  | .head => expect results n k.retries s.log os
  | .events => expect results n k.retries (s.sel.pending.foldl (book results) s.log) os
  | .returned code => (s.log, some code)

lemma ready_of_notMem {events : Batch} {fd : Fd} (h : fd ∉ events.map Prod.fst) :
    ready events fd = none := by
  cases he : ready events fd with
  | none => rfl
  | some e =>
    obtain ⟨rfl, hmem, _⟩ := ready_some he
    exact (h (List.mem_map_of_mem hmem)).elim

lemma ready_cons_self {events : Batch} {e : Fd × UInt32} :
    ready (e :: events) e.1 = if e.2 = 0 then none else some e := by
  obtain ⟨fd, ev⟩ := e
  simp [ready]

lemma ready_cons_of_ne {events : Batch} {fd : Fd} {e : Fd × UInt32} (h : fd ≠ e.1) :
    ready (e :: events) fd = ready events fd := by
  obtain ⟨x, ev⟩ := e
  have hx : (fd == x) = false := beq_false_of_ne h
  simp only [ready, List.lookup_cons, hx]

lemma arrange_ordered {live : List Fd} {events : Batch} (hn : live.Nodup)
    (h : (events.map Prod.fst).Sublist live) :
    live.filterMap (ready events) = events.filter (·.2 ≠ 0) := by
  induction live generalizing events with
  | nil =>
    obtain rfl := List.map_eq_nil_iff.mp (List.sublist_nil.mp h)
    rfl
  | cons fd live ih =>
    obtain ⟨hfd, hlive⟩ := List.nodup_cons.mp hn
    cases events with
    | nil => simp [ready]
    | cons e events =>
      cases h with
      | cons _ h =>
        rw [List.filterMap_cons_none (ready_of_notMem fun hmem => hfd (h.subset hmem)), ih hlive h]
      | cons_cons _ h =>
        have hrest : live.filterMap (ready (e :: events)) = live.filterMap (ready events) := by
          apply List.filterMap_congr
          intro x hx
          exact ready_cons_of_ne (ne_of_mem_of_not_mem hx hfd)
        rw [List.filterMap_cons, ready_cons_self, hrest, ih hlive h]
        by_cases he : e.2 = 0 <;> simp [he]

lemma foldl_arrange (results : ℕ → Bool) (k : Backend) {live : List Fd} {events : Batch}
    (hn : live.Nodup) (h : (events.map Prod.fst).Sublist live) (log : Log) :
    (k.arrange live events).foldl (book results) log = events.foldl (book results) log := by
  cases k with
  | epoll => rfl
  | poll =>
    rw [Backend.arrange, arrange_ordered hn h, List.foldl_filter]
    congr 1
    funext log e
    by_cases he : e.2 = 0
    · simp [book, he, note_zero]
    · simp [he]

lemma Open.removed_lt (h : Open sockets s) :
    s.log.removed.length < sockets.length ↔ 0 < s.fdLeft := by
  have hlen := h.sockets.length_eq
  have hleft := h.fdLeft
  rw [List.length_append, List.length_append] at hlen
  omega

lemma handle_pc (fd : Fd) (ev : UInt32) (answer : Bool) :
    (handle S u fd ev answer).pc = u.pc := by
  rw [handle]
  split_ifs <;> rfl

lemma handle_log (fd : Fd) (ev : UInt32) (answer : Bool) :
    (handle S u fd ev answer).log = u.log.note fd ev answer := by
  rw [handle]
  split_ifs <;> rfl

lemma note_book {log : Log} {fd : Fd} {ev : UInt32} {answer : Bool}
    (h : dispatch ev = none → answer = results log.calls.length) :
    log.note fd ev answer = book results log (fd, ev) := by
  rw [book]
  cases hd : dispatch ev with
  | none => rw [h hd]
  | some b => simp only [Log.note, closeSock, hd, Option.getD_some]

lemma step_resume (hn : sockets.Nodup) (hi : Inv sockets s)
    (hd : Drives (watchSelector k) accepts results s l) (hs : step (watchSelector k) s l = some t)
    (os : List Outcome) :
    resume accepts results sockets.length k s (l.outcome.toList ++ os) =
      resume accepts results sockets.length k t os := by
  have hm := step_moves hs
  have ho : Open sockets s := by
    apply hi.open
    intro code hpc
    cases hm <;> simp_all
  cases hm with
  | @added fd rest ok sel hpc ha =>
    have hok : accepts fd = ok := by simpa [Drives, hpc, Pc.toAdd] using hd
    have hreg : k.registers accepts (fd :: rest) = k.registers accepts rest := by
      cases k with
      | poll => rfl
      | epoll =>
        obtain rfl : ok = true := Watch.addFd_epoll ha
        simp [Backend.registers, hok]
    simp [resume, hpc, Label.outcome, hreg]
  | @refused fd rest ok hpc ha =>
    have hok : accepts fd = ok := by simpa [Drives, hpc, Pc.toAdd] using hd
    have hroom : 0 < s.sel.room := by
      rw [ho.room, hpc]
      exact Nat.succ_pos _
    obtain ⟨rfl, rfl⟩ := Watch.addFd_none ha hroom
    simp [resume, hpc, Backend.registers, hok]
  | prepared hpc =>
    have hreg : k.registers accepts [] = true := by cases k <;> rfl
    simp [resume, hpc, Label.outcome, hreg]
  | @failed o hpc hf _ hw =>
    have hlt := not_le.mpr (ho.removed_lt.mpr hf)
    cases o with
    | batch events => cases hw
    | interrupted =>
      cases k with
      | epoll => cases hw
      | poll => simp [resume, hpc, Label.outcome, expect, hlt, Backend.retries]
    | fatal => simp [resume, hpc, Label.outcome, expect, hlt]
  | @again o hpc hf _ hw =>
    have hlt := not_le.mpr (ho.removed_lt.mpr hf)
    cases o with
    | batch events => cases hw
    | interrupted =>
      cases k with
      | poll => cases hw
      | epoll => simp [resume, hpc, Label.outcome, expect, hlt, Backend.retries]
    | fatal => cases hw
  | waited hpc hf _ hw =>
    have hlt := not_le.mpr (ho.removed_lt.mpr hf)
    obtain ⟨events, rfl, rfl⟩ := Watch.wait_ready hw
    have hbatch := foldl_arrange results k (ho.nodup hn) hd s.log
    simp [resume, hpc, Label.outcome, expect, hlt, Watch.waited, hbatch]
  | finished hpc hf =>
    have hle := not_lt.mp (ho.removed_lt.not.mpr hf)
    simp [resume, hpc, Label.outcome, expect_closed hle]
  | @handled fd ev answer sel hpc he =>
    obtain ⟨es, hp, rfl⟩ := Watch.next_some he
    have hlog : s.log.note fd ev answer = book results s.log (fd, ev) := note_book hd
    simp [resume, handle_pc, handle_log, handle_pending, hpc, hp, hlog, Label.outcome]
  | exhausted hpc he =>
    obtain ⟨hp, rfl⟩ := Watch.next_none he
    simp [resume, hpc, hp, Label.outcome]

lemma Same.drives (hS : Refines S k R) (h : Same R u s) (hd : Drives S accepts results u l) :
    Drives (watchSelector k) accepts results s l := by
  cases l with
  | add ok => simpa only [Drives, ← h.pc] using hd
  | wait o =>
    cases o with
    | batch events => simpa only [Drives, watchSelector, ← hS.live h.sel] using hd
    | interrupted => trivial
    | fatal => trivial
  | next fd ev answer => exact fun he => h.log ▸ hd he
  | _ => exact hd

lemma outcomes_cons (l : Label) (ls : List Label) :
    (l :: ls).filterMap Label.outcome = l.outcome.toList ++ ls.filterMap Label.outcome := by
  cases ho : l.outcome <;> simp [ho]

lemma run_resume {ls : List Label} (hS : Refines S k R) (hn : sockets.Nodup)
    (hpos : ∀ fd ∈ sockets, 0 ≤ fd) (h : Same R u s) (hi : Inv sockets s)
    (hr : run (step S) u ls = some v) (hd : Along (step S) (Drives S accepts results) u ls)
    (os : List Outcome) : ∃ t, Same R v t ∧ Inv sockets t ∧
      resume accepts results sockets.length k s (ls.filterMap Label.outcome ++ os) =
        resume accepts results sockets.length k t os := by
  induction ls generalizing u s with
  | nil =>
    cases Option.some.inj hr
    exact ⟨s, h, hi, rfl⟩
  | cons l ls ih =>
    obtain ⟨w, hs, hr⟩ := run_cons_some.mp hr
    obtain ⟨hl, hd⟩ := hd
    simp only [hs] at hd
    obtain ⟨t, ht, hw⟩ := h.step hS hn hpos hi hs
    obtain ⟨x, hx, hix, he⟩ := ih hw (step_inv hn hi ht) hr hd
    refine ⟨x, hx, hix, ?_⟩
    have hstep := step_resume hn hi (h.drives hS hl) ht (ls.filterMap Label.outcome ++ os)
    rw [outcomes_cons, List.append_assoc, hstep, he]

lemma Driven.expect {ls : List Label} {outcomes : List Outcome} (hS : Refines S k R)
    (hn : sockets.Nodup) (hpos : ∀ fd ∈ sockets, 0 ≤ fd)
    (h : Driven S sockets accepts outcomes results ls u) :
    (u.log, u.code) = if k.registers accepts sockets then
      expect results sockets.length k.retries {} outcomes else ({}, some 1) := by
  obtain ⟨os, ho⟩ := h.waits
  obtain ⟨t, ht, hi, he⟩ := run_resume hS hn hpos (same_start hS sockets.length sockets)
    (inv_start sockets) h.run h.along os
  rw [ho] at he
  refine Eq.trans ?_ he.symm
  rw [ht.log]
  rcases h.ends with hc | ⟨hpc, hf, hall⟩
  · rw [State.code] at hc ⊢
    split at hc
    next code hpc => simp only [resume, ← ht.pc, hpc]
    next => cases hc
  · have hlt := (hi.open (by simp [← ht.pc, hpc])).removed_lt.mpr (ht.fdLeft ▸ hf)
    rw [hall, List.append_right_eq_self] at ho
    simp [resume, State.code, ← ht.pc, hpc, ho, Client.expect, hlt]

theorem interchangeable (sockets : List Fd) (accepts : Fd → Bool) (outcomes : List Outcome)
    (results : ℕ → Bool) (hn : sockets.Nodup) (hpos : ∀ fd ∈ sockets, 0 ≤ fd)
    {ls ks : List Label} {u : State PollRSelector} {v : State Epoll}
    (hu : Driven pollSelector sockets accepts outcomes results ls u)
    (hv : Driven epollSelector sockets accepts outcomes results ks v) :
    u.log = v.log ∧ u.code = v.code ↔ Interchangeable results sockets accepts outcomes := by
  have hpoll : (u.log, u.code) = expect results sockets.length false {} outcomes :=
    hu.expect PollRSelector.refines hn hpos
  have hepoll := hv.expect Epoll.refines hn hpos
  rw [← Prod.mk.injEq, hpoll, Interchangeable]
  by_cases hall : sockets.all accepts
  · rw [hepoll.trans (if_pos hall), if_pos hall]
    exact expect_steady {} outcomes
  · rw [hepoll.trans (if_neg hall), if_neg hall, eq_comm]
    apply expect_quiet
    rw [not_le]
    apply List.length_pos_of_ne_nil
    rintro rfl
    exact hall rfl

theorem interchangeable_two :
    let outcomes := [.batch [(3, POLLIN), (4, POLLHUP)], .batch [(3, POLLIN)]]
    let results := fun i => decide (i = 0)
    ∃ ls ks u v, Driven pollSelector [3, 4] (fun _ => true) outcomes results ls u ∧
      Driven epollSelector [3, 4] (fun _ => true) outcomes results ks v ∧
      u.log = v.log ∧ u.code = v.code := by
  intro outcomes results
  let ls : List Label := [.add true, .add true, .prepared,
    .wait (.batch [(3, POLLIN), (4, POLLHUP)]), .next 3 POLLIN true, .next 4 POLLHUP true,
    .exhausted, .wait (.batch [(3, POLLIN)]), .next 3 POLLIN false, .exhausted, .finished]
  obtain ⟨u, hu⟩ : ∃ u, Driven pollSelector [3, 4] (fun _ => true) outcomes results ls u :=
    ⟨_, rfl, by decide, by decide, .inl rfl⟩
  obtain ⟨v, hv⟩ : ∃ v, Driven epollSelector [3, 4] (fun _ => true) outcomes results ls v :=
    ⟨_, rfl, by decide, by decide, .inl rfl⟩
  refine ⟨ls, ls, u, v, hu, hv, ?_⟩
  apply (interchangeable [3, 4] _ outcomes results (by decide) (by decide) hu hv).mpr
  exact .inr (.inr trivial)

theorem interchange_interrupted :
    let outcomes := [.interrupted, .batch [(3, POLLHUP)]]
    ∃ ls ks u v, Driven pollSelector [3] (fun _ => true) outcomes (fun _ => true) ls u ∧
      Driven epollSelector [3] (fun _ => true) outcomes (fun _ => true) ks v ∧
      ¬ (u.log = v.log ∧ u.code = v.code) := by
  intro outcomes
  refine ⟨[.add true, .prepared, .wait .interrupted],
    [.add true, .prepared, .wait .interrupted, .wait (.batch [(3, POLLHUP)]),
      .next 3 POLLHUP true, .exhausted, .finished], _, _,
    ⟨rfl, by decide, by decide, .inl rfl⟩, ⟨rfl, by decide, by decide, .inl rfl⟩, ?_⟩
  decide

end NetworkPing.Client
