import NetworkPing.Grouping
import NetworkPing.Server.Sharding

namespace NetworkPing

namespace Worker

inductive Event
  | counted (fd : Fd)
  | noted (fd : Fd) (bucket : ℕ)
  | answered (fd : Fd)
  deriving DecidableEq

namespace Event

def fd : Event → Fd
  | counted fd | noted fd _ | answered fd => fd

def counts : Event → Bool
  | counted _ => true
  | _ => false

def answers : Event → Bool
  | answered _ => true
  | _ => false

def bucket? : Event → Option ℕ
  | noted _ bucket => some bucket
  | _ => none

def answered? : Event → Option Fd
  | answered fd => some fd
  | _ => none

end Event

def events (c : Config) (s : State) : Label → List Event
  | .done false => if s.pc = .polled then s.sel.ready.map .counted else []
  | .next fd _ =>
    if fd ∈ s.lastTimeForSocket then [.noted fd (c.bucket (s.currTime - ltime s fd))] else []
  | .ping fd bc wc _ => if ping c.messageLen bc wc then [.answered fd] else []
  | _ => []

structure Reported (res : TestResult) (es : List Event) : Prop where
  mcount : res.mcount = es.countP Event.counts
  lat : res.latMap.Counts (es.filterMap Event.bucket?)
  mess : res.messCountForSock.Counts (es.filterMap Event.answered?)

variable {c : Config} {s t : State} {l : Label} {fds out : List Fd} {es : List Event}
  {res : TestResult}

lemma start_reported (n : ℤ) : Reported (start n).result [] :=
  ⟨rfl, Counter.counts_empty, Counter.counts_empty⟩

lemma Reported.frame (h : Reported s.result es) (hl : events c s l = [])
    (ht : t.result = s.result) : Reported t.result (es ++ events c s l) := by
  rwa [hl, List.append_nil, ht]

lemma step_reported (h : Reported s.result es) (hl : step c s l = some t) :
    Reported t.result (es ++ events c s l) := by
  cases step_moves hl with
  | counted hpc =>
    have he : events c s (.done false) = s.sel.ready.map .counted := if_pos hpc
    rw [he]
    refine ⟨?_, ?_, ?_⟩
    · simp only [List.countP_append, List.countP_map, EPollRSelector.readyCount, h.mcount]
      simp [Function.comp_def, Event.counts]
    · simpa [List.filterMap_append, Function.comp_def, Event.bucket?] using h.lat
    · simpa [List.filterMap_append, Function.comp_def, Event.answered?] using h.mess
  | @handled fd rest draw hpc hr =>
    set s' : State := { s with sel := { s.sel with ready := rest, current := some fd } } with hs'
    have hres : (handle c s' fd draw).result = (noteLatency c s' fd).result := by
      rcases handle_cases c s' fd draw with he | he <;> rw [he]
    rw [hres, noteLatency]
    by_cases hfd : fd ∈ s.lastTimeForSocket
    · have he : events c s (.next fd draw) = [.noted fd (c.bucket (s.currTime - ltime s fd))] :=
        if_pos hfd
      rw [if_pos hfd, he]
      refine ⟨?_, ?_, ?_⟩
      · simpa [Event.counts] using h.mcount
      · rw [List.filterMap_append]
        exact h.lat.add _
      · simpa [List.filterMap_cons, Event.answered?] using h.mess
    · have he : events c s (.next fd draw) = [] := if_neg hfd
      rw [if_neg hfd, he, List.append_nil]
      exact h
  | @answered fd rest bc wc now hpc hp =>
    have he : events c s (.ping fd bc wc now) = [.answered fd] := if_pos hp
    rw [he]
    refine ⟨?_, ?_, ?_⟩
    · simpa [Event.counts] using h.mcount
    · simpa [List.filterMap_cons, Event.bucket?] using h.lat
    · rw [List.filterMap_append]
      exact h.mess.add fd
  | broken hpc hp => exact h.frame (if_neg hp) rfl
  | pushed hpc | pinging hpc => exact h.frame (if_neg (by simp [hpc])) rfl
  | _ => exact h.frame rfl rfl

lemma events_held (hl : step c s l = some t) : ∀ e ∈ events c s l, e.fd ∈ held s := by
  intro e he
  cases step_moves hl with
  | counted hpc =>
    rw [events, if_pos hpc] at he
    obtain ⟨fd, hfd, rfl⟩ := List.mem_map.mp he
    exact List.mem_append_left _ hfd
  | @handled fd rest draw hpc hr =>
    rw [events] at he
    split_ifs at he with hfd
    · rw [List.mem_singleton.mp he]
      exact List.mem_append_left _ (hr ▸ List.mem_cons_self)
    · cases he
  | answered hpc hp =>
    rw [events, if_pos hp, List.mem_singleton] at he
    subst he
    simp [held, unpinged, hpc, Event.fd]
  | broken hpc hp =>
    rw [events, if_neg hp] at he
    cases he
  | pushed hpc | pinging hpc =>
    rw [events, if_neg (by simp [hpc])] at he
    cases he
  | _ => cases he

def Finished.events {n : ℤ} (r : Finished c n) : List Event :=
  Machine.collect (step c) (Worker.events c) (start n) r.labels

lemma Served.reported_events {n : ℤ} (r : Served c n fds) :
    Reported r.state.result r.events ∧ ∀ e ∈ r.events, e.fd ∈ fds := by
  refine (Machine.run_collected (fun s out es => Accounts fds s out ∧ Reported s.result es ∧
    ∀ e ∈ es, e.fd ∈ fds) ?_ ⟨start_accounts fds n, start_reported n, by simp⟩ r.run
    r.reported).2
  rintro s out es l t out' ⟨ha, hr, hfds⟩ hl hm
  refine ⟨step_accounts ha hl hm, step_reported hr hl, fun e he => ?_⟩
  rcases List.mem_append.mp he with he | he
  · exact hfds e he
  · have hheld := events_held hl e he
    exact ha.known ((ha.owned (step_running hl)).mem_iff.mpr hheld)

def history (es : List Event) (fd : Fd) : History :=
  let own := es.filter (·.fd = fd)
  ⟨own.countP Event.answers, own.filterMap Event.bucket?, own.countP Event.counts⟩

lemma history_pings (es : List Event) (fd : Fd) :
    (history es fd).pings = es.count (.answered fd) := by
  rw [history, List.countP_filter, List.count]
  apply List.countP_congr
  intro e _
  rw [Bool.and_eq_true, decide_eq_true_eq, beq_iff_eq]
  cases e <;> simp [Event.answers, Event.fd]

lemma own_answered (es : List Event) (fd : Fd) :
    (es.filter (·.fd = fd)).filterMap Event.answered? =
      List.replicate (history es fd).pings fd := by
  rw [history, List.eq_replicate_iff]
  constructor
  · rw [List.length_filterMap_eq_countP]
    apply List.countP_congr
    intro e _
    cases e <;> simp [Event.answered?, Event.answers]
  · intro x hx
    obtain ⟨e, he, hex⟩ := List.mem_filterMap.mp hx
    have hfd := of_decide_eq_true (List.mem_filter.mp he).2
    cases e with
    | answered => exact (Option.some.inj hex).symm.trans hfd
    | _ => cases hex

lemma Reported.summarizes (h : Reported res es) (hn : fds.Nodup) (hfds : ∀ e ∈ es, e.fd ∈ fds) :
    res.Summarizes (history es) fds := by
  have hperm := perm_flatMap_filter Event.fd hn hfds
  refine ⟨?_, h.lat.perm ?_, h.mess.perm ?_⟩
  · rw [h.mcount, ← hperm.countP_eq, List.countP_flatMap]
    rfl
  · refine (hperm.filterMap _).symm.trans (.of_eq ?_)
    rw [List.filterMap_flatMap]
    rfl
  · refine (hperm.filterMap _).symm.trans (.of_eq ?_)
    simp only [List.filterMap_flatMap, own_answered]

end Worker

lemma TestResult.Summarizes.congr {res : TestResult} {h h' : Fd → History} {fds : List Fd}
    (hs : res.Summarizes h fds) (hh : ∀ fd ∈ fds, h fd = h' fd) : res.Summarizes h' fds where
  mcount := hs.mcount.trans
    (congrArg List.sum (List.map_congr_left fun fd hfd => by rw [hh fd hfd]))
  lat := hs.lat.perm (.of_eq (List.flatMap_congr fun fd hfd => by rw [hh fd hfd]))
  mess := hs.mess.perm (.of_eq (List.flatMap_congr fun fd hfd => by rw [hh fd hfd]))

namespace RunTest

open Worker (Event)

variable {c : Worker.Config} {sockCount : ℤ} {sockets : List Fd} {workerThreads : ℕ}

def testEvents (runs : Fin workerThreads → Worker.Finished c sockCount) : List Event :=
  (List.ofFn fun i => (runs i).events).flatten

lemma filter_flatten_ofFn {α : Type*} {n : ℕ} {f : Fin n → List α} {p : α → Bool} {i : Fin n}
    (h : ∀ j ≠ i, ∀ x ∈ f j, ¬ p x) : (List.ofFn f).flatten.filter p = (f i).filter p := by
  induction n with
  | zero => exact i.elim0
  | succ n ih =>
    rw [List.ofFn_succ, List.flatten_cons, List.filter_append]
    cases i using Fin.cases with
    | zero =>
      have hnil : ((List.ofFn fun j => f j.succ).flatten).filter p = [] := by
        rw [List.filter_eq_nil_iff]
        intro x hx
        obtain ⟨xs, hxs, hx⟩ := List.mem_flatten.mp hx
        obtain ⟨j, rfl⟩ := List.mem_ofFn.mp hxs
        exact h j.succ (Fin.succ_ne_zero j) x hx
      rw [hnil, List.append_nil]
    | succ i =>
      have hnil : (f 0).filter p = [] :=
        List.filter_eq_nil_iff.mpr (h 0 (Fin.succ_ne_zero i).symm)
      rw [hnil, List.nil_append]
      exact ih fun j hj => h j.succ ((Fin.succ_injective n).ne hj)

variable
  (runs : ∀ i : Fin workerThreads, Worker.Served c sockCount (shard sockets workerThreads i))

lemma history_shard (hs : sockets.Nodup) (i : Fin workerThreads) {fd : Fd}
    (hfd : fd ∈ shard sockets workerThreads i) :
    Worker.history (runs i).events fd =
      Worker.history (testEvents fun i => (runs i).toFinished) fd := by
  have hfilter : (testEvents fun i => (runs i).toFinished).filter (·.fd = fd) =
      (runs i).events.filter (·.fd = fd) := by
    apply filter_flatten_ofFn
    intro j hj e he hef
    have hmem := (runs j).reported_events.2 e he
    rw [of_decide_eq_true hef] at hmem
    exact hj (Fin.ext (shard_unique hs hmem hfd))
  rw [Worker.history, Worker.history, hfilter]

lemma summarized (hs : sockets.Nodup) (i : Fin workerThreads) :
    (runs i).state.result.Summarizes (Worker.history (testEvents fun i => (runs i).toFinished))
      (shard sockets workerThreads i) := by
  obtain ⟨hr, hfds⟩ := (runs i).reported_events
  have h := hr.summarizes ((shard_sublist sockets workerThreads i).nodup hs) hfds
  exact h.congr fun fd hfd => history_shard runs hs i hfd

lemma testEvents_fd {e : Event} (he : e ∈ testEvents fun i => (runs i).toFinished) :
    e.fd ∈ sockets := by
  obtain ⟨es, hes, he⟩ := List.mem_flatten.mp he
  obtain ⟨i, rfl⟩ := List.mem_ofFn.mp hes
  exact (shard_sublist sockets workerThreads i).mem ((runs i).reported_events.2 e he)

lemma countP_testEvents (p : Event → Bool) : (testEvents fun i => (runs i).toFinished).countP p =
    ((List.finRange workerThreads).map fun i => (runs i).events.countP p).sum := by
  rw [testEvents, List.countP_flatten, List.ofFn_eq_map, List.map_map]
  rfl

lemma answers_bounds (i : Fin workerThreads) :
    (runs i).events.countP Event.answers ≤ (runs i).events.countP Event.counts ∧
    (runs i).events.countP Event.counts ≤
      (runs i).events.countP Event.answers + (shard sockets workerThreads i).length := by
  have hr := (runs i).reported_events.1
  have ha := Worker.run_accounts (runs i).run (runs i).reported
  have hm := ha.mess
  have hlen := ha.out_le
  have htotal : (runs i).state.result.messCountForSock.total =
      (runs i).events.countP Event.answers := by
    rw [hr.mess.total, List.length_filterMap_eq_countP]
    apply List.countP_congr
    intro e _
    cases e <;> simp [Event.answered?, Event.answers]
  rw [htotal, hr.mcount] at hm
  exact ⟨hm.1, hm.2.trans (Nat.add_le_add_left hlen _)⟩

lemma parts_summarized (hs : sockets.Nodup) :
    List.Forall₂ (fun fds ires => ires.Summarizes
        (Worker.history (testEvents fun i => (runs i).toFinished)) fds)
      (List.ofFn fun i : Fin workerThreads => shard sockets workerThreads i)
      (tresults fun i => (runs i).toFinished) := by
  rw [tresults, List.ofFn_eq_map, List.ofFn_eq_map, List.forall₂_map_left_iff,
    List.forall₂_map_right_iff, List.forall₂_same]
  exact fun i _ => summarized runs hs i

lemma aggregate_mcount (base : ℚ) (numConn : ℤ) :
    (aggregate base numConn (tresults fun i => (runs i).toFinished)).value.mcount =
      (testEvents fun i => (runs i).toFinished).countP Event.counts := by
  rw [countP_testEvents]
  show ((tresults fun i => (runs i).toFinished).map TestResult.mcount).sum = _
  rw [tresults, List.ofFn_eq_map, List.map_map]
  exact congrArg List.sum (List.map_congr_left fun i _ => (runs i).reported_events.1.mcount)

lemma aggregate_answers (hs : sockets.Nodup) (hw : 0 < workerThreads) :
    (testEvents fun i => (runs i).toFinished).countP Event.answers ≤
      (testEvents fun i => (runs i).toFinished).countP Event.counts ∧
    (testEvents fun i => (runs i).toFinished).countP Event.counts ≤
      (testEvents fun i => (runs i).toFinished).countP Event.answers + sockets.length := by
  have hlen : sockets.length = ((List.finRange workerThreads).map fun i : Fin workerThreads =>
      (shard sockets workerThreads i).length).sum := by
    rw [← (shards_perm hs hw).length_eq, List.length_flatten, List.ofFn_eq_map, List.map_map]
    rfl
  rw [countP_testEvents, countP_testEvents, hlen, ← List.sum_map_add]
  exact ⟨List.sum_le_sum fun i _ => (answers_bounds runs i).1,
    List.sum_le_sum fun i _ => (answers_bounds runs i).2⟩

lemma aggregate_latMap (base : ℚ) (numConn : ℤ) (hs : sockets.Nodup) (hw : 0 < workerThreads) :
    (aggregate base numConn (tresults fun i => (runs i).toFinished)).value.latMap.Counts
      ((testEvents fun i => (runs i).toFinished).filterMap Event.bucket?) := by
  have hfds : ∀ e ∈ testEvents fun i => (runs i).toFinished, e.fd ∈ sockets :=
    fun e he => testEvents_fd runs he
  have hlat := (latMap_parts (parts_summarized runs hs) Counter.counts_empty).perm
    ((shards_perm hs hw).flatMap_right _)
  refine hlat.perm (.trans (.of_eq ?_) ((perm_flatMap_filter Event.fd hs hfds).filterMap _))
  rw [List.filterMap_flatMap]
  rfl

lemma aggregate_percentiles (base : ℚ) (hs : sockets.Nodup) (hw : 0 < workerThreads)
    (h1 : sockets ≠ [])
    (hpos : ∀ fd ∈ sockets, .answered fd ∈ testEvents fun i => (runs i).toFinished)
    (hlt : sockets.length * 19 < 2 ^ 31) (i : Fin 19) :
    IsOrderStatistic
      (sockets.map fun fd => (testEvents fun i => (runs i).toFinished).count (.answered fd))
      (sockets.length * (i + 1) / 20)
      (aggregate base sockets.length
        (tresults fun i => (runs i).toFinished)).value.percentiles[i] := by
  have hpings : ∀ fd ∈ sockets,
      0 < (Worker.history (testEvents fun i => (runs i).toFinished) fd).pings := by
    intro fd hfd
    rw [Worker.history_pings]
    exact List.count_pos_iff.mpr (hpos fd hfd)
  have hrank := percentile_rank hs hpings (parts_summarized runs hs) (shards_perm hs hw)
    (List.length_pos_iff.mpr h1) hlt i
  simp only [Worker.history_pings] at hrank
  exact hrank

theorem test_events (base : ℚ) (c : Worker.Config) (sockCount : ℤ) (sockets : List Fd)
    (workerThreads : ℕ) (hs : sockets.Nodup) (hw : 0 < workerThreads)
    (runs : ∀ i : Fin workerThreads, Worker.Served c sockCount (shard sockets workerThreads i)) :
    let es := testEvents fun i => (runs i).toFinished
    let res := aggregate base sockets.length (tresults fun i => (runs i).toFinished)
    res.value.mcount = es.countP Event.counts ∧
    es.countP Event.answers ≤ res.value.mcount ∧
    res.value.mcount ≤ es.countP Event.answers + sockets.length ∧
    res.value.latMap.Counts (es.filterMap Event.bucket?) ∧
    (sockets ≠ [] → (∀ fd ∈ sockets, .answered fd ∈ es) → sockets.length * 19 < 2 ^ 31 →
      ∀ i : Fin 19, IsOrderStatistic (sockets.map fun fd => es.count (.answered fd))
        (sockets.length * (i + 1) / 20) res.value.percentiles[i]) := by
  have hmcount := aggregate_mcount runs base sockets.length
  obtain ⟨hle, hge⟩ := aggregate_answers runs hs hw
  exact ⟨hmcount, hmcount ▸ hle, hmcount ▸ hge, aggregate_latMap runs base _ hs hw,
    fun h1 hpos hlt i => aggregate_percentiles runs base hs hw h1 hpos hlt i⟩

theorem test_events_one :
    let es := testEvents fun i => (twoEvents i).toFinished
    let res := aggregate 2 1 (tresults fun i => (twoEvents i).toFinished)
    es = [.counted 5, .answered 5, .counted 5, .noted 5 0] ∧
    es.countP Event.answers ≤ res.value.mcount ∧ res.value.mcount ≤ es.countP Event.answers + 1 ∧
    IsOrderStatistic [1] 0 res.value.percentiles[0] := by
  intro es res
  have h := test_events 2 ⟨3, 0, 0, fun _ => 0⟩ 1 [5] 1 (by decide) (by decide) twoEvents
  exact ⟨by decide +kernel, h.2.1, h.2.2.1,
    h.2.2.2.2 (by decide) (by decide +kernel) (by decide) 0⟩

end RunTest

end NetworkPing
