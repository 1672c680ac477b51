import NetworkPing.Report.Pipeline
import NetworkPing.Server.MainLoopAnswers

namespace NetworkPing.Report

open MainLoop (Label State Tested)
open RunTest (Outcomes testEvents recorded)

variable {α : Type}

def log2Server (singleShot : Bool) (clientIpAddrs : List α) : MainLoop.Config α where
  base := 2
  bucket latency := (log2_64 latency).getD 0
  log2Lat := true
  singleShot := singleShot
  clientIpAddrs := clientIpAddrs

theorem answers_reported (singleShot : Bool) (clientIpAddrs : List α) {ls : List Label}
    {s : State α} (hr : Machine.run (MainLoop.step (log2Server singleShot clientIpAddrs))
      MainLoop.start ls = some s) {sock : Fd} {responce : List Char} {rc : ℤ}
    (h : .answered sock responce rc ∈ s.events) (utime stime ctime : ℕ) (data : RunData)
    (hd : measured utime stime ctime responce >>= Measured.runData = .ok data) :
    ∃ (params : TestParams)
      (o : Outcomes α (log2Server singleShot clientIpAddrs).bucket params 3)
      (before after : List Label), ls = before ++ .write rc :: after ∧
      Tested (log2Server singleShot clientIpAddrs) before sock o ∧
      o.connect.state.sockets.length = params.numConn.toInt ∧
      let runs := fun i => (o.workers i).toFinished
      (testEvents runs).countP Worker.Event.answers ≤ data.messages ∧
      data.messages ≤ (testEvents runs).countP Worker.Event.answers + params.numConn.toInt ∧
      ((∀ i, (Worker.clock (RunTest.workerConfig (log2Server singleShot clientIpAddrs).bucket
          params) (runs i).labels).Pairwise (· ≤ ·)) →
        ∀ r, data.lat50 = some r ∨ data.lat95 = some r →
          ∃ d ∈ recorded runs, d = 0 ∧ r.ns = 9223372036 * 10 ^ 9 ∨ r.ns ≤ d ∧ d < 4 * r.ns) := by
  obtain ⟨before, after, res, rfl, ⟨params, o, htested, hres⟩, rfl⟩ :=
    (MainLoop.run_answers hr).answers sock responce rc h
  have hcount := RunTest.connected_count o htested.connected
  have hthreads := hres.threads
  have hmess := (record_messages hd).1
  rw [hres.mcount, RunTest.aggregate_mcount] at hmess
  obtain ⟨hle, hge⟩ := RunTest.aggregate_answers o.workers o.distinct (by omega)
  refine ⟨params, o, before, after, rfl, htested, hcount, ?_, ?_, fun hclock r hlat => ?_⟩
  · rw [hmess]
    exact_mod_cast hle
  · rw [hmess, ← hcount]
    exact_mod_cast hge
  · exact lat_recorded
      (c := RunTest.workerConfig (log2Server singleShot clientIpAddrs).bucket params)
      (fun i => (o.workers i).toFinished) hclock hres.latMap hd hlat

lemma oneClient_answer :
    (Machine.run (MainLoop.step (log2Server true ([] : List ℕ))) MainLoop.start
      MainLoop.oneClient).map (fun s => s.events.filter fun e => e.entry.isNone) =
    some [.answered 4 (Stats.serializeToStr true
      (RunTest.aggregate 2 1 (RunTest.tresults oneLatency)).value) 49] := by
  decide +kernel

lemma oneClient_runs {before after : List Label} {rc : ℤ} {params : TestParams}
    {o : Outcomes ℕ (log2Server true ([] : List ℕ)).bucket params 3}
    (he : MainLoop.oneClient = before ++ .write rc :: after)
    (h : Tested (log2Server true []) before 4 o) (c : Worker.Config)
    (i : Fin (RunTest.threads params 3).toNat) :
    (Worker.clock c (o.workers i).labels).Pairwise (· ≤ ·) := by
  obtain ⟨pre, buff, recvs, efds, runs, undef, -, rfl, -, -, hlabels⟩ := h.called
  have htest : .test o.write runs undef ∈ MainLoop.oneClient := by
    rw [he]
    simp
  simp only [MainLoop.oneClient, List.mem_cons, reduceCtorEq, Label.test.injEq, List.not_mem_nil,
    false_or, or_false] at htest
  rw [hlabels, htest.2.1, Worker.clock]
  cases hp : ping c.messageLen 3 3 with
  | false =>
    simp only [List.filterMap_cons, List.filterMap_nil, hp, Bool.false_eq_true, if_false]
    decide
  | true =>
    simp only [List.filterMap_cons, List.filterMap_nil, hp, if_true]
    decide

theorem answers_reported_one : ∃ data : RunData, data.lat50 = some ⟨2, .ns⟩ ∧
    ∃ (params : TestParams) (o : Outcomes ℕ (log2Server true ([] : List ℕ)).bucket params 3)
      (before after : List Label), MainLoop.oneClient = before ++ .write 49 :: after ∧
      Tested (log2Server true []) before 4 o ∧
      o.connect.state.sockets.length = params.numConn.toInt ∧
      let runs := fun i => (o.workers i).toFinished
      (testEvents runs).countP Worker.Event.answers ≤ data.messages ∧
      data.messages ≤ (testEvents runs).countP Worker.Event.answers + params.numConn.toInt ∧
      ∃ d ∈ recorded runs, d = 0 ∧ Readable.ns ⟨2, .ns⟩ = 9223372036 * 10 ^ 9 ∨
        Readable.ns ⟨2, .ns⟩ ≤ d ∧ d < 4 * Readable.ns ⟨2, .ns⟩ := by
  obtain ⟨s, hr, he⟩ := Option.map_eq_some_iff.mp oneClient_answer
  obtain ⟨data, hdata, h50, -⟩ := record_of_lats 0 0 1 (sent_oneLatency ▸ getLats_oneBucket)
  have htwo : Readable.ofNs 2 = some ⟨2, .ns⟩ := by decide +kernel
  have hm : .answered 4 (Stats.serializeToStr true
      (RunTest.aggregate 2 1 (RunTest.tresults oneLatency)).value) 49 ∈ s.events :=
    List.mem_of_mem_filter (he ▸ List.mem_singleton_self _)
  obtain ⟨params, o, before, after, hls, htested, hlen, hle, hge, hlat⟩ :=
    answers_reported true [] hr hm 0 0 1 data hdata
  exact ⟨data, h50.trans htwo, params, o, before, after, hls, htested, hlen, hle, hge,
    hlat (fun i => oneClient_runs hls htested _ i) ⟨2, .ns⟩ (.inl (h50.trans htwo))⟩

end NetworkPing.Report
