import NetworkPing.Sequences
import NetworkPing.Server.MainLoopClients

namespace NetworkPing.MainLoop

open RunTest (Check Outcomes threads maxSockCountPerWorker shard serve)

variable {α : Type} {c : Config α} {s t : State α} {l : Label} {ls ks : List Label}
  {x : Pc α × List Event} {control sock : Fd} {frame : Frame α} {params : TestParams}
  {res : TestResult} {r : Running} {runs : ℕ → List Worker.Label} {write : ℕ → ℤ}
  {undef : Option (Fin 19 → ℕ)}

structure Connecting (c : Config α) (ls : List Label) (sock : Fd) (params : TestParams)
    (ks : List ConnectAll.Label) (conn : ConnectAll.State α) (setup : List Label) : Prop where
  called : ∃ pre buff recvs, Request.processClient buff recvs = .loaded (.accepted params) ∧
    ls = pre ++ .accept sock :: .receive buff recvs :: (ks.map .connect ++ setup)
  run : Machine.run (ConnectAll.step (RunTest.connectConfig params c.clientIpAddrs))
    (ConnectAll.start (RunTest.connectConfig params c.clientIpAddrs) []) ks = some conn

structure Running.Connected (r : Running) (conn : ConnectAll.State α) : Prop where
  returned : conn.pc = .ret true
  sockets : conn.sockets = r.sockets
  perWorker : (perWorker r.params).All Check.Ok
  selectors : -1 ∉ r.selectors

structure Tested (c : Config α) (ls : List Label) (sock : Fd) {params : TestParams}
    (o : Outcomes α c.bucket params 3) : Prop where
  called : ∃ (pre : List Label) (buff : _) (recvs : _) (efds : List ℤ) (runs : _) (undef : _),
    Request.processClient buff recvs = .loaded (.accepted params) ∧
    ls = pre ++ .accept sock :: .receive buff recvs :: (o.connect.labels.map .connect ++
      (efds.map .epollCreate ++ (List.replicate o.connect.state.sockets.length (.addFd true) ++
        [.test o.write runs undef]))) ∧
    efds.length = (threads params 3).toNat ∧ -1 ∉ efds ∧ ∀ i, (o.workers i).labels = runs i
  clientIpAddrs : o.clientIpAddrs = c.clientIpAddrs
  connected : o.connect.result = true
  written : ∀ i < o.connect.state.sockets.length, o.write i = params.messageLen.toInt

/-- What `run_test` gives, but for percentiles that it has read where no element is. -/
structure ResultOf (base : ℚ) {bucket : UInt64 → ℕ} (o : Outcomes α bucket params 3)
    (res : TestResult) : Prop where
  threads : 0 < threads params 3
  mcount : res.mcount = (RunTest.aggregate base params.numConn.toInt
    (RunTest.tresults fun i => (o.workers i).toFinished)).value.mcount
  latMap : res.latMap = (RunTest.aggregate base params.numConn.toInt
    (RunTest.tresults fun i => (o.workers i).toFinished)).value.latMap
  percentiles : ∀ i : Fin 19, (RunTest.percentile params.numConn.toInt (RunTest.messageCounts
      (RunTest.tresults fun i => (o.workers i).toFinished)) i).All Check.Ok →
    res.percentiles[i] = (RunTest.aggregate base params.numConn.toInt
      (RunTest.tresults fun i => (o.workers i).toFinished)).value.percentiles[i]
  defined : (serve base params o).All Check.Ok → (serve base params o).value = some res

def Computed (c : Config α) (ls : List Label) (sock : Fd) (res : TestResult) : Prop :=
  ∃ (params : TestParams) (o : Outcomes α c.bucket params 3),
    Tested c ls sock o ∧ ResultOf c.base o res

def Answer (c : Config α) (ls : List Label) (sock : Fd) (responce : List Char) (rc : ℤ) : Prop :=
  ∃ before after res, ls = before ++ .write rc :: after ∧ Computed c before sock res ∧
    responce = Stats.serializeToStr c.log2Lat res

def Evidence (c : Config α) (ls : List Label) : Frame α → Prop
  | .accept => True
  | .receive sock => ∃ pre, ls = pre ++ [.accept sock]
  | .connect sock params _ conn => ∃ ks, Connecting c ls sock params ks conn []
  | .selectors r => ∃ ks conn, r.Connected conn ∧
      Connecting c ls r.sock r.params ks conn (r.selectors.map .epollCreate)
  | .addFds r idx => ∃ ks conn, r.Connected conn ∧ r.selectors.length = (threads r.params 3).toNat ∧
      idx ≤ r.sockets.length ∧ Connecting c ls r.sock r.params ks conn
        (r.selectors.map .epollCreate ++ List.replicate idx (.addFd true))
  | .respond sock res => Computed c ls sock res

def Pc.Evident (c : Config α) (ls : List Label) : Pc α → Prop
  | loop _ frame => Evidence c ls frame
  | _ => True

structure Answers (c : Config α) (s : State α) (ls : List Label) : Prop where
  evident : s.pc.Evident c ls
  answers : ∀ sock responce rc, .answered sock responce rc ∈ s.events →
    Answer c ls sock responce rc

lemma Answer.append {responce : List Char} {rc : ℤ} (h : Answer c ls sock responce rc)
    (ks : List Label) : Answer c (ls ++ ks) sock responce rc := by
  obtain ⟨before, after, res, rfl, hres⟩ := h
  exact ⟨before, after ++ ks, res, by simp, hres⟩

lemma Connecting.append {conn : ConnectAll.State α} {cs : List ConnectAll.Label}
    {setup : List Label} (h : Connecting c ls sock params cs conn setup) (l : Label) :
    Connecting c (ls ++ [l]) sock params cs conn (setup ++ [l]) := by
  obtain ⟨⟨pre, buff, recvs, hreq, rfl⟩, hr⟩ := h
  exact ⟨⟨pre, buff, recvs, hreq, by simp⟩, hr⟩

lemma Connecting.connect {conn conn' : ConnectAll.State α} {cs : List ConnectAll.Label}
    {k : ConnectAll.Label} (h : Connecting c ls sock params cs conn [])
    (hk : ConnectAll.step (RunTest.connectConfig params c.clientIpAddrs) conn k = some conn') :
    Connecting c (ls ++ [.connect k]) sock params (cs ++ [k]) conn' [] := by
  obtain ⟨⟨pre, buff, recvs, hreq, rfl⟩, hr⟩ := h
  exact ⟨⟨pre, buff, recvs, hreq, by simp⟩,
    Machine.run_trans hr (Machine.run_step hk Machine.run_nil)⟩

lemma workerResult_some {d : Worker.Config} {n : ℤ} {fds : List Fd} {ls : List Worker.Label}
    (h : workerResult d n fds ls = some res) :
    ∃ w : Worker.Served d n fds, w.labels = ls ∧ w.state.result = res := by
  obtain ⟨ho, w, hw, hpc, hres⟩ := workerResult_eq_some.mp h
  obtain ⟨out, ho⟩ := Option.isSome_iff_exists.mp ho
  exact ⟨⟨⟨ls, w, hw, hpc⟩, out, ho⟩, rfl, hres⟩

lemma tresults_some {tresults : List TestResult} (h : MainLoop.tresults c r runs = some tresults) :
    ∃ workers : ∀ i : Fin (threads r.params 3).toNat,
      Worker.Served (RunTest.workerConfig c.bucket r.params) (maxSockCountPerWorker r.params 3)
        (shard r.sockets (threads r.params 3).toNat i),
      (∀ i, (workers i).labels = runs i) ∧
        tresults = RunTest.tresults fun i => (workers i).toFinished := by
  have hsome (i : Fin (threads r.params 3).toNat) := mapM_isSome.mp (Option.isSome_of_eq_some h) i
    (List.mem_range.mpr i.isLt)
  simp only [Option.isSome_iff_exists] at hsome
  choose res hi using hsome
  choose workers hlabels hresult using fun i => workerResult_some (hi i)
  refine ⟨workers, hlabels, ?_⟩
  obtain ⟨hlen, hget⟩ := List.forall₂_iff_get.mp (mapM_eq_some.mp h)
  rw [List.length_range] at hlen
  apply List.ext_getElem (by rw [← hlen, RunTest.tresults, List.length_ofFn])
  intro i hlt hlt'
  have hn : i < (threads r.params 3).toNat := by rwa [hlen]
  have hi' := hget i (by rwa [List.length_range]) hlt
  simp only [List.get_eq_getElem, List.getElem_range] at hi'
  have he : tresults[i] = res ⟨i, hn⟩ := Option.some.inj (hi'.symm.trans (hi ⟨i, hn⟩))
  simp only [RunTest.tresults, List.getElem_ofFn, he, hresult]

lemma value_serve (base : ℚ) {bucket : UInt64 → ℕ} (o : Outcomes α bucket params 3)
    (hc : o.connect.result = true) (hs : o.selectorOk = fun _ => true)
    (ha : o.addFd = fun _ => true)
    (hw : ∀ i < o.connect.state.sockets.length, o.write i = params.messageLen.toInt) :
    (serve base params o).value = some (RunTest.aggregate base params.numConn.toInt
      (RunTest.tresults fun i => (o.workers i).toFinished)).value := by
  simp [serve, RunTest.runTest, RunTest.sleeps, hc, hs, ha, RunTest.not_failed hw,
    RunTest.value_createSelectors]

lemma result_some {tresults : List TestResult} (h : result c params tresults undef = some res) :
    res.mcount = (summary c params tresults).value.mcount ∧
    res.latMap = (summary c params tresults).value.latMap ∧
    (∀ i : Fin 19, (RunTest.percentile params.numConn.toInt (RunTest.messageCounts tresults)
      i).All Check.Ok →
        res.percentiles.get i = (summary c params tresults).value.percentiles.get i) ∧
    ((summary c params tresults).All Check.Ok → res = (summary c params tresults).value) := by
  rw [result] at h
  split_ifs at h with hok
  · cases h
    exact ⟨rfl, rfl, fun _ _ => rfl, fun _ => rfl⟩
  · obtain ⟨f, -, rfl⟩ := Option.map_eq_some_iff.mp h
    refine ⟨rfl, rfl, fun i hi => ?_, fun hall => (hok hall).elim⟩
    have hread : percentile params tresults f i =
        (RunTest.percentile params.numConn.toInt (RunTest.messageCounts tresults) i).value :=
      if_pos hi
    change (undefined c params tresults f).percentiles[i] =
      (summary c params tresults).value.percentiles[i]
    simp only [undefined, Fin.getElem_fin, Vector.getElem_ofFn, Fin.eta, hread]
    simp [summary, RunTest.aggregate, RunTest.messageCounts, Checked.ofFn]

def Sound (c : Config α) (ls : List Label) (x : Pc α × List Event) : Prop :=
  x.1.Evident c ls ∧
    ∀ sock responce rc, .answered sock responce rc ∈ x.2 → Answer c ls sock responce rc

lemma sound_closed {pc : Pc α} (h : pc.Evident c ls) (fds : List Fd) :
    Sound c ls (pc, fds.map .closed) := ⟨h, by simp⟩

lemma leave_sound (c : Config α) (ls : List Label) (control : Fd) (frame : Frame α) :
    Sound c ls (leave c control frame) := by
  apply sound_closed
  split_ifs <;> trivial

lemma connected_sound {efd : Option Fd} {conn : ConnectAll.State α} {cs : List ConnectAll.Label}
    (h : Connecting c ls sock params cs conn []) :
    Sound c ls (connected c control sock params efd conn) := by
  rw [connected]
  split
  next hpc =>
    dsimp only
    split_ifs with hper
    · exact sound_closed (by exact ⟨cs, conn, ⟨hpc, rfl, hper, by simp⟩, h⟩) _
    · exact sound_closed (by exact trivial) _
  · exact leave_sound ..
  · exact sound_closed (by exact ⟨cs, h⟩) []

lemma finished_computed {conn : ConnectAll.State α} {cs : List ConnectAll.Label}
    {tresults : List TestResult} (hn : r.sockets.Nodup) (hconn : r.Connected conn)
    (hsel : r.selectors.length = (threads r.params 3).toNat)
    (hcall : Connecting c ls r.sock r.params cs conn
      (r.selectors.map .epollCreate ++ List.replicate r.sockets.length (.addFd true)))
    (hbuf : (buffers r.params).All Check.Ok)
    (hw : ∀ i < r.sockets.length, write i = r.params.messageLen.toInt)
    (hres : MainLoop.tresults c r runs = some tresults)
    (hresult : result c r.params tresults undef = some res) (hrun : r.params.runtime.toInt ≠ 0) :
    Computed c (ls ++ [.test write runs undef]) r.sock res := by
  obtain ⟨workers, hlabels, rfl⟩ := tresults_some hres
  obtain ⟨hmcount, hlat, hperc, hdef⟩ := result_some hresult
  obtain ⟨sock, params, sockets, selectors⟩ := r
  obtain ⟨hpc, rfl, hper, hne⟩ := hconn
  obtain ⟨⟨pre, buff, recvs, hreq, rfl⟩, hr⟩ := hcall
  simp only [perWorker, Checked.all_bind, RunTest.all_div, RunTest.all_size, RunTest.value_div]
    at hper
  let o : Outcomes α c.bucket params 3 := ⟨c.clientIpAddrs, ⟨cs, conn, true, hr, hpc⟩, hn,
    fun _ => true, fun _ => true, write, workers⟩
  have hthreads : 0 < threads params 3 := by
    have hcount := RunTest.connected_count o rfl
    have hne : threads params 3 ≠ 0 := hper.1
    have hle : 0 ≤ threads params 3 := le_min (by omega) (by decide)
    omega
  refine ⟨params, o, ⟨⟨pre, buff, recvs, selectors, runs, undef, hreq, ?_, hsel, hne, hlabels⟩,
    rfl, rfl, hw⟩, ⟨hthreads, hmcount, hlat, hperc, fun hall => ?_⟩⟩
  · simp [o]
  · have hserve := (RunTest.all_serve c.base o rfl rfl rfl hw).mp hall
    have hsum : (summary c params (RunTest.tresults fun i => (workers i).toFinished)).All
        Check.Ok := by
      simp only [summary, RunTest.sleeps, Bool.false_eq_true, if_false, Checked.all_bind,
        RunTest.all_mul]
      exact hserve.1.2.2.2.2
    rw [hdef hsum]
    exact value_serve c.base o rfl rfl rfl hw

lemma tested_sound {conn : ConnectAll.State α} {cs : List ConnectAll.Label}
    (hn : r.sockets.Nodup) (hconn : r.Connected conn)
    (hsel : r.selectors.length = (threads r.params 3).toNat)
    (hcall : Connecting c ls r.sock r.params cs conn
      (r.selectors.map .epollCreate ++ List.replicate r.sockets.length (.addFd true)))
    (h : tested c control r write runs undef = some x) :
    Sound c (ls ++ [.test write runs undef]) x := by
  rw [tested] at h
  split at h
  · cases h
    exact sound_closed (by exact trivial) []
  next hbuf =>
  split at h
  · cases h
    exact sound_closed (by exact trivial) []
  next hw =>
  obtain ⟨tresults, hres, rfl⟩ := Option.map_eq_some_iff.mp h
  rw [finished]
  split
  · exact sound_closed (by exact trivial) []
  next res hresult =>
  split
  · exact sound_closed (by exact trivial) _
  next hrun =>
    push Not at hbuf hw
    have hcomputed := finished_computed hn hconn hsel hcall hbuf (fun i hi => (hw i hi).symm) hres
      hresult hrun
    exact sound_closed (by exact hcomputed) _

lemma move_sound {pc : Pc α} (hn : pc.owned.Nodup) (hi : pc.Evident c ls)
    (h : move c pc l = some x) : Sound c (ls ++ [l]) x := by
  rw [move.eq_def] at h
  split at h
  next ok =>
    cases h
    exact sound_closed (by split_ifs <;> trivial) []
  next fd =>
    cases h
    exact sound_closed (by split_ifs <;> trivial) []
  next control rc =>
    cases h
    exact sound_closed (by split_ifs <;> trivial) []
  next control fd =>
    cases h
    refine sound_closed ?_ []
    split_ifs
    · trivial
    · exact ⟨ls, rfl⟩
  next control sock buff recvs =>
    cases h
    obtain ⟨pre, rfl⟩ := hi
    rw [receive.eq_def]
    split
    next params hp =>
      refine sound_closed ?_ []
      exact ⟨[], ⟨pre, buff, recvs, hp, by simp⟩, rfl⟩
    · exact sound_closed (by exact trivial) []
    · exact sound_closed (by exact trivial) []
    · exact leave_sound ..
    · exact leave_sound ..
    · exact leave_sound ..
  next control sock params efd conn k =>
    obtain ⟨conn', hc, rfl⟩ := Option.map_eq_some_iff.mp h
    obtain ⟨cs, hcall⟩ := hi
    exact connected_sound (hcall.connect hc)
  next control r efd =>
    cases h
    obtain ⟨cs, conn, hconn, hcall⟩ := hi
    rw [created]
    split
    · exact leave_sound ..
    next hefd =>
      have hconn' : Running.Connected { r with selectors := r.selectors ++ [efd] } conn :=
        ⟨hconn.returned, hconn.sockets, hconn.perWorker, by
          simpa [hconn.selectors] using Ne.symm hefd⟩
      have hcall' := hcall.append (.epollCreate efd)
      rw [← List.map_singleton (f := Label.epollCreate), ← List.map_append] at hcall'
      refine sound_closed ?_ []
      split_ifs with hlen
      · exact ⟨cs, conn, hconn', hlen, Nat.zero_le _, by simpa using hcall'⟩
      · exact ⟨cs, conn, hconn', hcall'⟩
  next control r idx ok =>
    split_ifs at h with hidx hok
    · cases h
      obtain ⟨cs, conn, hconn, hsel, -, hcall⟩ := hi
      have hcall' := hcall.append (.addFd ok)
      rw [List.append_assoc, hok, ← List.replicate_succ'] at hcall'
      rw [hok]
      exact sound_closed (by exact ⟨cs, conn, hconn, hsel, hidx, hcall'⟩) []
    · cases h
      exact leave_sound ..
  next control r idx write runs undef =>
    split_ifs at h with hidx
    obtain ⟨cs, conn, hconn, hsel, hle, hcall⟩ := hi
    obtain rfl : idx = r.sockets.length := by omega
    have hsub : r.sockets.Sublist (r.fds ++ [control]) :=
      ((List.sublist_append_left ..).trans (List.sublist_append_right ..)).trans
        (List.sublist_append_left ..)
    exact tested_sound (hn.sublist hsub) hconn hsel hcall h
  next control sock res rc =>
    cases h
    refine ⟨(leave_sound c _ control (.respond sock res)).1, fun sock' responce rc' hm => ?_⟩
    rcases List.mem_cons.mp hm with he | hm
    · cases he
      exact ⟨ls, [], res, rfl, hi, rfl⟩
    · exact (leave_sound c _ control (.respond sock res)).2 sock' responce rc' hm
  next => cases h

lemma not_answered {fd sock : Fd} {responce : List Char} {rc : ℤ} :
    l.acquired fd ≠ .answered sock responce rc := by
  cases l <;> exact Event.noConfusion

lemma step_answers (ha : Accounted c s) (hi : Answers c s ls) (h : step c s l = some t) :
    Answers c t (ls ++ [l]) := by
  obtain ⟨-, x, hm, rfl⟩ := Ledger.Process.step_moves h
  have hn : s.pc.owned.Nodup := ha.accounted.owned.nodup_iff.mp ha.accounted.nodup
  obtain ⟨hevident, hanswers⟩ := move_sound hn hi.evident hm
  refine ⟨hevident, fun sock responce rc he => ?_⟩
  simp only [List.mem_append, Ledger.Process.mem_news] at he
  obtain he | ⟨fd, -, he⟩ | he := he
  · exact (hi.answers sock responce rc he).append _
  · exact (not_answered he).elim
  · exact hanswers sock responce rc he

lemma run_answers (hr : Machine.run (step c) start ls = some s) : Answers c s ls := by
  have hi : Accounted c s ∧ Answers c s ls := by
    refine Machine.run_observed (fun s ls => Accounted c s ∧ Answers c s ls) ?_
      ⟨start_accounted, trivial, by simp [start]⟩ hr
    rintro s ls l t ⟨ha, hi⟩ hs
    exact ⟨step_accounted ha hs, step_answers ha hi hs⟩
  exact hi.2

theorem answers_computed (hr : Machine.run (step c) start ls = some s) {sock : Fd}
    {responce : List Char} {rc : ℤ} (h : .answered sock responce rc ∈ s.events) :
    Answer c ls sock responce rc :=
  (run_answers hr).answers sock responce rc h

theorem answers_computed_one : Answer oneShot oneClient 4
    ("2 2 1 0 1 19".toList ++ (List.replicate 19 [' ', '1']).flatten) 49 := by
  obtain ⟨s, hr, he⟩ := Option.map_eq_some_iff.mp oneClient_events
  have hm : .answered 4 ("2 2 1 0 1 19".toList ++ (List.replicate 19 [' ', '1']).flatten) 49 ∈
      s.events := by
    rw [he]
    simp
  exact answers_computed hr hm

end NetworkPing.MainLoop
