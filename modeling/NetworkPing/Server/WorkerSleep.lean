import NetworkPing.Server.WorkerThread
import NetworkPing.Server.EpollWait
import NetworkPing.Server.RunTest

namespace NetworkPing.Worker

open EpollWait

inductive TimedLabel
  -- `before` is read when `wait_queue` is not empty, `start` in `epoll_wait_ex`
  | wait (before start : UInt64) (polls : List (Poll Fd)) (now : UInt64)
  | other (l : Label)

def nearest (queue : List FdTimout) : Option UInt64 := (queue.map FdTimout.readyTime).min?

def slice : Int64 := 100 * 1000 * 1000

def sleepNs (queue : List FdTimout) (before : UInt64) : Int64 :=
  match nearest queue with
  | some ready => if (ready - before).toInt64 < 0 then 0 else (ready - before).toInt64
  | none => slice

def untimed (s : State) : TimedLabel → Option Label
  | .wait before start polls now =>
    (waitAnswer start (sleepNs s.waitQueue before) polls).map (.wait · now)
  | .other (.wait _ _) => none
  | .other l => some l

def timedStep (c : Config) : State → TimedLabel → Option State := Machine.refine (step c) untimed

def limit (queue : List FdTimout) (start : UInt64) : ℤ :=
  match nearest queue with
  | some ready => ready.toNat
  | none => start.toNat + slice.toInt

def Punctual (queue : List FdTimout) (start : UInt64) (call : Call Fd) : Prop :=
  0 ≤ call.timeout.toInt ∧
    call.timeout.toInt * 10 ^ 6 ≤ max 0 (limit queue start - call.curr.toNat)

/-- The clock reads for `epoll_wait_ex` what it has read for `worker_thread`, does not go back
before the poll, and no reading is hundreds of years off. -/
structure Readings (queue : List FdTimout) (before start curr : UInt64) : Prop where
  agree : ∀ ready, nearest queue = some ready → start = before
  later : start ≤ curr
  recent : (curr.toNat : ℤ) ≤ start.toNat + 2 ^ 63
  overdue : ∀ ready, nearest queue = some ready → (before.toNat : ℤ) ≤ ready.toNat + 2 ^ 63

/-- From `2 ^ 63` ns on a deadline counts as one that is past. -/
def Far (queue : List FdTimout) (before : UInt64) : Prop :=
  ∃ ready, nearest queue = some ready ∧ (before.toNat : ℤ) + 2 ^ 63 ≤ ready.toNat

def Near (queue : List FdTimout) (start curr : UInt64) : Prop :=
  limit queue start - curr.toNat < 2 ^ 31 * 10 ^ 6

variable {queue : List FdTimout} {before start curr : UInt64} {call : Call Fd}

lemma toNat_sub_cases (ready before : UInt64) :
    ((ready - before).toNat : ℤ) = ready.toNat - before.toNat ∨
      ((ready - before).toNat : ℤ) = ready.toNat - before.toNat + 2 ^ 64 := by
  have hsub := UInt64.toNat_sub ready before
  have hready := ready.toNat_lt
  have hbefore := before.toNat_lt
  omega

lemma toInt_sub_eq {ready : UInt64} (hlo : (before.toNat : ℤ) ≤ ready.toNat + 2 ^ 63)
    (hhi : (ready.toNat : ℤ) < before.toNat + 2 ^ 63) :
    (ready - before).toInt64.toInt = ready.toNat - before.toNat := by
  have hlt := (ready - before).toNat_lt
  rw [toInt_toInt64, Int.bmod_def]
  rcases toNat_sub_cases ready before with h | h <;> rw [h] <;> split <;> omega

lemma toInt_sub_far {ready : UInt64} (h : (before.toNat : ℤ) + 2 ^ 63 ≤ ready.toNat) :
    (ready - before).toInt64.toInt < 0 := by
  have hlt := (ready - before).toNat_lt
  have hready := ready.toNat_lt
  rw [toInt_toInt64, Int.bmod_def]
  rcases toNat_sub_cases ready before with h | h <;> rw [h] <;> split <;> omega

lemma sleepNs_cases (h : Readings queue before start curr) :
    (sleepNs queue before).toInt = 0 ∧
        (Far queue before ∨ limit queue start ≤ start.toNat) ∨
      ¬ Far queue before ∧ 0 ≤ (sleepNs queue before).toInt ∧
        start.toNat + (sleepNs queue before).toInt = limit queue start := by
  rw [sleepNs, limit, Far]
  cases hn : nearest queue with
  | none =>
    have hslice : 0 ≤ slice.toInt := by decide
    exact .inr ⟨by simp, hslice, rfl⟩
  | some ready =>
    obtain rfl := h.agree ready hn
    have hold := h.overdue ready hn
    have hfar : (∃ r, some ready = some r ∧ (start.toNat : ℤ) + 2 ^ 63 ≤ r.toNat) ↔
        (start.toNat : ℤ) + 2 ^ 63 ≤ ready.toNat := by simp
    rw [hfar]
    dsimp only
    by_cases hx : (start.toNat : ℤ) + 2 ^ 63 ≤ ready.toNat
    · left
      have hneg : (ready - start).toInt64 < 0 := Int64.lt_iff_toInt_lt.mpr (toInt_sub_far hx)
      rw [if_pos hneg]
      exact ⟨rfl, .inl hx⟩
    · have hsub : (ready - start).toInt64.toInt = ready.toNat - start.toNat :=
        toInt_sub_eq hold (by omega)
      by_cases hneg : (ready - start).toInt64 < 0
      · left
        have hlt := Int64.lt_iff_toInt_lt.mp hneg
        rw [hsub, Int64.toInt_zero] at hlt
        rw [if_pos hneg]
        exact ⟨rfl, .inr (by omega)⟩
      · right
        have hge := mt Int64.lt_iff_toInt_lt.mpr hneg
        rw [hsub, Int64.toInt_zero] at hge
        rw [if_neg hneg, hsub]
        exact ⟨hx, by omega, by omega⟩

lemma sleepNs_ne (h : Readings queue before start curr) : sleepNs queue before ≠ -1 := by
  intro he
  have hminus : (-1 : Int64).toInt = -1 := by decide
  rcases sleepNs_cases h with ⟨hz, -⟩ | ⟨-, hn, -⟩
  · rw [he, hminus] at hz
    omega
  · rw [he, hminus] at hn
    omega

def Issued (queue : List FdTimout) (before start : UInt64) (call : Call Fd) : Prop :=
  call.timeout =
    pollTimeout (sleepNs queue before) (returnTime start (sleepNs queue before)) call.curr

lemma toInt_timeout (h : Readings queue before start call.curr)
    (hc : Issued queue before start call)
    (hhi : start.toNat + (sleepNs queue before).toInt - call.curr.toNat < 2 ^ 63) :
    call.timeout.toInt = (max 0 (start.toNat + (sleepNs queue before).toInt - call.curr.toNat) /
      10 ^ 6).bmod (2 ^ 32) := by
  have ht : sleepNs queue before ≠ -1 := sleepNs_ne h
  have hrec := h.recent
  have hlo : -2 ^ 63 ≤ expiry start (sleepNs queue before) - call.curr.toNat := by
    rw [expiry]
    rcases sleepNs_cases h with ⟨hz, -⟩ | ⟨-, hn, -⟩ <;> omega
  have hx : Expired _ _ call.curr ↔ _ := expired_iff hhi hlo ht
  rw [hc, pollTimeout, if_neg ht]
  rw [expiry] at hx hlo
  split_ifs with he
  · rw [max_eq_left (by have := hx.mp he; omega)]
    rfl
  · have hpos := mt hx.mpr he
    have hleft := toInt_timeLeft start call.curr (sleepNs queue before)
    rw [Int.bmod_eq_of_le (by omega) (by omega)] at hleft
    have hms : (1000000 : Int64).toInt = 10 ^ 6 := by decide
    rw [Int64.toInt_toInt32, Int64.toInt_div_of_ne_right _ _ (by decide), hleft, hms,
      Int.tdiv_eq_ediv_of_nonneg (by omega), max_eq_right (by omega)]

lemma Readings.punctual (h : Readings queue before start call.curr)
    (hc : Issued queue before start call)
    (hnear : Near queue start call.curr ∨ Far queue before) : Punctual queue start call := by
  have hlater := UInt64.le_iff_toNat_le.mp h.later
  rw [Punctual]
  rcases sleepNs_cases h with ⟨hz, -⟩ | ⟨hfar, hn, hlim⟩
  · have ht := toInt_timeout h hc (by omega)
    rw [max_eq_left (by omega)] at ht
    have hzero : call.timeout.toInt = 0 := ht
    omega
  · have hlt := hnear.resolve_right hfar
    rw [Near, ← hlim] at hlt
    have ht := toInt_timeout h hc (by omega)
    rw [hlim, Int.bmod_eq_of_le (by omega) (by omega)] at ht
    omega

lemma Readings.near (h : Readings queue before start call.curr)
    (hc : Issued queue before start call) (hp : Punctual queue start call)
    (hlt : limit queue start - call.curr.toNat < 2 ^ 32 * 10 ^ 6) :
    Near queue start call.curr ∨ Far queue before := by
  have hlater := UInt64.le_iff_toNat_le.mp h.later
  rw [or_iff_not_imp_right]
  intro hfar
  rw [Near]
  rcases sleepNs_cases h with ⟨-, hold⟩ | ⟨-, hn, hlim⟩
  · have := hold.resolve_left hfar
    omega
  · by_contra hge
    have ht := toInt_timeout h hc (by omega)
    have hneg := hp.1
    rw [ht, hlim, Int.bmod_def] at hneg
    split at hneg <;> omega

theorem sleeps_in_time (c : Config) (sockCount : ℤ) (ls : List TimedLabel) (t : State)
    (before start : UInt64) (polls : List (Poll Fd)) (now : UInt64)
    (h : Machine.run (timedStep c) (Worker.start sockCount) (ls ++ [.wait before start polls now]) =
      some t) :
    ∃ s w, Machine.run (timedStep c) (Worker.start sockCount) ls = some s ∧
      epollWaitEx start (sleepNs s.waitQueue before) polls = some w ∧ w.polls = polls ∧
      ∀ call ∈ w.calls, Readings s.waitQueue before start call.curr →
        (Near s.waitQueue start call.curr ∨ Far s.waitQueue before →
          Punctual s.waitQueue start call) ∧
        (limit s.waitQueue start - call.curr.toNat < 2 ^ 32 * 10 ^ 6 →
          Punctual s.waitQueue start call →
            Near s.waitQueue start call.curr ∨ Far s.waitQueue before) := by
  rw [Machine.run_append] at h
  obtain ⟨s, hr, h⟩ := Option.bind_eq_some_iff.mp h
  obtain ⟨u, hs, _⟩ := Machine.run_cons_some.mp h
  obtain ⟨l, hl, _⟩ := Machine.refine_some.mp hs
  obtain ⟨answer, ha, _⟩ := Option.map_eq_some_iff.mp hl
  obtain ⟨w, cs, call, hw, _, hp, he⟩ := waitAnswer_ended ha
  refine ⟨s, w, hr, hw, he.polls_eq.trans hp.symm, fun call hmem hread => ?_⟩
  have hc := loop_timeout hw call hmem
  exact ⟨hread.punctual hc, fun hlt hcall => hread.near hc hcall hlt⟩

def onePing : List TimedLabel := [.wait 0 10001000 [⟨.ready [3], 10002000⟩] 10003000,
  .other (.done false), .other (.next 3 0), .other (.done false), .other .exhausted,
  .other (.done false), .other (.ping 3 3 3 10004000), .other .pinged,
  .wait 0 10005000 [⟨.ready [3], 10006000⟩] 10007000, .other (.done false), .other (.next 3 0),
  .other .exhausted, .other .pinged]

theorem sleeps_in_time_slice : Punctual [⟨3, 15004000⟩] 10008000
    ⟨10008000, 4, (⟨.ready [3], 10009000⟩ : Poll Fd)⟩ := by
  let queue : List FdTimout := [⟨3, 15004000⟩]
  let polls : List (Poll Fd) := [⟨.ready [3], 10009000⟩]
  have hqueue : (Machine.run (timedStep ⟨3, 5000000, 5000000, fun _ => 0⟩) (Worker.start 1)
      onePing).map State.waitQueue = some queue := by
    decide +kernel
  have hwait : epollWaitEx 10008000 (sleepNs queue 10008000) polls =
      some ⟨true, [3], [⟨10008000, 4, ⟨.ready [3], 10009000⟩⟩]⟩ := by
    decide +kernel
  have hsome : (Machine.run (timedStep ⟨3, 5000000, 5000000, fun _ => 0⟩) (Worker.start 1)
      (onePing ++ [.wait 10008000 10008000 polls 10009500])).isSome := by
    decide +kernel
  obtain ⟨t, ht⟩ := Option.isSome_iff_exists.mp hsome
  obtain ⟨s, w, hs, hw, -, hcalls⟩ := sleeps_in_time _ 1 onePing t 10008000 10008000 polls _ ht
  rw [hs, Option.map_some, Option.some.injEq] at hqueue
  rw [hqueue] at hw hcalls
  cases hwait.symm.trans hw
  exact (hcalls _ (List.mem_singleton_self _) ⟨fun _ _ => rfl, by decide, by decide,
    fun ready hr => by cases hr; decide⟩).1 (.inl (by rw [Near]; decide +kernel))

def longRequest : Request.ClientParams :=
  ⟨(['1', '.', '2'], 33331), 1, 3, 30, (2147483649000000, 2147483649000000)⟩

theorem sleeps_for_ever :
    ∃ params, Request.loadFromStr (Request.requestText longRequest) = .accepted params ∧
    ∃ ls s t w before start polls now,
      Machine.run (timedStep (RunTest.workerConfig (fun _ => 0) params)) (Worker.start 2) ls =
        some s ∧
      timedStep (RunTest.workerConfig (fun _ => 0) params) s (.wait before start polls now) =
        some t ∧
      epollWaitEx start (sleepNs s.waitQueue before) polls = some w ∧
      ∃ call ∈ w.calls, call.timeout = -2147483648 ∧ ¬ Punctual s.waitQueue start call := by
  refine ⟨⟨33331, 1, 30, 3, 2147483649000000, 2147483649000000, ⟨['1', '.', '2'], by decide⟩⟩,
    by decide +kernel, ?_⟩
  let ls : List TimedLabel := [.wait 0 1700000000000000000 [⟨.ready [3], 1700000000000001000⟩]
      1700000000000002000, .other (.done false), .other (.next 3 0), .other (.done false),
    .other .exhausted, .other (.done false), .other (.ping 3 3 3 1700000000000003000),
    .other .pinged, .wait 0 1700000000000004000 [⟨.ready [3], 1700000000000005000⟩]
      1700000000000006000, .other (.done false), .other (.next 3 0), .other .exhausted,
    .other .pinged]
  let poll : Poll Fd := ⟨.ready [5], 1700000000000009000⟩
  let call : Call Fd := ⟨1700000000000008000, -2147483648, poll⟩
  let queue : List FdTimout := [⟨3, 1702147483649003000⟩]
  have hrun : (Machine.run (timedStep ⟨3, 2147483649000000, 2147483649000000, fun _ => 0⟩)
      (Worker.start 2) ls).map (fun s => (s.pc, s.waitQueue)) = some (.head, queue) := by
    decide +kernel
  have hwait : epollWaitEx call.curr (sleepNs queue 1700000000000007000) [poll] =
      some ⟨true, [5], [call]⟩ := by
    decide +kernel
  have hcall : ¬ Punctual queue call.curr call := fun h => absurd h.1 (by decide)
  obtain ⟨s, hs, hq⟩ := Option.map_eq_some_iff.mp hrun
  obtain ⟨hpc, hq⟩ := Prod.mk.inj hq
  have hanswer : untimed s (.wait 1700000000000007000 call.curr [poll] 1700000000000010000) =
      some (.wait (some [5]) 1700000000000010000) := by
    simp [untimed, waitAnswer, hq, hwait]
  let t : State := { s with
    pc := .drain, sel := { s.sel with ready := [5], current := none }, readyFds := []
    currTime := 1700000000000010000 }
  have hstep : step ⟨3, 2147483649000000, 2147483649000000, fun _ => 0⟩ s
      (.wait (some [5]) 1700000000000010000) = some t := by
    simp [step, hpc, hq, EPollRSelector.wait, queue, t]
  exact ⟨ls, s, t, ⟨true, [5], [call]⟩, 1700000000000007000, call.curr, [poll],
    1700000000000010000, hs, Machine.refine_some.mpr ⟨_, hanswer, hstep⟩, hq ▸ hwait, call,
    List.mem_singleton_self _, rfl, hq ▸ hcall⟩

end NetworkPing.Worker
