import Mathlib.Tactic
import NetworkPing.Server.Selector

/-! `epoll_wait_ex`: `epoll_wait` is called again until its deadline is past. A
`Poll` holds what one call of `epoll_wait` answers and the clock reading after it;
`long` arithmetic wraps. -/

namespace NetworkPing

def EINTR : ℤ := 4

inductive EpollResult (ε : Type)
  | ready (events : List ε)
  | failed (errno : ℤ)
  deriving DecidableEq

structure Poll (ε : Type) where
  result : EpollResult ε
  now : UInt64
  deriving DecidableEq

variable {ε : Type}

structure Call (ε : Type) where
  curr : UInt64
  timeout : Int32
  poll : Poll ε
  deriving DecidableEq

structure Waited (ε : Type) where
  ok : Bool
  ready : List ε
  calls : List (Call ε)
  deriving DecidableEq

def Waited.polls (w : Waited ε) : List (Poll ε) := w.calls.map Call.poll

def Waited.after (call : Call ε) (w : Waited ε) : Waited ε :=
  { w with calls := call :: w.calls }

namespace EpollWait

def returnTime (start : UInt64) (timeoutNs : Int64) : UInt64 := start + timeoutNs.toUInt64

def timeLeft (ret curr : UInt64) : Int64 := ret.toInt64 - curr.toInt64

def Expired (timeoutNs : Int64) (ret curr : UInt64) : Prop :=
  timeLeft ret curr ≤ 0 ∧ timeoutNs ≠ -1

instance (timeoutNs : Int64) (ret curr : UInt64) : Decidable (Expired timeoutNs ret curr) :=
  inferInstanceAs (Decidable (_ ∧ _))

def pollTimeout (timeoutNs : Int64) (ret curr : UInt64) : Int32 :=
  let left := if Expired timeoutNs ret curr then 0 else timeLeft ret curr
  (if timeoutNs = -1 then -1 else left / 1000000).toInt32

/-- `none` when `polls` end before the loop does. -/
def loop (timeoutNs : Int64) (ret curr : UInt64) (alreadyPolled : Bool) (polls : List (Poll ε)) :
    Option (Waited ε) :=
  if Expired timeoutNs ret curr ∧ alreadyPolled then some ⟨true, [], []⟩
  else match polls with
    | [] => none
    | p :: polls =>
      let call := ⟨curr, pollTimeout timeoutNs ret curr, p⟩
      match p.result with
      | .ready [] =>
        if p.now ≥ ret then some ⟨true, [], [call]⟩
        else (loop timeoutNs ret p.now true polls).map (Waited.after call)
      | .failed errno =>
        if errno = EINTR then (loop timeoutNs ret p.now true polls).map (Waited.after call)
        else some ⟨false, [], [call]⟩
      | .ready events => some ⟨true, events, [call]⟩

end EpollWait

def epollWaitEx (start : UInt64) (timeoutNs : Int64) (polls : List (Poll ε)) : Option (Waited ε) :=
  EpollWait.loop timeoutNs (EpollWait.returnTime start timeoutNs) start false polls

def waitAnswer (start : UInt64) (timeoutNs : Int64) (polls : List (Poll ε)) :
    Option (Option (List ε)) :=
  (epollWaitEx start timeoutNs polls).bind fun w =>
    if w.calls.length = polls.length then some (if w.ok then some w.ready else none) else none

namespace EpollWait

lemma toInt_toInt64 (x : UInt64) : x.toInt64.toInt = (x.toNat : ℤ).bmod (2 ^ 64) :=
  BitVec.toInt_eq_toNat_bmod x.toBitVec

lemma toNat_toUInt64 (x : Int64) : (x.toUInt64.toNat : ℤ) = x.toInt % 2 ^ 64 := by
  have h : x.toInt = (x.toUInt64.toNat : ℤ).bmod (2 ^ 64) :=
    BitVec.toInt_eq_toNat_bmod x.toBitVec
  have hlt : x.toUInt64.toNat < 2 ^ 64 := x.toUInt64.toNat_lt
  have hmod := Int.bmod_emod (x := x.toUInt64.toNat) (m := 2 ^ 64)
  rw [h]
  omega

lemma toNat_returnTime (start : UInt64) (timeoutNs : Int64) :
    ((returnTime start timeoutNs).toNat : ℤ) = (start.toNat + timeoutNs.toInt) % 2 ^ 64 := by
  have h := toNat_toUInt64 timeoutNs
  rw [returnTime, UInt64.toNat_add]
  omega

lemma toInt_timeLeft (start curr : UInt64) (timeoutNs : Int64) :
    (timeLeft (returnTime start timeoutNs) curr).toInt =
      (start.toNat + timeoutNs.toInt - curr.toNat : ℤ).bmod (2 ^ 64) := by
  rw [timeLeft, Int64.toInt_sub, toInt_toInt64, toInt_toInt64, toNat_returnTime,
    Int.sub_bmod_bmod, Int.bmod_sub_bmod]
  exact Int.emod_sub_bmod _ _

variable {timeoutNs : Int64} {ret curr : UInt64} {already : Bool} {polls : List (Poll ε)}
  {w : Waited ε}

def Retried (ret : UInt64) (p : Poll ε) : Prop :=
  p.result = .failed EINTR ∨ p.result = .ready [] ∧ p.now < ret

inductive Ends (timeoutNs : Int64) (ret : UInt64) (p : Poll ε) : Bool → List ε → Prop
  | empty (h : p.result = .ready []) (hn : ret ≤ p.now) : Ends timeoutNs ret p true []
  | expired (h : Retried ret p) (hx : Expired timeoutNs ret p.now) : Ends timeoutNs ret p true []
  | failed {errno : ℤ} (h : p.result = .failed errno) (hn : errno ≠ EINTR) :
      Ends timeoutNs ret p false []
  | ready {e : ε} {es : List ε} (h : p.result = .ready (e :: es)) :
      Ends timeoutNs ret p true (e :: es)

structure Ended (timeoutNs : Int64) (ret : UInt64) (polls : List (Poll ε)) (w : Waited ε)
    (cs : List (Call ε)) (c : Call ε) : Prop where
  calls : w.calls = cs ++ [c]
  polled : w.polls <+: polls
  retried : ∀ d ∈ cs, Retried ret d.poll ∧ ¬ Expired timeoutNs ret d.poll.now
  ends : Ends timeoutNs ret c.poll w.ok w.ready

lemma Ended.after {p : Poll ε} {cs : List (Call ε)} {c : Call ε}
    (h : Ended timeoutNs ret polls w cs c) (hp : Retried ret p)
    (hx : ¬ Expired timeoutNs ret p.now) (t : Int32) :
    Ended timeoutNs ret (p :: polls) (w.after ⟨curr, t, p⟩) (⟨curr, t, p⟩ :: cs) c where
  calls := congrArg _ h.calls
  polled := List.cons_prefix_cons.mpr ⟨rfl, h.polled⟩
  retried := by
    rintro d (_ | ⟨_, hd⟩)
    · exact ⟨hp, hx⟩
    · exact h.retried d hd
  ends := h.ends

lemma ended_one {p : Poll ε} {ok : Bool} {ready : List ε} (h : Ends timeoutNs ret p ok ready)
    (t : Int32) (polls : List (Poll ε)) :
    Ended timeoutNs ret (p :: polls) ⟨ok, ready, [⟨curr, t, p⟩]⟩ [] ⟨curr, t, p⟩ where
  calls := rfl
  polled := List.prefix_append [p] polls
  retried := by simp
  ends := h

lemma loop_ended (h : loop timeoutNs ret curr already polls = some w)
    (hx : ¬ (Expired timeoutNs ret curr ∧ already)) :
    ∃ cs c, Ended timeoutNs ret polls w cs c := by
  induction polls generalizing curr already w with
  | nil =>
    rw [loop, if_neg hx] at h
    cases h
  | cons p polls ih =>
    have again {w : Waited ε} {t : Int32} (hp : Retried ret p)
        (h : (loop timeoutNs ret p.now true polls).map (Waited.after ⟨curr, t, p⟩) = some w) :
        ∃ cs c, Ended timeoutNs ret (p :: polls) w cs c := by
      obtain ⟨v, hv, rfl⟩ := Option.map_eq_some_iff.mp h
      by_cases he : Expired timeoutNs ret p.now
      · rw [loop.eq_def, if_pos ⟨he, rfl⟩] at hv
        cases hv
        exact ⟨_, _, ended_one (.expired hp he) t polls⟩
      · obtain ⟨cs, c, hc⟩ := ih hv fun hc => he hc.1
        exact ⟨_, c, hc.after hp he t⟩
    rw [loop, if_neg hx] at h
    split at h
    next hr =>
      split_ifs at h with hn
      · cases h
        exact ⟨_, _, ended_one (.empty hr hn) _ polls⟩
      · exact again (.inr ⟨hr, UInt64.not_le.mp hn⟩) h
    next errno hr =>
      split_ifs at h with hn
      · exact again (.inl (hn ▸ hr)) h
      · cases h
        exact ⟨_, _, ended_one (.failed hr hn) _ polls⟩
    next events hne hr =>
      cases h
      cases events with
      | nil => exact (hne rfl).elim
      | cons e es => exact ⟨_, _, ended_one (.ready hr) _ polls⟩

lemma loop_timeout (h : loop timeoutNs ret curr already polls = some w) :
    ∀ call ∈ w.calls, call.timeout = pollTimeout timeoutNs ret call.curr := by
  induction polls generalizing curr already w with
  | nil =>
    rw [loop] at h
    split_ifs at h
    cases h
    simp
  | cons p polls ih =>
    have again {w : Waited ε}
        (h : (loop timeoutNs ret p.now true polls).map
          (Waited.after ⟨curr, pollTimeout timeoutNs ret curr, p⟩) = some w) :
        ∀ call ∈ w.calls, call.timeout = pollTimeout timeoutNs ret call.curr := by
      obtain ⟨v, hv, rfl⟩ := Option.map_eq_some_iff.mp h
      exact List.forall_mem_cons.mpr ⟨rfl, ih hv⟩
    rw [loop] at h
    split at h
    next =>
      cases h
      simp
    next =>
      split at h
      next =>
        split at h
        next => cases h; simp
        next => exact again h
      next =>
        split at h
        next => exact again h
        next => cases h; simp
      next => cases h; simp

lemma epollWaitEx_ended {start : UInt64} (h : epollWaitEx start timeoutNs polls = some w) :
    ∃ cs c, Ended timeoutNs (returnTime start timeoutNs) polls w cs c :=
  loop_ended h nofun

lemma loop_none (h : loop timeoutNs ret curr already polls = none) :
    ∀ p ∈ polls, Retried ret p := by
  induction polls generalizing curr already with
  | nil => simp
  | cons p polls ih =>
    rw [loop] at h
    split at h
    next => cases h
    next =>
      rw [List.forall_mem_cons]
      split at h
      next hr =>
        split at h
        next => cases h
        next hn => exact ⟨.inr ⟨hr, UInt64.not_le.mp hn⟩, ih (Option.map_eq_none_iff.mp h)⟩
      next errno hr =>
        split at h
        next hn => exact ⟨.inl (hn ▸ hr), ih (Option.map_eq_none_iff.mp h)⟩
        next => cases h
      next => cases h

lemma Ended.polls_eq {cs : List (Call ε)} {c : Call ε} (h : Ended timeoutNs ret polls w cs c) :
    w.polls = cs.map Call.poll ++ [c.poll] := by
  rw [Waited.polls, h.calls, List.map_append, List.map_singleton]

lemma waitAnswer_ended {start : UInt64} {answer : Option (List ε)}
    (h : waitAnswer start timeoutNs polls = some answer) :
    ∃ w cs c, epollWaitEx start timeoutNs polls = some w ∧
      answer = (if w.ok then some w.ready else none) ∧ polls = cs.map Call.poll ++ [c.poll] ∧
      Ended timeoutNs (returnTime start timeoutNs) polls w cs c := by
  obtain ⟨w, hw, h⟩ := Option.bind_eq_some_iff.mp h
  rw [Option.ite_none_right_eq_some] at h
  obtain ⟨hlen, h⟩ := h
  obtain ⟨cs, c, he⟩ := epollWaitEx_ended hw
  have hp := he.polled.eq_of_length (by rw [Waited.polls, List.length_map, hlen])
  exact ⟨w, cs, c, hw, (Option.some.inj h).symm, hp ▸ he.polls_eq, he⟩

def expiry (start : UInt64) (timeoutNs : Int64) : ℤ := start.toNat + timeoutNs.toInt

lemma expired_iff {start : UInt64} (hd : expiry start timeoutNs - curr.toNat < 2 ^ 63)
    (hc : -2 ^ 63 ≤ expiry start timeoutNs - curr.toNat) (ht : timeoutNs ≠ -1) :
    Expired timeoutNs (returnTime start timeoutNs) curr ↔
      expiry start timeoutNs ≤ curr.toNat := by
  have hleft := toInt_timeLeft start curr timeoutNs
  rw [expiry] at *
  rw [Int.bmod_eq_of_le (by omega) (by omega)] at hleft
  rw [Expired, and_iff_left ht, Int64.le_iff_toInt_le, hleft, Int64.toInt_zero]
  omega

lemma le_of_returnTime_le {start : UInt64} (hd : expiry start timeoutNs < 2 ^ 63)
    (h : returnTime start timeoutNs ≤ curr) : expiry start timeoutNs ≤ curr.toNat := by
  have hr := toNat_returnTime start timeoutNs
  rw [UInt64.le_iff_toNat_le] at h
  rw [expiry] at *
  omega

structure Contract (start : UInt64) (timeoutNs : Int64) (ps : List (Poll ε)) (p : Poll ε)
    (ok : Bool) (out : List ε) : Prop where
  failed : ok = false ↔ ∃ errno, p.result = .failed errno ∧ errno ≠ EINTR
  ready : ∀ events ≠ [], ok = true ∧ out = events ↔ p.result = .ready events
  timed : ok = true → out = [] → timeoutNs ≠ -1 ∧ expiry start timeoutNs ≤ p.now.toNat
  late : timeoutNs ≠ -1 → ∀ q ∈ ps, (q.now.toNat : ℤ) < expiry start timeoutNs
  blocked : timeoutNs = -1 → p.result ≠ .failed EINTR

def Meets (start : UInt64) (timeoutNs : Int64) (w : Waited ε) : Prop :=
  ∃ ps p, w.polls = ps ++ [p] ∧ Contract start timeoutNs ps p w.ok w.ready

lemma Ends.contract {start : UInt64} {ps : List (Poll ε)} {p : Poll ε} {ok : Bool} {out : List ε}
    (h : Ends timeoutNs (returnTime start timeoutNs) p ok out)
    (hd : expiry start timeoutNs < 2 ^ 63)
    (hn : timeoutNs ≠ -1 → ∀ q ∈ ps ++ [p], q.now.toNat ≤ expiry start timeoutNs + 2 ^ 63)
    (hb : timeoutNs = -1 → p.result ≠ .ready [])
    (hps : ∀ q ∈ ps, ¬ Expired timeoutNs (returnTime start timeoutNs) q.now) :
    Contract start timeoutNs ps p ok out where
  failed := by
    cases h with
    | expired hr => rcases hr with hr | ⟨hr, _⟩ <;> simp [hr]
    | _ => simp_all
  ready events he := by
    cases h with
    | expired hr => rcases hr with hr | ⟨hr, _⟩ <;> simp [hr, he.symm]
    | _ => simp_all [eq_comm]
  timed hok hr := by
    cases h with
    | empty h hle => exact ⟨fun ht => hb ht h, le_of_returnTime_le hd hle⟩
    | expired h hx =>
      have := hn hx.2 p (by simp)
      exact ⟨hx.2, (expired_iff (by omega) (by omega) hx.2).mp hx⟩
    | failed => cases hok
    | ready => cases hr
  late ht q hq := by
    have := hn ht q (by simp [hq])
    have hx := hps q hq
    rw [expired_iff (by omega) (by omega) ht] at hx
    exact not_le.mp hx
  blocked ht hr := by
    cases h with
    | expired _ hx => exact hx.2 ht
    | _ => simp_all

theorem timed_wait (start : UInt64) (timeoutNs : Int64) (polls : List (Poll ε))
    (hd : expiry start timeoutNs < 2 ^ 63)
    (hn : timeoutNs ≠ -1 → ∀ p ∈ polls, p.now.toNat ≤ expiry start timeoutNs + 2 ^ 63)
    (hb : timeoutNs = -1 → ∀ p ∈ polls, p.result ≠ .ready []) :
    (∀ w, epollWaitEx start timeoutNs polls = some w → Meets start timeoutNs w) ∧
      (epollWaitEx start timeoutNs polls = none →
        ∀ p ∈ polls, Retried (returnTime start timeoutNs) p) := by
  refine ⟨fun w h => ?_, loop_none⟩
  obtain ⟨cs, c, he⟩ := epollWaitEx_ended h
  have hmem {p : Poll ε} (hp : p ∈ cs.map Call.poll ++ [c.poll]) : p ∈ polls :=
    he.polled.mem (he.polls_eq ▸ hp)
  refine ⟨_, _, he.polls_eq, he.ends.contract hd ?_ ?_ ?_⟩
  · exact fun ht q hq => hn ht q (hmem hq)
  · exact fun ht => hb ht c.poll (hmem (by simp))
  · rw [List.forall_mem_map]
    exact fun d hd => (he.retried d hd).2

theorem timed_wait_interrupted :
    let polls : List (Poll ℤ) := [⟨.failed EINTR, 1500⟩, ⟨.ready [], 1999⟩, ⟨.ready [], 2000⟩]
    ∃ w, epollWaitEx 1000 1000 polls = some w ∧ Meets 1000 1000 w := by
  intro polls
  refine ⟨_, rfl, (timed_wait 1000 1000 polls ?_ ?_ ?_).1 _ rfl⟩
  · decide
  · decide
  · decide

theorem timed_wait_wraps :
    let first : Poll ℤ := ⟨.failed EINTR, 9223372036854775809⟩
    let second : Poll ℤ := ⟨.ready [3], 9223372036854775809⟩
    expiry 0 0 < 2 ^ 63 ∧ [0, first.now, second.now].Pairwise (· ≤ ·) ∧
      ∃ w, epollWaitEx 0 0 [first, second] = some w ∧ ¬ Meets 0 0 w := by
  intro first second
  refine ⟨by decide, by decide, _, rfl, ?_⟩
  rintro ⟨ps, p, he, hc⟩
  have hps : [first] = ps := (List.append_inj' (show [first] ++ [second] = ps ++ [p] from he) rfl).1
  have hlate := hc.late (by decide) first (hps ▸ List.mem_singleton_self first)
  exact absurd hlate (by decide)

end EpollWait

end NetworkPing
