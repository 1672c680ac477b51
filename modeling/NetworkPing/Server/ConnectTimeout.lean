import NetworkPing.Server.ConnectAll
import NetworkPing.Server.EpollWait

namespace NetworkPing.ConnectAll

open EpollWait

structure TimedConfig (α : Type) extends Config α where
  connTimeoutMs : Int32 := 1000

inductive TimedLabel
  | wait (start : UInt64) (polls : List (Poll Fd))
  | other (l : Label)

variable {α : Type}

-- `wait` takes nanoseconds
def TimedConfig.timeoutNs (c : TimedConfig α) : Int64 := c.connTimeoutMs.toInt64

def untimed (c : TimedConfig α) : TimedLabel → Option Label
  | .wait start polls => (waitAnswer start c.timeoutNs polls).map .wait
  | .other (.wait _) => none
  | .other l => some l

def timedStep (c : TimedConfig α) : State α → TimedLabel → Option (State α) :=
  Machine.refine (step c.toConfig) fun _ => untimed c

def NoEarlyReading (c : TimedConfig α) (start : UInt64) (polls : List (Poll Fd)) : Prop :=
  ∀ p ∈ polls, ¬ ((start.toNat + c.connTimeoutMs.toInt ≤ p.now.toNat) ∧
    p.now.toNat < start.toNat + c.connTimeoutMs.toInt * 10 ^ 6)

def Elapsed (c : TimedConfig α) (start : UInt64) (polls : List (Poll Fd)) : Prop :=
  ∃ p ∈ polls.getLast?, start.toNat + c.connTimeoutMs.toInt * 10 ^ 6 ≤ p.now.toNat

variable {c : TimedConfig α} {start : UInt64} {polls : List (Poll Fd)}

lemma expiry_eq : expiry start c.timeoutNs = start.toNat + c.connTimeoutMs.toInt := by
  rw [expiry, TimedConfig.timeoutNs, Int32.toInt_toInt64]

lemma returnTime_eq (hlt : start.toNat + c.connTimeoutMs.toInt < 2 ^ 64)
    (ht : 1 ≤ c.connTimeoutMs.toInt) :
    ((returnTime start c.timeoutNs).toNat : ℤ) = expiry start c.timeoutNs := by
  rw [toNat_returnTime, ← expiry, Int.emod_eq_of_lt]
  all_goals rw [expiry_eq]; omega

lemma timeoutNs_ne (ht : 1 ≤ c.connTimeoutMs.toInt) : c.timeoutNs ≠ -1 := by
  intro h
  have := congrArg Int64.toInt h
  rw [TimedConfig.timeoutNs, Int32.toInt_toInt64] at this
  change c.connTimeoutMs.toInt = -1 at this
  omega

lemma expired_after (ht : 1 ≤ c.connTimeoutMs.toInt) {curr : UInt64}
    (hc : start.toNat ≤ curr.toNat)
    (hx : Expired c.timeoutNs (returnTime start c.timeoutNs) curr) :
    expiry start c.timeoutNs ≤ curr.toNat := by
  by_contra hd
  have := c.connTimeoutMs.toInt_lt
  have heq : expiry start c.timeoutNs = _ := expiry_eq
  exact hd ((expired_iff (by omega) (by omega) (timeoutNs_ne ht)).mp hx)

lemma elapsed_iff (ht : 1 ≤ c.connTimeoutMs.toInt)
    (h : waitAnswer start c.timeoutNs polls = some (some []))
    (hc : ∀ p ∈ polls, start.toNat ≤ p.now.toNat) :
    Elapsed c start polls ↔
      start.toNat + c.connTimeoutMs.toInt < 2 ^ 64 ∧ NoEarlyReading c start polls := by
  obtain ⟨⟨ok, out, calls⟩, cs, call, _, ha, hp, he⟩ := waitAnswer_ended h
  have hlast : polls.getLast? = some call.poll := by rw [hp, List.getLast?_concat]
  have hnow := call.poll.now.toNat_lt
  have heq : expiry start c.timeoutNs = _ := expiry_eq
  have hmax := c.connTimeoutMs.toInt_lt
  constructor
  · rintro ⟨p, hpl, hle⟩
    obtain rfl : call.poll = p := Option.some.inj (hlast.symm.trans hpl)
    refine ⟨by omega, fun q hq hwin => ?_⟩
    rw [hp, List.mem_append, List.mem_singleton] at hq
    obtain hq | rfl := hq
    · obtain ⟨d, hd, rfl⟩ := List.mem_map.mp hq
      apply (he.retried d hd).2
      exact (expired_iff (by omega) (by omega) (timeoutNs_ne ht)).mpr (by omega)
    · omega
  · rintro ⟨hlt, hwin⟩
    refine ⟨call.poll, hlast, ?_⟩
    have hge : expiry start c.timeoutNs ≤ call.poll.now.toNat := by
      have hends : Ends c.timeoutNs _ call.poll ok out := he.ends
      cases hends with
      | empty _ hn =>
        have := returnTime_eq hlt ht
        rw [UInt64.le_iff_toNat_le] at hn
        omega
      | expired _ hx => exact expired_after ht (hc _ (by rw [hp]; simp)) hx
      | failed => simp at ha
      | ready => simp at ha
    have := hwin call.poll (by rw [hp]; simp)
    omega

lemma gives_up {s t : State α} (h : timedStep c s (.wait start polls) = some t)
    (hempty : waitAnswer start c.timeoutNs polls = some (some [])) :
    t.pc = .ret false ∧ t.sel.readyCount = 0 := by
  obtain ⟨l, hl, hs⟩ := Machine.refine_some.mp h
  simp only [untimed, hempty, Option.map_some, Option.some.injEq] at hl
  subst hl
  cases hpc : s.pc with
  | socket i m =>
    simp only [step, hpc, EPollRSelector.readyCount, List.length_nil] at hs
    split_ifs at hs
    cases hs
    exact ⟨rfl, rfl⟩
  | _ => simp [step, hpc] at hs

def readings (ls : List TimedLabel) : List UInt64 := ls.flatMap fun
  | .wait start polls => start :: polls.map Poll.now
  | .other _ => []

theorem connection_timeout (c : TimedConfig α) (sockets : List Fd) (ls : List TimedLabel)
    (t : State α) (start : UInt64) (polls : List (Poll Fd)) (ht : 1 ≤ c.connTimeoutMs.toInt)
    (hr : Machine.run (timedStep c) (ConnectAll.start c.toConfig sockets)
      (ls ++ [.wait start polls]) = some t)
    (hempty : waitAnswer start c.timeoutNs polls = some (some []))
    (hclock : (readings (ls ++ [.wait start polls])).Pairwise (· ≤ ·)) :
    (t.pc = .ret false ∧ t.sel.readyCount = 0) ∧
      (Elapsed c start polls ↔
        start.toNat + c.connTimeoutMs.toInt < 2 ^ 64 ∧ NoEarlyReading c start polls) := by
  rw [Machine.run_append] at hr
  obtain ⟨s, _, hr⟩ := Option.bind_eq_some_iff.mp hr
  obtain ⟨t, hs, hr⟩ := Machine.run_cons_some.mp hr
  cases Option.some.inj hr
  refine ⟨gives_up hs hempty, elapsed_iff ht hempty fun p hp => ?_⟩
  simp only [readings, List.flatMap_append, List.pairwise_append] at hclock
  have hsorted := hclock.2.1
  simp only [List.flatMap_singleton, List.pairwise_cons] at hsorted
  exact UInt64.le_iff_toNat_le.mp (hsorted.1 p.now (List.mem_map_of_mem hp))

def oneConnection : TimedConfig ℕ := { sockCount := 1, clientIpAddrs := [] }

theorem connection_timeout_elapsed :
    let polls : List (Poll Fd) := [⟨.failed EINTR, 5900⟩, ⟨.ready [], 1000005000⟩]
    Elapsed oneConnection 5000 polls := by
  intro polls
  have h := connection_timeout oneConnection [] [.other (.gethostbyname true),
    .other (.epollCreate 3), .other .loop, .other (.attempt ⟨4, 0, -1, true, 0⟩)] _ 5000 polls
    (by decide) rfl rfl (by decide)
  refine h.2.mpr ⟨by decide, ?_⟩
  intro p hp
  revert p
  decide

theorem gives_up_early :
    let polls : List (Poll Fd) := [⟨.ready [], 6000⟩]
    let ls : List TimedLabel := [.other (.gethostbyname true), .other (.epollCreate 3),
      .other .loop, .other (.attempt ⟨4, 0, -1, true, 0⟩), .wait 5000 polls]
    (∃ t, Machine.run (timedStep oneConnection) (ConnectAll.start oneConnection.toConfig []) ls =
        some t ∧ t.pc = .ret false ∧ t.sel.readyCount = 0) ∧
      (readings ls).Pairwise (· ≤ ·) ∧ ¬ Elapsed oneConnection 5000 polls := by
  intro polls ls
  refine ⟨⟨_, rfl, rfl, rfl⟩, by decide, ?_⟩
  rintro ⟨p, hp, hle⟩
  cases Option.some.inj hp
  revert hle
  decide

end NetworkPing.ConnectAll
