import NetworkPing.Server.WorkerTrace

namespace NetworkPing.Worker

variable {c : Config} {fds out : List Fd} {s t : State} {l : Label} {ls : List Label}

def Fits (c : Config) (s : State) : Label → Prop
  | .next fd draw =>
    (c.timeoutNsMax ≠ c.timeoutNsMin → c.timeoutNsMin ≤ draw ∧ draw ≤ c.timeoutNsMax) ∧
    (ltime s fd).toNat + (if c.timeoutNsMax ≠ c.timeoutNsMin then draw else c.timeoutNsMax).toNat <
      2 ^ 64
  | _ => True

instance (c : Config) (s : State) : DecidablePred (Fits c s)
  | .next _ _ => inferInstanceAs (Decidable (_ ∧ _))
  | .wait _ _ | .drain _ | .drained | .done _ | .exhausted | .ping _ _ _ _ | .pinged =>
    isTrue trivial

structure Pace (c : Config) (s : State) : Prop where
  queue : ∀ item ∈ s.waitQueue,
    (ltime s item.fd).toNat + c.timeoutNsMin.toNat ≤ item.readyTime.toNat
  ready : ∀ fd ∈ unpinged s, (ltime s fd).toNat + c.timeoutNsMin.toNat ≤ s.currTime.toNat
  due : s.pc = .polled → ∀ item ∈ s.waitQueue, s.currTime < item.readyTime

lemma ltime_noteLatency (fd fd' : Fd) : ltime (noteLatency c s fd) fd' = ltime s fd' := by
  rw [noteLatency]
  split_ifs with h
  · rfl
  · simp only [ltime]
    by_cases he : fd' = fd
    · rw [he, AList.lookup_insert, AList.lookup_eq_none.mpr h]
      rfl
    · rw [AList.lookup_insert_ne he]

@[simp] lemma noteLatency_currTime (fd : Fd) : (noteLatency c s fd).currTime = s.currTime := by
  rw [noteLatency]; split_ifs <;> rfl

lemma ltime_handle (fd fd' : Fd) (draw : UInt64) :
    ltime (handle c s fd draw) fd' = ltime s fd' := by
  rcases handle_cases c s fd draw with he | he <;> rw [he] <;> exact ltime_noteLatency fd fd'

@[simp] lemma handle_currTime (fd : Fd) (draw : UInt64) :
    (handle c s fd draw).currTime = s.currTime := by
  rcases handle_cases c s fd draw with he | he <;> rw [he] <;> exact noteLatency_currTime fd

lemma min_le_timeout {fd : Fd} {draw : UInt64} (h : Fits c s (.next fd draw)) :
    (ltime s fd).toNat + c.timeoutNsMin.toNat ≤ (deadline c s fd draw).toNat := by
  obtain ⟨hdraw, hfit⟩ := h
  rw [deadline, UInt64.toNat_add, Nat.mod_eq_of_lt hfit]
  apply Nat.add_le_add_left
  split_ifs with he
  · exact UInt64.le_iff_toNat_le.mp (hdraw he).1
  · rw [not_not.mp he]

lemma handled_pace {fd : Fd} {draw : UInt64} (hp : Pace c s) (hpc : s.pc = .events)
    (hc : c.hasTimeout) (hf : Fits c s (.next fd draw)) : Pace c (handle c s fd draw) := by
  have hmin := min_le_timeout hf
  have hready := hp.ready
  simp only [unpinged, hpc] at hready
  refine ⟨?_, ?_, ?_⟩
  · simp only [ltime_handle]
    intro item hi
    rw [handle] at hi
    split_ifs at hi
    · obtain rfl | hi := List.mem_cons.mp hi
      · exact hmin
      · exact hp.queue item (by simpa using hi)
    · exact hp.queue item (by simpa using hi)
  · simp only [ltime_handle, handle_currTime]
    intro fd' hfd
    rw [handle] at hfd
    split_ifs at hfd with h
    · exact hready fd' (by simpa [unpinged] using hfd)
    · simp only [unpinged, noteLatency_readyFds, List.mem_append, List.mem_singleton] at hfd
      obtain hfd | rfl := hfd
      · exact hready fd' hfd
      · exact hmin.trans (UInt64.le_iff_toNat_le.mp (UInt64.not_lt.mp fun hlt => h ⟨hc, hlt⟩))
  · rcases handle_cases c s fd draw with he | he <;> simp [he]

lemma answered_pace {fd : Fd} {rest : List Fd} (now : UInt64) (r : TestResult) (hp : Pace c s)
    (hpc : s.pc = .pinging fd rest) (hn : (unpinged s ++ queued s).Nodup) :
    Pace c { s with
      pc := .pings rest
      lastTimeForSocket := s.lastTimeForSocket.insert fd now
      result := r } := by
  simp only [unpinged, hpc, List.cons_append, List.nodup_cons, List.mem_append, not_or] at hn
  have hready := hp.ready
  simp only [unpinged, hpc] at hready
  have keep {fd' : Fd} (he : fd' ≠ fd) : (AList.insert fd now s.lastTimeForSocket).lookup fd' =
      s.lastTimeForSocket.lookup fd' := AList.lookup_insert_ne he
  refine ⟨fun item hi => ?_, fun fd' hfd => ?_, by simp⟩
  · have hne : item.fd ≠ fd := fun he => hn.1.2 (he ▸ List.mem_map_of_mem hi)
    rw [ltime, keep hne]
    exact hp.queue item hi
  · have hne : fd' ≠ fd := fun he => hn.1.1 (he ▸ hfd)
    rw [ltime, keep hne]
    exact hready fd' (List.mem_cons_of_mem _ hfd)

lemma step_pace (hp : Pace c s) (hc : c.hasTimeout) (hf : Fits c s l)
    (hn : (unpinged s ++ queued s).Nodup) (h : step c s l = some t) : Pace c t := by
  cases step_moves h with
  | waited hpc =>
    refine ⟨hp.queue, ?_, ?_⟩
    · split_ifs <;> simp [unpinged]
    · split_ifs with hq
      · simp
      · intro _ item hi
        exact absurd (List.length_pos_of_mem hi) hq
  | @expired item hpc htop hd =>
    have hready := hp.ready
    simp only [unpinged, hpc] at hready
    refine ⟨fun x hx => hp.queue x (List.mem_of_mem_erase hx), fun fd hfd => ?_, ?_⟩
    · simp only [unpinged, hpc, List.mem_append, List.mem_singleton] at hfd
      obtain hfd | rfl := hfd
      · exact hready fd hfd
      · exact (hp.queue item htop.1).trans (UInt64.le_iff_toNat_le.mp hd)
    · simp [hpc]
  | drained hpc hd =>
    have hready := hp.ready
    simp only [unpinged, hpc] at hready
    exact ⟨hp.queue, hready, fun _ => hd⟩
  | @handled fd fds draw hpc hr => exact handled_pace ⟨hp.queue, hp.ready, hp.due⟩ hpc hc hf
  | answered hpc => exact answered_pace _ _ hp hpc hn
  | failed | stopped | broken => exact ⟨hp.queue, by simp [unpinged], by simp⟩
  | counted hpc | exhausted hpc | pushed hpc | pinging hpc | pinged hpc =>
    have hready := hp.ready
    simp only [unpinged, hpc] at hready
    exact ⟨hp.queue, hready, by simp⟩

def lastWait (ls : List Label) : Option UInt64 := (ls.filterMap fun
  | .wait (some _) now => some now
  | _ => none).getLast?

def lastPing (c : Config) (fd : Fd) (ls : List Label) : Option UInt64 := (ls.filterMap fun
  | .ping fd' bc wc now => if fd' = fd ∧ ping c.messageLen bc wc then some now else none
  | _ => none).getLast?

def drainedFds (ls : List Label) : List Fd := ls.filterMap fun
  | .drain item => some item.fd
  | _ => none

def Label.isWait : Label → Bool
  | .wait _ _ => true
  | _ => false

def iteration (ls : List Label) : List Label := (ls.reverse.takeWhile (!·.isWait)).reverse

lemma lastWait_snoc : lastWait (ls ++ [l]) = (lastWait [l]).or (lastWait ls) := by
  simp only [lastWait, List.filterMap_append, List.getLast?_append]

lemma lastPing_snoc {fd : Fd} :
    lastPing c fd (ls ++ [l]) = (lastPing c fd [l]).or (lastPing c fd ls) := by
  simp only [lastPing, List.filterMap_append, List.getLast?_append]

lemma drainedFds_snoc : drainedFds (ls ++ [l]) = drainedFds ls ++ drainedFds [l] :=
  List.filterMap_append ..

lemma iteration_wait {ready : Option (List Fd)} {now : UInt64} :
    iteration (ls ++ [.wait ready now]) = [] := by
  simp [iteration, Label.isWait]

lemma iteration_snoc (h : l.isWait = false) :
    iteration (ls ++ [l]) = iteration ls ++ [l] := by
  simp [iteration, h]

def Round (c : Config) (s : State) (round : List Label) : Prop :=
  match s.pc with
  | .head => drainedFds round <+: pinged c round
  | .returned => True
  | .drain => drainedFds round = s.readyFds ∧ pinged c round = []
  | _ => drainedFds round <+: s.readyFds ∧ s.readyFds = pinged c round ++ unpinged s

structure Timed (c : Config) (s : State) (ls : List Label) : Prop where
  clock : s.pc ≠ .head → s.pc ≠ .returned → lastWait ls = some s.currTime
  times : ∀ fd, ltime s fd = (lastPing c fd ls).getD 0
  round : Round c s (iteration ls)

lemma step_round (h : Round c s (iteration ls)) (hl : step c s l = some t) :
    Round c t (iteration (ls ++ [l])) := by
  have snoc (hw : l.isWait = false) :
      drainedFds (iteration (ls ++ [l])) = drainedFds (iteration ls) ++ drainedFds [l] ∧
        pinged c (iteration (ls ++ [l])) = pinged c (iteration ls) ++ pinged c [l] := by
    rw [iteration_snoc hw]
    exact ⟨drainedFds_snoc, pinged_snoc⟩
  cases step_moves hl with
  | failed | stopped | broken => trivial
  | waited hpc =>
    rw [iteration_wait]
    split_ifs <;> simp [Round, drainedFds, pinged, unpinged]
  | expired hpc =>
    obtain ⟨hd, hp⟩ := snoc rfl
    simp only [Round, hpc] at h ⊢
    rw [hd, hp, h.1, h.2]
    exact ⟨rfl, rfl⟩
  | drained hpc =>
    obtain ⟨hd, hp⟩ := snoc rfl
    simp only [Round, hpc] at h ⊢
    rw [hd, hp, h.1, h.2]
    simp [drainedFds, pinged, unpinged]
  | @handled fd fds draw hpc hr =>
    obtain ⟨hd, hp⟩ := snoc rfl
    simp only [Round, hpc, unpinged, List.self_eq_append_left] at h
    have hd' : drainedFds (iteration (ls ++ [.next fd draw])) = drainedFds (iteration ls) :=
      hd.trans (List.append_nil _)
    have hp' : pinged c (iteration (ls ++ [.next fd draw])) = [] :=
      hp.trans (by rw [h.2]; rfl)
    rcases handle_cases c { s with sel := { s.sel with ready := fds, current := some fd } } fd draw
      with he | he
    · simp only [he, Round, unpinged, hd', hp', noteLatency_readyFds, List.nil_append, and_true]
      exact h.1
    · simp only [he, Round, unpinged, hd', hp', List.nil_append, and_true]
      exact h.1.trans (List.prefix_append _ _)
  | answered hpc hok =>
    obtain ⟨hd, hp⟩ := snoc rfl
    simp only [Round, hpc, unpinged] at h ⊢
    rw [hd, hp]
    refine ⟨by simpa [drainedFds] using h.1, ?_⟩
    rw [h.2]
    simp [pinged, hok]
  | pinged hpc =>
    obtain ⟨hd, hp⟩ := snoc rfl
    simp only [Round, hpc, unpinged, List.append_nil] at h ⊢
    rw [hd, hp, ← h.2]
    simpa [drainedFds, Worker.pinged] using h.1
  | counted hpc | exhausted hpc | pushed hpc | pinging hpc =>
    obtain ⟨hd, hp⟩ := snoc rfl
    simp only [Round, hpc, unpinged] at h ⊢
    rw [hd, hp]
    simpa [drainedFds, Worker.pinged] using h

lemma step_clock (h : s.pc ≠ .head → s.pc ≠ .returned → lastWait ls = some s.currTime)
    (hl : step c s l = some t) :
    t.pc ≠ .head → t.pc ≠ .returned → lastWait (ls ++ [l]) = some t.currTime := by
  intro hh hr
  rw [lastWait_snoc]
  cases step_moves hl with
  | failed | stopped | broken => exact (hr rfl).elim
  | pinged => exact (hh rfl).elim
  | waited => rfl
  | handled hpc =>
    rw [handle_currTime]
    exact h (by simp [hpc]) (by simp [hpc])
  | expired hpc | drained hpc | counted hpc | exhausted hpc | pushed hpc | pinging hpc
  | answered hpc => exact h (by simp [hpc]) (by simp [hpc])

lemma step_lastPing (h : ∀ fd, ltime s fd = (lastPing c fd ls).getD 0)
    (hl : step c s l = some t) (fd : Fd) : ltime t fd = (lastPing c fd (ls ++ [l])).getD 0 := by
  rw [lastPing_snoc]
  cases step_moves hl with
  | handled => rw [ltime_handle]; exact h fd
  | @answered fd' rest bc wc now hpc hok =>
    by_cases he : fd' = fd
    · subst he
      simp [ltime, lastPing, hok]
    · simp only [ltime, AList.lookup_insert_ne (Ne.symm he)]
      simpa [lastPing, he, ltime] using h fd
  | @broken fd' rest bc wc now hpc hok =>
    have hnone : lastPing c fd [.ping fd' bc wc now] = none := by simp [lastPing, hok]
    rw [hnone]
    exact h fd
  | _ => exact h fd

lemma run_timed {n : ℤ} (h : Machine.run (step c) (start n) ls = some s) : Timed c s ls := by
  refine Machine.run_observed (Timed c) (fun s ls l t hs hl => ?_) ?_ h
  · exact ⟨step_clock hs.clock hl, step_lastPing hs.times hl, step_round hs.round hl⟩
  · exact ⟨fun hh => (hh rfl).elim, fun _ => rfl, List.prefix_rfl⟩

lemma run_pace {n : ℤ} (hc : c.hasTimeout) (h : Machine.run (step c) (start n) ls = some s)
    (hr : Machine.run (report c fds) [] ls = some out)
    (hf : Machine.Along (step c) (Fits c) (start n) ls) : Pace c s := by
  refine Machine.run_history (fun _ s => Pace c s) ⟨by simp [start], by simp [start, unpinged],
    by simp [start]⟩ (fun ls l ks s t hj hs hp hl => ?_) h
  subst hj
  rw [Machine.run_append] at hr
  obtain ⟨out, ho, _⟩ := Option.bind_eq_some_iff.mp hr
  have hacc := run_accounts hs ho
  have hn := (hacc.owned (step_running hl)).nodup_iff.mp hacc.nodup
  exact step_pace hp hc (hf.at hs) (List.nodup_append.mp hn).2.1 hl

theorem think_time (c : Config) (fds : List Fd) (n : ℤ) (ls : List Label) (s : State)
    (out : List Fd) (hc : c.hasTimeout) (h : Machine.run (step c) (start n) ls = some s)
    (hr : Machine.run (report c fds) [] ls = some out)
    (hf : Machine.Along (step c) (Fits c) (start n) ls) :
    (∀ fd rest, s.pc = .pinging fd rest → ∃ now, lastWait ls = some now ∧
      ∀ last, lastPing c fd ls = some last → last.toNat + c.timeoutNsMin.toNat ≤ now.toNat) ∧
    (s.pc = .polled → ∃ now, lastWait ls = some now ∧ ∀ item ∈ s.waitQueue, now < item.readyTime) ∧
    (∀ item t, step c s (.drain item) = some t → ∃ now, lastWait ls = some now ∧
      item.readyTime ≤ now) ∧
    (s.pc = .head → drainedFds (iteration ls) <+: pinged c (iteration ls)) := by
  have hp := run_pace hc h hr hf
  have ht := run_timed h
  refine ⟨fun fd rest hpc => ?_, fun hpc => ?_, fun item t hl => ?_, fun hpc => ?_⟩
  · refine ⟨s.currTime, ht.clock (by simp [hpc]) (by simp [hpc]), fun last hlast => ?_⟩
    have hready := hp.ready fd (by simp [unpinged, hpc])
    rwa [ht.times, hlast] at hready
  · exact ⟨s.currTime, ht.clock (by simp [hpc]) (by simp [hpc]), hp.due hpc⟩
  · cases step_moves hl with
    | expired hpc _ hd => exact ⟨s.currTime, ht.clock (by simp [hpc]) (by simp [hpc]), hd⟩
  · simpa only [Round, hpc] using ht.round

theorem think_time_ten :
    let c : Config := ⟨3, 10, 10, fun _ => 0⟩
    let ls : List Label := [.wait (some [5]) 100, .done false, .next 5 0, .done false, .exhausted,
      .done false, .ping 5 3 3 110, .pinged, .wait (some [5]) 115, .done false, .next 5 0,
      .exhausted, .pinged, .wait (some []) 125, .drain ⟨5, 120⟩, .drained, .done false,
      .exhausted, .done false]
    ∃ now, lastWait ls = some now ∧ ∀ last, lastPing c 5 ls = some last →
      last.toNat + 10 ≤ now.toNat := by
  intro c ls
  exact (think_time c [5] 1 ls _ [5] rfl rfl rfl (by decide)).1 5 [] rfl

end NetworkPing.Worker
