import NetworkPing.Server.ConnectAll

namespace NetworkPing.ConnectAll

variable {α : Type} {c : Config α} {s t : State α} {l : Label} {ls : List Label}

inductive Moves (c : Config α) (s : State α) : Label → State α → Prop
  | found (h : s.pc = .resolve) :
      Moves c s (.gethostbyname true) { s with pc := .create, sockets := [] }
  | unknown (h : s.pc = .resolve) : Moves c s (.gethostbyname false) { s with pc := .ret false }
  | noSelector {efd} (h : s.pc = .create) : Moves c s (.epollCreate efd) { s with pc := .ret false }
  | selector {efd} (h : s.pc = .create) : Moves c s (.epollCreate efd) { s with pc := .head }
  | enter (h : s.pc = .head) (hp : Pending c s) :
      Moves c s .loop { s with pc := .socket 0 (maxConnect c s) }
  | exit (h : s.pc = .head) (hp : ¬ Pending c s) : Moves c s .exit { s with pc := .ret true }
  | attempt {i m a} (h : s.pc = .socket i m) (hi : i < m) :
      Moves c s (.attempt a) (connectOne c s i m a)
  | waitFailed {i m} (h : s.pc = .socket i m) (hi : ¬ i < m) :
      Moves c s (.wait none) { s with pc := .ret false }
  | noneReady {i m} (h : s.pc = .socket i m) (hi : ¬ i < m) :
      Moves c s (.wait (some [])) { s with
        pc := .ret false, sel := { s.sel with ready := [], current := none } }
  | waited {i m fd fds} (h : s.pc = .socket i m) (hi : ¬ i < m) (hr : Reportable s (fd :: fds)) :
      Moves c s (.wait (some (fd :: fds))) { s with
        pc := .confirm, sel := { s.sel with ready := fd :: fds, current := none } }
  | confirmed {fd fds retval error} (h : s.pc = .confirm) (hr : s.sel.ready = fd :: fds)
      (hc : checkSocketReady retval error) :
      Moves c s (.check fd retval error) { s with
        waitingToConnect := s.waitingToConnect - 1
        sel := { s.sel with ready := fds, current := some fd }
        registered := s.registered.erase fd }
  | refused {fd fds retval error} (h : s.pc = .confirm) (hr : s.sel.ready = fd :: fds)
      (hc : ¬ checkSocketReady retval error) :
      Moves c s (.check fd retval error) { s with
        pc := .ret false, sel := { s.sel with ready := fds, current := some fd } }
  | exhausted (h : s.pc = .confirm) (hr : s.sel.ready = []) :
      Moves c s .exhausted { s with pc := .head }

lemma step_moves (h : step c s l = some t) : Moves c s l t := by
  rw [step.eq_def] at h
  split at h
  next found hpc =>
    cases found <;> cases h
    · exact .unknown hpc
    · exact .found hpc
  next efd hpc =>
    split_ifs at h <;> cases h
    · exact .noSelector hpc
    · exact .selector hpc
  next hpc =>
    split_ifs at h with hp
    cases h
    exact .enter hpc hp
  next hpc =>
    split_ifs at h with hp
    cases h
    exact .exit hpc hp
  next i m a hpc =>
    split_ifs at h with hi
    cases h
    exact .attempt hpc hi
  next i m ready hpc =>
    split_ifs at h with hi
    cases ready with
    | none => cases h; exact .waitFailed hpc hi
    | some batch =>
      obtain ⟨hr, h⟩ := Option.ite_none_right_eq_some.mp h
      cases batch with
      | nil => cases h; exact .noneReady hpc hi
      | cons fd fds => cases h; exact .waited hpc hi hr
  next fd retval error hpc =>
    cases hr : s.sel.ready with
    | nil => simp [EPollRSelector.next_nil hr] at h
    | cons fd' fds =>
      simp only [EPollRSelector.next_cons hr] at h
      split_ifs at h with hf hc
      · subst hf
        simp only [EPollRSelector.removeCurrentReady, Option.toList_some, List.diff_cons,
          List.diff_nil] at h
        cases h
        exact .confirmed hpc hr hc
      · subst hf
        cases h
        exact .refused hpc hr hc
  next hpc =>
    cases hr : s.sel.ready with
    | nil =>
      simp only [EPollRSelector.next_nil hr] at h
      cases h
      exact .exhausted hpc hr
    | cons fd fds => simp [EPollRSelector.next_cons hr] at h
  next => cases h

lemma connectOne_cases (c : Config α) (s : State α) (i m : ℤ) (a : Attempt) :
    (a.sockfd < 0 ∧ connectOne c s i m a = { s with pc := .ret false }) ∨
    (0 ≤ a.sockfd ∧ (connectOne c s i m a).pc = .ret false ∧
      (connectOne c s i m a).sockets = s.sockets ++ [a.sockfd] ∧
      (connectOne c s i m a).binds =
        s.binds ++ if c.needBind then bindEntry c s a.sockfd else []) ∨
    (0 ≤ a.sockfd ∧ connectOne c s i m a = { s with
      pc := .socket (i + 1) m
      sockets := s.sockets ++ [a.sockfd]
      currIt := if c.needBind then wrapped c s + 1 else s.currIt
      waitingToConnect := s.waitingToConnect + 1
      registered := s.registered ++ [a.sockfd]
      binds := s.binds ++ if c.needBind then bindEntry c s a.sockfd else [] }) := by
  by_cases ha : a.sockfd < 0
  · exact .inl ⟨ha, by simp [connectOne, ha]⟩
  have hf : 0 ≤ a.sockfd := by omega
  apply Or.inr
  rw [connectOne, if_neg ha]
  have hbind : bindEntry c { s with sockets := s.sockets ++ [a.sockfd] } a.sockfd =
      bindEntry c s a.sockfd := rfl
  have hwrap : wrapped c { s with sockets := s.sockets ++ [a.sockfd] } = wrapped c s := rfl
  cases hb : c.needBind <;> dsimp only <;> split_ifs
  all_goals first
    | exact .inl ⟨hf, rfl, by simp, by simp [hbind]⟩
    | exact .inr ⟨hf, by simp [hbind, hwrap]⟩

def boundTo (c : Config α) (hn : 0 < c.clientIpAddrs.length) (fds : List Fd) : List (Fd × α) :=
  fds.mapIdx fun i fd =>
    (fd, c.clientIpAddrs.get ⟨i % c.clientIpAddrs.length, Nat.mod_lt i hn⟩)

structure Window (c : Config α) (s : State α) (ls : List Label) : Prop where
  sockets : s.sockets = created ls
  split : (created ls).Perm (confirmed ls ++ s.registered)
  waiting : s.waitingToConnect = s.registered.length
  size : s.waitingToConnect ≤ c.connQSize.toInt
  count : (s.sockets.length : ℤ) ≤ c.sockCount.toInt
  turn : 0 < c.clientIpAddrs.length →
    wrapped c s = (created ls).length % c.clientIpAddrs.length

structure Fresh (s : State α) (ls : List Label) : Prop where
  noSocket : created ls = []
  noCheck : confirmed ls = []
  noRound : rounds ls = 0
  registered : s.registered = []
  waiting : s.waitingToConnect = 0
  next : s.currIt = 0

def Phase (c : Config α) (s : State α) (ls : List Label) : Prop :=
  match s.pc with
  | .resolve => Fresh s ls
  | .create => Fresh s ls ∧ s.sockets = []
  | .head => Window c s ls ∧ rounds ls ≤ (confirmed ls).length
  | .socket i m => Window c s ls ∧ i ≤ m ∧ s.waitingToConnect + (m - i) ≤ c.connQSize.toInt ∧
      s.sockets.length + (m - i) ≤ c.sockCount.toInt ∧
      rounds ls ≤ (confirmed ls).length + 1 ∧ (confirmed ls).length < c.sockCount.toInt
  | .confirm => Window c s ls ∧ s.sel.ready.Subperm s.registered ∧
      rounds ls ≤ (confirmed ls).length + if s.sel.ready = [] then 0 else 1
  | .ret true => Window c s ls ∧ s.waitingToConnect = 0 ∧
      (s.sockets.length : ℤ) = c.sockCount.toInt
  | .ret false => (created ls).Sublist s.sockets

structure Inv (c : Config α) (s : State α) (ls : List Label) : Prop where
  binds : ∀ hn, s.binds = boundTo c hn (created ls)
  bounded : (rounds ls : ℤ) ≤ c.sockCount.toInt
  phase : Phase c s ls

lemma created_snoc : created (ls ++ [l]) = created ls ++ created [l] := List.filterMap_append ..

lemma confirmed_snoc : confirmed (ls ++ [l]) = confirmed ls ++ confirmed [l] :=
  List.filterMap_append ..

lemma rounds_snoc : rounds (ls ++ [l]) = rounds ls + rounds [l] := List.count_append ..

lemma created_of_nil (h : created [l] = []) : created (ls ++ [l]) = created ls := by
  rw [created_snoc, h, List.append_nil]

lemma confirmed_of_nil (h : confirmed [l] = []) : confirmed (ls ++ [l]) = confirmed ls := by
  rw [confirmed_snoc, h, List.append_nil]

lemma rounds_of_zero (h : rounds [l] = 0) : rounds (ls ++ [l]) = rounds ls := by
  rw [rounds_snoc, h, Nat.add_zero]

lemma Window.confirmed_le (h : Window c s ls) :
    ((confirmed ls).length : ℤ) + s.registered.length = s.sockets.length := by
  have hl := h.split.length_eq
  rw [List.length_append] at hl
  rw [h.sockets]
  omega

lemma Window.frame (h : Window c s ls) (hc : created [l] = []) (hf : confirmed [l] = [])
    (hs : t.sockets = s.sockets) (hi : t.currIt = s.currIt) (hr : t.registered = s.registered)
    (hw : t.waitingToConnect = s.waitingToConnect) : Window c t (ls ++ [l]) where
  sockets := by rw [hs, h.sockets, created_of_nil hc]
  split := by rw [created_of_nil hc, confirmed_of_nil hf, hr]; exact h.split
  waiting := by rw [hw, hr, h.waiting]
  size := hw ▸ h.size
  count := hs ▸ h.count
  turn hn := by
    rw [created_of_nil hc, ← h.turn hn]
    simp only [wrapped, hi]

lemma Window.create (h : Window c s ls) {a : Attempt} (ha : 0 ≤ a.sockfd)
    (hs : t.sockets = s.sockets ++ [a.sockfd]) (hr : t.registered = s.registered ++ [a.sockfd])
    (hw : t.waitingToConnect = s.waitingToConnect + 1)
    (hi : t.currIt = if c.needBind then wrapped c s + 1 else s.currIt)
    (hq : s.waitingToConnect < c.connQSize.toInt)
    (hn : (s.sockets.length : ℤ) < c.sockCount.toInt) : Window c t (ls ++ [.attempt a]) := by
  have hc : created [.attempt a] = [a.sockfd] := by simp [created, ha]
  refine ⟨by rw [hs, h.sockets, created_snoc, hc], ?_, ?_, by omega, ?_, fun hpos => ?_⟩
  · rw [created_snoc, confirmed_of_nil rfl, hc, hr, ← List.append_assoc]
    exact h.split.append_right _
  · rw [hw, hr, h.waiting, List.length_append, List.length_singleton, Nat.cast_add, Nat.cast_one]
  · rw [hs, List.length_append, List.length_singleton]
    omega
  · have hnb : c.needBind := by simpa [Config.needBind] using hpos.ne
    have hlt := Nat.mod_lt (created ls).length hpos
    rw [hnb, if_pos rfl, h.turn hpos] at hi
    rw [wrapped, hi, created_snoc, hc, List.length_append, List.length_singleton, ← Nat.mod_add_mod]
    split_ifs with he
    · rw [he, Nat.mod_self]
    · exact (Nat.mod_eq_of_lt (by omega)).symm

lemma Window.confirm (h : Window c s ls) {fd : Fd} {retval error : ℤ}
    (hc : checkSocketReady retval error) (hfd : fd ∈ s.registered)
    (hs : t.sockets = s.sockets) (hr : t.registered = s.registered.erase fd)
    (hw : t.waitingToConnect = s.waitingToConnect - 1) (hi : t.currIt = s.currIt) :
    Window c t (ls ++ [.check fd retval error]) := by
  have hf : confirmed [.check fd retval error] = [fd] := by simp [confirmed, hc]
  have hpos := List.length_pos_of_mem hfd
  refine ⟨by rw [hs, h.sockets, created_of_nil rfl], ?_, ?_, ?_, hs ▸ h.count, fun hp => ?_⟩
  · rw [created_of_nil rfl, confirmed_snoc, hf, List.append_assoc, hr]
    exact h.split.trans ((List.perm_cons_erase hfd).append_left _)
  · rw [hw, hr, List.length_erase_of_mem hfd, h.waiting]
    omega
  · have := h.size
    omega
  · rw [created_of_nil rfl, ← h.turn hp]
    simp only [wrapped, hi]

lemma boundTo_snoc (hn : 0 < c.clientIpAddrs.length) (fds : List Fd) (fd : Fd) :
    boundTo c hn (fds ++ [fd]) = boundTo c hn fds ++
      [(fd, c.clientIpAddrs.get ⟨fds.length % c.clientIpAddrs.length, Nat.mod_lt _ hn⟩)] :=
  List.mapIdx_concat

lemma Inv.frame (h : Inv c s ls) (hc : created [l] = []) (hl : rounds [l] = 0)
    (hb : t.binds = s.binds) (hp : Phase c t (ls ++ [l])) : Inv c t (ls ++ [l]) where
  binds hn := by rw [hb, h.binds hn, created_of_nil hc]
  bounded := by rw [rounds_of_zero hl]; exact h.bounded
  phase := hp

lemma attempt_inv {i m : ℤ} {a : Attempt} (h : Inv c s ls) (hpc : s.pc = .socket i m)
    (hi : i < m) : Inv c (connectOne c s i m a) (ls ++ [.attempt a]) := by
  obtain ⟨hw, _, hq, hn, hr, hc⟩ : _ ∧ _ ∧ _ ∧ _ ∧ _ ∧ _ := by simpa [Phase, hpc] using h.phase
  have bound (t : State α) (ha : 0 ≤ a.sockfd)
      (hb : t.binds = s.binds ++ if c.needBind then bindEntry c s a.sockfd else []) (hn) :
      t.binds = boundTo c hn (created (ls ++ [.attempt a])) := by
    have hnb : c.needBind := by simpa [Config.needBind] using hn.ne
    have hone : created [.attempt a] = [a.sockfd] := by simp [created, ha]
    have hlt : wrapped c s < c.clientIpAddrs.length := hw.turn hn ▸ Nat.mod_lt _ hn
    rw [hb, h.binds hn, if_pos hnb, created_snoc, hone, boundTo_snoc, bindEntry,
      List.getElem?_eq_getElem hlt]
    simp only [hw.turn hn, Option.toList_some, List.map_cons, List.map_nil, List.get_eq_getElem]
  have hl : rounds (ls ++ [.attempt a]) = rounds ls := rounds_of_zero rfl
  have bounded : (rounds (ls ++ [.attempt a]) : ℤ) ≤ c.sockCount.toInt := hl ▸ h.bounded
  obtain ⟨ha, he⟩ | ⟨ha, hpc', hs, hb⟩ | ⟨ha, he⟩ := connectOne_cases c s i m a
  · have hnone : created [.attempt a] = [] := by simp [created, ha]
    refine he ▸ h.frame hnone rfl rfl ?_
    simp [Phase, created_of_nil hnone, hw.sockets]
  · refine ⟨bound _ ha hb, bounded, ?_⟩
    have hone : created [.attempt a] = [a.sockfd] := by simp [created, ha]
    simp [Phase, hpc', hs, created_snoc, hone, hw.sockets]
  · rw [he]
    refine ⟨bound _ ha rfl, bounded, ?_⟩
    have hf : confirmed (ls ++ [.attempt a]) = confirmed ls := confirmed_of_nil rfl
    refine ⟨hw.create ha rfl rfl rfl rfl (by omega) (by omega), by omega, ?_, ?_, ?_, ?_⟩
    · dsimp only
      omega
    · simp only [List.length_append, List.length_singleton]
      omega
    · rw [hf, hl]
      exact hr
    · rw [hf]
      exact hc

lemma confirmed_inv {fd : Fd} {fds : List Fd} {retval error : ℤ} (h : Inv c s ls)
    (hpc : s.pc = .confirm) (hr : s.sel.ready = fd :: fds) (hc : checkSocketReady retval error) :
    Inv c { s with
      waitingToConnect := s.waitingToConnect - 1
      sel := { s.sel with ready := fds, current := some fd }
      registered := s.registered.erase fd } (ls ++ [.check fd retval error]) := by
  obtain ⟨hw, hsub, hl⟩ : _ ∧ _ ∧ _ := by simpa [Phase, hpc] using h.phase
  have hfd : fd ∈ s.registered := hsub.subset (hr ▸ List.mem_cons_self)
  have hf : confirmed [.check fd retval error] = [fd] := by simp [confirmed, hc]
  refine h.frame rfl rfl rfl ?_
  simp only [Phase, hpc]
  refine ⟨hw.confirm hc hfd rfl rfl rfl rfl, ?_, ?_⟩
  · have he := hsub.erase fd
    rwa [hr, List.erase_cons_head] at he
  · rw [hr] at hl
    rw [rounds_of_zero rfl, confirmed_snoc, hf, List.length_append, List.length_singleton]
    simp only [reduceCtorEq, if_false] at hl
    exact le_trans hl (by omega)

lemma Fresh.frame (h : Fresh s ls) (hc : created [l] = []) (hf : confirmed [l] = [])
    (hl : rounds [l] = 0) (hr : t.registered = s.registered)
    (hw : t.waitingToConnect = s.waitingToConnect) (hi : t.currIt = s.currIt) :
    Fresh t (ls ++ [l]) where
  noSocket := by rw [created_of_nil hc, h.noSocket]
  noCheck := by rw [confirmed_of_nil hf, h.noCheck]
  noRound := by rw [rounds_of_zero hl, h.noRound]
  registered := hr.trans h.registered
  waiting := hw.trans h.waiting
  next := hi.trans h.next

lemma Fresh.window (h : Fresh s ls) (hs : s.sockets = []) (hn : 0 ≤ c.sockCount.toInt)
    (hq : 1 ≤ c.connQSize.toInt) : Window c s ls where
  sockets := by rw [hs, h.noSocket]
  split := by rw [h.noSocket, h.noCheck, h.registered]; rfl
  waiting := by rw [h.waiting, h.registered]; rfl
  size := by rw [h.waiting]; omega
  count := by rw [hs]; exact hn
  turn hpos := by
    rw [wrapped, h.next, h.noSocket, if_neg hpos.ne]
    exact (Nat.zero_mod _).symm

lemma Window.pending (hw : Window c s ls) (h : Pending c s) :
    (confirmed ls).length < c.sockCount.toInt := by
  have hl := hw.confirmed_le
  have hc := hw.count
  have hm := hw.waiting
  rcases h with hd | hw
  · by_contra hge
    rw [show c.sockCount.toInt - s.sockets.length = 0 by omega] at hd
    exact hd rfl
  · omega

lemma Window.not_pending (hw : Window c s ls) (h : ¬ Pending c s) :
    s.waitingToConnect = 0 ∧ (s.sockets.length : ℤ) = c.sockCount.toInt := by
  rw [Pending, not_or, not_not, not_not] at h
  have hc := hw.count
  have hlt := c.sockCount.toInt_lt
  refine ⟨h.2, ?_⟩
  rw [Int.emod_eq_of_lt (by omega) (by omega)] at h
  omega

lemma enter_inv (h : Inv c s ls) (hpc : s.pc = .head) (hp : Pending c s) :
    Inv c { s with pc := .socket 0 (maxConnect c s) } (ls ++ [.loop]) := by
  obtain ⟨hw, hr⟩ : _ ∧ _ := by simpa [Phase, hpc] using h.phase
  have hlt := hw.pending hp
  have hl : rounds (ls ++ [.loop]) = rounds ls + 1 := by
    rw [rounds_snoc]
    rfl
  have hf : confirmed (ls ++ [.loop]) = confirmed ls := confirmed_of_nil rfl
  have hcount := hw.count
  have hsize := hw.size
  refine ⟨fun hn => ?_, ?_, hw.frame rfl rfl rfl rfl rfl rfl, ?_, ?_, ?_, ?_, ?_⟩
  · rw [created_of_nil rfl]
    exact h.binds hn
  · rw [hl]
    omega
  · exact le_min (by omega) (by omega)
  · have := min_le_right (c.sockCount.toInt - s.sockets.length)
      (c.connQSize.toInt - s.waitingToConnect)
    dsimp only [maxConnect]
    omega
  · have := min_le_left (c.sockCount.toInt - s.sockets.length)
      (c.connQSize.toInt - s.waitingToConnect)
    dsimp only [maxConnect]
    omega
  · rw [hl, hf]
    omega
  · rw [hf]
    exact hlt

lemma step_inv (h : Inv c s ls) (hl : step c s l = some t) (hn : 0 ≤ c.sockCount.toInt)
    (hq : 1 ≤ c.connQSize.toInt) : Inv c t (ls ++ [l]) := by
  have hp := h.phase
  -- a failed call leaves the list of sockets as it is
  have failed (l : Label) (hc : created [l] = []) (hw : (created ls).Sublist s.sockets) :
      (created (ls ++ [l])).Sublist s.sockets := by
    rwa [created_of_nil hc]
  cases step_moves hl with
  | found hpc =>
    simp only [Phase, hpc] at hp
    exact h.frame rfl rfl rfl ⟨hp.frame rfl rfl rfl rfl rfl rfl, rfl⟩
  | unknown hpc =>
    simp only [Phase, hpc] at hp
    exact h.frame rfl rfl rfl (failed _ rfl (hp.noSocket ▸ List.nil_sublist _))
  | noSelector hpc =>
    simp only [Phase, hpc] at hp
    exact h.frame rfl rfl rfl (failed _ rfl (hp.1.noSocket ▸ List.nil_sublist _))
  | @selector efd hpc =>
    simp only [Phase, hpc] at hp
    have hf : Fresh { s with pc := .head } (ls ++ [.epollCreate efd]) :=
      hp.1.frame rfl rfl rfl rfl rfl rfl
    exact h.frame rfl rfl rfl ⟨hf.window hp.2 hn hq, hf.noRound ▸ Nat.zero_le _⟩
  | enter hpc hpend => exact enter_inv h hpc hpend
  | exit hpc hpend =>
    simp only [Phase, hpc] at hp
    exact h.frame rfl rfl rfl ⟨hp.1.frame rfl rfl rfl rfl rfl rfl, hp.1.not_pending hpend⟩
  | attempt hpc hi => exact attempt_inv h hpc hi
  | waitFailed hpc _ =>
    simp only [Phase, hpc] at hp
    exact h.frame rfl rfl rfl (failed _ rfl (hp.1.sockets ▸ List.Sublist.refl _))
  | noneReady hpc _ =>
    simp only [Phase, hpc] at hp
    exact h.frame rfl rfl rfl (failed _ rfl (hp.1.sockets ▸ List.Sublist.refl _))
  | waited hpc _ hr =>
    simp only [Phase, hpc] at hp
    obtain ⟨hw, _, _, _, hround, _⟩ := hp
    refine h.frame rfl rfl rfl ⟨hw.frame rfl rfl rfl rfl rfl rfl, ?_, ?_⟩
    · exact List.subperm_of_subset hr.1 hr.2
    · rw [rounds_of_zero rfl, confirmed_of_nil rfl]
      simpa using hround
  | confirmed hpc hr hc => exact confirmed_inv h hpc hr hc
  | refused hpc hr hc =>
    simp only [Phase, hpc] at hp
    exact h.frame rfl rfl rfl (failed _ rfl (hp.1.sockets ▸ List.Sublist.refl _))
  | exhausted hpc hr =>
    simp only [Phase, hpc] at hp
    obtain ⟨hw, _, hround⟩ := hp
    refine h.frame rfl rfl rfl ⟨hw.frame rfl rfl rfl rfl rfl rfl, ?_⟩
    rw [if_pos hr, Nat.add_zero] at hround
    rwa [rounds_of_zero rfl, confirmed_of_nil rfl]

lemma start_inv (c : Config α) (sockets : List Fd) (hn : 0 ≤ c.sockCount.toInt) :
    Inv c (start c sockets) [] := ⟨fun _ => rfl, hn, ⟨rfl, rfl, rfl, rfl, rfl, rfl⟩⟩

lemma run_inv {sockets : List Fd} (h : Machine.run (step c) (start c sockets) ls = some s)
    (hn : 0 ≤ c.sockCount.toInt) (hq : 1 ≤ c.connQSize.toInt) : Inv c s ls :=
  Machine.run_observed (Inv c) (fun _ _ _ _ hi hl => step_inv hi hl hn hq)
    (start_inv c sockets hn) h

lemma append_diff (fds rest : List Fd) : (fds ++ rest).diff fds = rest := by
  induction fds with
  | nil => rfl
  | cons fd fds ih => rw [List.cons_append, List.diff_cons, List.erase_cons_head, ih]

structure AtHead (c : Config α) (s : State α) (ls : List Label) : Prop where
  waiting : s.waitingToConnect = ((created ls).diff (confirmed ls)).length
  window : 0 ≤ s.waitingToConnect ∧ s.waitingToConnect ≤ c.connQSize.toInt
  count : (s.sockets.length : ℤ) ≤ c.sockCount.toInt

theorem connection_window (c : Config α) (sockets : List Fd) (ls : List Label) (s : State α)
    (hn : 0 ≤ c.sockCount.toInt) (hq : 1 ≤ c.connQSize.toInt)
    (h : Machine.run (step c) (start c sockets) ls = some s) :
    (s.pc = .head → AtHead c s ls) ∧
    (∀ hpos, s.binds = boundTo c hpos (created ls)) ∧
    (rounds ls : ℤ) ≤ c.sockCount.toInt ∧
    (s.pc = .ret true → s.sockets = created ls ∧ (s.sockets.length : ℤ) = c.sockCount.toInt ∧
      (confirmed ls).Perm s.sockets) ∧
    (s.pc = .ret false → (created ls).Sublist s.sockets) := by
  obtain ⟨hb, hr, hp⟩ := run_inv h hn hq
  refine ⟨fun hpc => ?_, hb, hr, fun hpc => ?_, fun hpc => ?_⟩
  · obtain ⟨hw, _⟩ : _ ∧ _ := by simpa only [Phase, hpc] using hp
    have hd := (hw.split.diff_right (confirmed ls)).length_eq
    rw [append_diff] at hd
    exact ⟨by rw [hw.waiting, hd], ⟨by rw [hw.waiting]; omega, hw.size⟩, hw.count⟩
  · obtain ⟨hw, h0, hc⟩ : _ ∧ _ ∧ _ := by simpa only [Phase, hpc] using hp
    have hnil : s.registered = [] := List.length_eq_zero_iff.mp (by rw [hw.waiting] at h0; omega)
    have hs := hw.split
    rw [hnil, List.append_nil] at hs
    exact ⟨hw.sockets, hc, hw.sockets ▸ hs.symm⟩
  · simpa only [Phase, hpc] using hp

theorem connection_window_two :
    let c : Config ℕ := ⟨2, [10], 1⟩
    let ls : List Label := [.gethostbyname true, .epollCreate 3, .loop,
      .attempt ⟨5, 0, -1, true, 0⟩, .wait (some [5]), .check 5 0 0, .exhausted, .loop,
      .attempt ⟨6, 0, -1, true, 0⟩, .wait (some [6]), .check 6 0 0, .exhausted, .exit]
    (created ls = [5, 6] ∧ (confirmed ls).Perm [5, 6]) ∧ boundTo c (by decide) [5, 6] =
      [(5, 10), (6, 10)] := by
  intro c ls
  have h := connection_window c [] ls ⟨.ret true, [5, 6], 1, 0, ⟨1, [], some 6⟩, [],
    [(5, 10), (6, 10)]⟩ (by decide) (by decide) rfl
  obtain ⟨hs, -, hp⟩ := h.2.2.2.1 rfl
  exact ⟨⟨hs.symm, hp⟩, (h.2.1 (by decide)).symm⟩

end NetworkPing.ConnectAll
