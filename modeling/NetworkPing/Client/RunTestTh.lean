import NetworkPing.Client.WaitForConn

/-! `run_test_th`: one thread for each accepted socket, started by the callback of
`wait_for_conn`. A label is a step of `wait_for_conn`, a call of `process_message` in a
thread, or a step of the function itself; the destructors run after it, threads first. -/

namespace NetworkPing.Client.RunTestTh

inductive Status
  | serving
  | ended
  | joined
  deriving DecidableEq

structure Thread where
  sock : Fd
  status : Status
  deriving DecidableEq

def params (thCount : ℤ) : WaitForConn.Params (List Thread) where
  sockCount := thCount
  readyForConnect := id
  onSockCb sock threads := threads ++ [⟨sock, .serving⟩]
  async := false

inductive Pc
  | connecting
  | joining (i : ℕ)
  | destroying (code : ℤ) (i : ℕ)
  | closing (code : ℤ)
  | returned (code : ℤ)
  | terminated
  deriving DecidableEq

structure State where
  pc : Pc
  conn : WaitForConn.State (List Thread)
  tested : Bool

def State.threads (s : State) : List Thread := s.conn.env

inductive Label
  | conn (l : WaitForConn.Label)
  | message (i : ℕ) (answer : Bool)
  | connected
  | join
  | testDone
  | destroy
  | close
  deriving DecidableEq

def start : State := ⟨.connecting, WaitForConn.start [] [], false⟩

def State.mark (s : State) (i : ℕ) (status : Status) : State :=
  { s with conn.env := s.conn.env.modify i fun th => { th with status := status } }

def step (thCount : ℤ) (s : State) (l : Label) : Option State :=
  match s.pc, l with
  | .terminated, _ => none
  | _, .message i answer =>
    match s.threads[i]? with
    | some th =>
      if th.status = .serving then some (if answer then s else s.mark i .ended) else none
    | none => none
  | .connecting, .conn l =>
    (WaitForConn.step (params thCount) s.conn l).map fun conn => { s with conn := conn }
  | .connecting, .connected =>
    match s.conn.pc with
    | .returned true => some { s with pc := .joining 0 }
    | .returned false => some { s with pc := .destroying 1 0 }
    | _ => none
  | .joining i, .join =>
    match s.threads[i]? with
    | some th =>
      if th.status = .ended then some { s.mark i .joined with pc := .joining (i + 1) } else none
    | none => none
  | .joining i, .testDone =>
    match s.threads[i]? with
    | some _ => none
    | none => some { s with pc := .destroying 0 0, tested := true }
  | .destroying code i, .destroy =>
    match s.threads[i]? with
    | some th =>
      -- the destructor of a joinable `std::thread` calls `std::terminate`
      some { s with pc := if th.status = .joined then .destroying code (i + 1) else .terminated }
    | none => some { s with pc := .closing code }
  | .closing code, .close => some { s with pc := .returned code }
  | _, _ => none

def conns (ls : List Label) : List WaitForConn.Label := ls.filterMap fun
  | .conn l => some l
  | _ => none

inductive Moves (thCount : ℤ) (s : State) : Label → State → Prop
  | conn {l conn} (h : s.pc = .connecting)
      (hl : WaitForConn.step (params thCount) s.conn l = some conn) :
      Moves thCount s (.conn l) { s with conn := conn }
  | echoed {i th} (h : s.pc ≠ .terminated) (hi : s.threads[i]? = some th)
      (hs : th.status = .serving) : Moves thCount s (.message i true) s
  | ended {i th} (h : s.pc ≠ .terminated) (hi : s.threads[i]? = some th)
      (hs : th.status = .serving) : Moves thCount s (.message i false) (s.mark i .ended)
  | connected (h : s.pc = .connecting) (hc : s.conn.pc = .returned true) :
      Moves thCount s .connected { s with pc := .joining 0 }
  | refused (h : s.pc = .connecting) (hc : s.conn.pc = .returned false) :
      Moves thCount s .connected { s with pc := .destroying 1 0 }
  | joined {i th} (h : s.pc = .joining i) (hi : s.threads[i]? = some th)
      (hs : th.status = .ended) :
      Moves thCount s .join { s.mark i .joined with pc := .joining (i + 1) }
  | testDone {i} (h : s.pc = .joining i) (hi : s.threads[i]? = none) :
      Moves thCount s .testDone { s with pc := .destroying 0 0, tested := true }
  | destroyed {code i th} (h : s.pc = .destroying code i) (hi : s.threads[i]? = some th)
      (hs : th.status = .joined) :
      Moves thCount s .destroy { s with pc := .destroying code (i + 1) }
  | terminated {code i th} (h : s.pc = .destroying code i) (hi : s.threads[i]? = some th)
      (hs : th.status ≠ .joined) : Moves thCount s .destroy { s with pc := .terminated }
  | emptied {code i} (h : s.pc = .destroying code i) (hi : s.threads[i]? = none) :
      Moves thCount s .destroy { s with pc := .closing code }
  | closed {code} (h : s.pc = .closing code) :
      Moves thCount s .close { s with pc := .returned code }

variable {thCount : ℤ} {s t : State} {l : Label} {ls : List Label}

lemma step_moves (h : step thCount s l = some t) : Moves thCount s l t := by
  rw [step.eq_def] at h
  split at h
  next => cases h
  next i answer hpc =>
    split at h
    next th hi =>
      split_ifs at h with hs ha
      · cases h
        subst ha
        exact .echoed hpc hi hs
      · cases h
        obtain rfl : answer = false := by simpa using ha
        exact .ended hpc hi hs
    next => cases h
  next l hpc =>
    obtain ⟨conn, hl, rfl⟩ := Option.map_eq_some_iff.mp h
    exact .conn hpc hl
  next hpc =>
    split at h
    next hc =>
      cases h
      exact .connected hpc hc
    next hc =>
      cases h
      exact .refused hpc hc
    next => cases h
  next i hpc =>
    split at h
    next th hi =>
      split_ifs at h with hs
      cases h
      exact .joined hpc hi hs
    next => cases h
  next i hpc =>
    split at h
    next => cases h
    next hi =>
      cases h
      exact .testDone hpc hi
  next code i hpc =>
    split at h
    next th hi =>
      split_ifs at h with hs
      · cases h
        exact .destroyed hpc hi hs
      · cases h
        exact .terminated hpc hi hs
    next hi =>
      cases h
      exact .emptied hpc hi
  next code hpc =>
    cases h
    exact .closed hpc
  next => cases h

def fds (threads : List Thread) : List Fd := threads.map Thread.sock

lemma fds_mark (s : State) (i : ℕ) (status : Status) :
    fds (s.mark i status).conn.env = fds s.conn.env := by
  apply List.ext_getElem?
  intro j
  simp only [fds, State.mark, List.getElem?_map, List.getElem?_modify]
  cases s.conn.env[j]? with
  | none => rfl
  | some th => by_cases h : i = j <;> simp [h]

lemma mem_modify {α : Type*} {f : α → α} {a : α} {xs : List α} {i : ℕ}
    (h : a ∈ xs.modify i f) : a ∈ xs ∨ ∃ b, xs[i]? = some b ∧ a = f b := by
  obtain ⟨j, hj⟩ := List.mem_iff_getElem?.mp h
  rw [List.getElem?_modify] at hj
  obtain ⟨b, hb, rfl⟩ := Option.map_eq_some_iff.mp hj
  by_cases he : i = j
  · subst he
    exact Or.inr ⟨b, hb, if_pos rfl⟩
  · left
    rw [if_neg he]
    exact List.mem_of_getElem? hb

lemma run_conns (h : Machine.run (step thCount) start ls = some t) :
    Machine.run (WaitForConn.step (WaitForConn.noting thCount false)) (WaitForConn.start [] [])
      (conns ls) = some (t.conn.map fds) := by
  have hm : (params thCount).Maps (WaitForConn.noting thCount false) fds := by
    refine ⟨rfl, fun _ => rfl, fun fd threads => ?_, rfl⟩
    simp [WaitForConn.noting, params, fds]
  refine Machine.run_simulates (fun s : State => s.conn.map fds) _ (fun s l t hl => ?_) h
  have hmark (i : ℕ) (status : Status) : (s.mark i status).conn.map fds = s.conn.map fds := by
    simp only [WaitForConn.State.map, fds_mark]
    rfl
  cases step_moves hl with
  | conn hpc hs =>
    show WaitForConn.step _ _ _ = _
    rw [WaitForConn.step_map hm, hs]
    rfl
  | ended | joined => exact hmark _ _
  | _ => rfl

structure Served (s : State) : Prop where
  connected : s.conn.pc = .returned true
  tested : s.tested = true
  joined : ∀ th ∈ s.threads, th.status = .joined

structure Aborted (s : State) : Prop where
  refused : s.conn.pc = .returned false
  untested : s.tested = false
  joinable : ∀ th ∈ s.threads, th.status ≠ .joined

structure Joining (s : State) (i : ℕ) : Prop where
  connected : s.conn.pc = .returned true
  untested : s.tested = false
  joined : ∀ th ∈ s.threads.take i, th.status = .joined

def Inv (s : State) : Prop :=
  match s.pc with
  | .connecting => s.tested = false ∧ ∀ th ∈ s.threads, th.status ≠ .joined
  | .joining i => Joining s i
  | .destroying _ i => Served s ∨ Aborted s ∧ i = 0
  | .closing _ | .returned _ => Served s ∨ Aborted s ∧ s.threads = []
  | .terminated => Aborted s ∧ s.threads ≠ []

variable {i k : ℕ} {th : Thread}

lemma not_joined_mark (h : ∀ th ∈ s.threads, th.status ≠ .joined) :
    ∀ th ∈ (s.mark i .ended).threads, th.status ≠ .joined := by
  intro th hth
  obtain hth | ⟨b, -, rfl⟩ := mem_modify hth
  · exact h th hth
  · simp

lemma Served.not_serving (h : Served s) (hi : s.threads[i]? = some th) :
    th.status ≠ .serving := by
  rw [h.joined th (List.mem_of_getElem? hi)]
  decide

lemma Aborted.ended (h : Aborted s) : Aborted (s.mark i .ended) :=
  ⟨h.refused, h.untested, not_joined_mark h.joinable⟩

lemma Joining.ended (h : Joining s k) (hi : s.threads[i]? = some th) (hs : th.status = .serving) :
    Joining (s.mark i .ended) k := by
  refine ⟨h.connected, h.untested, fun th' hth => ?_⟩
  have htake : (s.mark i .ended).threads.take k = (s.threads.take k).modify i _ :=
    List.take_modify ..
  rw [htake] at hth
  obtain hth | ⟨b, hb, rfl⟩ := mem_modify hth
  · exact h.joined th' hth
  -- a thread that has been joined does not serve any more
  · have hb' := h.joined b (List.mem_of_getElem? hb)
    rw [List.getElem?_take] at hb
    split_ifs at hb
    cases Option.some.inj (hi.symm.trans hb)
    rw [hs] at hb'
    cases hb'

lemma Joining.join (h : Joining s i) (hi : s.threads[i]? = some th) :
    Joining { s.mark i .joined with pc := .joining (i + 1) } (i + 1) := by
  refine ⟨h.connected, h.untested, fun th' hth => ?_⟩
  have htake : (s.mark i .joined).threads.take (i + 1) =
      s.threads.take i ++ [{ th with status := .joined }] := by
    rw [List.take_add_one]
    congr 1
    · refine (List.take_modify ..).trans ?_
      exact List.modify_eq_self (List.length_take_le i _)
    · rw [State.threads, State.mark, List.getElem?_modify_eq]
      rw [State.threads] at hi
      rw [hi]
      rfl
  have hth' : th' ∈ (s.mark i .joined).threads.take (i + 1) := hth
  rw [htake] at hth'
  obtain hth' | hth' := List.mem_append.mp hth'
  · exact h.joined th' hth'
  · rw [List.mem_singleton.mp hth']

lemma Joining.served (h : Joining s i) (hi : s.threads[i]? = none) :
    Served { s with pc := .destroying 0 0, tested := true } := by
  refine ⟨h.connected, rfl, fun th hth => h.joined th ?_⟩
  rwa [List.take_of_length_le (List.getElem?_eq_none_iff.mp hi)]

lemma message_inv (h : Inv s) (hpc : s.pc ≠ .terminated) (hi : s.threads[i]? = some th)
    (hs : th.status = .serving) : Inv (s.mark i .ended) := by
  have hmark : (s.mark i .ended).pc = s.pc := rfl
  rw [Inv, hmark]
  rw [Inv] at h
  split at h
  next => exact ⟨h.1, not_joined_mark h.2⟩
  next => exact h.ended hi hs
  next =>
    obtain h | ⟨h, hz⟩ := h
    · exact (h.not_serving hi hs).elim
    · exact Or.inr ⟨h.ended, hz⟩
  next =>
    obtain h | ⟨-, hz⟩ := h
    · exact (h.not_serving hi hs).elim
    · rw [hz] at hi
      cases hi
  next =>
    obtain h | ⟨-, hz⟩ := h
    · exact (h.not_serving hi hs).elim
    · rw [hz] at hi
      cases hi
  next hpc' => exact (hpc hpc').elim

lemma conn_threads {c c' : WaitForConn.State (List Thread)} {l : WaitForConn.Label}
    (h : WaitForConn.step (params thCount) c l = some c') :
    c'.env = c.env ∨ ∃ fd, c'.env = c.env ++ [⟨fd, .serving⟩] := by
  cases WaitForConn.step_moves h with
  | accepted | setfl => exact Or.inr ⟨_, rfl⟩
  | _ => exact Or.inl rfl

lemma step_inv (h : Inv s) (hl : step thCount s l = some t) : Inv t := by
  cases step_moves hl with
  | @conn l conn hpc hs =>
    simp only [Inv, hpc] at h ⊢
    refine ⟨h.1, fun th hth => ?_⟩
    obtain he | ⟨fd, he⟩ := conn_threads hs
    · rw [State.threads, he] at hth
      exact h.2 th hth
    · rw [State.threads, he] at hth
      obtain hth | hth := List.mem_append.mp hth
      · exact h.2 th hth
      · simp [List.mem_singleton.mp hth]
  | echoed => exact h
  | ended hpc hi hs => exact message_inv h hpc hi hs
  | connected hpc hc =>
    simp only [Inv, hpc] at h
    exact ⟨hc, h.1, by simp⟩
  | refused hpc hc =>
    simp only [Inv, hpc] at h
    exact Or.inr ⟨⟨hc, h.1, h.2⟩, rfl⟩
  | joined hpc hi =>
    simp only [Inv, hpc] at h
    exact h.join hi
  | testDone hpc hi =>
    simp only [Inv, hpc] at h
    exact Or.inl (h.served hi)
  | destroyed hpc hi hs =>
    simp only [Inv, hpc] at h
    obtain h | ⟨h, -⟩ := h
    · exact Or.inl ⟨h.connected, h.tested, h.joined⟩
    · exact (h.joinable _ (List.mem_of_getElem? hi) hs).elim
  | terminated hpc hi hs =>
    simp only [Inv, hpc] at h
    obtain h | ⟨h, -⟩ := h
    · exact (hs (h.joined _ (List.mem_of_getElem? hi))).elim
    · exact ⟨⟨h.refused, h.untested, h.joinable⟩, List.ne_nil_of_mem (List.mem_of_getElem? hi)⟩
  | emptied hpc hi =>
    simp only [Inv, hpc] at h
    obtain h | ⟨h, rfl⟩ := h
    · exact Or.inl ⟨h.connected, h.tested, h.joined⟩
    · refine Or.inr ⟨⟨h.refused, h.untested, h.joinable⟩, ?_⟩
      exact List.eq_nil_of_length_eq_zero (Nat.le_zero.mp (List.getElem?_eq_none_iff.mp hi))
  | closed hpc =>
    simp only [Inv, hpc] at h
    obtain h | ⟨h, hz⟩ := h
    · exact Or.inl ⟨h.connected, h.tested, h.joined⟩
    · exact Or.inr ⟨⟨h.refused, h.untested, h.joinable⟩, hz⟩

lemma run_inv (h : Machine.run (step thCount) start ls = some t) : Inv t := by
  have hstart : Inv start := ⟨rfl, by simp [start, State.threads, WaitForConn.start]⟩
  exact Machine.run_invariant Inv (fun _ _ _ hs hl => step_inv hs hl) hstart h

def State.Ended (s : State) : Prop := (∃ code, s.pc = .returned code) ∨ s.pc = .terminated

structure Joined (thCount : ℤ) (t : State) : Prop where
  alive : t.pc ≠ .terminated
  threads : ∀ th ∈ t.threads, th.status = .joined
  tested : t.tested → t.threads.length = thCount.toNat

lemma foldl_noting (n : ℤ) (as bs : List Fd) : as.foldl (fun env fd =>
    (WaitForConn.noting n false).onSockCb fd env) bs = bs ++ as := by
  induction as generalizing bs with
  | nil => simp
  | cons a as ih =>
    rw [List.foldl_cons, ih]
    simp [WaitForConn.noting]

open WaitForConn

def Undisturbed (thCount : ℤ) (ls : List WaitForConn.Label) : Prop :=
  (thCount ≤ 0 ∨ ∀ l ∈ ls, ¬ l.BindFails) ∧ (accepted ls = [] ∨ ∀ l ∈ ls, ¬ l.AcceptFails)

lemma served_joined {ks : List WaitForConn.Label} (hs : Served t) (hpc : t.pc ≠ .terminated)
    (h : Outcome (noting thCount false) [] [] (t.conn.map fds) ks true) :
    Joined thCount t ↔ Undisturbed thCount ks := by
  have hlen : t.threads.length = (t.conn.map fds).env.length := (List.length_map _).symm
  cases h with
  | unbound hf ha he =>
    rw [he] at hlen
    constructor
    · intro hj
      have := hj.tested hs.tested
      refine ⟨Or.inl ?_, Or.inl ha⟩
      simp only [List.length_nil] at hlen
      omega
    · rintro ⟨h0 | hb, -⟩
      · refine ⟨hpc, hs.joined, fun _ => ?_⟩
        simp only [List.length_nil] at hlen
        omega
      · obtain ⟨l, hl, hf⟩ := hf
        exact (hb l hl hf).elim
  | complete hq ho hn =>
    rw [ho.env, foldl_noting] at hlen
    refine iff_of_true ⟨hpc, hs.joined, fun _ => hlen.trans hn⟩ ⟨Or.inr ?_, Or.inr ?_⟩
    · exact fun l hl hf => hq l hl hf.fails
    · exact fun l hl hf => hq l hl hf.fails

lemma aborted_joined {ks : List WaitForConn.Label} (ha : Aborted t)
    (hpc : t.pc = .terminated ↔ t.threads ≠ [])
    (h : Outcome (noting thCount false) [] [] (t.conn.map fds) ks false) :
    Joined thCount t ↔ Undisturbed thCount ks := by
  have hthreads : Joined thCount t ↔ t.threads = [] := by
    constructor
    · exact fun hj => not_not.mp fun hne => hj.alive (hpc.mpr hne)
    · intro h0
      refine ⟨fun ht => hpc.mp ht h0, by simp [h0], fun ht => ?_⟩
      rw [ha.untested] at ht
      cases ht
  have hnil : t.threads = [] ↔ (t.conn.map fds).env = [] := List.map_eq_nil_iff.symm
  rw [hthreads, hnil]
  cases h with
  | noSocket hf hc hacc he =>
    exact iff_of_true he ⟨Or.inr fun l hl => (hc l hl).1, Or.inl hacc⟩
  | refused hf hc ho =>
    obtain ⟨l, hl, hf⟩ := hf
    rw [ho.env, foldl_noting]
    constructor
    · exact fun h0 => ⟨Or.inr fun l hl => (hc l hl).1, Or.inl h0⟩
    · rintro ⟨-, h0 | hr⟩
      · exact h0
      · exact (hr l hl hf).elim
  | leaked hf hacc hs hp => cases hp

theorem run_test_th_joined (thCount : ℤ) (ls : List Label) (t : State)
    (h : Machine.run (step thCount) start ls = some t) (ht : t.Ended) :
    Joined thCount t ↔ Undisturbed thCount (conns ls) := by
  have hi := run_inv h
  have hconn := run_conns h
  rw [Inv] at hi
  obtain ⟨code, hpc⟩ | hpc := ht
  · simp only [hpc] at hi
    obtain hs | ⟨ha, h0⟩ := hi
    · exact served_joined hs (by simp [hpc]) (run_outcome hconn hs.connected)
    · exact aborted_joined ha (by simp [hpc, h0]) (run_outcome hconn ha.refused)
  · simp only [hpc] at hi
    exact aborted_joined hi.1 (by simp [hpc, hi.2]) (run_outcome hconn hi.1.refused)

theorem run_test_th_joined_one :
    Joined 1 ⟨.returned 0, ⟨.returned true, [4], [⟨4, .joined⟩]⟩, true⟩ :=
  (run_test_th_joined 1 [.conn (.socket 3), .conn (.setsockopt 0), .conn (.bind 0),
    .conn (.listen 0), .conn (.accept 4), .message 0 true, .conn .finished, .connected,
    .message 0 false, .join, .testDone, .destroy, .destroy, .close] _ rfl
    (Or.inl ⟨0, rfl⟩)).mpr
    ⟨Or.inr (by simp [conns, WaitForConn.Label.BindFails]),
      Or.inr (by simp [conns, WaitForConn.Label.AcceptFails])⟩

theorem run_test_th_unjoined :
    (∃ ls t, Machine.run (step 2) start ls = some t ∧ t.pc = .terminated ∧
      t.threads = [⟨4, .serving⟩] ∧ ¬ Joined 2 t) ∧
    ∃ ls t, Machine.run (step 2) start ls = some t ∧ t.pc = .returned 0 ∧ t.tested = true ∧
      t.threads = [] ∧ ¬ Joined 2 t := by
  constructor
  · refine ⟨[.conn (.socket 3), .conn (.setsockopt 0), .conn (.bind 0), .conn (.listen 0),
      .conn (.accept 4), .conn (.accept (-1)), .connected, .destroy], _, rfl, rfl, rfl, ?_⟩
    exact fun h => h.alive rfl
  · refine ⟨[.conn (.socket 3), .conn (.setsockopt 0), .conn (.bind (-1)), .connected, .testDone,
      .destroy, .close], _, rfl, rfl, rfl, rfl, fun h => ?_⟩
    cases h.tested rfl

end NetworkPing.Client.RunTestTh
