import NetworkPing.Machine

/-! The asyncio back-ends of main.py: the two flags that all connections share, and the
machines of `asyncio_test` and `asyncio_proto_test` over them. A label is one step of the
event loop. -/

namespace NetworkPing.Client.Asyncio

inductive Event
  | before
  | after
  | echo
  | close
  deriving DecidableEq

def Event.IsStamp : Event → Bool
  | before | after => true
  | _ => false

structure Flags where
  started : Bool := false
  finished : Bool := false
  tested : Bool := false
  events : List Event := []
  deriving DecidableEq

namespace Flags

def beforeTest (s : Flags) : Flags :=
  if s.started then s else { s with started := true, events := s.events ++ [.before] }

def write (s : Flags) : Flags := { s with events := s.events ++ [.echo] }

def closeServer (s : Flags) : Flags :=
  if s.finished then s else { s with finished := true, events := s.events ++ [.close] }

def afterTest (s : Flags) : Flags := { s with tested := true, events := s.events ++ [.after] }

end Flags

structure Stamped (events : List Event) : Prop where
  times : events.filter Event.IsStamp = [.before, .after]
  echoes : ∀ i, events[i]? = some .echo → .before ∈ events.take i
  closed : events.count .close = 1

structure Flags.Ok (s : Flags) : Prop where
  times : s.events.filter Event.IsStamp =
    (if s.started then [.before] else []) ++ if s.tested then [.after] else []
  echoes : ∀ i, s.events[i]? = some .echo → .before ∈ s.events.take i
  closed : s.events.count .close = if s.finished then 1 else 0

namespace Flags

variable {s : Flags}

lemma Ok.before_mem (h : s.Ok) (hs : s.started = true) : .before ∈ s.events := by
  have hm : Event.before ∈ s.events.filter Event.IsStamp := by
    rw [h.times, if_pos hs]
    exact List.mem_append_left _ List.mem_cons_self
  exact List.mem_of_mem_filter hm

lemma echoes_snoc {events : List Event} {e : Event}
    (h : ∀ i, events[i]? = some .echo → .before ∈ events.take i)
    (he : e = .echo → .before ∈ events) (i : ℕ) (hi : (events ++ [e])[i]? = some .echo) :
    .before ∈ (events ++ [e]).take i := by
  rcases Nat.lt_trichotomy i events.length with hlt | rfl | hgt
  · rw [List.getElem?_append_left hlt] at hi
    rw [List.take_append_of_le_length (Nat.le_of_lt hlt)]
    exact h i hi
  · rw [List.getElem?_concat_length] at hi
    rw [List.take_left]
    exact he (Option.some.inj hi)
  · rw [List.getElem?_eq_none (by rw [List.length_append]; exact hgt)] at hi
    cases hi

lemma Ok.beforeTest (h : s.Ok) (ht : s.tested = false) : s.beforeTest.Ok := by
  rw [Flags.beforeTest]
  split_ifs with hs
  · exact h
  · refine ⟨?_, echoes_snoc h.echoes (by simp), ?_⟩
    · rw [List.filter_append, h.times, if_neg hs, ht]
      rfl
    · rw [List.count_append, h.closed]
      rfl

lemma Ok.write (h : s.Ok) (hs : s.started = true) : s.write.Ok := by
  refine ⟨?_, echoes_snoc h.echoes fun _ => h.before_mem hs, ?_⟩
  · rw [Flags.write, List.filter_append, h.times]
    exact List.append_nil _
  · rw [Flags.write, List.count_append, h.closed]
    rfl

lemma Ok.closeServer (h : s.Ok) : s.closeServer.Ok := by
  rw [Flags.closeServer]
  split_ifs with hf
  · exact h
  · refine ⟨?_, echoes_snoc h.echoes (by simp), ?_⟩
    · rw [List.filter_append, h.times]
      exact List.append_nil _
    · rw [List.count_append, h.closed, if_neg hf]
      rfl

lemma Ok.afterTest (h : s.Ok) (ht : s.tested = false) : s.afterTest.Ok := by
  refine ⟨?_, echoes_snoc h.echoes (by simp), ?_⟩
  · rw [Flags.afterTest, List.filter_append, h.times, ht]
    exact congrArg (· ++ [Event.after]) (List.append_nil _)
  · rw [Flags.afterTest, List.count_append, h.closed]
    rfl

@[simp] lemma beforeTest_started : s.beforeTest.started = true := by
  rw [Flags.beforeTest]; split_ifs with h <;> [exact h; rfl]

@[simp] lemma beforeTest_tested : s.beforeTest.tested = s.tested := by
  rw [Flags.beforeTest]; split_ifs <;> rfl

@[simp] lemma closeServer_finished : s.closeServer.finished = true := by
  rw [Flags.closeServer]; split_ifs with h <;> [exact h; rfl]

@[simp] lemma closeServer_started : s.closeServer.started = s.started := by
  rw [Flags.closeServer]; split_ifs <;> rfl

@[simp] lemma closeServer_tested : s.closeServer.tested = s.tested := by
  rw [Flags.closeServer]; split_ifs <;> rfl

lemma Ok.stamped (h : s.Ok) (hf : s.finished = true) (ht : s.tested = true) :
    Stamped s.events ↔ s.started = true := by
  constructor
  · intro hs
    have := h.times.symm.trans hs.times
    by_contra hns
    simp [hns, ht] at this
  · intro hs
    refine ⟨?_, h.echoes, ?_⟩
    · rw [h.times, if_pos hs, if_pos ht]
      rfl
    · rw [h.closed, if_pos hf]

end Flags

/-- What `reader.read` gives; at the end of the stream it gives no bytes. -/
inductive Read
  | bytes (len : ℕ)
  | reset
  deriving DecidableEq

inductive Conn
  | opened
  | echoing
  | closing
  | ended
  deriving DecidableEq

structure State where
  returned : Bool := false
  flags : Flags := {}
  conns : List Conn := []
  deriving DecidableEq

def State.waitClosed (s : State) : Option State :=
  if s.flags.finished ∧ ∀ c ∈ s.conns, c = .ended then
    some { s with returned := true, flags := s.flags.afterTest }
  else none

def State.accept (s : State) : Option State :=
  if s.flags.finished then none else some { s with conns := s.conns ++ [.opened] }

def State.leave (s : State) (i : ℕ) : State :=
  { s with flags := s.flags.closeServer, conns := s.conns.set i .ended }

structure Inv (s : State) (touched : Prop) : Prop where
  ok : s.flags.Ok
  tested : s.flags.tested = s.returned
  finished : s.returned = true → s.flags.finished = true
  echoing : .echoing ∈ s.conns → s.flags.started = true
  started : s.flags.started = true ↔ touched

section Invariant

variable {s t : State} {touched : Prop} {i : ℕ}

lemma inv_start : Inv {} False := by
  refine ⟨⟨rfl, ?_, rfl⟩, rfl, ?_, ?_, ?_⟩ <;> simp

lemma Inv.congr (h : Inv s touched) {touched' : Prop} (ht : touched ↔ touched') :
    Inv s touched' :=
  ⟨h.ok, h.tested, h.finished, h.echoing, h.started.trans ht⟩

lemma Inv.accept (h : Inv s touched) (ha : s.accept = some t) : Inv t touched := by
  rw [State.accept] at ha
  split_ifs at ha
  cases ha
  refine ⟨h.ok, h.tested, h.finished, fun hm => h.echoing ?_, h.started⟩
  simpa using hm

lemma Inv.leave (h : Inv s touched) (i : ℕ) : Inv (s.leave i) touched := by
  refine ⟨h.ok.closeServer, ?_, fun _ => Flags.closeServer_finished, fun hm => ?_, ?_⟩
  · exact Flags.closeServer_tested.trans h.tested
  · obtain hm | hm := List.mem_or_eq_of_mem_set hm
    · exact Flags.closeServer_started.trans (h.echoing hm)
    · cases hm
  · exact (Eq.congr_left Flags.closeServer_started).trans h.started

lemma Inv.waitClosed (h : Inv s touched) (hr : s.returned = false)
    (hw : s.waitClosed = some t) : Inv t touched := by
  rw [State.waitClosed] at hw
  split_ifs at hw with hc
  cases hw
  exact ⟨h.ok.afterTest (h.tested.trans hr), rfl, fun _ => hc.1, h.echoing, h.started⟩

lemma Inv.begin (h : Inv s touched) (hr : s.returned = false) :
    Inv { s with flags := s.flags.beforeTest } True := by
  refine ⟨h.ok.beforeTest (h.tested.trans hr), ?_, fun ht => ?_, fun _ => ?_, ?_⟩
  · exact Flags.beforeTest_tested.trans h.tested
  · exact absurd (ht.symm.trans hr) (by decide)
  · exact Flags.beforeTest_started
  · simp

lemma Inv.write (h : Inv s True) (conns : List Conn) :
    Inv { s with flags := s.flags.write, conns := conns } True :=
  ⟨h.ok.write (h.started.mpr trivial), h.tested, h.finished, fun _ => h.started.mpr trivial,
    h.started⟩

lemma Inv.stamped (h : Inv s touched) (hr : s.returned = true) :
    Stamped s.flags.events ↔ touched :=
  (h.ok.stamped (h.finished hr) (h.tested.trans hr)).trans h.started

end Invariant

inductive Label
  | accept
  | read (i : ℕ) (r : Read)
  | waitClosed
  deriving DecidableEq

def State.turn (msize : ℕ) (s : State) (i len : ℕ) : State :=
  if len = 0 then s.leave i
  -- `raise RuntimeError`
  else if len ≠ msize then s.leave i
  else { s with flags := s.flags.write, conns := s.conns.set i .echoing }

def step (msize : ℕ) (s : State) (l : Label) : Option State :=
  if s.returned then none
  else match l with
    | .accept => s.accept
    | .read i r =>
      match s.conns[i]?, r with
      | some .opened, .bytes len =>
        some ({ s with flags := s.flags.beforeTest }.turn msize i len)
      | some .echoing, .bytes len => some (s.turn msize i len)
      | some .opened, .reset | some .echoing, .reset => some (s.leave i)
      | _, _ => none
    | .waitClosed => s.waitClosed

def Label.Touches : Label → Prop
  | .read _ (.bytes _) => True
  | _ => False

section

variable {msize : ℕ} {s t : State} {l : Label} {ls : List Label}

lemma Inv.turn (h : Inv s True) (msize i len : ℕ) : Inv (s.turn msize i len) True := by
  rw [State.turn]
  split_ifs
  · exact h.leave i
  · exact h.leave i
  · exact h.write _

inductive Moves (msize : ℕ) (s : State) : Label → State → Prop
  | accepted {u : State} (h : s.accept = some u) : Moves msize s .accept u
  | begun {i len} (hi : s.conns[i]? = some .opened) :
      Moves msize s (.read i (.bytes len)) ({ s with flags := s.flags.beforeTest }.turn msize i len)
  | echoed {i len} (hi : s.conns[i]? = some .echoing) :
      Moves msize s (.read i (.bytes len)) (s.turn msize i len)
  | reset {i} : Moves msize s (.read i .reset) (s.leave i)
  | closed {u : State} (h : s.waitClosed = some u) : Moves msize s .waitClosed u

lemma step_moves (h : step msize s l = some t) : s.returned = false ∧ Moves msize s l t := by
  rw [step.eq_def] at h
  split_ifs at h with hr
  refine ⟨by simpa using hr, ?_⟩
  cases l with
  | accept => exact .accepted h
  | waitClosed => exact .closed h
  | read i r =>
    simp only at h
    split at h
    next hi =>
      cases h
      exact .begun hi
    next hi =>
      cases h
      exact .echoed hi
    next =>
      cases h
      exact .reset
    next =>
      cases h
      exact .reset
    next => cases h

lemma step_inv (h : Inv s (∃ l ∈ ls, l.Touches)) (hl : step msize s l = some t) :
    Inv t (∃ k ∈ ls ++ [l], k.Touches) := by
  obtain ⟨hr, hm⟩ := step_moves hl
  cases hm with
  | accepted ha => exact (h.accept ha).congr (by simp [Label.Touches])
  | closed hw => exact (h.waitClosed hr hw).congr (by simp [Label.Touches])
  | reset => exact (h.leave _).congr (by simp [Label.Touches])
  | begun hi => exact ((h.begin hr).turn msize _ _).congr (by simp [Label.Touches])
  | echoed hi =>
    -- the connection has read before, so the test has begun
    have hs := h.started.mp (h.echoing (List.mem_of_getElem? hi))
    have h := h.congr (iff_true_intro hs)
    exact (h.turn msize _ _).congr (by simp [Label.Touches])

end

namespace Proto

inductive Label
  | connectionMade
  | dataReceived (i len : ℕ)
  | connectionLost (i : ℕ)
  | waitClosed
  deriving DecidableEq

def receive (msize : ℕ) (s : State) (i len : ℕ) : State :=
  let s := { s with flags := s.flags.beforeTest }
  if len = msize then { s with flags := s.flags.write }
  -- `transport.close()`, which `raise RuntimeError` in a callback leads to as well
  else { s with conns := s.conns.set i .closing }

def step (msize : ℕ) (s : State) (l : Label) : Option State :=
  if s.returned then none
  else match l with
    | .connectionMade => s.accept
    | .dataReceived i len =>
      match s.conns[i]? with
      | some .opened => some (receive msize s i len)
      | _ => none
    | .connectionLost i =>
      match s.conns[i]? with
      | some .opened | some .closing => some (s.leave i)
      | _ => none
    | .waitClosed => s.waitClosed

def Label.Touches : Label → Prop
  | .dataReceived _ _ => True
  | _ => False

variable {msize : ℕ} {s t : State} {l : Label} {ls : List Label}

inductive Moves (msize : ℕ) (s : State) : Label → State → Prop
  | made {u : State} (h : s.accept = some u) : Moves msize s .connectionMade u
  | received {i len} : Moves msize s (.dataReceived i len) (receive msize s i len)
  | lost {i} : Moves msize s (.connectionLost i) (s.leave i)
  | closed {u : State} (h : s.waitClosed = some u) : Moves msize s .waitClosed u

lemma step_moves (h : step msize s l = some t) : s.returned = false ∧ Moves msize s l t := by
  rw [step.eq_def] at h
  split_ifs at h with hr
  refine ⟨by simpa using hr, ?_⟩
  cases l with
  | connectionMade => exact .made h
  | waitClosed => exact .closed h
  | dataReceived i len =>
    simp only at h
    split at h
    next =>
      cases h
      exact .received
    next => cases h
  | connectionLost i =>
    simp only at h
    split at h
    next =>
      cases h
      exact .lost
    next =>
      cases h
      exact .lost
    next => cases h

lemma receive_inv {touched : Prop} (h : Inv s touched) (hr : s.returned = false) (i len : ℕ) :
    Inv (receive msize s i len) True := by
  have hb := h.begin hr
  rw [receive]
  split_ifs
  · exact hb.write _
  · refine ⟨hb.ok, hb.tested, hb.finished, fun _ => hb.started.mpr trivial, hb.started⟩

lemma step_inv (h : Inv s (∃ l ∈ ls, l.Touches)) (hl : step msize s l = some t) :
    Inv t (∃ k ∈ ls ++ [l], k.Touches) := by
  obtain ⟨hr, hm⟩ := step_moves hl
  cases hm with
  | made ha => exact (h.accept ha).congr (by simp [Label.Touches])
  | closed hw => exact (h.waitClosed hr hw).congr (by simp [Label.Touches])
  | lost => exact (h.leave _).congr (by simp [Label.Touches])
  | received => exact (receive_inv h hr _ _).congr (by simp [Label.Touches])

end Proto

theorem asyncio_stamped (msize : ℕ) :
    (∀ ls t, Machine.run (step msize) {} ls = some t → t.returned = true →
      (Stamped t.flags.events ↔ ∃ l ∈ ls, l.Touches)) ∧
    ∀ ls t, Machine.run (Proto.step msize) {} ls = some t → t.returned = true →
      (Stamped t.flags.events ↔ ∃ l ∈ ls, l.Touches) := by
  constructor
  · intro ls t h ht
    have hi := Machine.run_observed (fun s ls => Inv s (∃ l ∈ ls, l.Touches))
      (fun _ _ _ _ hs hl => step_inv hs hl) (inv_start.congr (by simp)) h
    exact hi.stamped ht
  · intro ls t h ht
    have hi := Machine.run_observed (fun s ls => Inv s (∃ l ∈ ls, l.Touches))
      (fun _ _ _ _ hs hl => Proto.step_inv hs hl) (inv_start.congr (by simp)) h
    exact hi.stamped ht

theorem asyncio_stamped_two :
    Stamped [.before, .echo, .close, .after] ∧ Stamped [.close, .before, .echo, .after] :=
  ⟨((asyncio_stamped 4).1 [.accept, .accept, .read 1 (.bytes 4), .read 1 .reset,
      .read 0 (.bytes 0), .waitClosed] _ rfl rfl).mpr ⟨.read 0 (.bytes 0), by simp, trivial⟩,
    ((asyncio_stamped 4).2 [.connectionMade, .connectionMade, .connectionLost 1,
      .dataReceived 0 4, .connectionLost 0, .waitClosed] _ rfl rfl).mpr
      ⟨.dataReceived 0 4, by simp, trivial⟩⟩

theorem asyncio_unstamped :
    (∃ ls t, Machine.run (step 4) {} ls = some t ∧ t.returned = true ∧
      t.flags.events = [.close, .after] ∧ ¬ Stamped t.flags.events) ∧
    ∃ ls t, Machine.run (Proto.step 4) {} ls = some t ∧ t.returned = true ∧
      t.flags.events = [.close, .after] ∧ ¬ Stamped t.flags.events := by
  constructor
  · refine ⟨[.accept, .read 0 .reset, .waitClosed], _, rfl, rfl, rfl, fun h => ?_⟩
    exact absurd h.times (by decide)
  · refine ⟨[.connectionMade, .connectionLost 0, .waitClosed], _, rfl, rfl, rfl, fun h => ?_⟩
    exact absurd h.times (by decide)

end NetworkPing.Client.Asyncio
