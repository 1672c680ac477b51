import Mathlib.Logic.Function.Basic
import NetworkPing.ByteStream
import NetworkPing.Machine
import NetworkPing.Server.WorkerThread

/-! One connection of a test: the server after the first write of `run_test`, with `ping`, against
the client with `process_message`. Both read and answer messages of one length over two byte
streams. A call that fails is the last one that its side makes on the socket. -/

namespace NetworkPing

def processMessage (messageLen bc wc : ℤ) : Bool :=
  if 0 > bc then false
  else if 0 = bc then false
  else if messageLen ≠ bc then false
  else if messageLen ≠ wc then false
  else true

namespace Connection

inductive Peer
  | server
  | client
  deriving DecidableEq

def Peer.other : Peer → Peer
  | server => client
  | client => server

inductive Side (α : Type*)
  | starting
  | waiting
  | answering (buffer : List α)
  | stopped
  deriving DecidableEq

/-- `answered` are the messages that a side has read and replied to. -/
structure State (α : Type*) where
  side : Peer → Side α
  inbox : Peer → ByteStream α
  answered : Peer → List (List α)

inductive Label
  | write (rc : ℤ)
  | arrive (p : Peer) (k : ℕ)
  | recv (p : Peer) (ok : Bool)
  | send (p : Peer) (rc : ℤ)
  deriving DecidableEq

variable {α : Type*}

def start : State α where
  side
    | .server => .starting
    | .client => .waiting
  inbox _ := .empty
  answered _ := []

def reply (message : List α) : Peer → List α → List α
  | .server, buffer => buffer
  | .client, _ => message

def State.sent (s : State α) (p : Peer) (data : List α) : State α :=
  { s with inbox := Function.update s.inbox p.other ((s.inbox p.other).send data) }

def State.become (s : State α) (p : Peer) (side : Side α) : State α :=
  { s with side := Function.update s.side p side }

def State.drained (s : State α) (p : Peer) (n : ℕ) : State α :=
  { s with inbox := Function.update s.inbox p ((s.inbox p).rest n) }

def State.finish (s : State α) (p : Peer) (buffer : List α) : State α :=
  { s.become p .waiting with answered := Function.update s.answered p (s.answered p ++ [buffer]) }

def step (message : List α) (s : State α) : Label → Option (State α)
  | .write rc =>
    match s.side .server with
    | .starting =>
      if rc < message.length then
        some ((s.sent .server (message.take rc.toNat)).become .server .stopped)
      else if rc = message.length then some ((s.sent .server message).become .server .waiting)
      else none
    | _ => none
  | .arrive p k => some { s with inbox := Function.update s.inbox p ((s.inbox p).arrive k) }
  | .recv p ok =>
    match s.side p with
    | .waiting =>
      -- an error, the end of the stream, or nothing to read on a socket that does not block
      if ok = false then some (s.become p .stopped)
      else if (s.inbox p).arrived = [] then none
      else
        let data := (s.inbox p).read message.length
        some ((s.drained p message.length).become p
          (if data ≠ [] ∧ data.length = message.length then .answering data else .stopped))
    | _ => none
  | .send p rc =>
    match s.side p with
    | .answering buffer =>
      let data := reply message p buffer
      if rc < message.length then some ((s.sent p (data.take rc.toNat)).become p .stopped)
      else if rc = message.length then
        some ((s.sent p data).finish p buffer)
      else none
    | _ => none

def calls (p : Peer) (n : ℕ) (bc wc : ℤ) : List Label :=
  if bc ≤ 0 then [.recv p false]
  else if bc < n then [.recv p true]
  else [.recv p true, .send p wc]

def exchange : Peer → ℤ → ℤ → ℤ → Bool
  | .server => ping
  | .client => processMessage

inductive Moves (message : List α) (s : State α) : Label → State α → Prop
  | unwritten {rc : ℤ} (h : s.side .server = .starting) (hrc : rc < message.length) :
      Moves message s (.write rc) ((s.sent .server (message.take rc.toNat)).become .server .stopped)
  | written (h : s.side .server = .starting) :
      Moves message s (.write message.length) ((s.sent .server message).become .server .waiting)
  | arrived (p k) : Moves message s (.arrive p k)
      { s with inbox := Function.update s.inbox p ((s.inbox p).arrive k) }
  | broken {p} (h : s.side p = .waiting) : Moves message s (.recv p false) (s.become p .stopped)
  | received {p} (h : s.side p = .waiting) (ha : (s.inbox p).arrived ≠ [])
      (hl : ((s.inbox p).read message.length).length = message.length) :
      Moves message s (.recv p true)
        ((s.drained p message.length).become p (.answering ((s.inbox p).read message.length)))
  | partially {p} (h : s.side p = .waiting) (ha : (s.inbox p).arrived ≠ [])
      (hl : ((s.inbox p).read message.length).length < message.length) :
      Moves message s (.recv p true) ((s.drained p message.length).become p .stopped)
  | unsent {p buffer} {rc : ℤ} (h : s.side p = .answering buffer) (hrc : rc < message.length) :
      Moves message s (.send p rc)
        ((s.sent p ((reply message p buffer).take rc.toNat)).become p .stopped)
  | sent {p buffer} (h : s.side p = .answering buffer) :
      Moves message s (.send p message.length) ((s.sent p (reply message p buffer)).finish p buffer)

variable {message : List α} {s t : State α} {l : Label} {p q : Peer}

lemma step_moves (hm : message ≠ []) (h : step message s l = some t) : Moves message s l t := by
  cases l with
  | write rc =>
    simp only [step] at h
    split at h
    next hs =>
      split_ifs at h with hrc he
      · cases h
        exact .unwritten hs hrc
      · cases h
        rw [he]
        exact .written hs
    next => cases h
  | arrive p k =>
    cases h
    exact .arrived p k
  | recv p ok =>
    simp only [step] at h
    split at h
    next hs =>
      split_ifs at h with hok ha hl
      · cases h
        rw [hok]
        exact .broken hs
      · cases h
        obtain rfl : ok = true := by simpa using hok
        exact .received hs ha hl.2
      · cases h
        obtain rfl : ok = true := by simpa using hok
        apply Moves.partially hs ha
        have hle : ((s.inbox p).read message.length).length ≤ message.length :=
          List.length_take_le _ _
        have hne : (s.inbox p).read message.length ≠ [] := by
          simpa [ByteStream.read, hm] using ha
        exact lt_of_le_of_ne hle fun he => hl ⟨hne, he⟩
    next => cases h
  | send p rc =>
    simp only [step] at h
    split at h
    next buffer hs =>
      split_ifs at h with hrc he
      · cases h
        exact .unsent hs hrc
      · cases h
        rw [he]
        exact .sent hs
    next => cases h

lemma Moves.step (hm : message ≠ []) (h : Moves message s l t) : step message s l = some t := by
  cases h with
  | unwritten h hrc => simp only [Connection.step, h, if_pos hrc]
  | written h => simp [Connection.step, h]
  | arrived => rfl
  | broken h => simp [Connection.step, h]
  | @received p h ha hl =>
    have hne : (s.inbox p).read message.length ≠ [] := fun he =>
      hm (List.eq_nil_of_length_eq_zero (by rw [← hl, he]; rfl))
    simp [Connection.step, h, ha, hl, hne]
  | partially h ha hl => simp [Connection.step, h, ha, hl.ne]
  | unsent h hrc => simp only [Connection.step, h, if_pos hrc]
  | sent h => simp [Connection.step, h]

@[simp] lemma Peer.other_other (p : Peer) : p.other.other = p := by cases p <;> rfl

@[simp] lemma Peer.other_ne (p : Peer) : p.other ≠ p := by cases p <;> decide

@[simp] lemma Peer.ne_other (p : Peer) : p ≠ p.other := p.other_ne.symm

lemma Peer.eq_or_other (p q : Peer) : q = p ∨ q = p.other := by
  cases p <;> cases q <;> simp [Peer.other]

section

variable (s : State α) (p : Peer) (side : Side α) (data : List α) (n : ℕ)

@[simp] lemma become_side : (s.become p side).side p = side := Function.update_self ..

@[simp] lemma become_side_other : (s.become p side).side p.other = s.side p.other :=
  Function.update_of_ne p.other_ne ..

@[simp] lemma become_other_side : (s.become p.other side).side p = s.side p :=
  Function.update_of_ne p.ne_other ..

@[simp] lemma become_inbox : (s.become p side).inbox = s.inbox := rfl

@[simp] lemma become_answered : (s.become p side).answered = s.answered := rfl

@[simp] lemma sent_side : (s.sent p data).side = s.side := rfl

@[simp] lemma sent_inbox : (s.sent p data).inbox p = s.inbox p :=
  Function.update_of_ne p.ne_other ..

@[simp] lemma sent_inbox_other : (s.sent p data).inbox p.other = (s.inbox p.other).send data :=
  Function.update_self ..

@[simp] lemma sent_answered : (s.sent p data).answered = s.answered := rfl

@[simp] lemma drained_side : (s.drained p n).side = s.side := rfl

@[simp] lemma drained_inbox : (s.drained p n).inbox p = (s.inbox p).rest n :=
  Function.update_self ..

@[simp] lemma drained_inbox_other : (s.drained p n).inbox p.other = s.inbox p.other :=
  Function.update_of_ne p.other_ne ..

@[simp] lemma drained_answered : (s.drained p n).answered = s.answered := rfl

@[simp] lemma finish_side : (s.finish p data).side p = .waiting := become_side ..

@[simp] lemma finish_side_other : (s.finish p data).side p.other = s.side p.other :=
  become_side_other ..

@[simp] lemma finish_inbox : (s.finish p data).inbox = s.inbox := rfl

@[simp] lemma finish_answered : (s.finish p data).answered =
    Function.update s.answered p (s.answered p ++ [data]) := rfl

end

lemma exchange_eq (p : Peer) (n bc wc : ℤ) :
    exchange p n bc wc = (decide (0 < bc) && decide (n = bc) && decide (n = wc)) := by
  cases p <;> simp only [exchange, ping, processMessage] <;> split_ifs <;> simp <;> omega

lemma calls_side {bc wc : ℤ} (hm : message ≠ [])
    (hbc : bc ≤ 0 ∨ bc = ((s.inbox p).read message.length).length)
    (h : Machine.run (step message) s (calls p message.length bc wc) = some t) :
    t.side p = if exchange p message.length bc wc then .waiting else .stopped := by
  have hle : ((s.inbox p).read message.length).length ≤ message.length := List.length_take_le _ _
  rw [exchange_eq]
  rw [calls] at h
  split_ifs at h with h0 hn
  · obtain ⟨u, hu, h⟩ := Machine.run_cons_some.mp h
    cases Option.some.inj h
    cases step_moves hm hu with
    | broken => simp [h0.not_gt]
  · obtain ⟨u, hu, h⟩ := Machine.run_cons_some.mp h
    cases Option.some.inj h
    cases step_moves hm hu with
    | received _ _ hl => omega
    | partially => simp [hn.ne']
  · obtain ⟨u, hu, h⟩ := Machine.run_cons_some.mp h
    obtain ⟨v, hv, h⟩ := Machine.run_cons_some.mp h
    cases Option.some.inj h
    obtain rfl : bc = message.length := by omega
    cases step_moves hm hv with
    | unsent _ hrc => simp [hrc.ne']
    | sent => simp [hm]

def Turn (s : State α) (p : Peer) : Prop :=
  (s.answered .client).length = (s.answered .server).length + if p = .server then 1 else 0

def load (s : State α) : ℕ :=
  (s.inbox .server).content.length + (s.inbox .client).content.length

structure Fresh (s : State α) : Prop where
  server : s.side .server = .starting
  client : s.side .client = .waiting
  inbox : ∀ p, (s.inbox p).content = []
  answered : ∀ p, s.answered p = []

/-- The message is with `p`: on its way there, in its inbox or in its hands. -/
structure Holds (message : List α) (s : State α) (p : Peer) : Prop where
  other : s.side p.other = .waiting ∨ s.side p.other = .stopped
  empty : (s.inbox p.other).content = []
  holds : s.side p = .waiting ∧ (s.inbox p).content = message ∨
    s.side p = .answering message ∧ (s.inbox p).content = []
  turn : Turn s p

structure Dead (message : List α) (s : State α) (p : Peer) : Prop where
  stopped : s.side p = .stopped
  idle : ∀ buffer, s.side p.other ≠ .answering buffer
  short : (s.inbox p.other).content.length < message.length
  room : load s ≤ message.length
  unwritten : s.side p.other = .starting → load s = 0
  turn : ∃ q, Turn s q

lemma Turn.congr (h : Turn s p) (ha : t.answered = s.answered) : Turn t p := by
  rw [Turn, ha]
  exact h

lemma Turn.finish {buffer : List α} (h : Turn s p) (ha : t.answered = s.answered) :
    Turn (t.finish p buffer) p.other := by
  cases p <;> simpa [Turn, State.finish, ha, Peer.other] using h

lemma arrived_content (s : State α) (p q : Peer) (k : ℕ) :
    (Function.update s.inbox p ((s.inbox p).arrive k) q).content = (s.inbox q).content := by
  by_cases h : q = p
  · subst h
    rw [Function.update_self, ByteStream.content_arrive]
  · rw [Function.update_of_ne h]

lemma load_eq (s : State α) (p : Peer) :
    load s = (s.inbox p).content.length + (s.inbox p.other).content.length := by
  cases p
  · rfl
  · exact Nat.add_comm _ _

lemma load_sent (s : State α) (p : Peer) (data : List α) :
    load (s.sent p data) = load s + data.length := by
  rw [load_eq _ p, load_eq s p, sent_inbox, sent_inbox_other, ByteStream.content_send,
    List.length_append, Nat.add_assoc]

lemma load_drained_le (s : State α) (p : Peer) (n : ℕ) : load (s.drained p n) ≤ load s := by
  rw [load_eq _ p, load_eq s p, drained_inbox, drained_inbox_other]
  exact Nat.add_le_add_right (ByteStream.rest_length_le _ _) _

lemma load_arrived (s : State α) (p : Peer) (k : ℕ) :
    load { s with inbox := Function.update s.inbox p ((s.inbox p).arrive k) } = load s := by
  simp only [load, arrived_content]

lemma take_short {rc : ℤ} (hm : message ≠ []) (hrc : rc < message.length) :
    (message.take rc.toNat).length < message.length := by
  have := List.length_pos_iff.mpr hm
  rw [List.length_take]
  omega

lemma Dead.step (hm : message ≠ []) (h : Dead message s p) (hl : step message s l = some t) :
    Dead message t p ∧ t.answered = s.answered := by
  obtain ⟨hstop, hidle, hshort, hroom, hfresh, q, hturn⟩ := h
  -- only the other side can move, and it has no answer to send
  have hother {r : Peer} {side : Side α} (hr : s.side r = side) (hne : side ≠ .stopped) :
      r = p.other := by
    rcases Peer.eq_or_other p r with rfl | hr'
    · exact (hne (hr.symm.trans hstop)).elim
    · exact hr'
  cases step_moves hm hl with
  | unwritten hs | written hs =>
    have hp := hother hs (by simp)
    rw [hp] at hs
    obtain rfl : p = .client := by cases p <;> simp [Peer.other] at hp ⊢
    refine ⟨⟨hstop, ?_, hshort, ?_, ?_, q, hturn⟩, rfl⟩
    · simp [Peer.other, State.become]
    · refine (load_sent s .server _).trans_le ?_
      simp [hfresh hs]
    · simp [Peer.other, State.become]
  | arrived q k =>
    refine ⟨⟨hstop, hidle, ?_, ?_, ?_, _, hturn⟩, rfl⟩
    · rwa [arrived_content]
    · rwa [load_arrived]
    · rwa [load_arrived]
  | broken hs =>
    rw [hother hs (by simp)]
    exact ⟨⟨by simpa using hstop, by simp, by simpa using hshort, hroom, by simp, q, hturn⟩, rfl⟩
  | received hs ha hread =>
    rw [hother hs (by simp)] at hread
    have := ByteStream.read_length_le (s.inbox p.other) message.length
    omega
  | partially hs ha hread =>
    rw [hother hs (by simp)]
    have hle := ByteStream.rest_length_le (s.inbox p.other) message.length
    exact ⟨⟨by simpa using hstop, by simp, by simpa using hle.trans_lt hshort,
      (load_drained_le s _ _).trans hroom, by simp, q, hturn⟩, rfl⟩
  | unsent hs hrc | sent hs =>
    rw [hother hs (by simp)] at hs
    exact (hidle _ hs).elim

lemma reply_eq (p : Peer) : reply message p message = message := by cases p <;> rfl

lemma Holds.not_starting (h : Holds message s p) (q : Peer) : s.side q ≠ .starting := by
  intro hs
  rcases Peer.eq_or_other p q with rfl | rfl
  · rcases h.holds with ⟨hw, -⟩ | ⟨hw, -⟩ <;> simp [hw] at hs
  · rcases h.other with hw | hw <;> simp [hw] at hs

lemma Holds.answering (h : Holds message s p) {buffer : List α}
    (hs : s.side q = .answering buffer) :
    q = p ∧ buffer = message ∧ (s.inbox q).content = [] := by
  rcases Peer.eq_or_other p q with rfl | rfl
  · rcases h.holds with ⟨hw, -⟩ | ⟨hw, hc⟩
    · simp [hw] at hs
    · rw [hw] at hs
      cases hs
      exact ⟨rfl, rfl, hc⟩
  · rcases h.other with hw | hw <;> simp [hw] at hs

lemma Holds.dead (h : Holds message s p) (hp : t.side p = .stopped)
    (ho : t.side p.other = s.side p.other)
    (hi : (t.inbox p.other).content.length < message.length) (hr : load t ≤ message.length)
    (ha : t.answered = s.answered) : Dead message t p := by
  refine ⟨hp, fun buffer hb => ?_, hi, hr, fun hs => ?_, p, h.turn.congr ha⟩
  · rw [ho] at hb
    rcases h.other with hw | hw <;> simp [hw] at hb
  · rw [ho] at hs
    rcases h.other with hw | hw <;> simp [hw] at hs

lemma Holds.room (h : Holds message s p) : load s ≤ message.length := by
  rw [load_eq s p, h.empty]
  rcases h.holds with ⟨-, hc⟩ | ⟨-, hc⟩ <;> simp [hc]

lemma Holds.arrived (h : Holds message s p) (q : Peer) (k : ℕ) :
    Holds message { s with inbox := Function.update s.inbox q ((s.inbox q).arrive k) } p := by
  refine ⟨h.other, ?_, ?_, h.turn⟩
  · rw [arrived_content]
    exact h.empty
  · rw [arrived_content]
    exact h.holds

lemma Holds.received (h : Holds message s p) (hs : s.side p = .waiting)
    (hread : ((s.inbox p).read message.length).length = message.length) : Holds message
      ((s.drained p message.length).become p (.answering ((s.inbox p).read message.length))) p := by
  have hc : (s.inbox p).content = message := by
    rcases h.holds with hw | hw
    · exact hw.2
    · simp [hs] at hw
  obtain ⟨he, hnil⟩ := ByteStream.read_whole (hread.trans (congrArg List.length hc.symm))
  refine ⟨by simpa using h.other, by simpa using h.empty, .inr ⟨?_, ?_⟩, h.turn⟩
  · rw [become_side, he, hc]
  · simpa using hnil

lemma Holds.sent (h : Holds message s p) (hs : s.side p = .answering message)
    (ho : s.side p.other = .waiting) :
    Holds message ((s.sent p (reply message p message)).finish p message) p.other := by
  obtain ⟨-, -, hnil⟩ := h.answering hs
  refine ⟨by simp, by simpa using hnil, .inl ⟨by simpa using ho, ?_⟩, h.turn.finish rfl⟩
  simp [reply_eq, h.empty]

lemma Holds.step (hm : message ≠ []) (h : Holds message s p) (hl : step message s l = some t) :
    Holds message t p ∧ t.answered = s.answered ∧ (t.side p.other = s.side p.other ∨
        l = .recv p.other false ∧ t.side p.other = .stopped) ∨
      (Holds message t p.other ∧ s.side p.other = .waiting ∨
        Dead message t p.other ∧ s.side p.other = .stopped) ∧ t.side p = .waiting ∧
        t.answered = Function.update s.answered p (s.answered p ++ [message]) ∨
      Dead message t p ∧ t.side p.other = s.side p.other ∧ t.answered = s.answered := by
  have hpos := List.length_pos_iff.mpr hm
  have hempty : (s.inbox p.other).content.length < message.length := by simpa [h.empty]
  cases step_moves hm hl with
  | unwritten hs | written hs =>
    exact (h.not_starting .server hs).elim
  | arrived q k =>
    exact .inl ⟨h.arrived q k, rfl, .inl rfl⟩
  | @broken q hs =>
    rcases Peer.eq_or_other p q with rfl | rfl
    · refine .inr (.inr ⟨?_, by simp, rfl⟩)
      exact h.dead (by simp) (by simp) (by simpa using hempty) h.room rfl
    · refine .inl ⟨⟨?_, ?_, ?_, h.turn⟩, rfl, .inr ⟨rfl, ?_⟩⟩
      · simp
      · simpa using h.empty
      · simpa using h.holds
      · simp
  | @received q hs ha hread =>
    rcases Peer.eq_or_other p q with rfl | rfl
    · exact .inl ⟨h.received hs hread, rfl, by simp⟩
    · exact (ha (ByteStream.arrived_of_content h.empty)).elim
  | @partially q hs ha hread =>
    rcases Peer.eq_or_other p q with rfl | rfl
    · have hroom := (load_drained_le s q message.length).trans h.room
      exact .inr (.inr ⟨h.dead (by simp) (by simp) (by simpa using hempty) hroom rfl, by simp, rfl⟩)
    · exact (ha (ByteStream.arrived_of_content h.empty)).elim
  | @unsent q buffer rc hs hrc =>
    obtain ⟨rfl, rfl, hnil⟩ := h.answering hs
    have hshort := take_short hm hrc
    refine .inr (.inr ⟨h.dead (by simp) (by simp) ?_ ?_ rfl, by simp, rfl⟩)
    · simpa [reply_eq, h.empty] using hshort
    · refine (load_sent s q _).trans_le ?_
      rw [load_eq s q, hnil, h.empty, reply_eq]
      simp
  | @sent q buffer hs =>
    obtain ⟨rfl, rfl, hnil⟩ := h.answering hs
    refine .inr (.inl ⟨?_, by simp, by simp⟩)
    rcases h.other with hw | hw
    · exact .inl ⟨h.sent hs hw, hw⟩
    · refine .inr ⟨⟨by simpa using hw, by simp, by simpa [hnil] using hpos, ?_, by simp, q.other,
        ?_⟩, hw⟩
      · refine (load_sent s q _).trans_le ?_
        simp [load_eq s q, hnil, h.empty, reply_eq]
      · exact h.turn.finish rfl

lemma Fresh.turn (h : Fresh s) : Turn s .client := by simp [Turn, h.answered]

lemma Fresh.written (h : Fresh s) :
    Holds message ((s.sent .server message).become .server .waiting) .client ∧
      ∀ p, ((s.sent .server message).become .server .waiting).side p = .waiting := by
  refine ⟨⟨.inl ?_, ?_, .inl ⟨h.client, ?_⟩, h.turn⟩, fun p => ?_⟩
  · exact become_side ..
  · exact h.inbox .server
  · exact (ByteStream.content_send ..).trans (by rw [h.inbox]; rfl)
  · cases p
    · exact become_side ..
    · exact h.client

lemma Fresh.step (hm : message ≠ []) (h : Fresh s) (hl : step message s l = some t) :
    t.answered = s.answered ∧ (Fresh t ∨ Holds message t .client ∧ (∀ p, t.side p = .waiting) ∨
      ∃ p, Dead message t p ∧ t.side p.other ≠ .stopped) := by
  have hpos := List.length_pos_iff.mpr hm
  have hnil (p : Peer) : (s.inbox p).arrived = [] := ByteStream.arrived_of_content (h.inbox p)
  have hside (p : Peer) : s.side p = .starting ∨ s.side p = .waiting := by
    cases p
    · exact .inl h.server
    · exact .inr h.client
  have hidle {p : Peer} (buffer : List α) : s.side p ≠ .answering buffer := by
    intro hb
    rcases hside p with hw | hw <;> simp [hb] at hw
  have hlive (p : Peer) : s.side p ≠ .stopped := by
    intro hb
    rcases hside p with hw | hw <;> simp [hb] at hw
  cases step_moves hm hl with
  | unwritten hs hrc =>
    have hshort := take_short hm hrc
    refine ⟨rfl, .inr (.inr ⟨.server, ⟨by simp, ?_, ?_, ?_, ?_, .client, h.turn⟩, ?_⟩)⟩
    · simpa using hidle
    · simpa [h.inbox] using hshort
    · refine (load_sent s .server _).trans_le ?_
      simp [load, h.inbox]
    · simp [Peer.other, State.become, h.client]
    · simpa using hlive _
  | written hs => exact ⟨rfl, .inr (.inl h.written)⟩
  | arrived q k =>
    refine ⟨rfl, .inl ⟨h.server, h.client, fun p => ?_, h.answered⟩⟩
    rw [arrived_content]
    exact h.inbox p
  | @broken q hs =>
    have hload : load s = 0 := by simp [load, h.inbox]
    refine ⟨rfl, .inr (.inr ⟨q, ⟨by simp, ?_, ?_, ?_, fun _ => hload, .client, h.turn⟩, ?_⟩)⟩
    · simpa using hidle
    · simpa [h.inbox] using hpos
    · exact hload.trans_le (Nat.zero_le _)
    · simpa using hlive _
  | received hs ha | partially hs ha => exact (ha (hnil _)).elim
  | unsent hs | sent hs => exact (hidle _ hs).elim

structure Inv (message : List α) (s : State α) : Prop where
  genuine : ∀ p, ∀ m ∈ s.answered p, m = message
  phase : Fresh s ∨ (∃ p, Holds message s p) ∨ ∃ p, Dead message s p

lemma start_fresh : Fresh (start : State α) :=
  ⟨rfl, rfl, fun _ => rfl, fun _ => rfl⟩

lemma step_inv (hm : message ≠ []) (h : Inv message s) (hl : step message s l = some t) :
    Inv message t := by
  have same (ha : t.answered = s.answered) : ∀ p, ∀ m ∈ t.answered p, m = message :=
    ha ▸ h.genuine
  rcases h.phase with hf | ⟨p, hp⟩ | ⟨p, hp⟩
  · obtain ⟨ha, hf | ⟨hh, -⟩ | ⟨p, hd, -⟩⟩ := hf.step hm hl
    · exact ⟨same ha, .inl hf⟩
    · exact ⟨same ha, .inr (.inl ⟨_, hh⟩)⟩
    · exact ⟨same ha, .inr (.inr ⟨p, hd⟩)⟩
  · obtain ⟨hh, ha, -⟩ | ⟨hh, -, ha⟩ | ⟨hd, -, ha⟩ := hp.step hm hl
    · exact ⟨same ha, .inr (.inl ⟨p, hh⟩)⟩
    · refine ⟨fun q m hq => ?_, ?_⟩
      · rw [ha] at hq
        by_cases he : q = p
        · subst he
          simp only [Function.update_self, List.mem_append, List.mem_singleton] at hq
          exact hq.elim (h.genuine q m) id
        · rw [Function.update_of_ne he] at hq
          exact h.genuine q m hq
      · rcases hh with ⟨hh, -⟩ | ⟨hd, -⟩
        · exact .inr (.inl ⟨_, hh⟩)
        · exact .inr (.inr ⟨_, hd⟩)
    · exact ⟨same ha, .inr (.inr ⟨p, hd⟩)⟩
  · obtain ⟨hd, ha⟩ := hp.step hm hl
    exact ⟨same ha, .inr (.inr ⟨p, hd⟩)⟩

lemma run_inv (hm : message ≠ []) {ls : List Label}
    (h : Machine.run (step message) start ls = some s) : Inv message s := by
  refine Machine.run_invariant (Inv message) (fun _ _ _ hs hl => step_inv hm hs hl) ?_ h
  exact ⟨by simp [start], .inl start_fresh⟩

lemma Holds.unique (hm : message ≠ []) (hp : Holds message s p) (hq : Holds message s q) :
    q = p := by
  rcases Peer.eq_or_other p q with he | rfl
  · exact he
  · have hempty := hq.empty
    rw [Peer.other_other] at hempty
    rcases hp.holds with ⟨-, hc⟩ | ⟨hs, -⟩
    · exact (hm (hc.symm.trans hempty)).elim
    · exact (hq.answering hs).1.symm

lemma Inv.turn (h : Inv message s) : ∃ p, Turn s p := by
  rcases h.phase with hf | ⟨p, hp⟩ | ⟨p, hp⟩
  · exact ⟨_, hf.turn⟩
  · exact ⟨p, hp.turn⟩
  · exact hp.turn

theorem connection_intact (message : List α) (hm : message ≠ []) (ls : List Label) (s : State α)
    (h : Machine.run (step message) start ls = some s) :
    (∀ p, ∀ m ∈ s.answered p, m = message) ∧
    (s.answered .server).length ≤ (s.answered .client).length ∧
    (s.answered .client).length ≤ (s.answered .server).length + 1 ∧
    load s ≤ message.length ∧
    ((∀ p, s.side p ≠ .stopped) → s.side .server ≠ .starting → ∃! p, Holds message s p) := by
  have hi := run_inv hm h
  obtain ⟨q, hturn⟩ := hi.turn
  rw [Turn] at hturn
  refine ⟨hi.genuine, by omega, by split_ifs at hturn <;> omega, ?_, fun hlive hwritten => ?_⟩
  · rcases hi.phase with hf | ⟨p, hp⟩ | ⟨p, hp⟩
    · simp [load, hf.inbox]
    · exact hp.room
    · exact hp.room
  · rcases hi.phase with hf | ⟨p, hp⟩ | ⟨p, hp⟩
    · exact (hwritten hf.server).elim
    · exact ⟨p, hp, fun q hq => hp.unique hm hq⟩
    · exact (hlive p hp.stopped).elim

theorem connection_intact_pieces :
    ∃ s, Machine.run (step [1, 2]) start [.write 2, .arrive .client 1, .arrive .client 1,
        .recv .client true, .send .client 2, .arrive .server 1] = some s ∧
      s.answered .client = [[1, 2]] ∧ (∀ p, ∀ m ∈ s.answered p, m = [1, 2]) ∧
      load s ≤ 2 ∧ ∃! p, Holds [1, 2] s p := by
  have h := connection_intact [1, 2] (by simp) [.write 2, .arrive .client 1, .arrive .client 1,
    .recv .client true, .send .client 2, .arrive .server 1] _ rfl
  refine ⟨_, rfl, by decide, h.1, h.2.2.2.1, h.2.2.2.2 ?_ (by decide)⟩
  intro p
  cases p <;> decide

end Connection

end NetworkPing
