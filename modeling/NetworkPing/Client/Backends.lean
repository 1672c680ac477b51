import Mathlib.Data.List.TakeDrop
import Mathlib.Tactic
import NetworkPing.Machine

/-! `selector_test`, `asyncio_sock_test`, `gevent_test` and `thread_test` of main.py, which accept
their connections one by one. A label is a call of `accept`, a turn of the echo loop of one
connection, or what the function does between such calls. -/

namespace NetworkPing.Client.Backends

def getListenParam (count : ℤ) : ℤ :=
  if count < 15 then count / 5
  else if count < 100 then max (count / 10) 3
  else max (count / 20) 10

inductive Sent
  | done
  | reset
  | error
  deriving DecidableEq

inductive Turn
  | read (len : ℕ) (sent : Sent)
  | reset
  | error
  deriving DecidableEq

inductive Outcome
  | echoed
  | left
  | raised
  deriving DecidableEq

def turn (msize : ℕ) : Turn → Outcome
  | .read len sent =>
    if len = 0 then .left
    else if len ≠ msize then .raised
    else match sent with
      | .done => .echoed
      | .reset => .left
      | .error => .raised
  | .reset => .left
  | .error => .raised

inductive Event
  | ready
  | before
  | after
  | accept (i : ℕ)
  | echo (i : ℕ)
  | close (i : ℕ)
  deriving DecidableEq

namespace Event

def isStamp : Event → Bool
  | ready | before | after => true
  | _ => false

def isAccept : Event → Bool
  | accept _ => true
  | _ => false

def isOf (i : ℕ) : Event → Bool
  | accept j | echo j | close j => i = j
  | _ => false

end Event

inductive Pc
  | accepting
  | serving
  | joining (i : ℕ)
  | returned
  | raised
  deriving DecidableEq

/-- The connections are known by their order, with whether they are open. `pending` is what is
left of a result of `sel.select()`, `failed` that a task has raised. -/
structure State where
  pc : Pc := .accepting
  begun : Bool := false
  failed : Bool := false
  conns : List Bool := []
  pending : List ℕ := []
  events : List Event := [.ready]
  deriving DecidableEq

inductive Label
  | accept (ok : Bool)
  | before
  | select (batch : List ℕ)
  | turn (i : ℕ) (t : Turn)
  | closed
  | join
  | after
  | abort
  deriving DecidableEq

namespace State

def accept (s : State) : State :=
  { s with conns := s.conns ++ [true], events := s.events ++ [.accept s.conns.length] }

def beforeTest (s : State) : State := { s with begun := true, events := s.events ++ [.before] }

def echo (s : State) (i : ℕ) : State := { s with events := s.events ++ [.echo i] }

def close (s : State) (i : ℕ) : State :=
  { s with conns := s.conns.set i false, events := s.events ++ [.close i] }

def afterTest (s : State) : State := { s with pc := .returned, events := s.events ++ [.after] }

def accepted (s : State) (ok : Bool) : State := if ok then s.accept else { s with pc := .raised }

def take (s : State) (msize i : ℕ) (t : Turn) (raised : State) : State :=
  match Backends.turn msize t with
  | .echoed => s.echo i
  | .left => s.close i
  | .raised => raised

end State

variable (count : ℤ) (msize : ℕ) (s : State)

def selectorTest : Label → Option State
  | .accept ok =>
    if s.pc = .accepting ∧ (s.conns.length : ℤ) ≠ count then some (s.accepted ok) else none
  | .before =>
    if s.pc = .accepting ∧ (s.conns.length : ℤ) = count then
      some { s.beforeTest with pc := .serving }
    else none
  | .select batch =>
    if s.pc = .serving ∧ s.pending = [] ∧ true ∈ s.conns ∧ batch.Nodup ∧
        ∀ i ∈ batch, s.conns[i]? = some true then
      some { s with pending := batch }
    else none
  | .turn i t =>
    match s.pending with
    | j :: rest =>
      if s.pc = .serving ∧ i = j then
        let s' := { s with pending := rest }
        some (s'.take msize i t { s' with pc := .raised })
      else none
    | [] => none
  | .after =>
    if s.pc = .serving ∧ s.pending = [] ∧ true ∉ s.conns then some s.afterTest else none
  | _ => none

/-- The exception of a task leaves `asyncio.gather`, while the other tasks may still have turns.
Without tasks the future of `gather` is one of another loop, which `run_until_complete` refuses. -/
def asyncioSockTest : Label → Option State
  | .accept ok =>
    if s.pc = .accepting ∧ s.conns.length < count then some (s.accepted ok) else none
  | .before =>
    if s.pc = .accepting ∧ count ≤ s.conns.length then
      some { s.beforeTest with pc := .serving }
    else none
  | .turn i t =>
    if s.pc = .serving ∧ s.conns[i]? = some true then
      some (s.take msize i t { s.close i with failed := true })
    else none
  | .after =>
    if s.pc = .serving ∧ s.failed = false ∧ s.conns ≠ [] ∧ true ∉ s.conns then
      some s.afterTest
    else none
  | .abort =>
    if s.pc = .serving ∧ (s.failed ∨ s.conns = []) then some { s with pc := .raised } else none
  | _ => none

/-- A greenlet runs while the function waits, in `accept` too; its exception is only printed. -/
def geventTest : Label → Option State
  | .accept ok =>
    if s.pc = .accepting ∧ (s.conns.length : ℤ) ≠ count then some (s.accepted ok) else none
  | .before =>
    if s.pc = .accepting ∧ (s.conns.length : ℤ) = count then
      some { s.beforeTest with pc := .serving }
    else none
  | .turn i t =>
    if s.conns[i]? = some true then some (s.take msize i t (s.close i)) else none
  | .after => if s.pc = .serving ∧ true ∉ s.conns then some s.afterTest else none
  | _ => none

def threadTest : Label → Option State
  | .before =>
    if s.pc = .accepting ∧ s.conns.length < count ∧
        count - getListenParam count - 1 ≤ s.conns.length ∧ s.begun = false then
      some s.beforeTest
    else none
  | .accept ok =>
    if s.pc = .accepting ∧ s.conns.length < count ∧
        ¬ (count - getListenParam count - 1 ≤ s.conns.length ∧ s.begun = false) then
      some (s.accepted ok)
    else none
  | .turn i t =>
    if s.conns[i]? = some true then some (s.take msize i t (s.close i)) else none
  | .closed =>
    if s.pc = .accepting ∧ count ≤ s.conns.length then some { s with pc := .joining 0 } else none
  | .join =>
    match s.pc with
    | .joining i =>
      if s.conns[i]? = some false then some { s with pc := .joining (i + 1) } else none
    | _ => none
  | .after =>
    match s.pc with
    | .joining i => if s.conns.length ≤ i then some s.afterTest else none
    | _ => none
  | _ => none

def Label.echoes (msize i : ℕ) : Label → Bool
  | .turn j t => i = j && Backends.turn msize t = .echoed
  | _ => false

def echoes (msize : ℕ) (ls : List Label) (i : ℕ) : ℕ := ls.countP (Label.echoes msize i)

def story (i n : ℕ) : Option Bool → List Event
  | none => []
  | some true => .accept i :: List.replicate n (.echo i)
  | some false => .accept i :: (List.replicate n (.echo i) ++ [.close i])

structure Logged (s : State) (n : ℕ → ℕ) : Prop where
  stamps : s.events.filter Event.isStamp =
    .ready :: ((if s.begun then [.before] else []) ++ if s.pc = .returned then [.after] else [])
  last : s.pc = .returned → s.events.getLast? = some .after
  conns : ∀ i, s.events.filter (Event.isOf i) = story i (n i) s.conns[i]?
  fresh : ∀ i, s.conns[i]? = none → n i = 0
  count : s.events.countP Event.isAccept = s.conns.length
  closed : s.pc = .returned → true ∉ s.conns

variable {count msize} {s t : State} {n : ℕ → ℕ} {i : ℕ} {l : Label} {ls : List Label}

lemma start_logged : Logged {} (echoes msize []) :=
  ⟨rfl, by simp, fun _ => rfl, fun _ _ => rfl, rfl, by simp⟩

lemma echoes_snoc (msize : ℕ) (ls : List Label) (l : Label) (i : ℕ) :
    echoes msize (ls ++ [l]) i = echoes msize ls i + if l.echoes msize i then 1 else 0 := by
  rw [echoes, List.countP_append, List.countP_singleton]
  rfl

lemma echoes_of_false (h : ∀ i, l.echoes msize i = false) :
    echoes msize (ls ++ [l]) = echoes msize ls := by
  funext i
  rw [echoes_snoc, h i]
  rfl

lemma Logged.not_returned (h : Logged s n) (hi : s.conns[i]? = some true) : s.pc ≠ .returned :=
  fun hpc => h.closed hpc (List.mem_of_getElem? hi)

lemma Logged.goto (h : Logged s n) (hs : s.pc ≠ .returned) (ht : t.pc ≠ .returned)
    (hb : t.begun = s.begun) (hc : t.conns = s.conns) (he : t.events = s.events) :
    Logged t n := by
  refine ⟨?_, fun hpc => (ht hpc).elim, ?_, ?_, ?_, fun hpc => (ht hpc).elim⟩
  · rw [he, hb, if_neg ht, h.stamps, if_neg hs]
  · rw [he, hc]
    exact h.conns
  · rw [hc]
    exact h.fresh
  · rw [he, hc]
    exact h.count

lemma Logged.accept (h : Logged s n) (hs : s.pc ≠ .returned) : Logged s.accept n := by
  refine ⟨?_, fun hpc => (hs hpc).elim, fun i => ?_, fun i hi => h.fresh i ?_, ?_,
    fun hpc => (hs hpc).elim⟩
  · rw [State.accept, List.filter_append, h.stamps]
    exact List.append_nil _
  · rw [State.accept, List.filter_append, h.conns]
    rcases Nat.lt_trichotomy i s.conns.length with hi | rfl | hi
    · rw [List.getElem?_append_left hi]
      simp [Event.isOf, hi.ne]
    · have hnone : s.conns[s.conns.length]? = none := by simp
      rw [hnone, List.getElem?_concat_length, h.fresh _ hnone]
      simp [story, Event.isOf]
    · have hnone : (s.conns ++ [true])[i]? = none := List.getElem?_eq_none (by simpa using hi)
      rw [hnone, List.getElem?_eq_none hi.le]
      simp [Event.isOf, hi.ne']
  · rw [State.accept, List.getElem?_eq_none_iff, List.length_append] at hi
    exact List.getElem?_eq_none (by omega)
  · rw [State.accept, List.countP_append, h.count, List.length_append]
    rfl

lemma Logged.beforeTest (h : Logged s n) (hs : s.pc ≠ .returned) (hb : s.begun = false) :
    Logged s.beforeTest n := by
  refine ⟨?_, fun hpc => (hs hpc).elim, fun i => ?_, h.fresh, ?_, fun hpc => (hs hpc).elim⟩
  · rw [State.beforeTest, List.filter_append, h.stamps, hb, if_neg hs]
    rfl
  · rw [State.beforeTest, List.filter_append, h.conns]
    exact List.append_nil _
  · rw [State.beforeTest, List.countP_append, h.count]
    rfl

lemma Logged.afterTest (h : Logged s n) (hs : s.pc ≠ .returned) (hc : true ∉ s.conns) :
    Logged s.afterTest n := by
  refine ⟨?_, fun _ => ?_, fun i => ?_, h.fresh, ?_, fun _ => hc⟩
  · rw [State.afterTest, List.filter_append, h.stamps, if_neg hs, List.append_nil]
    rfl
  · rw [State.afterTest, List.getLast?_append, List.getLast?_singleton]
    rfl
  · rw [State.afterTest, List.filter_append, h.conns]
    exact List.append_nil _
  · rw [State.afterTest, List.countP_append, h.count]
    rfl

lemma Logged.echo (h : Logged s n) (hi : s.conns[i]? = some true) :
    Logged (s.echo i) fun j => n j + if j = i then 1 else 0 := by
  have hs := h.not_returned hi
  refine ⟨?_, fun hpc => (hs hpc).elim, fun j => ?_, fun j hj => ?_, ?_, fun hpc => (hs hpc).elim⟩
  · rw [State.echo, List.filter_append, h.stamps]
    exact List.append_nil _
  · rw [State.echo, List.filter_append, h.conns]
    by_cases hj : j = i
    · subst hj
      rw [hi, if_pos rfl]
      simp [story, Event.isOf, List.replicate_succ']
    · rw [if_neg hj]
      simp [Event.isOf, hj]
  · have hne : j ≠ i := fun he => by simp [State.echo, he, hi] at hj
    rw [h.fresh j hj, if_neg hne]
  · rw [State.echo, List.countP_append, h.count]
    rfl

lemma Logged.close (h : Logged s n) (hi : s.conns[i]? = some true) : Logged (s.close i) n := by
  have hs := h.not_returned hi
  have hlt := (List.getElem?_eq_some_iff.mp hi).1
  refine ⟨?_, fun hpc => (hs hpc).elim, fun j => ?_, fun j hj => h.fresh j ?_, ?_,
    fun hpc => (hs hpc).elim⟩
  · rw [State.close, List.filter_append, h.stamps]
    exact List.append_nil _
  · rw [State.close, List.filter_append, h.conns]
    by_cases hj : j = i
    · subst hj
      rw [hi, List.getElem?_set_self hlt]
      simp [story, Event.isOf]
    · rw [List.getElem?_set_ne (Ne.symm hj)]
      simp [Event.isOf, hj]
  · rw [State.close, List.getElem?_eq_none_iff, List.length_set] at hj
    exact List.getElem?_eq_none hj
  · rw [State.close, List.countP_append, h.count, List.length_set]
    rfl

lemma echoes_echoed {tn : Turn} (h : turn msize tn = .echoed) : echoes msize (ls ++ [.turn i tn]) =
    fun j => echoes msize ls j + if j = i then 1 else 0 := by
  funext j
  simp [echoes_snoc, Label.echoes, h]

lemma echoes_unanswered {tn : Turn} (h : turn msize tn ≠ .echoed) :
    echoes msize (ls ++ [.turn i tn]) = echoes msize ls :=
  echoes_of_false (by simp [Label.echoes, h])

structure Timed (P Q : Event → Prop) (k : ℤ) (s : State) : Prop where
  waiting : s.begun = false → ∀ e ∈ s.events, P e
  begun : s.begun = true → ∃ xs ys, s.events = xs ++ .before :: ys ∧ (∀ e ∈ xs, P e) ∧
    (xs.countP Event.isAccept : ℤ) = k ∧ ∀ e ∈ ys, Q e

variable {P Q : Event → Prop} {k : ℤ} {e : Event}

lemma Timed.snoc (h : Timed P Q k s) (hb : t.begun = s.begun) (he : t.events = s.events ++ [e])
    (hp : s.begun = false → P e) (hq : s.begun = true → Q e) : Timed P Q k t := by
  refine ⟨fun ht => ?_, fun ht => ?_⟩
  · rw [hb] at ht
    rw [he]
    exact List.forall_mem_append.mpr ⟨h.waiting ht, List.forall_mem_singleton.mpr (hp ht)⟩
  · rw [hb] at ht
    obtain ⟨xs, ys, hxy, hxs, hk, hys⟩ := h.begun ht
    refine ⟨xs, ys ++ [e], by rw [he, hxy, List.append_assoc]; rfl, hxs, hk, ?_⟩
    exact List.forall_mem_append.mpr ⟨hys, List.forall_mem_singleton.mpr (hq ht)⟩

lemma Timed.congr (h : Timed P Q k s) (hb : t.begun = s.begun) (he : t.events = s.events) :
    Timed P Q k t :=
  ⟨fun ht => he ▸ h.waiting (hb ▸ ht), fun ht => he ▸ h.begun (hb ▸ ht)⟩

lemma Timed.beforeTest (h : Timed P Q k s) (hb : s.begun = false)
    (hk : (s.events.countP Event.isAccept : ℤ) = k) : Timed P Q k s.beforeTest :=
  ⟨fun ht => (Bool.noConfusion ht), fun _ => ⟨s.events, [], rfl, h.waiting hb, hk, by simp⟩⟩

structure Inv (P : Event → Prop) (N : ℤ) (msize : ℕ) (ls : List Label) (s : State) : Prop where
  logged : Logged s (echoes msize ls)
  timed : Timed P (fun e => e.isAccept = false) N s
  accepting : s.pc = .accepting → s.begun = false
  full : s.pc = .serving ∨ s.pc = .returned → s.begun = true ∧ (s.conns.length : ℤ) = N
  joining : ∀ i, s.pc ≠ .joining i

variable {N : ℤ}

lemma start_inv (h : P .ready) : Inv P N msize [] {} where
  logged := start_logged
  timed := ⟨by simpa using h, by simp⟩
  accepting _ := rfl
  full := by simp
  joining := by simp

lemma Inv.accept (h : Inv P N msize ls s) (hpc : s.pc = .accepting)
    (hp : ∀ i, P (.accept i)) : Inv P N msize (ls ++ [.accept true]) s.accept where
  logged := by
    rw [echoes_of_false fun _ => rfl]
    exact h.logged.accept (by simp [hpc])
  timed := h.timed.snoc rfl rfl (fun _ => hp _) fun hb => by simp [h.accepting hpc] at hb
  accepting := h.accepting
  full hf := by simp [State.accept, hpc] at hf
  joining := h.joining

lemma Inv.raise (h : Inv P N msize ls s) (hpc : s.pc ≠ .returned)
    (hl : ∀ i, l.echoes msize i = false) :
    Inv P N msize (ls ++ [l]) { s with pc := .raised } where
  logged := by
    rw [echoes_of_false hl]
    exact h.logged.goto hpc (by simp) rfl rfl rfl
  timed := h.timed.congr rfl rfl
  accepting := by simp
  full := by simp
  joining := by simp

lemma Inv.accepted (h : Inv P N msize ls s) (hpc : s.pc = .accepting) (hp : ∀ i, P (.accept i))
    (ok : Bool) : Inv P N msize (ls ++ [.accept ok]) (s.accepted ok) := by
  cases ok with
  | true => exact h.accept hpc hp
  | false => exact h.raise (by simp [hpc]) fun _ => rfl

lemma Inv.begin (h : Inv P N msize ls s) (hpc : s.pc = .accepting)
    (hn : (s.conns.length : ℤ) = N) :
    Inv P N msize (ls ++ [.before]) { s.beforeTest with pc := .serving } where
  logged := by
    have hs : s.pc ≠ .returned := by simp [hpc]
    rw [echoes_of_false fun _ => rfl]
    exact (h.logged.beforeTest hs (h.accepting hpc)).goto hs (by simp) rfl rfl rfl
  timed := by
    have ht := h.timed.beforeTest (h.accepting hpc) (by rw [h.logged.count, hn])
    exact ht.congr rfl rfl
  accepting := by simp
  full _ := ⟨rfl, hn⟩
  joining := by simp

lemma Inv.after (h : Inv P N msize ls s) (hpc : s.pc = .serving) (hc : true ∉ s.conns) :
    Inv P N msize (ls ++ [.after]) s.afterTest where
  logged := by
    rw [echoes_of_false fun _ => rfl]
    exact h.logged.afterTest (by simp [hpc]) hc
  timed := h.timed.snoc rfl rfl
    (fun hb => by simp [(h.full (.inl hpc)).1] at hb) fun _ => rfl
  accepting := by simp [State.afterTest]
  full _ := h.full (.inl hpc)
  joining := by simp [State.afterTest]

section

variable {tn : Turn} (h : Inv P N msize ls s) (hi : s.conns[i]? = some true)
  (hp : s.begun = false → P (.echo i) ∧ P (.close i))

include h hi hp

lemma Inv.echo (ht : turn msize tn = .echoed) : Inv P N msize (ls ++ [.turn i tn]) (s.echo i) where
  logged := by
    rw [echoes_echoed ht]
    exact h.logged.echo hi
  timed := h.timed.snoc rfl rfl (fun hb => (hp hb).1) fun _ => rfl
  accepting := h.accepting
  full := h.full
  joining := h.joining

lemma Inv.close (ht : turn msize tn ≠ .echoed) :
    Inv P N msize (ls ++ [.turn i tn]) (s.close i) where
  logged := by
    rw [echoes_unanswered ht]
    exact h.logged.close hi
  timed := h.timed.snoc rfl rfl (fun hb => (hp hb).2) fun _ => rfl
  accepting := h.accepting
  full hf := by simpa only [State.close, List.length_set] using h.full hf
  joining := h.joining

lemma Inv.take {u : State} (hu : turn msize tn = .raised → Inv P N msize (ls ++ [.turn i tn]) u) :
    Inv P N msize (ls ++ [.turn i tn]) (s.take msize i tn u) := by
  rw [State.take]
  split
  next ht => exact h.echo hi hp ht
  next ht => exact h.close hi hp (by simp [ht])
  next ht => exact hu ht

end

lemma Inv.silent (h : Inv P N msize ls s) (hl : ∀ i, l.echoes msize i = false) :
    Inv P N msize (ls ++ [l]) s :=
  ⟨by rw [echoes_of_false hl]; exact h.logged, h.timed, h.accepting, h.full, h.joining⟩

lemma Inv.frame (h : Inv P N msize ls s) (pending : List ℕ) (failed : Bool) :
    Inv P N msize ls { s with pending := pending, failed := failed } := by
  obtain ⟨h1, h2, h3, h4, h5⟩ := h
  exact ⟨⟨h1.stamps, h1.last, h1.conns, h1.fresh, h1.count, h1.closed⟩,
    ⟨h2.waiting, h2.begun⟩, h3, h4, h5⟩

lemma take_pc {u : State} {tn : Turn} (hu : u.pc = s.pc) : (s.take msize i tn u).pc = s.pc := by
  rw [State.take]
  split
  · rfl
  · rfl
  · exact hu

def Event.InAccept (e : Event) : Prop := e = .ready ∨ e.isAccept

lemma gevent_inv (h : Inv (fun _ => True) count msize ls s)
    (hl : geventTest count msize s l = some t) :
    Inv (fun _ => True) count msize (ls ++ [l]) t := by
  rw [geventTest.eq_def] at hl
  split at hl
  next ok =>
    split_ifs at hl with hc
    cases hl
    exact h.accepted hc.1 (fun _ => trivial) ok
  next =>
    split_ifs at hl with hc
    cases hl
    exact h.begin hc.1 hc.2
  next i tn =>
    split_ifs at hl with hi
    cases hl
    exact h.take hi (fun _ => ⟨trivial, trivial⟩) fun ht =>
      h.close hi (fun _ => ⟨trivial, trivial⟩) (by simp [ht])
  next =>
    split_ifs at hl with hc
    cases hl
    exact h.after hc.1 hc.2
  next => cases hl

lemma serving_begun (h : Inv P N msize ls s) (hpc : s.pc = .serving) {p : Prop}
    (hb : s.begun = false) : p := by
  simp [(h.full (.inl hpc)).1] at hb

structure SockInv (count : ℤ) (msize : ℕ) (ls : List Label) (s : State) : Prop where
  inv : Inv Event.InAccept (max count 0) msize ls s
  room : s.pc = .accepting → (s.conns.length : ℤ) ≤ max count 0
  tasks : s.pc = .returned → s.conns ≠ []

lemma SockInv.moved (h : Inv Event.InAccept (max count 0) msize ls s) (ha : s.pc ≠ .accepting)
    (hr : s.pc = .returned → s.conns ≠ []) : SockInv count msize ls s :=
  ⟨h, fun hpc => (ha hpc).elim, hr⟩

lemma asyncioSock_inv (h : SockInv count msize ls s)
    (hl : asyncioSockTest count msize s l = some t) : SockInv count msize (ls ++ [l]) t := by
  have hi := h.inv
  rw [asyncioSockTest.eq_def] at hl
  split at hl
  next ok =>
    split_ifs at hl with hc
    cases hl
    have ht := hi.accepted hc.1 (fun _ => .inr rfl) ok
    cases ok with
    | true =>
      refine ⟨ht, fun _ => ?_, fun hpc => ?_⟩
      · simp only [State.accepted, State.accept, if_true, List.length_append,
          List.length_singleton]
        omega
      · exact absurd (hc.1.symm.trans hpc) (by decide)
    | false => exact .moved ht (by simp [State.accepted]) (by simp [State.accepted])
  next =>
    split_ifs at hl with hc
    cases hl
    have hroom := h.room hc.1
    exact .moved (hi.begin hc.1 (by omega)) (by simp) (by simp)
  next i tn =>
    split_ifs at hl with hc
    cases hl
    have hb (hb : s.begun = false) : Event.InAccept (.echo i) ∧ Event.InAccept (.close i) :=
      serving_begun hi hc.1 hb
    have hu : ({ s.close i with failed := true } : State).pc = s.pc := rfl
    have hpc : (s.take msize i tn { s.close i with failed := true }).pc = .serving :=
      (take_pc hu).trans hc.1
    refine .moved (hi.take hc.2 hb fun ht => ?_) (by simp [hpc]) (by simp [hpc])
    exact (hi.close hc.2 hb (by simp [ht])).frame _ true
  next =>
    split_ifs at hl with hc
    cases hl
    exact .moved (hi.after hc.1 hc.2.2.2) (by simp [State.afterTest]) fun _ => hc.2.2.1
  next =>
    split_ifs at hl with hc
    cases hl
    exact .moved (hi.raise (by simp [hc.1]) fun _ => rfl) (by simp) (by simp)
  next => cases hl

structure SelectorInv (count : ℤ) (msize : ℕ) (ls : List Label) (s : State) : Prop where
  inv : Inv Event.InAccept count msize ls s
  nodup : s.pending.Nodup
  opened : ∀ i ∈ s.pending, s.conns[i]? = some true

lemma opened_set {js : List ℕ} (hj : i ∉ js) (h : ∀ j ∈ js, s.conns[j]? = some true) :
    ∀ j ∈ js, (s.conns.set i false)[j]? = some true := by
  intro j hm
  have hne : i ≠ j := fun he => hj (by rwa [he])
  rw [List.getElem?_set_ne hne]
  exact h j hm

lemma selector_inv (h : SelectorInv count msize ls s)
    (hl : selectorTest count msize s l = some t) : SelectorInv count msize (ls ++ [l]) t := by
  have hi := h.inv
  rw [selectorTest.eq_def] at hl
  split at hl
  next ok =>
    split_ifs at hl with hc
    cases hl
    refine ⟨hi.accepted hc.1 (fun _ => .inr rfl) ok, ?_, ?_⟩
    · cases ok <;> exact h.nodup
    · cases ok with
      | true =>
        intro i hm
        have hi := h.opened i hm
        exact (List.getElem?_append_left (List.getElem?_eq_some_iff.mp hi).1).trans hi
      | false => exact h.opened
  next =>
    split_ifs at hl with hc
    cases hl
    exact ⟨hi.begin hc.1 hc.2, h.nodup, h.opened⟩
  next batch =>
    split_ifs at hl with hc
    cases hl
    exact ⟨(hi.silent fun _ => rfl).frame batch s.failed, hc.2.2.2.1, hc.2.2.2.2⟩
  next i tn =>
    split at hl
    next j rest hpend =>
      split_ifs at hl with hc
      cases hl
      obtain ⟨hpc, rfl⟩ := hc
      have hnodup := h.nodup
      have hopened := h.opened
      rw [hpend] at hnodup hopened
      obtain ⟨hj, hrest⟩ := List.nodup_cons.mp hnodup
      obtain ⟨ho, hopen⟩ := List.forall_mem_cons.mp hopened
      have hf := hi.frame rest s.failed
      refine ⟨hf.take ho (serving_begun hi hpc) fun ht => ?_, ?_, ?_⟩
      · exact hf.raise (by simp [hpc]) (by simp [Label.echoes, ht])
      · rw [State.take]
        split <;> exact hrest
      · rw [State.take]
        split
        · exact hopen
        · exact opened_set hj hopen
        · exact hopen
    next => cases hl
  next =>
    split_ifs at hl with hc
    cases hl
    exact ⟨hi.after hc.1 hc.2.2, h.nodup, h.opened⟩
  next => cases hl

lemma getListenParam_bounds (h : 0 < count) :
    0 ≤ getListenParam count ∧ getListenParam count < count := by
  rw [getListenParam]
  split_ifs <;> omega

structure ThreadInv (count : ℤ) (msize : ℕ) (ls : List Label) (s : State) : Prop where
  logged : Logged s (echoes msize ls)
  timed : Timed (fun _ => True) (fun _ => True) (count - getListenParam count - 1) s
  waiting : s.begun = false → (s.conns.length : ℤ) ≤ max (count - getListenParam count - 1) 0
  begun : s.begun = true → 0 < count
  room : (s.conns.length : ℤ) ≤ max count 0
  full : ∀ i, s.pc = .joining i → count ≤ s.conns.length
  joined : ∀ i, s.pc = .joining i → ∀ j < i, s.conns[j]? = some false
  returned : s.pc = .returned → count ≤ s.conns.length

lemma start_threadInv : ThreadInv count msize [] {} := by
  refine ⟨start_logged, ⟨by simp, by simp⟩, fun _ => ?_, by simp, ?_, by simp, by simp, by simp⟩
  · exact le_max_right ..
  · exact le_max_right ..

lemma ThreadInv.goto (h : ThreadInv count msize ls s) (hl : ∀ i, l.echoes msize i = false) {pc : Pc}
    (hs : s.pc ≠ .returned) (ht : pc ≠ .returned)
    (hj : ∀ i, pc = .joining i → count ≤ s.conns.length ∧ ∀ j < i, s.conns[j]? = some false) :
    ThreadInv count msize (ls ++ [l]) { s with pc := pc } where
  logged := by
    rw [echoes_of_false hl]
    exact h.logged.goto hs ht rfl rfl rfl
  timed := h.timed.congr rfl rfl
  waiting := h.waiting
  begun := h.begun
  room := h.room
  full i hpc := (hj i hpc).1
  joined i hpc := (hj i hpc).2
  returned hpc := (ht hpc).elim

lemma ThreadInv.beforeTest (h : ThreadInv count msize ls s) (hpc : s.pc = .accepting)
    (hroom : s.conns.length < count)
    (hk : count - getListenParam count - 1 ≤ s.conns.length) (hb : s.begun = false) :
    ThreadInv count msize (ls ++ [.before]) s.beforeTest where
  logged := by
    rw [echoes_of_false fun _ => rfl]
    exact h.logged.beforeTest (by simp [hpc]) hb
  timed := by
    have hpos : 0 < count := by omega
    have hbound := getListenParam_bounds hpos
    have hwait := h.waiting hb
    exact h.timed.beforeTest hb (by rw [h.logged.count]; omega)
  waiting := by simp [State.beforeTest]
  begun _ := by omega
  room := h.room
  full := h.full
  joined := h.joined
  returned := h.returned

lemma ThreadInv.accept (h : ThreadInv count msize ls s) (hpc : s.pc = .accepting)
    (hroom : s.conns.length < count)
    (hk : ¬ (count - getListenParam count - 1 ≤ s.conns.length ∧ s.begun = false)) :
    ThreadInv count msize (ls ++ [.accept true]) s.accept where
  logged := by
    rw [echoes_of_false fun _ => rfl]
    exact h.logged.accept (by simp [hpc])
  timed := h.timed.snoc rfl rfl (fun _ => trivial) fun _ => trivial
  waiting hb := by
    have hlt : ¬ count - getListenParam count - 1 ≤ s.conns.length := fun hle => hk ⟨hle, hb⟩
    rw [State.accept, List.length_append, List.length_singleton]
    omega
  begun := h.begun
  room := by
    rw [State.accept, List.length_append, List.length_singleton]
    omega
  full i hi := by simp [State.accept, hpc] at hi
  joined i hi := by simp [State.accept, hpc] at hi
  returned hi := by simp [State.accept, hpc] at hi

lemma ThreadInv.echo {tn : Turn} (h : ThreadInv count msize ls s) (hi : s.conns[i]? = some true)
    (ht : turn msize tn = .echoed) : ThreadInv count msize (ls ++ [.turn i tn]) (s.echo i) where
  logged := by
    rw [echoes_echoed ht]
    exact h.logged.echo hi
  timed := h.timed.snoc rfl rfl (fun _ => trivial) fun _ => trivial
  waiting := h.waiting
  begun := h.begun
  room := h.room
  full := h.full
  joined := h.joined
  returned := h.returned

lemma ThreadInv.close {tn : Turn} (h : ThreadInv count msize ls s) (hi : s.conns[i]? = some true)
    (ht : turn msize tn ≠ .echoed) : ThreadInv count msize (ls ++ [.turn i tn]) (s.close i) where
  logged := by
    rw [echoes_unanswered ht]
    exact h.logged.close hi
  timed := h.timed.snoc rfl rfl (fun _ => trivial) fun _ => trivial
  waiting := by simpa only [State.close, List.length_set] using h.waiting
  begun := h.begun
  room := by simpa only [State.close, List.length_set] using h.room
  full := by simpa only [State.close, List.length_set] using h.full
  joined k hk j hj := by
    have hclosed := h.joined k hk j hj
    have hne : i ≠ j := fun he => by simp [← he, hi] at hclosed
    exact (List.getElem?_set_ne hne).trans hclosed
  returned := by simpa only [State.close, List.length_set] using h.returned

lemma ThreadInv.after (h : ThreadInv count msize ls s) (hpc : s.pc = .joining i)
    (hlen : s.conns.length ≤ i) : ThreadInv count msize (ls ++ [.after]) s.afterTest where
  logged := by
    rw [echoes_of_false fun _ => rfl]
    apply h.logged.afterTest (by simp [hpc])
    intro hm
    obtain ⟨j, hj⟩ := List.mem_iff_getElem?.mp hm
    have hlt := (List.getElem?_eq_some_iff.mp hj).1
    have hclosed := h.joined i hpc j (by omega)
    simp [hj] at hclosed
  timed := h.timed.snoc rfl rfl (fun _ => trivial) fun _ => trivial
  waiting := h.waiting
  begun := h.begun
  room := h.room
  full j hj := by simp [State.afterTest] at hj
  joined j hj := by simp [State.afterTest] at hj
  returned _ := h.full i hpc

lemma thread_inv (h : ThreadInv count msize ls s) (hl : threadTest count msize s l = some t) :
    ThreadInv count msize (ls ++ [l]) t := by
  rw [threadTest.eq_def] at hl
  split at hl
  next =>
    split_ifs at hl with hc
    cases hl
    exact h.beforeTest hc.1 hc.2.1 hc.2.2.1 hc.2.2.2
  next ok =>
    split_ifs at hl with hc
    cases hl
    cases ok with
    | true => exact h.accept hc.1 hc.2.1 hc.2.2
    | false => exact h.goto (fun _ => rfl) (by simp [hc.1]) (by simp) (by simp)
  next i tn =>
    split_ifs at hl with hi
    cases hl
    rw [State.take]
    split
    next ht => exact h.echo hi ht
    next ht => exact h.close hi (by simp [ht])
    next ht => exact h.close hi (by simp [ht])
  next =>
    split_ifs at hl with hc
    cases hl
    refine h.goto (fun _ => rfl) (by simp [hc.1]) (by simp) fun i hi => ?_
    cases hi
    exact ⟨hc.2, by simp⟩
  next =>
    split at hl
    next i hpc =>
      split_ifs at hl with hi
      cases hl
      refine h.goto (fun _ => rfl) (by simp [hpc]) (by simp) fun j hj => ?_
      cases hj
      refine ⟨h.full i hpc, fun j hj => ?_⟩
      rcases Nat.lt_succ_iff_lt_or_eq.mp hj with hj | rfl
      · exact h.joined i hpc j hj
      · exact hi
    next => cases hl
  next =>
    split at hl
    next i hpc =>
      split_ifs at hl with hi
      cases hl
      exact h.after hpc hi
    next => cases hl
  next => cases hl

inductive Backend
  | selector
  | asyncioSock
  | gevent
  | thread
  deriving DecidableEq

namespace Backend

def step (b : Backend) (count : ℤ) (msize : ℕ) : State → Label → Option State :=
  match b with
  | selector => selectorTest count msize
  | asyncioSock => asyncioSockTest count msize
  | gevent => geventTest count msize
  | thread => threadTest count msize

def Waiting : Backend → Event → Prop
  | selector, e | asyncioSock, e => e.InAccept
  | gevent, _ | thread, _ => True

def Serving : Backend → Event → Prop
  | thread, _ => True
  | _, e => e.isAccept = false

def accepted (count : ℤ) : Backend → ℤ
  | asyncioSock => max count 0
  | thread => count - getListenParam count - 1
  | _ => count

end Backend

lemma selector_run (hr : Machine.run (selectorTest count msize) {} ls = some t) :
    SelectorInv count msize ls t :=
  Machine.run_observed (fun s ls => SelectorInv count msize ls s)
    (fun _ _ _ _ h hl => selector_inv h hl)
    ⟨start_inv (.inl rfl), List.nodup_nil, by simp⟩ hr

lemma asyncioSock_run (hr : Machine.run (asyncioSockTest count msize) {} ls = some t) :
    SockInv count msize ls t :=
  Machine.run_observed (fun s ls => SockInv count msize ls s)
    (fun _ _ _ _ h hl => asyncioSock_inv h hl)
    ⟨start_inv (.inl rfl), fun _ => le_max_right .., by simp⟩ hr

lemma gevent_run (hr : Machine.run (geventTest count msize) {} ls = some t) :
    Inv (fun _ => True) count msize ls t :=
  Machine.run_observed (fun s ls => Inv (fun _ => True) count msize ls s)
    (fun _ _ _ _ h hl => gevent_inv h hl) (start_inv trivial) hr

lemma thread_run (hr : Machine.run (threadTest count msize) {} ls = some t) :
    ThreadInv count msize ls t :=
  Machine.run_observed (fun s ls => ThreadInv count msize ls s)
    (fun _ _ _ _ h hl => thread_inv h hl) start_threadInv hr

theorem backends_timed (b : Backend) (hr : Machine.run (b.step count msize) {} ls = some t) :
    Timed b.Waiting b.Serving (b.accepted count) t := by
  cases b with
  | selector => exact (selector_run hr).inv.timed
  | asyncioSock => exact (asyncioSock_run hr).inv.timed
  | gevent => exact (gevent_run hr).timed
  | thread => exact (thread_run hr).timed

def twoClients : List Label :=
  [.accept true, .before, .turn 0 (.read 3 .done), .accept true, .turn 1 .reset,
    .turn 0 (.read 0 .done), .closed, .join, .join, .after]

lemma twoClients_returned :
    (Machine.run (Backend.thread.step 2 3) {} twoClients).map State.pc = some .returned := by
  decide

theorem backends_timed_two : ∃ t, Machine.run (Backend.thread.step 2 3) {} twoClients = some t ∧
    Timed Backend.thread.Waiting Backend.thread.Serving (Backend.thread.accepted 2) t := by
  obtain ⟨t, hr, -⟩ := Option.map_eq_some_iff.mp twoClients_returned
  exact ⟨t, hr, backends_timed .thread hr⟩

structure Complete (count : ℤ) (n : ℕ → ℕ) (es : List Event) : Prop where
  stamps : es.filter Event.isStamp = [.ready, .before, .after]
  last : es.getLast? = some .after
  served : ∀ i : ℕ, es.filter (Event.isOf i) =
    if i < count then .accept i :: (List.replicate (n i) (.echo i) ++ [.close i]) else []

lemma Logged.complete (h : Logged s n) (hr : s.pc = .returned) (hb : s.begun = true)
    (hlen : (s.conns.length : ℤ) = max count 0) : Complete count n s.events := by
  refine ⟨by rw [h.stamps, hb, if_pos hr]; rfl, h.last hr, fun i => ?_⟩
  rw [h.conns]
  split_ifs with hi
  · have hlt : i < s.conns.length := by omega
    have hclosed : s.conns[i] = false := by
      by_contra hopen
      exact h.closed hr ((Bool.not_eq_false _).mp hopen ▸ List.getElem_mem hlt)
    rw [List.getElem?_eq_getElem hlt, hclosed]
    rfl
  · rw [List.getElem?_eq_none (by omega)]
    rfl

lemma ThreadInv.begun_returned (h : ThreadInv count msize ls s) (hr : s.pc = .returned)
    (hc : 0 < count) : s.begun = true := by
  by_contra hb
  have hwait := h.waiting (Bool.not_eq_true _ ▸ hb)
  have hbound := getListenParam_bounds hc
  have hfull := h.returned hr
  omega

theorem backends_complete (b : Backend) (hr : Machine.run (b.step count msize) {} ls = some t)
    (ht : t.pc = .returned) :
    Complete count (echoes msize ls) t.events ↔ b = .thread → 0 < count := by
  cases b with
  | selector =>
    have hi := (selector_run hr).inv
    obtain ⟨hb, hn⟩ := hi.full (.inr ht)
    exact iff_of_true (hi.logged.complete ht hb (by omega)) (by simp)
  | asyncioSock =>
    have hi := (asyncioSock_run hr).inv
    obtain ⟨hb, hn⟩ := hi.full (.inr ht)
    exact iff_of_true (hi.logged.complete ht hb (by omega)) (by simp)
  | gevent =>
    have hi := gevent_run hr
    obtain ⟨hb, hn⟩ := hi.full (.inr ht)
    exact iff_of_true (hi.logged.complete ht hb (by omega)) (by simp)
  | thread =>
    have hi := thread_run hr
    constructor
    · intro h _
      by_contra hc
      have hb : t.begun = false := by
        by_contra hb
        exact hc (hi.begun ((Bool.not_eq_false _).mp hb))
      have hstamps := hi.logged.stamps
      rw [h.stamps, hb, ht] at hstamps
      exact absurd hstamps (by decide)
    · intro hc
      have hc := hc rfl
      have hroom := hi.room
      have hfull := hi.returned ht
      exact hi.logged.complete ht (hi.begun_returned ht hc) (by omega)

theorem backends_complete_two : ∃ t,
    Machine.run (Backend.thread.step 2 3) {} twoClients = some t ∧
      Complete 2 (echoes 3 twoClients) t.events := by
  obtain ⟨t, hr, ht⟩ := Option.map_eq_some_iff.mp twoClients_returned
  exact ⟨t, hr, (backends_complete .thread hr ht).mpr fun _ => by decide⟩

end NetworkPing.Client.Backends
