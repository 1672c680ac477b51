import NetworkPing.Client.Selectors

namespace NetworkPing.Client

inductive Backend
  | poll
  | epoll
  deriving DecidableEq

structure Watch where
  live : List Fd
  pending : Batch
  last : Option Fd
  room : ℕ

def ready (events : Batch) (fd : Fd) : Option (Fd × UInt32) :=
  if (events.lookup fd).getD 0 = 0 then none else some (fd, (events.lookup fd).getD 0)

def Backend.arrange : Backend → List Fd → Batch → Batch
  | poll, live, events => live.filterMap (ready events)
  | epoll, _, events => events

namespace Watch

def create (fdCount : ℕ) : Watch := ⟨[], [], none, fdCount⟩

def register (w : Watch) (fd : Fd) : Watch :=
  { w with live := w.live ++ [fd], room := w.room - 1 }

def addFd (k : Backend) (w : Watch) (fd : Fd) (ok : Bool) : Option Watch :=
  match k with
  | .poll => if w.room = 0 then none else some (w.register fd)
  | .epoll => if ok then some (w.register fd) else none

def waited (k : Backend) (w : Watch) (events : Batch) : Watch :=
  { w with pending := k.arrange w.live events, last := none }

def wait (k : Backend) (w : Watch) : Outcome → Waiting Watch
  | .batch events => .ready (w.waited k events)
  | .interrupted =>
    match k with
    | .poll => .failed
    | .epoll => .again
  | .fatal => .failed

def next (w : Watch) : Option (Fd × UInt32) × Watch :=
  match w.pending with
  | [] => (none, { w with last := none })
  | e :: es => (some e, { w with pending := es, last := some e.1 })

def removeCurrentReady (w : Watch) : Watch :=
  match w.last with
  | some fd => { w with live := w.live.erase fd, last := none }
  | none => w

variable {k : Backend} {w v : Watch}

lemma addFd_some {fd : Fd} {ok : Bool} (h : w.addFd k fd ok = some v) : v = w.register fd := by
  cases k with
  | poll =>
    simp only [addFd] at h
    split_ifs at h
    exact (Option.some.inj h).symm
  | epoll =>
    simp only [addFd] at h
    split_ifs at h
    exact (Option.some.inj h).symm

lemma addFd_epoll {fd : Fd} {ok : Bool} (h : w.addFd .epoll fd ok = some v) : ok = true := by
  simp only [addFd] at h
  split_ifs at h with hok
  exact hok

lemma addFd_none {fd : Fd} {ok : Bool} (h : w.addFd k fd ok = none) (hr : 0 < w.room) :
    k = .epoll ∧ ok = false := by
  cases k with
  | poll => simp [addFd, hr.ne'] at h
  | epoll => simpa [addFd] using h

lemma addFd_isSome (k : Backend) {w : Watch} (h : 0 < w.room) (fd : Fd) :
    (w.addFd k fd true).isSome := by
  cases k with
  | poll => simp [addFd, h.ne']
  | epoll => rfl

lemma wait_ready {o : Outcome} (h : w.wait k o = .ready v) :
    ∃ events, o = .batch events ∧ v = w.waited k events := by
  cases o with
  | batch events =>
    cases h
    exact ⟨events, rfl, rfl⟩
  | interrupted => cases k <;> cases h
  | fatal => cases h

lemma next_some {e : Fd × UInt32} (h : w.next = (some e, v)) :
    ∃ es, w.pending = e :: es ∧ v = { w with pending := es, last := some e.1 } := by
  rw [next] at h
  split at h
  next => cases h
  next es hp =>
    cases h
    exact ⟨es, hp, rfl⟩

lemma next_none (h : w.next = (none, v)) : w.pending = [] ∧ v = { w with last := none } := by
  rw [next] at h
  split at h
  next hp =>
    cases h
    exact ⟨hp, rfl⟩
  next => cases h

end Watch

def watchSelector (k : Backend) : RSelector Watch where
  create := Watch.create
  addFd := Watch.addFd k
  wait := Watch.wait k
  next := Watch.next
  removeCurrentReady := Watch.removeCurrentReady
  live := Watch.live

variable {σ : Type}

inductive Waiting.Rel (R : σ → Watch → Prop) : Waiting σ → Waiting Watch → Prop
  | failed : Rel R .failed .failed
  | again : Rel R .again .again
  | ready {s w} (h : R s w) : Rel R (.ready s) (.ready w)

/-- The selector `S` does what a watch does, as far as `R` tells them apart. -/
structure Refines (S : RSelector σ) (k : Backend) (R : σ → Watch → Prop) : Prop where
  create (n : ℕ) : R (S.create n) (Watch.create n)
  addFd {s w} (h : R s w) (fd : Fd) (hfd : 0 ≤ fd) (ok : Bool) :
    Option.Rel R (S.addFd s fd ok) (w.addFd k fd ok)
  wait {s w} (h : R s w) (o : Outcome) : (S.wait s o).Rel R (w.wait k o)
  next {s w} (h : R s w) : (S.next s).1 = w.next.1 ∧ R (S.next s).2 w.next.2
  removeCurrentReady {s w} (h : R s w) (hn : w.live.Nodup) (hl : ∀ fd ∈ w.last, fd ∈ w.live)
    (hs : w.last.isSome) : R (S.removeCurrentReady s) w.removeCurrentReady
  live {s w} (h : R s w) : S.live s = w.live

namespace Refines

variable {S : RSelector σ} {R : σ → Watch → Prop} {s s' : σ} {k : Backend} {w : Watch} {fd : Fd}
  {ok : Bool} {o : Outcome}

lemma added (hS : Refines S k R) (h : R s w) (hfd : 0 ≤ fd) (ha : S.addFd s fd ok = some s') :
    ∃ w', w.addFd k fd ok = some w' ∧ R s' w' := by
  have hrel := hS.addFd h fd hfd ok
  rw [ha] at hrel
  generalize w.addFd k fd ok = x at hrel
  cases hrel with
  | some hr => exact ⟨_, rfl, hr⟩

lemma refused (hS : Refines S k R) (h : R s w) (hfd : 0 ≤ fd) (ha : S.addFd s fd ok = none) :
    w.addFd k fd ok = none := by
  have hrel := hS.addFd h fd hfd ok
  rw [ha] at hrel
  generalize w.addFd k fd ok = x at hrel
  cases hrel
  rfl

lemma failed (hS : Refines S k R) (h : R s w) (hw : S.wait s o = .failed) :
    w.wait k o = .failed := by
  have hrel := hS.wait h o
  rw [hw] at hrel
  generalize w.wait k o = x at hrel
  cases hrel
  rfl

lemma again (hS : Refines S k R) (h : R s w) (hw : S.wait s o = .again) :
    w.wait k o = .again := by
  have hrel := hS.wait h o
  rw [hw] at hrel
  generalize w.wait k o = x at hrel
  cases hrel
  rfl

lemma waited (hS : Refines S k R) (h : R s w) (hw : S.wait s o = .ready s') :
    ∃ w', w.wait k o = .ready w' ∧ R s' w' := by
  have hrel := hS.wait h o
  rw [hw] at hrel
  generalize w.wait k o = x at hrel
  cases hrel with
  | ready hr => exact ⟨_, rfl, hr⟩

lemma handed (hS : Refines S k R) (h : R s w) {e : Option (Fd × UInt32)}
    (hn : S.next s = (e, s')) : ∃ w', w.next = (e, w') ∧ R s' w' := by
  obtain ⟨hnext, hsel⟩ := hS.next h
  rw [hn] at hnext hsel
  exact ⟨w.next.2, Prod.ext hnext.symm rfl, hsel⟩

end Refines

namespace PollRSelector

def event (p : Pollfd) : Option (Fd × UInt32) :=
  if p.revents = 0 ∨ p.fd = -1 then none else some (p.fd, p.revents)

structure Shows (s : PollRSelector) (w : Watch) : Prop where
  room : s.currentFree + w.room = s.fds.length
  live : w.live = s.live
  free : ∀ p ∈ s.fds.drop s.currentFree, p.revents = 0
  pending : w.pending = (s.fds.drop s.currentReady).filterMap event
  last : ∀ fd ∈ w.last, ∃ i p, s.currentReady = i + 1 ∧ i < s.currentFree ∧
    s.fds[i]? = some p ∧ p.fd = fd

lemma event_of_skip {p : Pollfd} (h : p.revents = 0 ∨ p.fd = -1) : event p = none := if_pos h

lemma event_of_revents {p : Pollfd} (h : p.revents = 0) : event p = none :=
  event_of_skip (.inl h)

lemma event_of_not_skip {p : Pollfd} (h : ¬ (p.revents = 0 ∨ p.fd = -1)) :
    event p = some (p.fd, p.revents) := if_neg h

lemma event_some {p : Pollfd} {e : Fd × UInt32} (h : event p = some e) :
    p.revents ≠ 0 ∧ p.fd = e.1 := by
  rw [event] at h
  split_ifs at h with hp
  cases h
  exact ⟨fun hz => hp (.inl hz), rfl⟩

lemma shows_create (n : ℕ) : Shows (create n) (Watch.create n) where
  room := by simp [create, Watch.create]
  live := rfl
  free p hp := by
    obtain rfl := List.eq_of_mem_replicate hp
    rfl
  pending := by
    refine (List.filterMap_eq_nil_iff.mpr fun p hp => ?_).symm
    obtain rfl := List.eq_of_mem_replicate hp
    rfl
  last := nofun

lemma filterMap_drop_modify {l : List Pollfd} {i : ℕ} {f : Pollfd → Pollfd} (r : ℕ)
    (h : ∀ p ∈ l[i]?, event (f p) = event p) :
    ((l.modify i f).drop r).filterMap event = (l.drop r).filterMap event := by
  have hmap : (l.modify i f).map event = l.map event := by
    apply List.ext_getElem?
    intro j
    rw [List.getElem?_map, List.getElem?_map, List.getElem?_modify]
    by_cases hj : i = j
    · subst hj
      cases hp : l[i]? with
      | none => rfl
      | some p => simpa using h p hp
    · simp [hj]
  have hid (ps : List Pollfd) : ps.filterMap event = (ps.map event).filterMap id := by
    rw [List.filterMap_map]
    rfl
  rw [hid, hid, List.map_drop, List.map_drop, hmap]

lemma take_succ_modify {l : List Pollfd} {i : ℕ} {p : Pollfd} (h : l[i]? = some p)
    (f : Pollfd → Pollfd) : (l.modify i f).take (i + 1) = l.take i ++ [f p] := by
  rw [List.take_add_one, List.take_modify, List.modify_eq_self (List.length_take_le i l),
    List.getElem?_modify_eq, h]
  rfl

lemma Shows.addFd {s : PollRSelector} {w : Watch} (h : Shows s w) {fd : Fd} (hfd : 0 ≤ fd)
    (ok : Bool) : Option.Rel Shows (s.addFd fd) (w.addFd .poll fd ok) := by
  have hroom := h.room
  simp only [PollRSelector.addFd, Watch.addFd]
  by_cases hw : w.room = 0
  · rw [if_pos (by omega), if_pos hw]
    exact .none
  rw [if_neg (by omega), if_neg hw]
  have hlt : s.currentFree < s.fds.length := by omega
  have hget : s.fds[s.currentFree]? = some s.fds[s.currentFree] := List.getElem?_eq_getElem hlt
  have hfree : s.fds[s.currentFree].revents = 0 :=
    h.free _ (by rw [List.drop_eq_getElem_cons hlt]; exact List.mem_cons_self)
  refine .some ⟨?_, ?_, ?_, ?_, ?_⟩
  · simp only [Watch.register, List.length_modify]
    omega
  · simp only [Watch.register, PollRSelector.live, take_succ_modify hget,
      List.filterMap_append, h.live]
    simp [watched, hfd]
  · intro p hp
    rw [List.drop_modify_of_lt _ _ _ _ (Nat.lt_succ_self _)] at hp
    exact h.free p (List.drop_subset_drop_left _ (Nat.le_succ _) hp)
  · simp only [Watch.register, h.pending]
    refine (filterMap_drop_modify _ fun p hp => ?_).symm
    obtain rfl : s.fds[s.currentFree] = p := Option.some.inj (hget.symm.trans hp)
    rw [event_of_revents hfree]
    exact event_of_revents hfree
  · intro x hx
    obtain ⟨i, p, hr, hi, hp, hf⟩ := h.last x hx
    refine ⟨i, p, hr, Nat.lt_succ_of_lt hi, ?_, hf⟩
    rwa [List.getElem?_modify_ne _ _ hi.ne']

lemma event_poll (events : Batch) (p : Pollfd) :
    event (poll events p) = (watched p).bind (ready events) := by
  by_cases hfd : 0 ≤ p.fd
  · have hne : p.fd ≠ -1 := by
      intro h
      rw [h] at hfd
      exact absurd hfd (by decide)
    simp [event, poll, watched, ready, hfd, hne, not_lt.mpr hfd]
  · simp [event, poll, watched, hfd, not_le.mp hfd]

lemma Shows.wait {s : PollRSelector} {w : Watch} (h : Shows s w) (o : Outcome) :
    (s.wait o).Rel Shows (w.wait .poll o) := by
  cases o with
  | interrupted => exact .failed
  | fatal => exact .failed
  | batch events =>
    have hroom := h.room
    have hlen : ((s.fds.take s.currentFree).map (poll events)).length = s.currentFree := by
      rw [List.length_map, List.length_take]
      omega
    refine .ready ⟨?_, ?_, ?_, ?_, nofun⟩
    · simp only [Watch.waited, List.length_append, hlen, List.length_drop]
      omega
    · simp only [Watch.waited, h.live, PollRSelector.live]
      rw [List.take_left' hlen, List.filterMap_map]
      rfl
    · rw [List.drop_left' hlen]
      exact h.free
    · simp only [Watch.waited, Backend.arrange, h.live, PollRSelector.live, List.drop_zero]
      rw [List.filterMap_append, List.filterMap_eq_nil_iff.mpr fun p hp =>
        event_of_revents (h.free p hp), List.append_nil, List.filterMap_map,
        List.filterMap_filterMap]
      congr 1
      funext p
      exact (event_poll events p).symm

lemma scan_none {ps : List Pollfd} {i : ℕ} (h : scan ps i = none) : ps.filterMap event = [] := by
  induction ps generalizing i with
  | nil => rfl
  | cons p ps ih =>
    rw [scan] at h
    split_ifs at h with hp
    rw [List.filterMap_cons_none (event_of_skip hp), ih h]

lemma scan_some {ps : List Pollfd} {i j : ℕ} {e : Fd × UInt32} (h : scan ps i = some (e, j)) :
    ∃ k p, j = i + k + 1 ∧ ps[k]? = some p ∧ event p = some e ∧
      ps.filterMap event = e :: (ps.drop (k + 1)).filterMap event := by
  induction ps generalizing i with
  | nil => cases h
  | cons p ps ih =>
    rw [scan] at h
    split_ifs at h with hp
    · obtain ⟨k, q, hj, hq, he, hps⟩ := ih h
      refine ⟨k + 1, q, by omega, hq, he, ?_⟩
      rw [List.filterMap_cons_none (event_of_skip hp), hps, List.drop_succ_cons]
    · obtain ⟨rfl, rfl⟩ : (p.fd, p.revents) = e ∧ i + 1 = j := by simpa using h
      exact ⟨0, p, rfl, rfl, event_of_not_skip hp, List.filterMap_cons_some (event_of_not_skip hp)⟩

lemma Shows.lt_currentFree {s : PollRSelector} {w : Watch} (h : Shows s w) {i : ℕ} {p : Pollfd}
    (hp : s.fds[i]? = some p) (hr : p.revents ≠ 0) : i < s.currentFree := by
  by_contra hi
  apply hr
  apply h.free p
  rw [List.mem_drop_iff_getElem]
  obtain ⟨hlt, rfl⟩ := List.getElem?_eq_some_iff.mp hp
  refine ⟨i - s.currentFree, by omega, ?_⟩
  congr 1
  omega

lemma Shows.next {s : PollRSelector} {w : Watch} (h : Shows s w) :
    s.next.1 = w.next.1 ∧ Shows s.next.2 w.next.2 := by
  have hroom := h.room
  rw [PollRSelector.next, Watch.next, h.pending]
  cases hscan : scan (s.fds.drop s.currentReady) s.currentReady with
  | none =>
    rw [scan_none hscan]
    refine ⟨rfl, hroom, h.live, h.free, ?_, nofun⟩
    simp
  | some x =>
    obtain ⟨e, j⟩ := x
    obtain ⟨k, p, rfl, hp, he, hps⟩ := scan_some hscan
    rw [List.getElem?_drop] at hp
    rw [hps, List.drop_drop, ← Nat.add_assoc]
    refine ⟨rfl, hroom, h.live, h.free, rfl, ?_⟩
    rintro fd ⟨⟩
    refine ⟨s.currentReady + k, p, rfl, ?_, hp, ?_⟩
    · exact h.lt_currentFree hp (event_some he).1
    · exact (event_some he).2

lemma watched_some {p : Pollfd} {fd : Fd} : watched p = some fd ↔ 0 ≤ p.fd ∧ p.fd = fd := by
  simp [watched]

lemma filterMap_modify_erase {l : List Pollfd} {i : ℕ} {p : Pollfd} (hp : l[i]? = some p)
    (hfd : 0 ≤ p.fd) (hn : (l.filterMap watched).Nodup) :
    (l.modify i fun q => { q with fd := -1 }).filterMap watched =
      (l.filterMap watched).erase p.fd := by
  induction l generalizing i with
  | nil => cases hp
  | cons q l ih =>
    cases i with
    | zero =>
      obtain rfl := Option.some.inj hp
      rw [List.modify_zero_cons, List.filterMap_cons_none rfl,
        List.filterMap_cons_some (watched_some.mpr ⟨hfd, rfl⟩), List.erase_cons_head]
    | succ i =>
      have hmem : p.fd ∈ l.filterMap watched :=
        List.mem_filterMap.mpr ⟨p, List.mem_of_getElem? hp, watched_some.mpr ⟨hfd, rfl⟩⟩
      rw [List.modify_succ_cons]
      cases hq : watched q with
      | none =>
        rw [List.filterMap_cons_none hq] at hn ⊢
        rw [List.filterMap_cons_none hq, ih hp hn]
      | some fd =>
        rw [List.filterMap_cons_some hq] at hn ⊢
        rw [List.nodup_cons] at hn
        rw [List.filterMap_cons_some hq, ih hp hn.2, List.erase_cons_tail]
        simpa using ne_of_mem_of_not_mem hmem hn.1 |>.symm

lemma Shows.removeCurrentReady {s : PollRSelector} {w : Watch} (h : Shows s w)
    (hn : w.live.Nodup) (hl : ∀ fd ∈ w.last, fd ∈ w.live) (hs : w.last.isSome) :
    Shows s.removeCurrentReady w.removeCurrentReady := by
  obtain ⟨fd, hfd⟩ := Option.isSome_iff_exists.mp hs
  obtain ⟨i, p, hr, hi, hp, rfl⟩ := h.last fd hfd
  have hlive := hl p.fd hfd
  rw [h.live, PollRSelector.live] at hn hlive
  obtain ⟨q, _, hq⟩ := List.mem_filterMap.mp hlive
  obtain ⟨hpos, hqp⟩ := watched_some.mp hq
  have hp' : (s.fds.take s.currentFree)[i]? = some p := by rwa [List.getElem?_take_of_lt hi]
  simp only [PollRSelector.removeCurrentReady, Watch.removeCurrentReady, hfd, hr,
    Nat.add_sub_cancel]
  refine ⟨?_, ?_, ?_, ?_, nofun⟩
  · rw [List.length_modify]
    exact h.room
  · rw [h.live, PollRSelector.live, PollRSelector.live, List.take_modify]
    exact (filterMap_modify_erase hp' (hqp ▸ hpos) hn).symm
  · rw [List.drop_modify_of_lt _ _ _ _ hi]
    exact h.free
  · rw [List.drop_modify_of_lt _ _ (i + 1) _ (Nat.lt_succ_self i), ← hr]
    exact h.pending

theorem refines : Refines pollSelector .poll Shows where
  create := shows_create
  addFd h _ hfd ok := h.addFd hfd ok
  wait h o := h.wait o
  next h := h.next
  removeCurrentReady h hn hl hs := h.removeCurrentReady hn hl hs
  live h := h.live.symm

end PollRSelector

namespace Epoll

structure Shows (s : Epoll) (w : Watch) : Prop where
  live : w.live = s.registered
  pending : w.pending = s.sel.ready
  last : ∀ fd ∈ w.last, ∃ e ∈ s.sel.current, e.1 = fd

lemma Shows.addFd {s : Epoll} {w : Watch} (h : Shows s w) (fd : Fd) (ok : Bool) :
    Option.Rel Shows (s.addFd fd ok) (w.addFd .epoll fd ok) := by
  cases ok with
  | false => exact .none
  | true => exact .some ⟨congrArg (· ++ [fd]) h.live, h.pending, h.last⟩

lemma Shows.wait {s : Epoll} {w : Watch} (h : Shows s w) (o : Outcome) :
    (s.wait o).Rel Shows (w.wait .epoll o) := by
  cases o with
  | interrupted => exact .again
  | fatal => exact .failed
  | batch events => exact .ready ⟨h.live, rfl, nofun⟩

lemma Shows.next {s : Epoll} {w : Watch} (h : Shows s w) :
    s.next.1 = w.next.1 ∧ Shows s.next.2 w.next.2 := by
  rw [Epoll.next, Watch.next, h.pending]
  cases hr : s.sel.ready with
  | nil =>
    rw [EPollRSelector.next_nil hr]
    exact ⟨rfl, h.live, hr.symm, nofun⟩
  | cons e es =>
    rw [EPollRSelector.next_cons hr]
    refine ⟨rfl, h.live, rfl, ?_⟩
    rintro fd ⟨⟩
    exact ⟨e, rfl, rfl⟩

lemma Shows.removeCurrentReady {s : Epoll} {w : Watch} (h : Shows s w) (hs : w.last.isSome) :
    Shows s.removeCurrentReady w.removeCurrentReady := by
  obtain ⟨fd, hfd⟩ := Option.isSome_iff_exists.mp hs
  obtain ⟨e, he, rfl⟩ := h.last fd hfd
  rw [Epoll.removeCurrentReady, Watch.removeCurrentReady, EPollRSelector.removeCurrentReady, he,
    hfd]
  exact ⟨congrArg (·.erase e.1) h.live, h.pending, nofun⟩

theorem refines : Refines epollSelector .epoll Shows where
  create _ := ⟨rfl, rfl, nofun⟩
  addFd h fd _ ok := h.addFd fd ok
  wait h o := h.wait o
  next h := h.next
  removeCurrentReady h _ _ hs := h.removeCurrentReady hs
  live h := h.live.symm

end Epoll

end NetworkPing.Client
