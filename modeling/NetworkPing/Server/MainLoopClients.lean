import NetworkPing.Server.MainLoop

namespace NetworkPing.MainLoop

variable {α : Type} {c : Config α} {s t : State α} {l : Label} {ls : List Label}
  {x : Pc α × List Event} {control sock : Fd} {frame : Frame α} {body current : List Event}
  {sessions : List (List Event)}

def Event.Inner : Event → Prop
  | opened _ | closed _ => True
  | _ => False

inductive Session : List Event → Prop
  | mk {sock body answer} (hw : ∀ e ∈ body, Event.Inner e)
      (hb : Ledger.replay [] (body.filterMap Event.entry) = some [])
      (ha : answer = [] ∨ ∃ responce rc, answer = [.answered sock responce rc]) :
      Session (.accepted sock :: (body ++ (answer ++ [.closed sock])))

def Frame.client : Frame α → Option Fd
  | accept => none
  | receive sock | connect sock _ _ _ | respond sock _ => some sock
  | selectors r | addFds r _ => some r.sock

def Frame.inner : Frame α → List Fd
  | connect _ _ efd conn => efd.toList ++ conn.sockets
  | selectors r | addFds r _ => r.selectors ++ r.sockets
  | accept | receive _ | respond _ _ => []

lemma owned_inner (frame : Frame α) : frame.owned = frame.inner ++ frame.client.toList := by
  cases frame <;> simp [Frame.owned, Frame.inner, Frame.client, Running.fds]

def Current (frame : Frame α) (current : List Event) : Prop :=
  match frame.client with
  | none => current = []
  | some sock => ∃ body held, current = .accepted sock :: body ∧ (∀ e ∈ body, Event.Inner e) ∧
      Ledger.replay [] (body.filterMap Event.entry) = some held ∧ held.Perm frame.inner

def Listens (ls : List Label) (control : Fd) : Prop :=
  ∃ rc rest, ls = .signal true :: .socket control :: .bind rc :: rest ∧ control ≠ -1 ∧ 0 ≤ rc

inductive Fails : List Label → List Event → Prop
  | signal : Fails [.signal false] []
  | socket : Fails [.signal true, .socket (-1)] []
  | bind {control rc} (hc : control ≠ -1) (h : rc < 0) :
      Fails [.signal true, .socket control, .bind rc] [.opened control]

def History (c : Config α) (s : State α) (ls : List Label) : Prop :=
  match s.pc with
  | .signal => ls = [] ∧ s.events = []
  | .socket => ls = [.signal true] ∧ s.events = []
  | .bind control =>
    control ≠ -1 ∧ ls = [.signal true, .socket control] ∧ s.events = [.opened control]
  | .loop control frame => Listens ls control ∧ ∃ sessions current,
      s.events = .opened control :: (sessions.flatten ++ current) ∧
        (∀ x ∈ sessions, Session x) ∧ (c.singleShot = true → sessions = []) ∧ Current frame current
  | .returned code _ =>
      code = 1 ∧ Fails ls s.events ∨
      code = 0 ∧ c.singleShot = true ∧
        ∃ control session, Listens ls control ∧ s.events = .opened control :: session ∧
          Session session
  | .crashed _ | .blocked _ => ∃ control, Listens ls control ∧ ∃ sessions sock body,
      s.events = .opened control :: (sessions.flatten ++ .accepted sock :: body) ∧
        (∀ x ∈ sessions, Session x) ∧ (c.singleShot = true → sessions = []) ∧
        ∀ e ∈ body, Event.Inner e

lemma Listens.append (h : Listens ls control) (ks : List Label) : Listens (ls ++ ks) control := by
  obtain ⟨rc, rest, rfl, hc, hrc⟩ := h
  exact ⟨rc, rest ++ ks, rfl, hc, hrc⟩

inductive Ends (c : Config α) (control sock : Fd) : Pc α × List Event → Prop
  | stays {frame : Frame α} (ks : List Fd) (hf : frame.client = some sock) :
      Ends c control sock (.loop control frame, ks.map .closed)
  | leaves (ks : List Fd) (answer : List Event)
      (ha : answer = [] ∨ ∃ responce rc, answer = [.answered sock responce rc]) :
      Ends c control sock (if c.singleShot then .returned 0 [control] else .loop control .accept,
        ks.map .closed ++ (answer ++ [.closed sock]))
  | stops {pc held} (ks : List Fd) (hpc : pc = .crashed held ∨ pc = .blocked held) :
      Ends c control sock (pc, ks.map .closed)

lemma leave_ends (c : Config α) (control : Fd) (hf : frame.client = some sock) :
    Ends c control sock (leave c control frame) := by
  have he : frame.owned.map Event.closed = frame.inner.map .closed ++ ([] ++ [.closed sock]) := by
    rw [owned_inner, hf, List.map_append]
    rfl
  rw [leave, he]
  exact .leaves frame.inner [] (.inl rfl)

lemma stay_ends (c : Config α) (control : Fd) (hf : frame.client = some sock) :
    Ends c control sock (stay control frame) := .stays [] hf

lemma crash_ends (c : Config α) (control sock : Fd) (frame : Frame α) :
    Ends c control sock (crash control frame) := .stops [] (.inl rfl)

lemma finished_ends (r : Running) (undef : Option (Fin 19 → ℕ)) (tresults : List TestResult) :
    Ends c control r.sock (finished c control r undef tresults) := by
  rw [finished]
  split
  · exact crash_ends ..
  split
  · exact .stops _ (.inl rfl)
  · exact .stays _ rfl

lemma tested_ends {r : Running} {write : ℕ → ℤ} {runs : ℕ → List Worker.Label}
    {undef : Option (Fin 19 → ℕ)} (h : tested c control r write runs undef = some x) :
    Ends c control r.sock x := by
  rw [tested] at h
  split at h
  · cases h
    exact crash_ends ..
  split at h
  · cases h
    exact .stops [] (.inr rfl)
  · obtain ⟨tresults, -, rfl⟩ := Option.map_eq_some_iff.mp h
    exact finished_ends r undef tresults

lemma connected_ends (params : TestParams) (efd : Option Fd) (conn : ConnectAll.State α) :
    Ends c control sock (connected c control sock params efd conn) := by
  rw [connected]
  split
  · dsimp only
    split_ifs
    · exact .stays _ rfl
    · exact .stops _ (.inl rfl)
  · exact leave_ends c control rfl
  · exact stay_ends c control rfl

lemma receive_ends (received : Request.Received) :
    Ends c control sock (receive c control sock received) := by
  rw [receive.eq_def]
  split
  · exact stay_ends c control rfl
  · exact crash_ends ..
  · exact crash_ends ..
  · exact leave_ends c control rfl
  · exact leave_ends c control rfl
  · exact leave_ends c control rfl

lemma created_ends (r : Running) (efd : ℤ) :
    Ends c control r.sock (created c control r efd) := by
  rw [created]
  split
  · exact leave_ends c control rfl
  · apply stay_ends
    split_ifs <;> rfl

lemma acquired_inner (h : ∀ fd, l ≠ .accept fd) (fd : Fd) : (l.acquired fd).Inner := by
  cases l with
  | accept fd => exact (h fd rfl).elim
  | _ => trivial

lemma move_ends (hf : frame.client = some sock) (h : move c (.loop control frame) l = some x) :
    (∀ fd, (l.acquired fd).Inner) ∧ Ends c control sock x := by
  rw [move.eq_def] at h
  split at h
  next hpc => cases hpc
  next hpc => cases hpc
  next hpc => cases hpc
  next hpc =>
    cases hpc
    cases hf
  next control' sock' buff recvs hpc =>
    cases hpc
    cases hf
    cases h
    exact ⟨acquired_inner (by simp), receive_ends _⟩
  next control' sock' params efd conn k hpc =>
    cases hpc
    cases hf
    obtain ⟨conn', -, rfl⟩ := Option.map_eq_some_iff.mp h
    exact ⟨acquired_inner (by simp), connected_ends ..⟩
  next control' r efd hpc =>
    cases hpc
    cases hf
    cases h
    exact ⟨acquired_inner (by simp), created_ends r efd⟩
  next control' r idx ok hpc =>
    cases hpc
    cases hf
    split_ifs at h
    · cases h
      exact ⟨acquired_inner (by simp), stay_ends c control rfl⟩
    · cases h
      exact ⟨acquired_inner (by simp), leave_ends c control rfl⟩
  next control' r idx write runs undef hpc =>
    cases hpc
    cases hf
    split_ifs at h
    exact ⟨acquired_inner (by simp), tested_ends h⟩
  next control' sock' res rc hpc =>
    cases hpc
    cases hf
    cases h
    exact ⟨acquired_inner (by simp), .leaves [] _ (.inr ⟨_, _, rfl⟩)⟩
  next => cases h

lemma inner_body {ks : List Fd} (hb : ∀ e ∈ body, Event.Inner e)
    (hl : ∀ fd, (l.acquired fd).Inner) :
    ∀ e ∈ body ++ ((process c).news l ++ ks.map .closed), Event.Inner e := by
  intro e he
  simp only [List.mem_append, Ledger.Process.mem_news, List.mem_map] at he
  obtain he | ⟨fd, -, rfl⟩ | ⟨fd, -, rfl⟩ := he
  · exact hb e he
  · exact hl fd
  · trivial

lemma client_history {events : List Event} (hf : frame.client = some sock)
    (hnew : ∀ fd ∈ l.opens, fd ∉ frame.owned ++ [control])
    (hs : (process c).Settles (l.opens.toList ++ (frame.owned ++ [control])) x)
    (hin : ∀ fd, (l.acquired fd).Inner) (hx : Ends c control sock x)
    (hi : History c ⟨.loop control frame, events⟩ ls) :
    History c ⟨x.1, events ++ ((process c).news l ++ x.2)⟩ (ls ++ [l]) := by
  obtain ⟨hlist, sessions, current, he, hses, hsingle, hcur⟩ := hi
  replace hlist := hlist.append [l]
  replace he : events = .opened control :: (sessions.flatten ++ current) := he
  simp only [Current, hf] at hcur
  obtain ⟨body, held, rfl, hbody, hr, hheld⟩ := hcur
  rw [owned_inner, hf] at hnew hs
  have hfresh : ∀ fd ∈ l.opens, fd ∉ held := fun fd hm hfd =>
    hnew fd hm (by simp [hheld.mem_iff.mp hfd])
  obtain ⟨ks', hks', hperm⟩ := hs
  cases hx with
  | @stays frame' ks hf' =>
    rw [entries_closed] at hks'
    obtain rfl := List.map_injective_iff.mpr Ledger.release_injective hks'
    have hinner : (l.opens.toList ++ frame.inner).Perm (ks ++ frame'.inner) := by
      simp only [process, Pc.owned, owned_inner frame', hf', ← List.append_assoc,
        List.perm_append_right_iff] at hperm
      exact hperm
    obtain ⟨held', hr', hp'⟩ :=
      Ledger.Process.replay_move hfresh hr hheld (entries_closed ks) hinner
    refine ⟨hlist, sessions, .accepted sock ::
      (body ++ ((process c).news l ++ ks.map Event.closed)), ?_, hses, hsingle, ?_⟩
    · simp only [he, List.cons_append, List.append_assoc]
    · simp only [Current, hf']
      exact ⟨_, held', rfl, inner_body hbody hin, hr', hp'⟩
  | @leaves ks answer ha =>
    have hentries : (process c).entries (ks.map .closed ++ (answer ++ [.closed sock])) =
        (ks ++ [sock]).map .release := by
      rw [Ledger.Process.entries_append, entries_closed, List.map_append]
      rcases ha with rfl | ⟨responce, rc, rfl⟩ <;> rfl
    rw [hentries] at hks'
    obtain rfl := List.map_injective_iff.mpr Ledger.release_injective hks'
    have hinner : (l.opens.toList ++ frame.inner).Perm (ks ++ []) := by
      have hnext : (if c.singleShot then .returned 0 [control]
          else .loop control .accept : Pc α).owned = [control] := by
        split_ifs <;> rfl
      simp only [process, hnext, Option.toList_some, ← List.append_assoc,
        List.perm_append_right_iff] at hperm
      rw [List.append_nil]
      exact hperm
    obtain ⟨held', hr', hp'⟩ :=
      Ledger.Process.replay_move hfresh hr hheld (entries_closed ks) hinner
    rw [hp'.eq_nil] at hr'
    have hsession : Session (.accepted sock :: (body ++ ((process c).news l ++ ks.map .closed) ++
        (answer ++ [.closed sock]))) := .mk (inner_body hbody hin) hr' ha
    cases hc : c.singleShot with
    | true =>
      refine .inr ⟨rfl, hc, control, _, hlist, ?_, hsession⟩
      simp only [he, hsingle hc, List.flatten_nil, List.nil_append, List.cons_append,
        List.append_assoc]
    | false =>
      have hall := List.forall_mem_append.mpr ⟨hses, List.forall_mem_singleton.mpr hsession⟩
      refine ⟨hlist, sessions ++ [_], [], ?_, hall, by simp [hc], rfl⟩
      simp only [he, List.flatten_append, List.flatten_singleton, List.append_nil,
        List.cons_append, List.append_assoc]
  | @stops pc held' ks hpc =>
    have hev : events ++ ((process c).news l ++ ks.map .closed) = .opened control ::
        (sessions.flatten ++ .accepted sock ::
          (body ++ ((process c).news l ++ ks.map .closed))) := by
      simp only [he, List.cons_append, List.append_assoc]
    have hstop : ∀ e ∈ body ++ ((process c).news l ++ ks.map .closed), Event.Inner e :=
      inner_body hbody hin
    rcases hpc with rfl | rfl
    · exact ⟨control, hlist, sessions, sock, _, hev, hses, hsingle, hstop⟩
    · exact ⟨control, hlist, sessions, sock, _, hev, hses, hsingle, hstop⟩

lemma accept_history {events : List Event} {fd : ℤ}
    (hi : History c ⟨.loop control .accept, events⟩ ls) :
    History c ⟨.loop control (if fd < 0 then .accept else .receive fd),
      events ++ (process c).news (.accept fd)⟩ (ls ++ [.accept fd]) := by
  obtain ⟨hlist, sessions, current, he, hses, hsingle, hcur⟩ := hi
  replace hlist := hlist.append [.accept fd]
  replace he : events = .opened control :: (sessions.flatten ++ current) := he
  cases hcur
  have hnew : (process c).news (.accept fd) = if fd < 0 then [] else [.accepted fd] := by
    change ((if fd < 0 then none else some fd).map Event.accepted).toList = _
    split_ifs <;> rfl
  rw [hnew]
  split_ifs
  · exact ⟨hlist, sessions, [], by simp [he], hses, hsingle, rfl⟩
  · exact ⟨hlist, sessions, [.accepted fd], by simp [he], hses, hsingle,
      [], [], rfl, by simp, rfl, .nil⟩

lemma step_history (ha : Accounted c s) (hi : History c s ls) (h : step c s l = some t) :
    History c t (ls ++ [l]) := by
  obtain ⟨hnew, x, hm, rfl⟩ := Ledger.Process.step_moves h
  obtain ⟨pc, events⟩ := s
  have hs := move_settles ha.begun hm
  have howned := ha.accounted.owned
  cases pc with
  | signal =>
    obtain ⟨rfl, he⟩ : ls = [] ∧ events = [] := hi
    cases l with
    | signal ok =>
      cases hm
      rw [he]
      cases ok
      · exact .inl ⟨rfl, .signal⟩
      · exact ⟨rfl, rfl⟩
    | _ => cases hm
  | socket =>
    obtain ⟨rfl, he⟩ : ls = [.signal true] ∧ events = [] := hi
    cases l with
    | socket fd =>
      cases hm
      rw [he]
      by_cases hfd : fd = -1
      · subst hfd
        exact .inl ⟨rfl, .socket⟩
      · simp only [Ledger.Process.news, process, Label.opens, if_neg hfd]
        exact ⟨hfd, rfl, rfl⟩
    | _ => cases hm
  | bind control =>
    obtain ⟨hc, rfl, he⟩ : control ≠ -1 ∧ ls = [.signal true, .socket control] ∧
      events = [.opened control] := hi
    cases l with
    | bind rc =>
      cases hm
      rw [he]
      split_ifs with hrc
      · exact .inl ⟨rfl, .bind hc hrc⟩
      · exact ⟨⟨rc, [], rfl, hc, not_lt.mp hrc⟩, [], [], rfl, by simp, fun _ => rfl, rfl⟩
    | _ => cases hm
  | loop control frame =>
    cases hf : frame.client with
    | none =>
      cases frame with
      | accept =>
        cases l with
        | accept fd =>
          cases hm
          dsimp only [stay]
          rw [List.append_nil]
          exact accept_history hi
        | _ => cases hm
      | _ => cases hf
    | some sock =>
      obtain ⟨hin, hx⟩ := move_ends hf hm
      refine client_history hf (fun fd hfd ho => ?_) hs hin hx hi
      exact hnew fd hfd (howned.mem_iff.mpr ho)
  | returned => cases hm
  | crashed => cases hm
  | blocked => cases hm

theorem clients_served (hr : Machine.run (step c) start ls = some s) : History c s ls := by
  have hi : Accounted c s ∧ History c s ls := by
    refine Machine.run_observed (fun s ls => Accounted c s ∧ History c s ls) ?_
      ⟨start_accounted, rfl, rfl⟩ hr
    rintro s ls l t ⟨ha, hi⟩ h
    exact ⟨step_accounted ha h, step_history ha hi h⟩
  exact hi.2

theorem clients_served_one : ∃ s, Machine.run (step oneShot) start oneClient = some s ∧
    s.events.filter (fun e => e.entry.isNone) = [.answered 4
      ("2 2 1 0 1 19".toList ++ (List.replicate 19 [' ', '1']).flatten) 49] ∧
      History oneShot s oneClient := by
  obtain ⟨s, hr, he⟩ := Option.map_eq_some_iff.mp oneClient_events
  refine ⟨s, hr, ?_, clients_served hr⟩
  rw [he]
  decide

end NetworkPing.MainLoop
