import NetworkPing.Machine
import NetworkPing.Server.Selector

/-! `wait_for_conn` of the clients. A label holds what a system call returns, and `σ` is
what the callbacks work on. The result of `listen` is not read. -/

namespace NetworkPing.Client.WaitForConn

structure Params (σ : Type*) where
  sockCount : ℤ
  readyForConnect : σ → σ
  onSockCb : Fd → σ → σ
  async : Bool

inductive Pc
  | socket
  | setsockopt
  | bind
  | listen
  | accepting (i : ℤ)
  | getfl (i : ℤ) (clientSock : Fd)
  | setfl (i : ℤ) (clientSock : Fd)
  | returned (ok : Bool)
  deriving DecidableEq

structure State (σ : Type*) where
  pc : Pc
  sockets : List Fd
  env : σ

inductive Label
  | socket (masterSock : Fd)
  | setsockopt (rc : ℤ)
  | bind (rc : ℤ)
  | listen (rc : ℤ)
  | accept (clientSock : Fd)
  | getfl (flags : ℤ)
  | setfl (rc : ℤ)
  | finished
  deriving DecidableEq

variable {σ τ : Type*}

def start (sockets : List Fd) (env : σ) : State σ := ⟨.socket, sockets, env⟩

def pushBack (p : Params σ) (s : State σ) (i : ℤ) (clientSock : Fd) : State σ where
  pc := .accepting (i + 1)
  sockets := s.sockets ++ [clientSock]
  env := p.onSockCb clientSock s.env

def step (p : Params σ) (s : State σ) (l : Label) : Option (State σ) :=
  match s.pc, l with
  | .socket, .socket masterSock =>
    some { s with pc := if -1 = masterSock then .returned false else .setsockopt }
  | .setsockopt, .setsockopt _ => some { s with pc := .bind }
  -- `return 1` of a function of type `bool`
  | .bind, .bind rc => some { s with pc := if 0 > rc then .returned true else .listen }
  | .listen, .listen _ => some { s with pc := .accepting 0, env := p.readyForConnect s.env }
  | .accepting i, .accept clientSock =>
    if i < p.sockCount then
      if clientSock < 0 then some { s with pc := .returned false }
      -- a socket that is open is not handed out again
      else if clientSock ∈ s.sockets then none
      else if p.async then some { s with pc := .getfl i clientSock }
      else some (pushBack p s i clientSock)
    else none
  | .getfl i clientSock, .getfl flags =>
    some { s with pc := if flags < 0 then .returned false else .setfl i clientSock }
  | .setfl i clientSock, .setfl rc =>
    if rc < 0 then some { s with pc := .returned false } else some (pushBack p s i clientSock)
  | .accepting i, .finished =>
    if i < p.sockCount then none else some { s with pc := .returned true }
  | _, _ => none

def accepted (ls : List Label) : List Fd := ls.filterMap fun
  | .accept clientSock => if clientSock < 0 then none else some clientSock
  | _ => none

def Label.BindFails : Label → Prop
  | .bind rc => rc < 0
  | _ => False

def Label.FcntlFails : Label → Prop
  | .getfl rc | .setfl rc => rc < 0
  | _ => False

def Label.AcceptFails : Label → Prop
  | .accept clientSock => clientSock < 0
  | _ => False

def Label.SocketFails : Label → Prop
  | .socket masterSock => masterSock = -1
  | _ => False

def Label.Fails : Label → Prop
  | .socket masterSock => masterSock = -1
  | .bind rc | .getfl rc | .setfl rc => rc < 0
  | .accept clientSock => clientSock < 0
  | _ => False

lemma Label.BindFails.fails {l : Label} (h : l.BindFails) : l.Fails := by
  cases l <;> first | exact h | exact h.elim

lemma Label.AcceptFails.fails {l : Label} (h : l.AcceptFails) : l.Fails := by
  cases l <;> first | exact h | exact h.elim

lemma Label.FcntlFails.fails {l : Label} (h : l.FcntlFails) : l.Fails := by
  cases l <;> first | exact h | exact h.elim

inductive Moves (p : Params σ) (s : State σ) : Label → State σ → Prop
  | noSocket (h : s.pc = .socket) : Moves p s (.socket (-1)) { s with pc := .returned false }
  | socket {fd : Fd} (h : s.pc = .socket) (hfd : fd ≠ -1) :
      Moves p s (.socket fd) { s with pc := .setsockopt }
  | setsockopt {rc} (h : s.pc = .setsockopt) : Moves p s (.setsockopt rc) { s with pc := .bind }
  | unbound {rc} (h : s.pc = .bind) (hrc : rc < 0) :
      Moves p s (.bind rc) { s with pc := .returned true }
  | bound {rc} (h : s.pc = .bind) (hrc : ¬ rc < 0) : Moves p s (.bind rc) { s with pc := .listen }
  | listen {rc} (h : s.pc = .listen) :
      Moves p s (.listen rc) { s with pc := .accepting 0, env := p.readyForConnect s.env }
  | refused {i fd} (h : s.pc = .accepting i) (hi : i < p.sockCount) (hfd : fd < 0) :
      Moves p s (.accept fd) { s with pc := .returned false }
  | accepted {i fd} (h : s.pc = .accepting i) (hi : i < p.sockCount) (hfd : ¬ fd < 0)
      (hs : fd ∉ s.sockets) (ha : p.async = false) : Moves p s (.accept fd) (pushBack p s i fd)
  | pending {i fd} (h : s.pc = .accepting i) (hi : i < p.sockCount) (hfd : ¬ fd < 0)
      (hs : fd ∉ s.sockets) (ha : p.async = true) :
      Moves p s (.accept fd) { s with pc := .getfl i fd }
  | getfl {i fd flags} (h : s.pc = .getfl i fd) (hf : ¬ flags < 0) :
      Moves p s (.getfl flags) { s with pc := .setfl i fd }
  | setfl {i fd rc} (h : s.pc = .setfl i fd) (hrc : ¬ rc < 0) :
      Moves p s (.setfl rc) (pushBack p s i fd)
  | noFlags {i fd flags} (h : s.pc = .getfl i fd) (hf : flags < 0) :
      Moves p s (.getfl flags) { s with pc := .returned false }
  | blocking {i fd rc} (h : s.pc = .setfl i fd) (hrc : rc < 0) :
      Moves p s (.setfl rc) { s with pc := .returned false }
  | finished {i} (h : s.pc = .accepting i) (hi : ¬ i < p.sockCount) :
      Moves p s .finished { s with pc := .returned true }

variable {p : Params σ} {s t : State σ} {l : Label} {ls : List Label}

lemma step_moves (h : step p s l = some t) : Moves p s l t := by
  rw [step.eq_def] at h
  split at h
  next fd hpc =>
    split_ifs at h with hfd
    · cases h
      subst hfd
      exact .noSocket hpc
    · cases h
      exact .socket hpc (Ne.symm hfd)
  next hpc =>
    cases h
    exact .setsockopt hpc
  next rc hpc =>
    split_ifs at h with hrc
    · cases h
      exact .unbound hpc hrc
    · cases h
      exact .bound hpc hrc
  next hpc =>
    cases h
    exact .listen hpc
  next i fd hpc =>
    split_ifs at h with hi hfd hs ha
    · cases h
      exact .refused hpc hi hfd
    · cases h
      exact .pending hpc hi hfd hs ha
    · cases h
      exact .accepted hpc hi hfd hs (by simpa using ha)
  next i fd flags hpc =>
    split_ifs at h with hf
    · cases h
      exact .noFlags hpc hf
    · cases h
      exact .getfl hpc hf
  next i fd rc hpc =>
    split_ifs at h with hrc
    · cases h
      exact .blocking hpc hrc
    · cases h
      exact .setfl hpc hrc
  next i hpc =>
    split_ifs at h with hi
    cases h
    exact .finished hpc hi
  next => cases h

def Quiet (ls : List Label) : Prop := ∀ l ∈ ls, ¬ l.Fails

structure Owns (p : Params σ) (sockets : List Fd) (env : σ) (t : State σ) (fds : List Fd) :
    Prop where
  sockets : t.sockets = sockets ++ fds
  env : t.env = fds.foldl (fun env fd => p.onSockCb fd env) (p.readyForConnect env)

inductive Outcome (p : Params σ) (sockets : List Fd) (env : σ) (t : State σ) (ls : List Label) :
    Bool → Prop
  | noSocket (hf : ∃ l ∈ ls, l.SocketFails) (hc : ∀ l ∈ ls, ¬ l.BindFails ∧ ¬ l.FcntlFails)
      (ha : accepted ls = []) (he : t.env = env) : Outcome p sockets env t ls false
  | unbound (hf : ∃ l ∈ ls, l.BindFails) (ha : accepted ls = []) (he : t.env = env) :
      Outcome p sockets env t ls true
  | refused (hf : ∃ l ∈ ls, l.AcceptFails) (hc : ∀ l ∈ ls, ¬ l.BindFails ∧ ¬ l.FcntlFails)
      (ho : Owns p sockets env t (accepted ls)) : Outcome p sockets env t ls false
  | leaked {fd fds} (hf : ∃ l ∈ ls, l.FcntlFails) (ha : accepted ls = fds ++ [fd])
      (hs : fd ∉ t.sockets) (hp : p.async = true) : Outcome p sockets env t ls false
  | complete (hq : Quiet ls) (ho : Owns p sockets env t (accepted ls))
      (hn : (accepted ls).length = p.sockCount.toNat) : Outcome p sockets env t ls true

structure Before (sockets : List Fd) (env : σ) (t : State σ) (ls : List Label) : Prop where
  quiet : Quiet ls
  nothing : accepted ls = []
  sockets : t.sockets = sockets
  env : t.env = env

structure Accepting (p : Params σ) (sockets : List Fd) (env : σ) (t : State σ) (ls : List Label)
    (i : ℤ) : Prop where
  quiet : Quiet ls
  owns : Owns p sockets env t (accepted ls)
  count : i = (accepted ls).length
  le : i = 0 ∨ i ≤ p.sockCount

structure Pending (p : Params σ) (sockets : List Fd) (env : σ) (t : State σ) (ls : List Label)
    (i : ℤ) (fd : Fd) (fds : List Fd) : Prop where
  quiet : Quiet ls
  last : accepted ls = fds ++ [fd]
  owns : Owns p sockets env t fds
  count : i = fds.length
  lt : i < p.sockCount
  fresh : fd ∉ t.sockets
  async : p.async = true

def Inv (p : Params σ) (sockets : List Fd) (env : σ) (t : State σ) (ls : List Label) : Prop :=
  match t.pc with
  | .accepting i => Accepting p sockets env t ls i
  | .getfl i fd | .setfl i fd => ∃ fds, Pending p sockets env t ls i fd fds
  | .returned ok => Outcome p sockets env t ls ok
  | _ => Before sockets env t ls

variable {sockets fds : List Fd} {env : σ} {fd : Fd} {i : ℤ}

lemma accepted_snoc : accepted (ls ++ [l]) = accepted ls ++ accepted [l] := List.filterMap_append ..

lemma accepted_of_nil (h : accepted [l] = []) : accepted (ls ++ [l]) = accepted ls := by
  rw [accepted_snoc, h, List.append_nil]

lemma Quiet.snoc (h : Quiet ls) (hl : ¬ l.Fails) : Quiet (ls ++ [l]) := by
  intro k hk
  obtain hk | hk := List.mem_append.mp hk
  · exact h k hk
  · rwa [List.mem_singleton.mp hk]

lemma Quiet.clean (h : Quiet ls) (hb : ¬ l.BindFails) (hf : ¬ l.FcntlFails) :
    ∀ k ∈ ls ++ [l], ¬ k.BindFails ∧ ¬ k.FcntlFails := by
  intro k hk
  obtain hk | hk := List.mem_append.mp hk
  · exact ⟨fun hb => h k hk hb.fails, fun hf => h k hk hf.fails⟩
  · rw [List.mem_singleton.mp hk]
    exact ⟨hb, hf⟩

lemma Before.snoc (h : Before sockets env s ls) (hl : ¬ l.Fails) (ha : accepted [l] = [])
    (hs : t.sockets = s.sockets) (he : t.env = s.env) : Before sockets env t (ls ++ [l]) :=
  ⟨h.quiet.snoc hl, by rw [accepted_of_nil ha, h.nothing], hs.trans h.sockets, he.trans h.env⟩

lemma Owns.pushBack (h : Owns p sockets env s fds) (i : ℤ) (fd : Fd) :
    Owns p sockets env (pushBack p s i fd) (fds ++ [fd]) where
  sockets := by rw [WaitForConn.pushBack, h.sockets, List.append_assoc]
  env := by rw [WaitForConn.pushBack, h.env, List.foldl_append]; rfl

lemma Owns.frame (h : Owns p sockets env s fds) (hs : t.sockets = s.sockets) (he : t.env = s.env) :
    Owns p sockets env t fds := ⟨hs.trans h.sockets, he.trans h.env⟩

lemma accepted_accept (hfd : ¬ fd < 0) : accepted [.accept fd] = [fd] := by
  simp [accepted, hfd]

lemma Owns.accepting (h : Owns p sockets env s fds) (hq : Quiet ls)
    (ha : accepted ls = fds ++ [fd]) (hi : i = fds.length) (hlt : i < p.sockCount) :
    Accepting p sockets env (WaitForConn.pushBack p s i fd) ls (i + 1) := by
  refine ⟨hq, ?_, ?_, .inr (by omega)⟩
  · rw [ha]
    exact h.pushBack i fd
  · rw [ha, List.length_append, List.length_singleton]
    omega

lemma Before.listen {rc : ℤ} (h : Before sockets env s ls) :
    Accepting p sockets env { s with pc := .accepting 0, env := p.readyForConnect s.env }
      (ls ++ [.listen rc]) 0 := by
  have ha : accepted (ls ++ [.listen rc]) = [] := by rw [accepted_of_nil rfl, h.nothing]
  refine ⟨h.quiet.snoc id, ⟨?_, ?_⟩, ?_, .inl rfl⟩
  · rw [ha, List.append_nil, h.sockets]
  · rw [ha, h.env]
    rfl
  · rw [ha]
    rfl

lemma step_inv (h : Inv p sockets env s ls) (hl : step p s l = some t) :
    Inv p sockets env t (ls ++ [l]) := by
  have hsnoc : l ∈ ls ++ [l] := List.mem_append_right ls List.mem_cons_self
  cases step_moves hl with
  | noSocket hpc =>
    simp only [Inv, hpc] at h
    refine .noSocket ⟨_, hsnoc, rfl⟩ (h.quiet.clean id id) ?_ h.env
    rw [accepted_of_nil rfl, h.nothing]
  | socket hpc hfd =>
    simp only [Inv, hpc] at h
    exact h.snoc hfd rfl rfl rfl
  | setsockopt hpc =>
    simp only [Inv, hpc] at h
    exact h.snoc id rfl rfl rfl
  | unbound hpc hrc =>
    simp only [Inv, hpc] at h
    refine .unbound ⟨_, hsnoc, hrc⟩ ?_ h.env
    rw [accepted_of_nil rfl, h.nothing]
  | bound hpc hrc =>
    simp only [Inv, hpc] at h
    exact h.snoc hrc rfl rfl rfl
  | listen hpc =>
    simp only [Inv, hpc] at h
    exact h.listen
  | @refused i fd hpc hi hfd =>
    simp only [Inv, hpc] at h
    refine .refused ⟨_, hsnoc, hfd⟩ (h.quiet.clean id id) ?_
    rw [accepted_of_nil (by simp [WaitForConn.accepted, hfd])]
    exact h.owns.frame rfl rfl
  | accepted hpc hi hfd hs ha =>
    simp only [Inv, hpc] at h
    refine h.owns.accepting (h.quiet.snoc hfd) ?_ h.count hi
    rw [accepted_snoc, accepted_accept hfd]
  | pending hpc hi hfd hs ha =>
    simp only [Inv, hpc] at h
    refine ⟨WaitForConn.accepted ls, h.quiet.snoc hfd, ?_, h.owns.frame rfl rfl, h.count, hi, hs,
      ha⟩
    rw [accepted_snoc, accepted_accept hfd]
  | getfl hpc hf =>
    simp only [Inv, hpc] at h
    obtain ⟨fds, h⟩ := h
    refine ⟨fds, h.quiet.snoc hf, ?_, h.owns.frame rfl rfl, h.count, h.lt, h.fresh, h.async⟩
    rw [accepted_of_nil rfl, h.last]
  | setfl hpc hrc =>
    simp only [Inv, hpc] at h
    obtain ⟨fds, h⟩ := h
    refine h.owns.accepting (h.quiet.snoc hrc) ?_ h.count h.lt
    rw [accepted_of_nil rfl, h.last]
  | noFlags hpc hf =>
    simp only [Inv, hpc] at h
    obtain ⟨fds, h⟩ := h
    exact .leaked ⟨_, hsnoc, hf⟩ ((accepted_of_nil rfl).trans h.last) h.fresh h.async
  | blocking hpc hrc =>
    simp only [Inv, hpc] at h
    obtain ⟨fds, h⟩ := h
    exact .leaked ⟨_, hsnoc, hrc⟩ ((accepted_of_nil rfl).trans h.last) h.fresh h.async
  | finished hpc hi =>
    simp only [Inv, hpc] at h
    have hcount := h.count
    have hle := h.le
    refine .complete (h.quiet.snoc id) ?_ ?_
    · rw [accepted_of_nil rfl]
      exact h.owns.frame rfl rfl
    · rw [accepted_of_nil rfl]
      omega

lemma run_outcome {ok : Bool} (h : Machine.run (step p) (start sockets env) ls = some t)
    (ht : t.pc = .returned ok) : Outcome p sockets env t ls ok := by
  have hstart : Before sockets env (start sockets env) [] := ⟨by simp [Quiet], rfl, rfl, rfl⟩
  have hi : Inv p sockets env t ls :=
    Machine.run_observed (Inv p sockets env) (fun _ _ _ _ hs hl => step_inv hs hl)
      (by exact hstart) h
  simpa only [Inv, ht] using hi

def State.map (g : σ → τ) (s : State σ) : State τ := ⟨s.pc, s.sockets, g s.env⟩

structure Params.Maps (p : Params σ) (q : Params τ) (g : σ → τ) : Prop where
  sockCount : q.sockCount = p.sockCount
  readyForConnect : ∀ env, q.readyForConnect (g env) = g (p.readyForConnect env)
  onSockCb : ∀ fd env, q.onSockCb fd (g env) = g (p.onSockCb fd env)
  async : q.async = p.async

lemma step_map {q : Params τ} {g : σ → τ} (h : p.Maps q g) (s : State σ) (l : Label) :
    step q (s.map g) l = (step p s l).map (State.map g) := by
  have hpush (i : ℤ) (fd : Fd) : pushBack q (s.map g) i fd = (pushBack p s i fd).map g := by
    simp only [pushBack, State.map, h.onSockCb]
  have hpc : (s.map g).pc = s.pc := rfl
  have hsockets : (s.map g).sockets = s.sockets := rfl
  rw [step.eq_def, step.eq_def p, hpc]
  split
  next => rfl
  next => rfl
  next => rfl
  next =>
    simp only [State.map, h.readyForConnect, Option.map_some]
  next i fd _ =>
    simp only [h.sockCount, h.async, hpush, hsockets]
    split_ifs <;> rfl
  next => rfl
  next i fd rc _ =>
    simp only [hpush]
    split_ifs <;> rfl
  next i _ =>
    simp only [h.sockCount]
    split_ifs <;> rfl
  next => simp

structure Accounted (p : Params σ) (sockets : List Fd) (env : σ) (t : State σ) (ls : List Label)
    (ok : Bool) : Prop where
  success : ok → (accepted ls).length = p.sockCount ∧ Owns p sockets env t (accepted ls)
  failure : (∃ l ∈ ls, l.Fails) → ok = false
  owned : ∀ fd ∈ accepted ls, fd ∈ t.sockets

theorem wait_for_conn_accounted (p : Params σ) (hp : 0 ≤ p.sockCount) (sockets : List Fd) (env : σ)
    (ls : List Label) (t : State σ) (ok : Bool)
    (h : Machine.run (step p) (start sockets env) ls = some t) (ht : t.pc = .returned ok) :
    Accounted p sockets env t ls ok ↔ ∀ l ∈ ls, ¬ l.BindFails ∧ ¬ l.FcntlFails := by
  cases run_outcome h ht with
  | noSocket hf hc ha he =>
    refine iff_of_true ⟨?_, fun _ => rfl, ?_⟩ hc
    · intro hok
      cases hok
    · simp [ha]
  | unbound hf ha he =>
    obtain ⟨l, hl, hf⟩ := hf
    refine iff_of_false (fun h => ?_) fun h => (h l hl).1 hf
    cases h.failure ⟨l, hl, hf.fails⟩
  | refused hf hc ho =>
    refine iff_of_true ⟨?_, fun _ => rfl, fun fd hfd => ?_⟩ hc
    · intro hok
      cases hok
    · rw [ho.sockets]
      exact List.mem_append_right _ hfd
  | @leaked fd fds hf ha hs hp =>
    obtain ⟨l, hl, hf⟩ := hf
    refine iff_of_false (fun h => hs (h.owned fd ?_)) fun h => (h l hl).2 hf
    rw [ha]
    exact List.mem_append_right _ List.mem_cons_self
  | complete hq ho hn =>
    refine iff_of_true ⟨fun _ => ⟨by omega, ho⟩, ?_, fun fd hfd => ?_⟩ ?_
    · rintro ⟨l, hl, hf⟩
      exact (hq l hl hf).elim
    · rw [ho.sockets]
      exact List.mem_append_right _ hfd
    · exact fun l hl => ⟨fun hb => hq l hl hb.fails, fun hf => hq l hl hf.fails⟩

def noting (sockCount : ℤ) (async : Bool) : Params (List Fd) where
  sockCount := sockCount
  readyForConnect := id
  onSockCb fd log := log ++ [fd]
  async := async

theorem wait_for_conn_accounted_two :
    Accounted (noting 2 true) [] [] ⟨.returned true, [4, 5], [4, 5]⟩
      [.socket 3, .setsockopt (-1), .bind 0, .listen 0, .accept 4, .getfl 2, .setfl 0, .accept 5,
        .getfl 2, .setfl 0, .finished] true :=
  (wait_for_conn_accounted (noting 2 true) (by decide) [] [] _ _ true rfl rfl).mpr
    (by simp [Label.BindFails, Label.FcntlFails])

theorem wait_for_conn_unaccounted :
    (∃ ls t, Machine.run (step (noting 1 false)) (start [] []) ls = some t ∧
      t.pc = .returned true ∧ .bind (-1) ∈ ls ∧ accepted ls = [] ∧
      ¬ Accounted (noting 1 false) [] [] t ls true) ∧
    ∃ ls t, Machine.run (step (noting 1 true)) (start [] []) ls = some t ∧
      t.pc = .returned false ∧ accepted ls = [4] ∧ t.sockets = [] ∧
      ¬ Accounted (noting 1 true) [] [] t ls false := by
  constructor
  · refine ⟨[.socket 3, .setsockopt 0, .bind (-1)], _, rfl, rfl, by simp, rfl, fun h => ?_⟩
    cases (h.success rfl).1
  · refine ⟨[.socket 3, .setsockopt 0, .bind 0, .listen 0, .accept 4, .getfl (-1)], _, rfl, rfl,
      rfl, rfl, fun h => ?_⟩
    cases h.owned 4 (by decide)

end NetworkPing.Client.WaitForConn
