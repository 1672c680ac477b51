import NetworkPing.Server.MessageAccounting

/-! A worker with one echo peer per socket. Messages are known by the socket
they travel on; each one that arrives at the server raises one edge. `unwritten` are
the sockets that `run_test` has not written its first message on. -/

namespace NetworkPing.PingPong

open Worker (Config held unpinged queued)

structure State where
  worker : Worker.State
  unwritten : List Fd
  toPeer : List Fd
  atPeer : List Fd
  toServer : List Fd
  unread : List Fd
  edges : List Fd

inductive Label
  | write (fd : Fd)
  | deliver (fd : Fd)
  | reply (fd : Fd)
  | arrive (fd : Fd)
  | worker (l : Worker.Label)

def start (fds : List Fd) (sockCount : ℤ) : State where
  worker := Worker.start sockCount
  unwritten := fds
  toPeer := []
  atPeer := []
  toServer := []
  unread := []
  edges := []

def workerStep (c : Config) (s : State) (l : Worker.Label) : Option State :=
  match l with
  | .wait (some batch) _ =>
    if batch.length ≤ s.worker.sel.size ∧ batch.Subperm s.edges then
      (Worker.step c s.worker l).map fun w => { s with worker := w, edges := s.edges.diff batch }
    else none
  | .ping fd bc wc _ =>
    -- `recv` takes a whole message; with nothing to read it fails
    if 0 < bc then
      if bc = c.messageLen ∧ fd ∈ s.unread then
        (Worker.step c s.worker l).map fun w => { s with
          worker := w
          unread := s.unread.erase fd
          toPeer := if wc = c.messageLen then fd :: s.toPeer else s.toPeer }
      else none
    else (Worker.step c s.worker l).map fun w => { s with worker := w }
  | _ => (Worker.step c s.worker l).map fun w => { s with worker := w }

def step (c : Config) (s : State) : Label → Option State
  | .write fd =>
    if fd ∈ s.unwritten then
      some { s with unwritten := s.unwritten.erase fd, toPeer := fd :: s.toPeer }
    else none
  | .deliver fd =>
    if fd ∈ s.toPeer then
      some { s with toPeer := s.toPeer.erase fd, atPeer := fd :: s.atPeer }
    else none
  | .reply fd =>
    if fd ∈ s.atPeer then
      some { s with atPeer := s.atPeer.erase fd, toServer := fd :: s.toServer }
    else none
  | .arrive fd =>
    if fd ∈ s.toServer then some { s with
      toServer := s.toServer.erase fd, unread := fd :: s.unread, edges := s.edges ++ [fd] }
    else none
  | .worker l => workerStep c s l

def tokens (s : State) (fd : Fd) : ℕ :=
  s.toPeer.count fd + s.atPeer.count fd + s.toServer.count fd + s.unread.count fd

inductive Place
  | edge
  | batch
  | ready
  | queue
  deriving DecidableEq

def contents (s : State) : Place → List Fd
  | .edge => s.edges
  | .batch => s.worker.sel.ready
  | .ready => unpinged s.worker
  | .queue => queued s.worker

structure Owned (fds : List Fd) (s : State) : Prop where
  idle : Worker.Idle s.worker
  token : ∀ fd, s.unwritten.count fd + tokens s fd = fds.count fd
  owner : ∀ fd, s.edges.count fd + (held s.worker).count fd = s.unread.count fd

variable {c : Config} {fds : List Fd} {s t : State} {l : Label}

lemma count_erase_add {xs : List Fd} {a : Fd} (h : a ∈ xs) (b : Fd) :
    xs.count b = [a].count b + (xs.erase a).count b := by
  rw [(List.perm_cons_erase h).count_eq, ← List.count_append, List.singleton_append]

lemma workerStep_spec {l : Worker.Label} (h : workerStep c s l = some t) :
    Worker.step c s.worker l = some t.worker ∧ t.unwritten = s.unwritten ∧
      t.atPeer = s.atPeer ∧ t.toServer = s.toServer ∧
      (t.worker.pc ≠ .returned → ∀ fd,
        t.toPeer.count fd = s.toPeer.count fd + (Worker.released l).count fd ∧
        s.unread.count fd = t.unread.count fd + (Worker.released l).count fd ∧
        s.edges.count fd = t.edges.count fd + (Worker.gained l).count fd) := by
  have plain (h : (Worker.step c s.worker l).map (fun w => { s with worker := w }) = some t) :
      Worker.step c s.worker l = some t.worker ∧ t = { s with worker := t.worker } := by
    obtain ⟨w, hw, rfl⟩ := Option.map_eq_some_iff.mp h
    exact ⟨hw, rfl⟩
  rw [workerStep.eq_def] at h
  split at h
  next batch now =>
    split_ifs at h with hb
    obtain ⟨w, hw, rfl⟩ := Option.map_eq_some_iff.mp h
    refine ⟨hw, rfl, rfl, rfl, fun _ fd => ⟨rfl, rfl, ?_⟩⟩
    have := hb.2.count_le fd
    simp only [Worker.gained, List.count_diff]
    omega
  next fd bc wc now =>
    by_cases h0 : 0 < bc
    · rw [if_pos h0, Option.ite_none_right_eq_some] at h
      obtain ⟨hb, h⟩ := h
      obtain ⟨w, hw, rfl⟩ := Option.map_eq_some_iff.mp h
      refine ⟨hw, rfl, rfl, rfl, fun hr fd' => ⟨?_, ?_, rfl⟩⟩
      · simp only [if_pos (Worker.ping_answered hw hr).2, Worker.released, List.count_cons,
          List.count_nil, zero_add]
      · rw [count_erase_add hb.2, Nat.add_comm]
        rfl
    · rw [if_neg h0] at h
      obtain ⟨hw, he⟩ := plain h
      refine ⟨hw, by rw [he], by rw [he], by rw [he], fun hr => ?_⟩
      exact (h0 (Worker.ping_answered hw hr).1).elim
  next hn hp =>
    obtain ⟨hw, he⟩ := plain h
    refine ⟨hw, by rw [he], by rw [he], by rw [he], fun _ fd => ?_⟩
    have hg : Worker.gained l = [] := by
      rw [Worker.gained.eq_def]
      split
      · exact (hn _ _ rfl).elim
      · rfl
    have hl : Worker.released l = [] := by
      rw [Worker.released.eq_def]
      split
      · exact (hp _ _ _ _ rfl).elim
      · rfl
    rw [he, hg, hl]
    exact ⟨rfl, rfl, rfl⟩

lemma start_owned (fds : List Fd) (n : ℤ) : Owned fds (start fds n) where
  idle := rfl
  token _ := by simp [start, tokens]
  owner _ := by simp [start, held, Worker.start, EPollRSelector.create, unpinged, queued]

lemma step_owned (hs : Owned fds s) (h : step c s l = some t) (ht : t.worker.pc ≠ .returned) :
    Owned fds t := by
  cases l with
  | write fd | deliver fd | reply fd =>
    simp only [step] at h
    split_ifs at h with hm
    cases h
    refine ⟨hs.idle, fun fd' => ?_, hs.owner⟩
    have := hs.token fd'
    have := count_erase_add hm fd'
    simp only [tokens, List.count_cons, List.count_nil] at *
    omega
  | arrive fd =>
    simp only [step] at h
    split_ifs at h with hm
    cases h
    refine ⟨hs.idle, fun fd' => ?_, fun fd' => ?_⟩
    · have := hs.token fd'
      have := count_erase_add hm fd'
      simp only [tokens, List.count_cons, List.count_nil] at *
      omega
    · have := hs.owner fd'
      simp only [List.count_append, List.count_cons, List.count_nil] at *
      omega
  | worker l =>
    obtain ⟨hw, hu, ha, hv, hc⟩ := workerStep_spec h
    refine ⟨Worker.step_idle hs.idle hw, fun fd => ?_, fun fd => ?_⟩
    · have := hs.token fd
      have := hc ht fd
      simp only [tokens, hu, ha, hv] at *
      omega
    · have := hs.owner fd
      have := hc ht fd
      have := Worker.step_held hs.idle hw ht fd
      omega

lemma step_running (h : step c s l = some t) (hs : s.worker.pc = .returned) :
    t.worker.pc = .returned := by
  cases l with
  | worker l => exact (Worker.step_running (workerStep_spec h).1 hs).elim
  | _ =>
    simp only [step] at h
    split_ifs at h
    cases h
    exact hs

lemma run_owned {ls : List Label} {n : ℤ} (h : Machine.run (step c) (start fds n) ls = some s)
    (hs : s.worker.pc ≠ .returned) : Owned fds s := by
  refine Machine.run_invariant (fun s => s.worker.pc ≠ .returned → Owned fds s) ?_
    (fun _ => start_owned fds n) h hs
  intro s l t hi hl ht
  exact step_owned (hi fun hr => ht (step_running hl hr)) hl ht

lemma held_contents (s : State) (fd : Fd) : s.edges.count fd + (held s.worker).count fd =
    (contents s .edge).count fd + (contents s .batch).count fd +
      (contents s .ready).count fd + (contents s .queue).count fd := by
  simp only [held, contents, List.count_append]
  omega

lemma sole_place {fd : Fd} (h : s.edges.count fd + (held s.worker).count fd = 1) :
    ∃ p, (contents s p).count fd = 1 ∧ ∀ q, q ≠ p → fd ∉ contents s q := by
  rw [held_contents] at h
  have hp : ∃ p, (contents s p).count fd = 1 ∧ ∀ q, q ≠ p → (contents s q).count fd = 0 := by
    rcases (by omega : (contents s .edge).count fd = 1 ∨ (contents s .batch).count fd = 1 ∨
      (contents s .ready).count fd = 1 ∨ (contents s .queue).count fd = 1) with hp | hp | hp | hp
    · exact ⟨.edge, hp, fun q hq => by cases q <;> first | exact (hq rfl).elim | omega⟩
    · exact ⟨.batch, hp, fun q hq => by cases q <;> first | exact (hq rfl).elim | omega⟩
    · exact ⟨.ready, hp, fun q hq => by cases q <;> first | exact (hq rfl).elim | omega⟩
    · exact ⟨.queue, hp, fun q hq => by cases q <;> first | exact (hq rfl).elim | omega⟩
  obtain ⟨p, hp, hq⟩ := hp
  exact ⟨p, hp, fun q hne => List.count_eq_zero.mp (hq q hne)⟩

theorem tokens_owned (c : Config) (fds : List Fd) (hn : fds.Nodup) (n : ℤ) (ls : List Label)
    (s : State) (h : Machine.run (step c) (start fds n) ls = some s)
    (hs : s.worker.pc ≠ .returned) :
    (∀ fd ∈ fds, tokens s fd = if fd ∈ s.unwritten then 0 else 1) ∧
    (∀ fd ∈ s.unread, ∃ p, (contents s p).count fd = 1 ∧ ∀ q, q ≠ p → fd ∉ contents s q) ∧
    (∀ fd, fd ∉ s.unread → ∀ p, fd ∉ contents s p) := by
  have ho := run_owned h hs
  refine ⟨fun fd hfd => ?_, fun fd hfd => ?_, fun fd hfd p => ?_⟩
  · have ht := ho.token fd
    rw [List.count_eq_one_of_mem hn hfd] at ht
    split_ifs with hu
    · have := List.count_pos_iff.mpr hu
      omega
    · have := List.count_eq_zero.mpr hu
      omega
  · have ht := ho.token fd
    have hf := List.nodup_iff_count_le_one.mp hn fd
    have hu := List.count_pos_iff.mpr hfd
    apply sole_place
    rw [ho.owner fd]
    simp only [tokens] at ht
    omega
  · have hu := (held_contents s fd).symm.trans ((ho.owner fd).trans (List.count_eq_zero.mpr hfd))
    apply List.count_eq_zero.mp
    cases p <;> omega

theorem tokens_owned_one :
    let c : Config := ⟨3, 0, 0, fun _ => 0⟩
    let ls : List Label := [.write 5, .deliver 5, .reply 5, .arrive 5,
      .worker (.wait (some [5]) 10)]
    ∃ s, Machine.run (step c) (start [5] 1) ls = some s ∧ s.unread = [5] ∧
      ∃ p, (contents s p).count 5 = 1 ∧ ∀ q, q ≠ p → 5 ∉ contents s q := by
  intro c ls
  refine ⟨_, rfl, rfl, ?_⟩
  exact (tokens_owned c [5] (by decide) 1 ls _ rfl nofun).2.1 5 (by decide)

lemma report_defined {l : Worker.Label} {out : List Fd} (hn : fds.Nodup) (hs : Owned fds s)
    (ho : out.Perm (held s.worker)) (h : workerStep c s l = some t) :
    ∃ out', Worker.report c fds out l = some out' := by
  rw [Worker.report.eq_def]
  split
  next batch now =>
    refine ⟨_, if_pos ?_⟩
    have hb : batch.Subperm s.edges := by
      simp only [workerStep] at h
      exact (Option.ite_none_right_eq_some.mp h).1.2
    have hle (fd : Fd) : s.edges.count fd + (held s.worker).count fd ≤ fds.count fd := by
      have := hs.token fd
      have := hs.owner fd
      simp only [tokens] at *
      omega
    refine ⟨List.nodup_iff_count_le_one.mpr fun fd => ?_, fun fd hfd => ?_⟩
    · have := hb.count_le fd
      have := hle fd
      have := List.nodup_iff_count_le_one.mp hn fd
      omega
    · have := List.count_pos_iff.mpr (hb.subset hfd)
      have := hle fd
      have := List.nodup_iff_count_le_one.mp hn fd
      refine ⟨List.count_pos_iff.mp (by omega), fun hout => ?_⟩
      have := List.count_pos_iff.mpr (ho.subset hout)
      omega
  next => exact ⟨_, rfl⟩
  next => exact ⟨_, rfl⟩

def workerLabel : Label → Option Worker.Label
  | .worker l => some l
  | _ => none

lemma run_worker {ls : List Label} {n : ℤ} (h : Machine.run (step c) (start fds n) ls = some s) :
    Machine.run (Worker.step c) (Worker.start n) (ls.filterMap workerLabel) = some s.worker := by
  refine Machine.run_simulates State.worker workerLabel (fun s l t hl => ?_) h
  cases l with
  | worker l => exact (workerStep_spec hl).1
  | _ =>
    simp only [step] at hl
    split_ifs at hl
    cases hl
    rfl

lemma run_reported {ls : List Label} {n : ℤ} (hn : fds.Nodup)
    (h : Machine.run (step c) (start fds n) ls = some s) :
    ∃ out, Machine.run (Worker.report c fds) [] (ls.filterMap workerLabel) = some out ∧
      Worker.Accounts fds s.worker out := by
  refine (Machine.run_observed (fun s ls => (s.worker.pc ≠ .returned → Owned fds s) ∧
    ∃ out, Machine.run (Worker.report c fds) [] (ls.filterMap workerLabel) = some out ∧
      Worker.Accounts fds s.worker out) ?_ ?_ h).2
  · rintro s ls l t ⟨hs, out, hr, ha⟩ hl
    refine ⟨fun ht => step_owned (hs fun hr => ht (step_running hl hr)) hl ht, ?_⟩
    rw [List.filterMap_append]
    cases l with
    | worker l =>
      have hw := (workerStep_spec hl).1
      have hrun := Worker.step_running hw
      obtain ⟨out', hout⟩ := report_defined hn (hs hrun) (ha.owned hrun) hl
      refine ⟨out', Machine.run_trans hr ?_, Worker.step_accounts ha hw hout⟩
      exact Machine.run_step hout rfl
    | _ =>
      simp only [step] at hl
      split_ifs at hl
      cases hl
      exact ⟨out, Machine.run_trans hr rfl, ha⟩
  · exact ⟨fun _ => start_owned fds n, [], rfl, Worker.start_accounts fds n⟩

theorem worker_run {ls : List Label} {n : ℤ} (hn : fds.Nodup)
    (h : Machine.run (step c) (start fds n) ls = some s) :
    ∃ out, Machine.run (Worker.step c) (Worker.start n) (ls.filterMap workerLabel) = some s.worker ∧
      Machine.run (Worker.report c fds) [] (ls.filterMap workerLabel) = some out := by
  obtain ⟨out, hr, -⟩ := run_reported hn h
  exact ⟨out, run_worker h, hr⟩

theorem worker_run_one :
    let c : Config := ⟨3, 0, 0, fun _ => 0⟩
    let ls : List Label := [.write 5, .deliver 5, .reply 5, .arrive 5,
      .worker (.wait (some [5]) 10), .worker (.done false), .worker (.next 5 0)]
    ∃ s out, Machine.run (step c) (start [5] 1) ls = some s ∧
      Machine.run (Worker.step c) (Worker.start 1) (ls.filterMap workerLabel) = some s.worker ∧
      Machine.run (Worker.report c [5]) [] (ls.filterMap workerLabel) = some out := by
  intro c ls
  obtain ⟨s, hs⟩ : ∃ s, Machine.run (step c) (start [5] 1) ls = some s := ⟨_, rfl⟩
  obtain ⟨out, hw, hr⟩ := worker_run (by decide) hs
  exact ⟨s, out, hs, hw, hr⟩

end NetworkPing.PingPong
