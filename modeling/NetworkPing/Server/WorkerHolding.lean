import NetworkPing.Server.WorkerThread

namespace NetworkPing.Worker

open EPollRSelector

def unpinged (s : State) : List Fd :=
  match s.pc with
  | .head | .returned => []
  | .drain | .polled | .events | .pushed => s.readyFds
  | .pings rest => rest
  | .pinging fd rest => fd :: rest

def queued (s : State) : List Fd := s.waitQueue.map FdTimout.fd

def held (s : State) : List Fd := s.sel.ready ++ (unpinged s ++ queued s)

def gained : Label → List Fd
  | .wait (some batch) _ => batch
  | _ => []

def released : Label → List Fd
  | .ping fd _ _ _ => [fd]
  | _ => []

def counted (s : State) : ℕ :=
  match s.pc with
  | .drain | .polled => 0
  | _ => s.sel.ready.length

def Idle (s : State) : Prop :=
  match s.pc with
  | .head | .pings _ | .pinging _ _ => s.sel.ready = []
  | _ => True

variable {c : Config} {s t : State} {l : Label}

lemma handle_cases (c : Config) (s : State) (fd : Fd) (draw : UInt64) :
    handle c s fd draw = { noteLatency c s fd with
      pc := .events, waitQueue := ⟨fd, deadline c s fd draw⟩ :: s.waitQueue } ∨
    handle c s fd draw = { noteLatency c s fd with
      pc := .pushed, readyFds := s.readyFds ++ [fd] } := by
  rw [handle, noteLatency]
  split_ifs <;> simp

@[simp] lemma noteLatency_sel (fd : Fd) : (noteLatency c s fd).sel = s.sel := by
  rw [noteLatency]; split_ifs <;> rfl

@[simp] lemma noteLatency_readyFds (fd : Fd) : (noteLatency c s fd).readyFds = s.readyFds := by
  rw [noteLatency]; split_ifs <;> rfl

@[simp] lemma noteLatency_waitQueue (fd : Fd) : (noteLatency c s fd).waitQueue = s.waitQueue := by
  rw [noteLatency]; split_ifs <;> rfl

@[simp] lemma noteLatency_mcount (fd : Fd) :
    (noteLatency c s fd).result.mcount = s.result.mcount := by
  rw [noteLatency]; split_ifs <;> rfl

@[simp] lemma noteLatency_messCount (fd : Fd) :
    (noteLatency c s fd).result.messCountForSock = s.result.messCountForSock := by
  rw [noteLatency]; split_ifs <;> rfl

@[simp] lemma mem_noteLatency {fd fd' : Fd} :
    fd' ∈ (noteLatency c s fd).lastTimeForSocket ↔ fd' = fd ∨ fd' ∈ s.lastTimeForSocket := by
  rw [noteLatency]
  split_ifs with h
  · constructor
    · exact .inr
    · rintro (rfl | h') <;> assumption
  · exact AList.mem_insert _

lemma mem_handle {fd fd' : Fd} {draw : UInt64} :
    fd' ∈ (handle c s fd draw).lastTimeForSocket ↔ fd' = fd ∨ fd' ∈ s.lastTimeForSocket := by
  rcases handle_cases c s fd draw with he | he <;> rw [he] <;> exact mem_noteLatency

lemma noteLatency_total (c : Config) (s : State) (fd : Fd) :
    (noteLatency c s fd).result.latMap.total + (noteLatency c s fd).lastTimeForSocket.keys.length =
      s.result.latMap.total + s.lastTimeForSocket.keys.length + 1 := by
  rw [noteLatency]
  split_ifs with h
  · simp only [Counter.total_add]
    omega
  · simp only [AList.keys_insert, List.length_cons,
      List.erase_of_not_mem (mt AList.mem_keys.mpr h)]
    omega

lemma step_running (h : step c s l = some t) : s.pc ≠ .returned := by
  rintro hpc
  simp [step, hpc] at h

lemma ping_true {n bc wc : ℤ} (h : ping n bc wc) : 0 < bc ∧ wc = n := by
  rw [ping] at h
  split_ifs at h
  omega

lemma ping_answered {fd : Fd} {bc wc : ℤ} {now : UInt64}
    (h : step c s (.ping fd bc wc now) = some t) (ht : t.pc ≠ .returned) :
    0 < bc ∧ wc = c.messageLen := by
  cases step_moves h with
  | answered _ hp => exact ping_true hp
  | broken => exact (ht rfl).elim

lemma step_idle (hi : Idle s) (h : step c s l = some t) : Idle t := by
  cases step_moves h with
  | waited hpc => simp only [Idle]; split_ifs <;> trivial
  | handled hpc hr =>
    rcases handle_cases c _ _ _ with he | he <;> rw [he] <;> trivial
  | expired hpc => simp only [Idle, hpc]
  | exhausted hpc hr => exact hr
  | pinging hpc => simpa only [Idle, hpc] using hi
  | pinged hpc => simpa only [Idle, hpc] using hi
  | answered hpc => simpa only [Idle, hpc] using hi
  | _ => trivial

lemma step_held (hi : Idle s) (h : step c s l = some t) (ht : t.pc ≠ .returned) (fd : Fd) :
    (held t).count fd + (released l).count fd = (held s).count fd + (gained l).count fd := by
  cases step_moves h with
  | failed | stopped | broken => exact (ht rfl).elim
  | @waited batch now hpc =>
    have hr : s.sel.ready = [] := by simpa only [Idle, hpc] using hi
    split_ifs <;> simp only [held, gained, released, hr, queued, unpinged, hpc, List.count_append,
      List.count_nil] <;> omega
  | expired hpc htop =>
    have hq := ((List.perm_cons_erase htop.1).map FdTimout.fd).count_eq fd
    simp only [held, gained, released, queued, unpinged, hpc, List.count_append, List.count_cons,
      List.map_cons, List.count_nil] at hq ⊢
    omega
  | handled hpc hr =>
    rcases handle_cases c _ _ _ with he | he
    all_goals
      rw [he]
      simp only [held, gained, released, queued, unpinged, hpc, hr, noteLatency_sel,
        noteLatency_readyFds, noteLatency_waitQueue, List.count_append, List.count_cons,
        List.map_cons, List.count_nil]
      omega
  | answered hpc =>
    simp only [held, gained, released, queued, unpinged, hpc, List.count_append, List.count_cons,
      List.count_nil]
    omega
  | drained hpc | counted hpc | exhausted hpc | pushed hpc | pinging hpc | pinged hpc =>
    simp only [held, gained, released, queued, unpinged, hpc]

lemma step_seen (hs : ∀ fd ∈ unpinged s ++ queued s, fd ∈ s.lastTimeForSocket)
    (h : step c s l = some t) : ∀ fd ∈ unpinged t ++ queued t, fd ∈ t.lastTimeForSocket := by
  intro fd hfd
  cases step_moves h with
  | waited hpc =>
    apply hs fd
    apply List.mem_append_right
    split_ifs at hfd <;> simpa only [unpinged, queued, List.nil_append] using hfd
  | failed | stopped | broken => exact hs fd (List.mem_append_right _ hfd)
  | @expired item hpc htop =>
    apply hs fd
    simp only [unpinged, queued, hpc, List.mem_append, List.mem_singleton] at hfd ⊢
    rcases hfd with (hfd | rfl) | hfd
    · exact .inl hfd
    · exact .inr (List.mem_map_of_mem htop.1)
    · exact .inr ((List.map_subset _ List.erase_subset) hfd)
  | handled hpc =>
    simp only [unpinged, queued, hpc, List.mem_append] at hs
    rcases handle_cases c _ _ _ with he | he <;> rw [he] at hfd ⊢
    all_goals
      simp only [unpinged, queued, noteLatency_readyFds, noteLatency_waitQueue, List.mem_append,
        List.map_cons, List.mem_cons, List.not_mem_nil, or_false] at hfd
      apply mem_noteLatency.mpr
      have := hs fd
      tauto
  | answered hpc =>
    refine (AList.mem_insert _).mpr (.inr (hs fd ?_))
    simp only [unpinged, queued, hpc, List.mem_append, List.mem_cons] at hfd ⊢
    tauto
  | drained hpc | counted hpc | exhausted hpc | pushed hpc | pinging hpc | pinged hpc =>
    apply hs fd
    simpa only [unpinged, queued, hpc] using hfd

structure Tally (s : State) : Prop where
  idle : Idle s
  seen : ∀ fd ∈ unpinged s ++ queued s, fd ∈ s.lastTimeForSocket
  mess : s.pc ≠ .returned → s.result.mcount =
    s.result.messCountForSock.total + (unpinged s).length + (queued s).length + counted s
  lat : s.pc ≠ .returned → s.result.mcount =
    s.result.latMap.total + s.lastTimeForSocket.keys.length + counted s

lemma start_tally (n : ℤ) : Tally (start n) where
  idle := rfl
  seen := by simp [start, unpinged, queued]
  mess _ := rfl
  lat _ := rfl

lemma step_mess (hi : Idle s) (hs : s.result.mcount =
      s.result.messCountForSock.total + (unpinged s).length + (queued s).length + counted s)
    (h : step c s l = some t) (ht : t.pc ≠ .returned) : t.result.mcount =
      t.result.messCountForSock.total + (unpinged t).length + (queued t).length + counted t := by
  cases step_moves h with
  | failed | stopped | broken => exact (ht rfl).elim
  | waited hpc =>
    have hr : s.sel.ready = [] := by simpa only [Idle, hpc] using hi
    simp only [counted, unpinged, queued, hpc, hr, List.length_nil] at hs
    split_ifs <;> simpa only [counted, unpinged, queued, List.length_nil] using hs
  | expired hpc htop =>
    simp only [counted, unpinged, queued, hpc, List.length_append, List.length_map,
      List.length_erase_of_mem htop.1, List.length_singleton] at hs ⊢
    have := List.length_pos_of_mem htop.1
    omega
  | handled hpc hr =>
    simp only [counted, unpinged, queued, hpc, hr, List.length_cons] at hs
    rcases handle_cases c _ _ _ with he | he
    all_goals
      rw [he]
      simp only [counted, unpinged, queued, noteLatency_mcount, noteLatency_messCount,
        noteLatency_readyFds, noteLatency_waitQueue, noteLatency_sel, List.length_append,
        List.length_map, List.length_cons, List.length_nil] at hs ⊢
      omega
  | answered hpc =>
    have hr : s.sel.ready = [] := by simpa only [Idle, hpc] using hi
    simp only [counted, unpinged, queued, hpc, hr, List.length_cons, Counter.total_add] at hs ⊢
    omega
  | counted hpc =>
    simp only [Worker.counted, unpinged, queued, hpc, readyCount] at hs ⊢
    omega
  | drained hpc | exhausted hpc | pushed hpc | pinging hpc | pinged hpc =>
    simpa only [Worker.counted, unpinged, queued, hpc] using hs

lemma step_lat (hi : Idle s) (hn : ∀ fd ∈ unpinged s ++ queued s, fd ∈ s.lastTimeForSocket)
    (hs : s.result.mcount =
      s.result.latMap.total + s.lastTimeForSocket.keys.length + counted s)
    (h : step c s l = some t) (ht : t.pc ≠ .returned) : t.result.mcount =
      t.result.latMap.total + t.lastTimeForSocket.keys.length + counted t := by
  cases step_moves h with
  | failed | stopped | broken => exact (ht rfl).elim
  | waited hpc =>
    have hr : s.sel.ready = [] := by simpa only [Idle, hpc] using hi
    simp only [counted, hpc, hr, List.length_nil] at hs
    split_ifs <;> simpa only [counted] using hs
  | @handled fd fds draw hpc hr =>
    have hl := noteLatency_total c
      { s with sel := { s.sel with ready := fds, current := some fd } } fd
    simp only [counted, hpc, hr, List.length_cons] at hs
    rcases handle_cases c _ _ _ with he | he
    all_goals
      rw [he]
      simp only [counted, noteLatency_mcount, noteLatency_sel] at hl hs ⊢
      omega
  | @answered fd rest bc wc now hpc =>
    have hr : s.sel.ready = [] := by simpa only [Idle, hpc] using hi
    have hm : fd ∈ s.lastTimeForSocket.keys := hn fd (by simp [unpinged, hpc])
    have hp := List.length_pos_of_mem hm
    simp only [counted, hpc, hr, AList.keys_insert, List.length_cons,
      List.length_erase_of_mem hm] at hs ⊢
    omega
  | counted hpc =>
    simp only [Worker.counted, hpc, readyCount] at hs ⊢
    omega
  | expired hpc | drained hpc | exhausted hpc | pushed hpc | pinging hpc | pinged hpc =>
    simpa only [Worker.counted, hpc] using hs

lemma step_tally (hs : Tally s) (h : step c s l = some t) : Tally t where
  idle := step_idle hs.idle h
  seen := step_seen hs.seen h
  mess ht := step_mess hs.idle (hs.mess (step_running h)) h ht
  lat ht := step_lat hs.idle hs.seen (hs.lat (step_running h)) h ht

end NetworkPing.Worker
