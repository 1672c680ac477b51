import NetworkPing.Server.WorkerHolding

namespace NetworkPing.Worker

/-- The fds of the worker that epoll has reported and that no ping has answered since.
No fd comes twice in a batch, and none comes again before its ping. -/
def report (c : Config) (fds out : List Fd) : Label → Option (List Fd)
  | .wait (some batch) _ =>
    if batch.Nodup ∧ ∀ fd ∈ batch, fd ∈ fds ∧ fd ∉ out then some (out ++ batch) else none
  | .ping fd bc wc _ => some (if ping c.messageLen bc wc then out.erase fd else out)
  | _ => some out

variable {c : Config} {fds out out' : List Fd} {s t : State} {l : Label}

lemma report_nodup (hn : out.Nodup) (hk : out ⊆ fds) (h : report c fds out l = some out') :
    out'.Nodup ∧ out' ⊆ fds := by
  rw [report.eq_def] at h
  split at h
  next batch now =>
    split_ifs at h with hb
    cases h
    refine ⟨hn.append hb.1 fun fd ho hfd => (hb.2 fd hfd).2 ho, ?_⟩
    exact List.append_subset.mpr ⟨hk, fun fd hfd => (hb.2 fd hfd).1⟩
  next fd bc wc now =>
    cases h
    split_ifs
    · exact ⟨hn.erase fd, fun x hx => hk (List.mem_of_mem_erase hx)⟩
    · exact ⟨hn, hk⟩
  next => cases h; exact ⟨hn, hk⟩

lemma report_held (hi : Idle s) (ho : out.Perm (held s)) (h : step c s l = some t)
    (ht : t.pc ≠ .returned) (hr : report c fds out l = some out') : out'.Perm (held t) := by
  apply List.perm_iff_count.mpr
  intro fd
  have hh := step_held hi h ht fd
  have hc := ho.count_eq fd
  cases step_moves h with
  | failed | stopped | broken => exact (ht rfl).elim
  | waited =>
    simp only [report] at hr
    split_ifs at hr
    cases hr
    simp only [gained, released, List.count_append, List.count_nil] at hh ⊢
    omega
  | @answered fd' rest bc wc now hpc hp =>
    have hm : fd' ∈ out := ho.mem_iff.mpr (by simp [held, unpinged, hpc])
    have he := (List.perm_cons_erase hm).count_eq fd
    simp only [report, hp, if_true, Option.some.injEq] at hr
    subst hr
    simp only [gained, released, List.count_cons, List.count_nil] at hh he ⊢
    omega
  | expired | drained | counted | handled | exhausted | pushed | pinging | pinged =>
    cases hr
    simp only [gained, released, List.count_nil] at hh ⊢
    omega

lemma step_times (ho : ∀ fd ∈ held s, fd ∈ fds) (hk : ∀ fd ∈ s.lastTimeForSocket, fd ∈ fds)
    (h : step c s l = some t) : ∀ fd ∈ t.lastTimeForSocket, fd ∈ fds := by
  intro fd hfd
  cases step_moves h with
  | handled hpc hr =>
    have hm := ho _ (List.mem_append_left _ (hr ▸ List.mem_cons_self))
    exact (mem_handle.mp hfd).elim (· ▸ hm) (hk fd)
  | answered hpc =>
    refine ((AList.mem_insert _).mp hfd).elim (fun he => ho fd ?_) (hk fd)
    simp [held, unpinged, hpc, he]
  | _ => exact hk fd hfd

structure Accounts (fds : List Fd) (s : State) (out : List Fd) : Prop where
  tally : Tally s
  nodup : out.Nodup
  known : out ⊆ fds
  times : ∀ fd ∈ s.lastTimeForSocket, fd ∈ fds
  owned : s.pc ≠ .returned → out.Perm (held s)
  mess : s.result.messCountForSock.total ≤ s.result.mcount ∧
    s.result.mcount ≤ s.result.messCountForSock.total + out.length
  lat : s.result.latMap.total ≤ s.result.mcount ∧ s.result.mcount ≤
    s.result.latMap.total + s.lastTimeForSocket.keys.length + out.length

lemma counted_le (s : State) : counted s ≤ s.sel.ready.length := by
  rw [counted.eq_def]
  split <;> omega

lemma bounds_of_held (hs : Tally s) (ht : s.pc ≠ .returned) (ho : out.Perm (held s)) :
    (s.result.messCountForSock.total ≤ s.result.mcount ∧
      s.result.mcount ≤ s.result.messCountForSock.total + out.length) ∧
    (s.result.latMap.total ≤ s.result.mcount ∧ s.result.mcount ≤
      s.result.latMap.total + s.lastTimeForSocket.keys.length + out.length) := by
  have hm := hs.mess ht
  have hl := hs.lat ht
  have hc := counted_le s
  have hlen := ho.length_eq
  simp only [held, List.length_append] at hlen
  omega

lemma step_returned (h : step c s l = some t) (ht : t.pc = .returned) :
    t.result = s.result ∧ t.lastTimeForSocket = s.lastTimeForSocket := by
  cases step_moves h with
  | waited hpc => dsimp only at ht; split_ifs at ht
  | handled hpc hr =>
    rcases handle_cases c _ _ _ with he | he <;> rw [he] at ht <;> cases ht
  | expired hpc | answered hpc => simp [hpc] at ht
  | failed | stopped | broken => exact ⟨rfl, rfl⟩
  | _ => cases ht

lemma report_returned (hr : report c fds out l = some out') (h : step c s l = some t)
    (ht : t.pc = .returned) : out' = out := by
  cases step_moves h with
  | waited hpc => dsimp only at ht; split_ifs at ht
  | answered hpc => cases ht
  | broken hpc hp => simpa [report, hp] using hr.symm
  | _ => cases hr; rfl

lemma step_accounts (hs : Accounts fds s out) (h : step c s l = some t)
    (hr : report c fds out l = some out') : Accounts fds t out' := by
  have hrun := step_running h
  have ho := hs.owned hrun
  have htal := step_tally hs.tally h
  obtain ⟨hn, hk⟩ := report_nodup hs.nodup hs.known hr
  have htimes := step_times (fun fd hfd => hs.known (ho.mem_iff.mpr hfd)) hs.times h
  by_cases ht : t.pc = .returned
  · obtain ⟨hres, hlast⟩ := step_returned h ht
    cases report_returned hr h ht
    refine ⟨htal, hn, hk, htimes, fun hc => (hc ht).elim, ?_, ?_⟩
    · rw [hres]; exact hs.mess
    · rw [hres, hlast]; exact hs.lat
  · have ho' := report_held hs.tally.idle ho h ht hr
    obtain ⟨hm, hl⟩ := bounds_of_held htal ht ho'
    exact ⟨htal, hn, hk, htimes, fun _ => ho', hm, hl⟩

lemma start_accounts (fds : List Fd) (n : ℤ) : Accounts fds (start n) [] where
  tally := start_tally n
  nodup := List.nodup_nil
  known := List.nil_subset _
  times := by simp [start]
  owned _ := .refl _
  mess := ⟨le_rfl, le_rfl⟩
  lat := ⟨le_rfl, le_rfl⟩

lemma run_accounts {ls : List Label} {n : ℤ} (h : Machine.run (step c) (start n) ls = some s)
    (hr : Machine.run (report c fds) [] ls = some out) : Accounts fds s out := by
  refine Machine.run_monitored (Accounts fds) ?_ (start_accounts fds n) h hr
  intro s out l t out' hs hl hm
  exact step_accounts hs hl hm

lemma Accounts.out_le (hs : Accounts fds s out) : out.length ≤ fds.length :=
  (hs.nodup.subperm hs.known).length_le

lemma Accounts.times_le (hs : Accounts fds s out) :
    s.lastTimeForSocket.keys.length ≤ fds.length :=
  ((AList.keys_nodup _).subperm fun fd hfd => hs.times fd hfd).length_le

theorem message_accounting (c : Config) (fds : List Fd) (n : ℤ) (ls : List Label) (s : State)
    (out : List Fd) (h : Machine.run (step c) (start n) ls = some s)
    (hr : Machine.run (report c fds) [] ls = some out) :
    (s.pc = .head →
      s.result.mcount = s.result.messCountForSock.total + s.waitQueue.length ∧
      s.lastTimeForSocket.keys.length ≤ s.result.mcount ∧
      s.result.latMap.total = s.result.mcount - s.lastTimeForSocket.keys.length) ∧
    (s.pc = .returned →
      s.result.messCountForSock.total ≤ s.result.mcount ∧
      s.result.mcount ≤ s.result.messCountForSock.total + fds.length ∧
      s.result.latMap.total ≤ s.result.mcount ∧
      s.result.mcount ≤ s.result.latMap.total + 2 * fds.length) := by
  have hs := run_accounts h hr
  constructor
  · intro hpc
    have hne : s.pc ≠ .returned := by simp [hpc]
    have hready : s.sel.ready = [] := by simpa only [Idle, hpc] using hs.tally.idle
    have hm := hs.tally.mess hne
    have hl := hs.tally.lat hne
    simp only [counted, unpinged, queued, hpc, hready, List.length_map, List.length_nil] at hm hl
    omega
  · intro _
    have ho := hs.out_le
    have htm := hs.times_le
    have hm := hs.mess
    have hl := hs.lat
    omega

theorem message_accounting_one :
    let c : Config := ⟨3, 0, 0, fun _ => 0⟩
    let ls : List Label := [.wait (some [5]) 10, .done false, .next 5 0, .done false, .exhausted,
      .done false, .ping 5 3 3 20, .pinged]
    let s : State := ⟨.head, ⟨1, [], some 5⟩, (AList.insert 5 0 ∅).insert 5 20, [5], [], 10,
      { mcount := 1, messCountForSock := Counter.add ∅ 5 1 }⟩
    Machine.run (step c) (start 1) ls = some s ∧
      s.result.latMap.total = s.result.mcount - s.lastTimeForSocket.keys.length := by
  intro c ls s
  have h : Machine.run (step c) (start 1) ls = some s := rfl
  exact ⟨h, ((message_accounting c [5] 1 ls s [] h rfl).1 rfl).2.2⟩

end NetworkPing.Worker
