import NetworkPing.Server.WorkerHolding
import Mathlib.Data.Finset.Max

namespace NetworkPing.Worker

def Stops (c : Config) (s : State) : Prop :=
  ∃ ls t, Machine.run (step c) s ls = some t ∧ t.pc = .returned ∧ ∀ b, .done b ∈ ls → b = true

variable {c : Config} {s t : State} {l : Label}

lemma Stops.head (h : step c s l = some t) (hl : ∀ b, l = .done b → b = true)
    (ht : Stops c t) : Stops c s := by
  obtain ⟨ls, u, hr, hu, hd⟩ := ht
  refine ⟨l :: ls, u, Machine.run_step h hr, hu, fun b hb => ?_⟩
  rcases List.mem_cons.mp hb with hb | hb
  · exact hl b hb.symm
  · exact hd b hb

lemma Stops.last (h : step c s l = some t) (hl : ∀ b, l = .done b → b = true)
    (ht : t.pc = .returned) : Stops c s :=
  .head h hl ⟨[], t, rfl, ht, by simp⟩

lemma stops_done (h : s.pc = .polled ∨ s.pc = .pushed ∨ ∃ fd rest, s.pc = .pings (fd :: rest)) :
    Stops c s :=
  .last (Moves.step (.stopped h)) (by simp) rfl

lemma exists_top {queue : List FdTimout} (h : queue ≠ []) : ∃ item, IsTop queue item := by
  obtain ⟨x, hx⟩ := List.exists_mem_of_ne_nil _ h
  obtain ⟨item, hi, hle⟩ := Finset.exists_min_image queue.toFinset (fun x => x.readyTime.toNat)
    ⟨x, List.mem_toFinset.mpr hx⟩
  refine ⟨item, List.mem_toFinset.mp hi, fun y hy => ?_⟩
  exact UInt64.le_iff_toNat_le.mpr (hle y (List.mem_toFinset.mpr hy))

lemma stops_drain (h : s.pc = .drain) : Stops c s := by
  induction hn : s.waitQueue.length generalizing s with
  | zero =>
    have hq := List.length_eq_zero_iff.mp hn
    apply Stops.head (Moves.step (.drained h (by simp [hq]))) (by simp)
    exact stops_done (.inl rfl)
  | succ n ih =>
    obtain ⟨item, htop⟩ := exists_top (List.ne_nil_of_length_eq_add_one hn)
    by_cases hd : item.readyTime ≤ s.currTime
    · apply Stops.head (Moves.step (.expired h htop hd)) (by simp)
      apply ih
      · exact h
      · simp [List.length_erase_of_mem htop.1, hn]
    · have hall : ∀ x ∈ s.waitQueue, s.currTime < x.readyTime := fun x hx =>
        UInt64.lt_of_lt_of_le (UInt64.not_le.mp hd) (htop.2 x hx)
      apply Stops.head (Moves.step (.drained h hall)) (by simp)
      exact stops_done (.inl rfl)

lemma stops_head (h : s.pc = .head) : Stops c s := by
  have hstep : Moves c s (.wait (some []) 0) _ := .waited h
  apply Stops.head hstep.step (by simp)
  split_ifs
  · exact stops_drain rfl
  · exact stops_done (.inl rfl)

lemma stops_pings {rest : List Fd} (h : s.pc = .pings rest) : Stops c s := by
  cases rest with
  | nil =>
    apply Stops.head (Moves.step (.pinged h)) (by simp)
    exact stops_head rfl
  | cons fd rest => exact stops_done (.inr (.inr ⟨fd, rest, h⟩))

lemma stops_events (h : s.pc = .events) : Stops c s := by
  induction hr : s.sel.ready generalizing s with
  | nil =>
    apply Stops.head (Moves.step (.exhausted h hr)) (by simp)
    exact stops_pings rfl
  | cons fd fds ih =>
    have hstep : Moves c s (.next fd 0) _ := .handled h hr
    apply Stops.head hstep.step (by simp)
    rcases handle_cases c _ _ _ with he | he <;> rw [he]
    · exact ih rfl (by simp)
    · exact stops_done (.inr (.inl rfl))

lemma stops (c : Config) (s : State) (h : s.pc ≠ .returned) : Stops c s := by
  cases hpc : s.pc with
  | head => exact stops_head hpc
  | drain => exact stops_drain hpc
  | polled => exact stops_done (.inl hpc)
  | events => exact stops_events hpc
  | pushed => exact stops_done (.inr (.inl hpc))
  | pings rest => exact stops_pings hpc
  | pinging fd rest =>
    have hstep : Moves c s (.ping fd (-1) 0 0) _ := .broken hpc (by simp [ping])
    exact .last hstep.step (by simp) rfl
  | returned => exact (h hpc).elim

end NetworkPing.Worker
