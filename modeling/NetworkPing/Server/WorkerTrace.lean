import NetworkPing.Server.MessageAccounting

namespace NetworkPing.Worker

variable {c : Config} {s t : State} {l : Label} {ls : List Label}

def handled (ls : List Label) : List Fd := ls.filterMap fun
  | .next fd _ => some fd
  | _ => none

def pinged (c : Config) (ls : List Label) : List Fd := ls.filterMap fun
  | .ping fd bc wc _ => if ping c.messageLen bc wc then some fd else none
  | _ => none

structure Traced (c : Config) (s : State) (ls : List Label) : Prop where
  tally : Tally s
  mess : ∀ fd, fd ∈ s.result.messCountForSock ↔ fd ∈ pinged c ls
  last : ∀ fd, fd ∈ s.lastTimeForSocket ↔ fd ∈ handled ls
  lat : s.result.latMap.total + s.lastTimeForSocket.keys.length = (handled ls).length

lemma handled_snoc : handled (ls ++ [l]) = handled ls ++ handled [l] := List.filterMap_append ..

lemma pinged_snoc : pinged c (ls ++ [l]) = pinged c ls ++ pinged c [l] := List.filterMap_append ..

lemma handled_of_nil (h : handled [l] = []) : handled (ls ++ [l]) = handled ls := by
  rw [handled_snoc, h, List.append_nil]

lemma pinged_of_nil (h : pinged c [l] = []) : pinged c (ls ++ [l]) = pinged c ls := by
  rw [pinged_snoc, h, List.append_nil]

lemma Traced.frame (h : Traced c s ls) (ht : Tally t) (hh : handled [l] = [])
    (hp : pinged c [l] = []) (hm : t.result.messCountForSock = s.result.messCountForSock)
    (hl : t.lastTimeForSocket = s.lastTimeForSocket) (hr : t.result.latMap = s.result.latMap) :
    Traced c t (ls ++ [l]) where
  tally := ht
  mess fd := by rw [hm, pinged_of_nil hp, h.mess]
  last fd := by rw [hl, handled_of_nil hh, h.last]
  lat := by rw [hr, hl, handled_of_nil hh, h.lat]

lemma step_traced (h : Traced c s ls) (hl : step c s l = some t) : Traced c t (ls ++ [l]) := by
  have ht := step_tally h.tally hl
  cases step_moves hl with
  | @handled fd fds draw hpc hr =>
    set s' := { s with sel := { s.sel with ready := fds, current := some fd } } with hs'
    have hh : Worker.handled [Label.next fd draw] = [fd] := rfl
    have hlast (fd' : Fd) : fd' ∈ (handle c s' fd draw).lastTimeForSocket ↔
        fd' ∈ Worker.handled (ls ++ [.next fd draw]) := by
      rw [mem_handle, handled_snoc, hh, List.mem_append, List.mem_singleton, ← h.last, or_comm]
    have htotal := noteLatency_total c s' fd
    rcases handle_cases c s' fd draw with he | he
    all_goals
      refine ⟨ht, fun fd' => ?_, hlast, ?_⟩
      · rw [he, pinged_of_nil rfl, ← h.mess]
        simp only [noteLatency_messCount, hs']
      · rw [he, handled_snoc, hh, List.length_append, ← h.lat]
        exact htotal
  | @answered fd rest bc wc now hpc hp =>
    have hm : fd ∈ s.lastTimeForSocket := h.tally.seen fd (by simp [unpinged, hpc])
    have hone : pinged c [Label.ping fd bc wc now] = [fd] := by simp [pinged, hp]
    refine ⟨ht, fun fd' => ?_, fun fd' => ?_, ?_⟩
    · rw [pinged_snoc, hone, List.mem_append, List.mem_singleton, ← h.mess, or_comm]
      exact Counter.mem_add
    · rw [handled_of_nil rfl, ← h.last]
      exact (AList.mem_insert _).trans (or_iff_right_of_imp (· ▸ hm))
    · have hpos := List.length_pos_of_mem (AList.mem_keys.mp hm)
      rw [handled_of_nil rfl, ← h.lat, AList.keys_insert, List.length_cons,
        List.length_erase_of_mem (AList.mem_keys.mp hm), Nat.sub_add_cancel hpos]
  | @broken fd rest bc wc now hpc hp =>
    exact h.frame ht rfl (by simp [pinged, hp]) rfl rfl rfl
  | _ => exact h.frame ht rfl rfl rfl rfl rfl

lemma run_traced {n : ℤ} (h : Machine.run (step c) (start n) ls = some s) : Traced c s ls := by
  refine Machine.run_observed (Traced c) (fun _ _ _ _ hs hl => step_traced hs hl) ?_ h
  exact ⟨start_tally n, by simp [start, pinged], by simp [start, handled], rfl⟩

lemma length_dedup {κ : Type*} [DecidableEq κ] {xs ys : List κ} (hx : xs.Nodup)
    (h : ∀ a, a ∈ xs ↔ a ∈ ys) : xs.length = ys.dedup.length := by
  refine ((List.perm_ext_iff_of_nodup hx ys.nodup_dedup).mpr fun a => ?_).length_eq
  rw [h, List.mem_dedup]

lemma Traced.messCount (h : Traced c s ls) :
    s.result.messCountForSock.values.length = (pinged c ls).dedup.length := by
  rw [Counter.values_length]
  exact length_dedup (AList.keys_nodup _) fun fd => AList.mem_keys.symm.trans (h.mess fd)

lemma Traced.latMap (h : Traced c s ls) :
    s.result.latMap.total + (handled ls).dedup.length = (handled ls).length := by
  rw [← h.lat, length_dedup (AList.keys_nodup s.lastTimeForSocket) fun fd =>
    AList.mem_keys.symm.trans (h.last fd)]

lemma Traced.latMap_eq_zero (h : Traced c s ls) :
    s.result.latMap.total = 0 ↔ (handled ls).Nodup := by
  have hl := h.latMap
  rw [← List.dedup_eq_self]
  constructor
  · intro h0
    exact (List.dedup_sublist _).eq_of_length (by omega)
  · intro he
    rw [he] at hl
    omega

end NetworkPing.Worker
