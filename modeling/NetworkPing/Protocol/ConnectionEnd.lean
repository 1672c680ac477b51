import NetworkPing.Protocol.Connection

namespace NetworkPing.Connection

variable {α : Type*} {message : List α} {s t u : State α} {l : Label} {ls ks : List Label}
  {p q : Peer}

lemma Holds.not_stopped (h : Holds message s p) : s.side p ≠ .stopped := by
  intro hs
  rcases h.holds with ⟨hw, -⟩ | ⟨hw, -⟩ <;> simp [hw] at hs

lemma Dead.run (hm : message ≠ []) (h : Dead message s p)
    (hr : Machine.run (Connection.step message) s ks = some t) : t.answered = s.answered := by
  refine (Machine.run_invariant (fun t => Dead message t p ∧ t.answered = s.answered) ?_
    ⟨h, rfl⟩ hr).2
  rintro u l v ⟨hd, ha⟩ hl
  obtain ⟨hd', ha'⟩ := hd.step hm hl
  exact ⟨hd', ha'.trans ha⟩

lemma Holds.run (hm : message ≠ []) (h : Holds message s p) (hs : s.side p.other = .stopped)
    (hr : Machine.run (Connection.step message) s ks = some t) : t.answered = s.answered ∨
      t.answered = Function.update s.answered p (s.answered p ++ [message]) := by
  induction ks generalizing s with
  | nil =>
    cases Option.some.inj hr
    exact .inl rfl
  | cons l ks ih =>
    obtain ⟨u, hl, hr⟩ := Machine.run_cons_some.mp hr
    obtain ⟨hu, ha, hw⟩ | ⟨hu, -, ha⟩ | ⟨hd, -, ha⟩ := h.step hm hl
    · have hstop : u.side p.other = .stopped := by
        rcases hw with hw | ⟨-, hw⟩
        · exact hw.trans hs
        · exact hw
      rw [← ha]
      exact ih hu hstop hr
    · rcases hu with ⟨-, hw⟩ | ⟨hd, -⟩
      · simp [hs] at hw
      · exact .inr ((hd.run hm hr).trans ha)
    · exact .inl ((hd.run hm hr).trans ha)

theorem connection_ends (message : List α) (hm : message ≠ []) (p : Peer) (ls : List Label)
    (l : Label) (ks : List Label) (s u t : State α)
    (h : Machine.run (step message) start ls = some s) (hl : step message s l = some u)
    (hs : s.side p ≠ .stopped) (hu : u.side p = .stopped)
    (hr : Machine.run (step message) u ks = some t) :
    t.answered = u.answered ∨ l = .recv p false ∧ Holds message u p.other ∧
      t.answered = Function.update u.answered p.other (u.answered p.other ++ [message]) := by
  rcases (run_inv hm h).phase with hf | ⟨q, hq⟩ | ⟨q, hq⟩
  · obtain ⟨-, hf | ⟨-, hw⟩ | ⟨q, hd, -⟩⟩ := hf.step hm hl
    · cases p
      · simp [hf.server] at hu
      · simp [hf.client] at hu
    · simp [hw] at hu
    · exact .inl (hd.run hm hr)
  · obtain ⟨hh, -, hw⟩ | ⟨hh, hw, -⟩ | ⟨hd, -, -⟩ := hq.step hm hl
    · rcases Peer.eq_or_other q p with rfl | rfl
      · exact (hh.not_stopped hu).elim
      · rcases hw with hw | ⟨hw, -⟩
        · exact (hs (hw.symm.trans hu)).elim
        · rw [Peer.other_other]
          exact (hh.run hm hu hr).imp_right fun ha => ⟨hw, hh, ha⟩
    · rcases Peer.eq_or_other q p with rfl | rfl
      · simp [hw] at hu
      · rcases hh with ⟨hh, -⟩ | ⟨-, hstop⟩
        · exact (hh.not_stopped hu).elim
        · exact (hs hstop).elim
    · exact .inl (hd.run hm hr)
  · exact .inl ((hq.step hm hl).1.run hm hr)

theorem connection_ends_cut :
    ∃ s u t, Machine.run (step [1, 2]) start [.write 2, .arrive .client 1] = some s ∧
      step [1, 2] s (.recv .client true) = some u ∧ u.side .client = .stopped ∧
      Machine.run (step [1, 2]) u [.arrive .client 1, .recv .server false] = some t ∧
      (t.answered = u.answered ∨ Label.recv .client true = .recv .client false ∧
        Holds [1, 2] u .server ∧ t.answered =
          Function.update u.answered .server (u.answered .server ++ [[1, 2]])) := by
  refine ⟨_, _, _, rfl, rfl, by decide, rfl, ?_⟩
  exact connection_ends [1, 2] (by simp) .client [.write 2, .arrive .client 1] (.recv .client true)
    [.arrive .client 1, .recv .server false] _ _ _ rfl rfl (by decide) (by decide) rfl

lemma Holds.arrives (h : Holds message s p) (hs : s.side p = .waiting) : ∃ t,
    Connection.step message s (.arrive p message.length) = some t ∧ Holds message t p ∧
      t.side = s.side ∧ t.answered = s.answered ∧ (t.inbox p).arrived = message := by
  have hc : (s.inbox p).content = message := by
    rcases h.holds with hw | hw
    · exact hw.2
    · simp [hs] at hw
  have hle : (s.inbox p).inFlight.length ≤ message.length := by
    rw [← hc, ByteStream.content, List.length_append]
    exact Nat.le_add_left _ _
  refine ⟨_, rfl, h.arrived p message.length, rfl, rfl, ?_⟩
  simp only [Function.update_self, ByteStream.arrive, List.take_of_length_le hle]
  exact hc

lemma Holds.take (hm : message ≠ []) (h : Holds message s p) (hs : s.side p = .waiting) :
    ∃ ks t, Machine.run (Connection.step message) s ks = some t ∧ Holds message t p ∧
      t.side p = .answering message ∧ t.side p.other = s.side p.other ∧
      t.answered = s.answered := by
  obtain ⟨v, hl, hv, hside, ha, harrived⟩ := h.arrives hs
  have hw : v.side p = .waiting := by rw [hside, hs]
  have hread : (v.inbox p).read message.length = message := by
    rw [ByteStream.read, harrived, List.take_length]
  have hmove := Moves.received hw (by rwa [harrived]) (congrArg List.length hread)
  refine ⟨[.arrive p message.length, .recv p true], _,
    Machine.run_step hl (Machine.run_step (hmove.step hm) rfl),
    hv.received hw (congrArg _ hread), ?_⟩
  simp [hread, hside, ha]

end NetworkPing.Connection
