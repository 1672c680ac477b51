import NetworkPing.Server.ConnectWindow

namespace NetworkPing.ConnectAll

open Machine (Reaches)

variable {α : Type} {c : Config α} {s t : State α} {l : Label}

def inOrder (k : ℕ) : List Fd := (List.range k).map Nat.cast

structure Progress (c : Config α) (s : State α) (k : ℕ) : Prop where
  sockets : s.sockets = inOrder k
  waiting : s.waitingToConnect = s.registered.length
  size : s.waitingToConnect ≤ c.connQSize.toInt
  count : k ≤ c.sockCount.toInt

lemma inOrder_length (k : ℕ) : (inOrder k).length = k := by simp [inOrder]

lemma inOrder_succ (k : ℕ) : inOrder (k + 1) = inOrder k ++ [(k : ℤ)] := by
  simp [inOrder, List.range_succ]

lemma connectOne_succeeds {i m : ℤ} {a : Attempt} (ha : 0 ≤ a.sockfd) (hb : 0 ≤ a.bind)
    (hc : 0 ≤ a.connect) (he : a.epollCtl ≠ -1) : ∃ it bs, connectOne c s i m a = { s with
      pc := .socket (i + 1) m
      sockets := s.sockets ++ [a.sockfd]
      currIt := it
      waitingToConnect := s.waitingToConnect + 1
      registered := s.registered ++ [a.sockfd]
      binds := bs } := by
  have hfd : ¬ a.sockfd < 0 := by omega
  have hbind : ¬ (c.needBind ∧ 0 > a.bind) := by omega
  have hconn : ¬ (0 > a.connect ∧ ¬ a.inProgress) := by omega
  rw [connectOne, if_neg hfd, if_neg hbind, if_neg hconn, if_neg he.symm]
  cases c.needBind <;> exact ⟨_, _, rfl⟩

lemma reaches_attempts (d : ℕ) {i m : ℤ} {k : ℕ} (hp : Progress c s k) (hpc : s.pc = .socket i m)
    (hd : m = i + d) (hq : s.waitingToConnect + d ≤ c.connQSize.toInt)
    (hn : (k + d : ℤ) ≤ c.sockCount.toInt) :
    ∃ t, Reaches (step c) s t ∧ Progress c t (k + d) ∧ t.pc = .socket m m ∧
      t.waitingToConnect = s.waitingToConnect + d := by
  induction d generalizing s i k with
  | zero =>
    obtain rfl : m = i := by simpa using hd
    exact ⟨s, .refl s, hp, hpc, by simp⟩
  | succ d ih =>
    push_cast at hd hq hn
    set a : Attempt := ⟨k, 0, 0, true, 0⟩ with ha
    obtain ⟨it, bs, he⟩ := @connectOne_succeeds _ c s i m a (Int.natCast_nonneg k) le_rfl le_rfl
      (by simp [ha])
    have hstep : step c s (.attempt a) = some (connectOne c s i m a) := by
      simp only [step, hpc]
      exact if_pos (by omega)
    rw [he] at hstep
    have hp' : Progress c { s with
        pc := .socket (i + 1) m
        sockets := s.sockets ++ [a.sockfd]
        currIt := it
        waitingToConnect := s.waitingToConnect + 1
        registered := s.registered ++ [a.sockfd]
        binds := bs } (k + 1) := by
      refine ⟨?_, ?_, by dsimp only; omega, by push_cast; omega⟩
      · rw [inOrder_succ, hp.sockets]
      · simp [hp.waiting]
    obtain ⟨t, hr, ht, htpc, hw⟩ := ih hp' rfl (by omega) (by dsimp only; omega)
      (by push_cast; omega)
    refine ⟨t, hr.head hstep, ?_, htpc, ?_⟩
    · rwa [Nat.add_right_comm, Nat.add_assoc] at ht
    · rw [hw]
      push_cast
      omega

lemma reaches_confirm {m : ℤ} {k : ℕ} (hp : Progress c s k) (hpc : s.pc = .socket m m)
    (hr : s.registered ≠ []) : ∃ t, Reaches (step c) s t ∧ Progress c t k ∧ t.pc = .head ∧
      t.waitingToConnect = s.waitingToConnect - 1 := by
  obtain ⟨fd, rest, hreg⟩ := List.exists_cons_of_ne_nil hr
  have hrep : Reportable s [fd] := ⟨List.nodup_singleton fd, by simp [hreg]⟩
  have hw := hp.waiting
  have hsize := hp.size
  rw [hreg, List.length_cons] at hw
  push_cast at hw
  refine ⟨{ s with
    pc := .head
    waitingToConnect := s.waitingToConnect - 1
    sel := { s.sel with ready := [], current := some fd }
    registered := rest }, ⟨[.wait (some [fd]), .check fd 0 0, .exhausted], ?_⟩,
    ⟨hp.sockets, by dsimp only; omega, by dsimp only; omega, hp.count⟩, rfl, rfl⟩
  simp [Machine.run_cons, step, hpc, hrep, hreg, EPollRSelector.readyCount, EPollRSelector.next,
    EPollRSelector.removeCurrentReady, checkSocketReady]

lemma reaches_ret {k : ℕ} (hp : Progress c s k) (hpc : s.pc = .head) (hq : 1 ≤ c.connQSize.toInt) :
    ∃ t, Reaches (step c) s t ∧ t.pc = .ret true ∧ t.sockets = inOrder c.sockCount.toInt.toNat := by
  induction hμ : 2 * (c.sockCount.toInt - k).toNat + s.waitingToConnect.toNat using
    Nat.strong_induction_on generalizing s k with
  | _ μ ih =>
    have hcount := hp.count
    have hw := hp.waiting
    have hsize := hp.size
    have hlt := c.sockCount.toInt_lt
    have hlen : s.sockets.length = k := by rw [hp.sockets, inOrder_length]
    by_cases hpend : Pending c s
    · have hstep : step c s .loop = some { s with pc := .socket 0 (maxConnect c s) } := by
        simp [step, hpc, hpend]
      rw [Pending, hlen] at hpend
      have hroom : 0 < s.waitingToConnect + (c.sockCount.toInt - k) := by
        rcases hpend with hd | hd
        · by_contra hle
          rw [show c.sockCount.toInt - k = 0 by omega] at hd
          exact hd rfl
        · omega
      obtain ⟨d, hd⟩ : ∃ d : ℕ, maxConnect c s = 0 + d := by
        refine ⟨(maxConnect c s).toNat, ?_⟩
        simp only [maxConnect, hlen]
        omega
      have hd' := hd
      simp only [maxConnect, hlen, zero_add] at hd'
      have hp0 : Progress c { s with pc := .socket 0 (maxConnect c s) } k :=
        ⟨hp.sockets, hp.waiting, hp.size, hp.count⟩
      obtain ⟨t, hr, ht, htpc, htw⟩ := reaches_attempts d hp0 rfl hd (by dsimp only; omega)
        (by omega)
      dsimp only at htw
      have hreg : t.registered ≠ [] := by
        intro hnil
        have := ht.waiting
        rw [hnil, List.length_nil] at this
        omega
      obtain ⟨u, hru, hu, hupc, huw⟩ := reaches_confirm ht htpc hreg
      obtain ⟨v, hv, hret⟩ := ih _ (by omega) hu hupc rfl
      exact ⟨v, (hr.trans (hru.trans hv)).head hstep, hret⟩
    · have hstep : step c s .exit = some { s with pc := .ret true } := by
        simp [step, hpc, hpend]
      rw [Pending, not_or, not_not, not_not, hlen, Int.emod_eq_of_lt (by omega) (by omega)] at hpend
      refine ⟨_, .head hstep (.refl _), rfl, ?_⟩
      rw [show c.sockCount.toInt.toNat = k by omega]
      exact hp.sockets

theorem can_connect (c : Config α) (hn : 0 ≤ c.sockCount.toInt) (hq : 1 ≤ c.connQSize.toInt) :
    ∃ t, Reaches (step c) (start c []) t ∧ t.pc = .ret true ∧
      t.sockets = inOrder c.sockCount.toInt.toNat := by
  have hp : Progress c { start c [] with pc := .head } 0 :=
    ⟨rfl, rfl, by dsimp only [start]; omega, hn⟩
  obtain ⟨t, hr, ht⟩ := reaches_ret hp rfl hq
  have hstart : Reaches (step c) (start c []) { start c [] with pc := .head } :=
    ⟨[.gethostbyname true, .epollCreate 3], rfl⟩
  exact ⟨t, hstart.trans hr, ht⟩

def Doomed (s : State α) : Prop :=
  match s.pc with
  | .resolve => s.registered = []
  | .create | .head => s.registered = [] ∧ s.sockets = []
  | .socket i m => s.registered = [] ∧ m ≤ i
  | .confirm => False
  | .ret b => b = false

lemma step_doomed (hn : c.sockCount.toInt < 0) (hs : Doomed s) (h : step c s l = some t) :
    Doomed t := by
  cases step_moves h with
  | found hpc => exact ⟨by simpa only [Doomed, hpc] using hs, rfl⟩
  | unknown | noSelector | waitFailed | noneReady => rfl
  | selector hpc => simpa only [Doomed, hpc] using hs
  | enter hpc hp =>
    obtain ⟨hr, hsock⟩ : _ ∧ _ := by simpa only [Doomed, hpc] using hs
    have hle := min_le_left (c.sockCount.toInt - s.sockets.length)
      (c.connQSize.toInt - s.waitingToConnect)
    refine ⟨hr, ?_⟩
    rw [maxConnect]
    omega
  | exit hpc hp =>
    obtain ⟨-, hsock⟩ : _ ∧ _ := by simpa only [Doomed, hpc] using hs
    have hle := c.sockCount.le_toInt
    rw [Pending, hsock, List.length_nil] at hp
    omega
  | attempt hpc hi =>
    obtain ⟨-, hle⟩ : _ ∧ _ := by simpa only [Doomed, hpc] using hs
    omega
  | waited hpc hi hr =>
    obtain ⟨hreg, -⟩ : _ ∧ _ := by simpa only [Doomed, hpc] using hs
    have := hr.2 _ List.mem_cons_self
    rw [hreg] at this
    cases this
  | confirmed hpc | refused hpc | exhausted hpc => simp only [Doomed, hpc] at hs

theorem negative_fails (hn : c.sockCount.toInt < 0) {ls : List Label} {b : Bool}
    (h : Machine.run (step c) (start c []) ls = some s) (hb : s.pc = .ret b) : b = false := by
  have h0 : Doomed (start c []) := rfl
  have hs := Machine.run_invariant Doomed (fun _ _ _ hs hl => step_doomed hn hs hl) h0 h
  simpa only [Doomed, hb] using hs

end NetworkPing.ConnectAll
