import NetworkPing.Server.RunTest

namespace NetworkPing.RunTest

variable {α : Type} {bucket : UInt64 → ℕ} {params : TestParams} {P : Check → Prop}

def Check.Arithmetic : Check → Prop
  | .div d => d ≠ 0
  | .int n => -2 ^ 31 ≤ n ∧ n < 2 ^ 31
  | .size n => 0 ≤ n
  | .index _ _ => True
  | .ratio _ => True
  | .long _ => True

lemma all_createSelectors {sockCount : ℤ} {ok : ℕ → Bool} (h : P (.size sockCount)) (i n : ℕ) :
    (createSelectors sockCount ok i n).All P := by
  induction n generalizing i with
  | zero => exact Checked.all_pure true
  | succ n ih =>
    rw [createSelectors, Checked.all_bind]
    refine ⟨all_size.mpr h, ?_⟩
    split_ifs
    · exact ih (i + 1)
    · exact Checked.all_pure false

lemma value_createSelectors (sockCount : ℤ) (i n : ℕ) :
    (createSelectors sockCount (fun _ => true) i n).value = true := by
  induction n generalizing i with
  | zero => rfl
  | succ n ih => exact ih (i + 1)

lemma all_workerBuffers {messageLen sockCount : ℤ} : (workerBuffers messageLen sockCount).All P ↔
    P (.size messageLen) ∧ P (.size sockCount) := by
  simp [workerBuffers]

@[simp] lemma value_div (n d : ℤ) : (div n d).value = n.tdiv d := rfl

def Sound (params : TestParams) : Prop :=
  params.numConn.toInt < 0 ∨
    (1 ≤ params.numConn.toInt ∧ params.numConn.toInt ≤ 113025455) ∧
    (params.runtime.toInt ≠ 0 ∧ |params.runtime.toInt| ≤ 214748364) ∧
    0 ≤ params.messageLen.toInt

lemma not_connected (h : params.numConn.toInt < 0) (o : Outcomes α bucket params 3) :
    o.connect.result = false := by
  have hn : (connectConfig params o.clientIpAddrs).sockCount.toInt < 0 := h
  exact ConnectAll.negative_fails hn o.connect.run o.connect.returned

lemma connected_count (o : Outcomes α bucket params 3) (hc : o.connect.result = true) :
    (o.connect.state.sockets.length : ℤ) = params.numConn.toInt := by
  have hn : 0 ≤ params.numConn.toInt := by
    by_contra hneg
    rw [not_connected (by omega) o] at hc
    cases hc
  have hq : 1 ≤ (connectConfig params o.clientIpAddrs).connQSize.toInt := by
    change 1 ≤ (32 : Int32).toInt
    decide
  have hi := (ConnectAll.run_inv o.connect.run hn hq).phase
  rw [ConnectAll.Phase, o.connect.returned, hc] at hi
  exact hi.2.2

lemma threads_pos (h : 1 ≤ params.numConn.toInt) : 1 ≤ threads params 3 :=
  le_min h (by decide)

lemma maxSockCount_nonneg (h : 1 ≤ params.numConn.toInt) :
    0 ≤ params.numConn.toInt.tdiv (threads params 3) + 1 := by
  have := Int.tdiv_nonneg (by omega : 0 ≤ params.numConn.toInt)
    (by have := threads_pos h; omega : 0 ≤ threads params 3)
  omega

lemma aggregate_arithmetic (base : ℚ) {numConn : ℤ} (hn : 1 ≤ numConn)
    (hp : numConn * 19 < 2 ^ 31) (tresults : List TestResult) :
    (aggregate base numConn tresults).All Check.Arithmetic := by
  rw [all_aggregate]
  refine ⟨by show 0 ≤ numConn; omega, fun i => ⟨?_, trivial⟩, trivial, trivial⟩
  have hok := (percentiles_ok hn (numConn * 19).toNat).mpr ⟨hp, by omega⟩ i
  exact hok.1

lemma runTest_arithmetic (base : ℚ) (hn : 1 ≤ params.numConn.toInt)
    (hp : params.numConn.toInt * 19 < 2 ^ 31) (hr : |params.runtime.toInt| ≤ 214748364)
    (hl : 0 ≤ params.messageLen.toInt) (o : Outcomes α bucket params 3) :
    (runTest base params 3 o).All Check.Arithmetic := by
  have hthreads : threads params 3 ≠ 0 := by
    have := threads_pos hn
    omega
  have hmax := maxSockCount_nonneg hn
  have hsleeps : Check.Arithmetic (.int (params.runtime.toInt * 10)) := by
    rw [abs_le] at hr
    exact ⟨by omega, by omega⟩
  cases hc : o.connect.result with
  | false => simp [runTest, hc]
  | true => ?_
  simp only [runTest, hc, Bool.not_true, Bool.false_eq_true, if_false, Checked.all_bind, all_div,
    value_div]
  refine ⟨hthreads, all_createSelectors hmax _ _, ?_⟩
  split_ifs
  · exact Checked.all_pure _
  · exact Checked.all_pure _
  simp only [Checked.all_bind, all_size]
  refine ⟨(Checked.all_forM _ _).mpr fun _ _ => all_workerBuffers.mpr ⟨hl, hmax⟩, hl, ?_,
    aggregate_arithmetic base hn hp _, Checked.all_pure _⟩
  rw [sleeps]
  split_ifs
  · exact Checked.all_pure _
  · exact all_mul.mpr hsleeps

lemma not_failed {n : ℕ} {m : ℤ} {write : ℕ → ℤ} (h : ∀ i < n, write i = m) :
    ¬ ∃ i < n, ¬ m = write i := by
  rintro ⟨i, hi, hne⟩
  exact hne (h i hi).symm

lemma all_serve (base : ℚ) (o : Outcomes α bucket params 3) (hc : o.connect.result = true)
    (hs : o.selectorOk = fun _ => true) (ha : o.addFd = fun _ => true)
    (hw : ∀ i < o.connect.state.sockets.length, o.write i = params.messageLen.toInt) :
    (serve base params o).All P ↔
      (P (.div (threads params 3)) ∧
        (createSelectors (params.numConn.toInt.tdiv (threads params 3) + 1) (fun _ => true) 0
          (threads params 3).toNat).All P ∧
        (forM (List.range (threads params 3).toNat) fun _ => workerBuffers params.messageLen.toInt
          (params.numConn.toInt.tdiv (threads params 3) + 1)).All P ∧
        P (.size params.messageLen.toInt) ∧ P (.int (params.runtime.toInt * 10)) ∧
        (aggregate base params.numConn.toInt (tresults fun i => (o.workers i).toFinished)).All P) ∧
      P (.div params.runtime.toInt) := by
  simp [serve, runTest, sleeps, hc, hs, ha, not_failed hw, value_createSelectors]

lemma exists_outcomes (hn : 0 ≤ params.numConn.toInt) : ∃ o : Outcomes α bucket params 3,
    o.connect.result = true ∧ o.selectorOk = (fun _ => true) ∧ o.addFd = (fun _ => true) ∧
      o.write = fun _ => params.messageLen.toInt := by
  have hq : 1 ≤ (connectConfig params ([] : List α)).connQSize.toInt := by
    change 1 ≤ (32 : Int32).toInt
    decide
  obtain ⟨t, ⟨ls, hr⟩, hpc, hsock⟩ := ConnectAll.can_connect _ hn hq
  have hnodup : t.sockets.Nodup := by
    rw [hsock]
    exact List.nodup_range.map Nat.cast_injective
  exact ⟨⟨[], ⟨ls, t, true, hr, hpc⟩, hnodup, fun _ => true, fun _ => true,
    fun _ => params.messageLen.toInt, fun _ => .atOnce _ _ _⟩, rfl, rfl, rfl, rfl⟩

theorem request_arithmetic (α : Type) (bucket : UInt64 → ℕ) (base : ℚ) (params : TestParams) :
    (∀ o : Outcomes α bucket params 3, (serve base params o).All Check.Arithmetic) ↔
      Sound params := by
  constructor
  · intro h
    by_cases hneg : params.numConn.toInt < 0
    · exact .inl hneg
    obtain ⟨o, hc, hs, ha, hw⟩ := @exists_outcomes α bucket params (by omega)
    obtain ⟨⟨hdiv, -, -, hlen, hsleeps, hagg⟩, hrun⟩ :=
      (all_serve base o hc hs ha fun i _ => congrFun hw i).mp (h o)
    have hn : 1 ≤ params.numConn.toInt := by
      by_contra h0
      apply hdiv
      rw [threads, show params.numConn.toInt = 0 by omega]
      rfl
    have hprod := ((all_aggregate base _ _).mp hagg).2.1 18
    have h19 : params.numConn.toInt * ((18 : Fin 19) + 1 : ℤ) = params.numConn.toInt * 19 := rfl
    rw [h19] at hprod
    have hlt := hprod.1.2
    refine .inr ⟨⟨hn, by omega⟩, ⟨hrun, ?_⟩, hlen⟩
    rw [abs_le]
    exact ⟨by have := hsleeps.1; omega, by have := hsleeps.2; omega⟩
  · rintro (hneg | ⟨⟨hn, hmax⟩, ⟨hrun, habs⟩, hlen⟩) o
    · have hc := not_connected hneg o
      simp [serve, runTest, hc]
    · rw [serve, Checked.all_bind]
      refine ⟨runTest_arithmetic base hn (by omega) habs hlen o, ?_⟩
      dsimp only
      split_ifs
      · exact Checked.all_pure _
      · exact (Checked.all_bind _ _).mpr ⟨all_div.mpr hrun, Checked.all_pure _⟩

theorem request_divides_by_zero : ∃ params,
    Request.loadFromStr "1.2 1 0 1 0 0 1".toList = .accepted params ∧
    ∃ o : Outcomes ℕ (fun _ => 0) params 3, Check.div 0 ∈ (serve 2 params o).checks ∧
      ¬ (serve 2 params o).All Check.Arithmetic := by
  refine ⟨⟨1, 0, 1, 1, 0, 0, ⟨"1.2".toList, by decide⟩⟩, by decide +kernel, ?_⟩
  obtain ⟨o, hc, hs, ha, hw⟩ := @exists_outcomes ℕ (fun _ => 0)
    ⟨1, 0, 1, 1, 0, 0, ⟨"1.2".toList, by decide⟩⟩ (by decide)
  have hmem : Check.div 0 ∈ (serve 2 _ o).checks := by
    by_contra hn
    have hall : (serve 2 _ o).All (· ≠ Check.div 0) := fun k hk he => hn (he ▸ hk)
    exact ((all_serve 2 o hc hs ha fun i _ => congrFun hw i).mp hall).1.1 rfl
  exact ⟨o, hmem, fun h => h _ hmem rfl⟩

end NetworkPing.RunTest
