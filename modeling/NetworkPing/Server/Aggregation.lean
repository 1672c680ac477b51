import NetworkPing.Checked
import NetworkPing.Server.WorkerTrace

/-! The end of `run_test`: the results of the workers are put together. A `Check` is the
condition under which an operation is defined in C++. -/

namespace NetworkPing

namespace Worker

structure Finished (c : Config) (sockCount : ℤ) where
  labels : List Label
  state : State
  run : Machine.run (step c) (start sockCount) labels = some state
  returned : state.pc = .returned

/-- `epoll` has reported the sockets of the worker only, each once before it is read. -/
structure Served (c : Config) (sockCount : ℤ) (fds : List Fd) extends Finished c sockCount where
  out : List Fd
  reported : Machine.run (report c fds) [] labels = some out

def Served.atOnce (c : Config) (sockCount : ℤ) (fds : List Fd) : Served c sockCount fds where
  labels := [.wait none 0]
  state := { start sockCount with pc := .returned }
  out := []
  run := rfl
  reported := rfl
  returned := rfl

end Worker

namespace RunTest

/-- An integer division by `d`, a product of type `int`, an `int` that is converted to a size, an
element of a vector, a floating-point quotient, and a `double` that is converted to `long`. -/
inductive Check
  | div (d : ℤ)
  | int (n : ℤ)
  | size (n : ℤ)
  | index (i len : ℕ)
  | ratio (count : ℕ)
  | long (q : ℚ)
  deriving DecidableEq

def Check.Ok : Check → Prop
  | .div d => d ≠ 0
  | .int n => -2 ^ 31 ≤ n ∧ n < 2 ^ 31
  | .size n => 0 ≤ n
  | .index i len => i < len
  | .ratio count => count ≠ 0
  | .long q => -2 ^ 63 - 1 < q ∧ q < 2 ^ 63

instance : DecidablePred Check.Ok
  | .div d => inferInstanceAs (Decidable (d ≠ 0))
  | .int n => inferInstanceAs (Decidable (-2 ^ 31 ≤ n ∧ n < 2 ^ 31))
  | .size n => inferInstanceAs (Decidable (0 ≤ n))
  | .index i len => inferInstanceAs (Decidable (i < len))
  | .ratio count => inferInstanceAs (Decidable (count ≠ 0))
  | .long q => inferInstanceAs (Decidable (-2 ^ 63 - 1 < q ∧ q < 2 ^ 63))

-- all but the range of the conversion
def Check.Bounded : Check → Prop
  | .long _ => True
  | k => k.Ok

def div (n d : ℤ) : Checked Check ℤ := .check (.div d) (n.tdiv d)

def mul (n m : ℤ) : Checked Check ℤ := .check (.int (n * m)) (n * m)

def size (n : ℤ) : Checked Check Unit := .check (.size n) ()

def item (xs : List ℕ) (i : ℕ) : Checked Check ℕ := .check (.index i xs.length) (xs.getD i 0)

def ratio (q : ℚ) (count : ℕ) : Checked Check ℕ := do
  let avg ← .check (.ratio count) (q / count)
  .check (.long avg) avg.floor.toNat

def shard (sockets : List Fd) (workerThreads i : ℕ) : List Fd :=
  (sockets.zipIdx.filter fun x => x.2 % workerThreads = i).map Prod.fst

def percentile (numConn : ℤ) (mps : List ℕ) (i : ℕ) : Checked Check ℕ := do
  let n ← mul numConn (i + 1)
  -- the division is one of `size_t`
  item mps ((n % 2 ^ 64).toNat / (19 + 1))

def aggregate (base : ℚ) (numConn : ℤ) (tresults : List TestResult) : Checked Check TestResult := do
  let mcount := (tresults.map TestResult.mcount).sum
  let latMap := tresults.foldl (fun m ires => m.merge ires.latMap) ∅
  size numConn
  let mps := (tresults.flatMap fun ires => ires.messCountForSock.values).mergeSort
  let percentiles ← .ofFn fun i : Fin 19 => percentile numConn mps i
  let latNsSum := (latMap.entries.map fun latRef => latRef.2 * base ^ latRef.1).sum
  let avgLatNs ← ratio latNsSum latMap.total
  return { mcount, avgLatNs, percentiles, latMap }

variable {xs : List ℕ} {n d : ℤ} {i count : ℕ} {P : Check → Prop}

@[simp] lemma all_div : (div n d).All P ↔ P (.div d) := Checked.all_check _

@[simp] lemma all_mul : (mul n d).All P ↔ P (.int (n * d)) := Checked.all_check _

@[simp] lemma all_size : (size n).All P ↔ P (.size n) := Checked.all_check _

@[simp] lemma all_item : (item xs i).All P ↔ P (.index i xs.length) := Checked.all_check _

@[simp] lemma all_ratio (q : ℚ) :
    (ratio q count).All P ↔ P (.ratio count) ∧ P (.long (q / count)) := by
  simp [ratio]

@[simp] lemma value_mul : (mul n d).value = n * d := rfl

lemma all_percentile (numConn : ℤ) : (percentile numConn xs i).All P ↔
    P (.int (numConn * (i + 1))) ∧
      P (.index ((numConn * (i + 1) % 2 ^ 64).toNat / (19 + 1)) xs.length) := by
  simp [percentile]

def messageCounts (tresults : List TestResult) : List ℕ :=
  (tresults.flatMap fun ires => ires.messCountForSock.values).mergeSort

def latencyCount (tresults : List TestResult) : ℕ :=
  (tresults.map fun ires => ires.latMap.total).sum

def latNsSum (base : ℚ) (tresults : List TestResult) : ℚ :=
  ((tresults.foldl (fun m ires => m.merge ires.latMap) (∅ : Counter ℕ)).entries.map fun latRef =>
    latRef.2 * base ^ latRef.1).sum

lemma total_foldl_merge (tresults : List TestResult) (m : Counter ℕ) :
    (tresults.foldl (fun m ires => m.merge ires.latMap) m).total =
      m.total + latencyCount tresults := by
  induction tresults generalizing m with
  | nil => rfl
  | cons ires tresults ih =>
    rw [List.foldl_cons, ih, Counter.total_merge, latencyCount, latencyCount, List.map_cons,
      List.sum_cons, Nat.add_assoc]

lemma all_aggregate (base : ℚ) (numConn : ℤ) (tresults : List TestResult) :
    (aggregate base numConn tresults).All P ↔ P (.size numConn) ∧
      (∀ i : Fin 19, P (.int (numConn * (i + 1))) ∧ P (.index
        ((numConn * (i + 1) % 2 ^ 64).toNat / (19 + 1)) (messageCounts tresults).length)) ∧
      P (.ratio (latencyCount tresults)) ∧
      P (.long (latNsSum base tresults / latencyCount tresults)) := by
  simp [aggregate, all_percentile, messageCounts, total_foldl_merge, latNsSum]

lemma percentiles_ok {numConn : ℤ} (h : 1 ≤ numConn) (len : ℕ) :
    (∀ i : Fin 19, Check.Ok (.int (numConn * (i + 1))) ∧
      Check.Ok (.index ((numConn * (i + 1) % 2 ^ 64).toNat / (19 + 1)) len)) ↔
    numConn * 19 < 2 ^ 31 ∧ numConn * 19 / 20 < len := by
  have one {n : ℤ} (h0 : 0 ≤ n) (h31 : n < 2 ^ 31) :
      (n % 2 ^ 64).toNat / (19 + 1) < len ↔ n / 20 < len := by
    rw [Int.emod_eq_of_lt h0 (by omega)]
    omega
  constructor
  · intro hi
    obtain ⟨hint, hidx⟩ := hi 18
    have h19 : numConn * ((18 : Fin 19) + 1 : ℤ) = numConn * 19 := rfl
    rw [h19] at hint hidx
    exact ⟨hint.2, (one (by omega) hint.2).mp hidx⟩
  · rintro ⟨hint, hidx⟩ i
    have hle : numConn * (i + 1 : ℤ) ≤ numConn * 19 :=
      Int.mul_le_mul_of_nonneg_left (by omega) (by omega)
    have hpos : 0 ≤ numConn * (i + 1 : ℤ) := Int.mul_nonneg (by omega) (by omega)
    generalize numConn * (i + 1 : ℤ) = n at hle hpos ⊢
    exact ⟨⟨by omega, by omega⟩, (one hpos (by omega)).mpr (by omega)⟩

variable {c : Worker.Config} {sockCount : ℤ} {workerThreads : ℕ}

def tresults (runs : Fin workerThreads → Worker.Finished c sockCount) : List TestResult :=
  List.ofFn fun i => (runs i).state.result

lemma messageCounts_length
    (runs : Fin workerThreads → Worker.Finished c sockCount) :
    (messageCounts (tresults runs)).length =
      ∑ i, (Worker.pinged c (runs i).labels).dedup.length := by
  rw [messageCounts, List.length_mergeSort, List.length_flatMap, tresults, List.map_ofFn,
    List.sum_ofFn]
  exact Finset.sum_congr rfl fun i _ => (Worker.run_traced (runs i).run).messCount

lemma latencyCount_eq_zero
    (runs : Fin workerThreads → Worker.Finished c sockCount) :
    latencyCount (tresults runs) = 0 ↔ ∀ i, (Worker.handled (runs i).labels).Nodup := by
  rw [latencyCount, tresults, List.map_ofFn, List.sum_ofFn, Finset.sum_eq_zero_iff]
  simp only [Finset.mem_univ, true_imp_iff, Function.comp_apply]
  exact forall_congr' fun i => (Worker.run_traced (runs i).run).latMap_eq_zero

theorem aggregation_defined (base : ℚ) (numConn : Int32) (h : 1 ≤ numConn.toInt)
    (runs : Fin workerThreads → Worker.Finished c sockCount) :
    (aggregate base numConn.toInt (tresults runs)).All Check.Bounded ↔
      numConn.toInt * 19 < 2 ^ 31 ∧
      numConn.toInt * 19 / 20 < ∑ i, (Worker.pinged c (runs i).labels).dedup.length ∧
      ∃ i, ¬ (Worker.handled (runs i).labels).Nodup := by
  have hbounded : (aggregate base numConn.toInt (tresults runs)).All Check.Bounded ↔
      Check.Ok (.size numConn.toInt) ∧ (∀ i : Fin 19, Check.Ok (.int (numConn.toInt * (i + 1))) ∧
        Check.Ok (.index ((numConn.toInt * (i + 1) % 2 ^ 64).toNat / (19 + 1))
          (messageCounts (tresults runs)).length)) ∧
        Check.Ok (.ratio (latencyCount (tresults runs))) ∧ True := all_aggregate ..
  rw [hbounded, percentiles_ok h, messageCounts_length, ← not_forall, ← latencyCount_eq_zero runs]
  simp only [Check.Ok, Nat.cast_sum]
  have hsize : 0 ≤ numConn.toInt := by omega
  tauto

def twoEvents (i : Fin 1) : Worker.Served ⟨3, 0, 0, fun _ => 0⟩ 1 (shard [5] 1 i) where
  labels := [.wait (some [5]) 10, .done false, .next 5 0, .done false, .exhausted,
    .done false, .ping 5 3 3 20, .pinged, .wait (some [5]) 30, .done false, .next 5 0, .done true]
  state := ⟨.returned, ⟨1, [], some 5⟩, (AList.insert 5 0 ∅).insert 5 20, [5], [], 30,
    { mcount := 2, latMap := Counter.add ∅ 0 1, messCountForSock := Counter.add ∅ 5 1 }⟩
  out := [5]
  run := rfl
  reported := by
    rw [Fin.fin_one_eq_zero i]
    rfl
  returned := rfl

theorem aggregation_defined_one :
    (aggregate 2 1 (tresults fun i => (twoEvents i).toFinished)).All Check.Bounded :=
  (aggregation_defined 2 1 (by decide) _).mpr ⟨by decide, by decide, 0, by decide⟩

theorem aggregation_undefined :
    let runs := fun i : Fin 1 => Worker.Served.atOnce ⟨3, 0, 0, fun _ => 0⟩ 1 (shard [5] 1 i)
    let res := aggregate 2 1 (tresults fun i => (runs i).toFinished)
    Check.index 0 0 ∈ res.checks ∧ Check.ratio 0 ∈ res.checks ∧ ¬ res.All Check.Bounded := by
  intro runs res
  have hidx : Check.index 0 0 ∈ res.checks := by decide +kernel
  have hratio : Check.ratio 0 ∈ res.checks := by decide +kernel
  exact ⟨hidx, hratio, fun h => Nat.lt_irrefl 0 (h _ hidx)⟩

end RunTest

end NetworkPing
