import NetworkPing.Grouping
import NetworkPing.Report.Records
import NetworkPing.Sequences

/-! `main` of plot_tests_results.py up to its tables, without options that select. The
tables have their keys in common, so a row holds what all of them have under one key;
of the tables of `stime` and `utime` the division by the runtime is kept. -/

namespace NetworkPing.Report

structure TestRun (ω : Type) where
  func : String
  workers : ω
  msize : ℤ
  timeout : ℤ
  server : List Char
  runtime : ℤ
  deriving DecidableEq

def Block.testRun (block : Block) (func : String) : TestRun ℤ where
  func := func
  workers := block.workers
  msize := block.msize
  timeout := block.timeout
  server := block.server.takeWhile (· ≠ ':')
  runtime := block.runtime

def results (blocks : List Block) : Groups (TestRun ℤ) (Except String RunData) :=
  blocks.foldl (fun m block =>
    block.data.foldl (fun m run => m.append (block.testRun run.func) run.data) m) ∅

structure AvgDev where
  avg : ℚ
  variance : ℚ
  deriving DecidableEq

def averageAndDev (vals : List ℚ) : AvgDev :=
  let avg := vals.sum / vals.length
  ⟨avg, if vals.length = 1 then 0
    else (vals.map fun val => (val - avg) ^ 2).sum / (vals.length - 1)⟩

def stimeToNs (data : Option Readable) : Option ℚ :=
  data.map fun time => time.value * time.unit.inNs

def RunData.rate (run : RunData) : ℚ := run.messages / (run.ctime / 100)

def rate : Except String RunData → Option ℚ
  | .ok run => if run.ctime = 0 then none else some run.rate
  | .error _ => none

def latency (field : RunData → Option Readable) : Except String RunData → Option ℚ
  | .ok run => stimeToNs (field run)
  | .error _ => none

structure Row where
  mps : AvgDev
  lat95 : AvgDev
  lat50 : AvgDev
  deriving DecidableEq

/-- `none` stands for the exception that ends the report. -/
def row (params : TestRun ℤ) (data : List (Except String RunData)) : Option Row :=
  (data.mapM rate).bind fun mps => (data.mapM (latency RunData.lat95)).bind fun lat95 =>
    (data.mapM (latency RunData.lat50)).bind fun lat50 =>
      if params.runtime = 0 then none
      else some ⟨averageAndDev mps, averageAndDev (lat95.map (· / 10 ^ 6)),
        averageAndDev (lat50.map (· / 10 ^ 6))⟩

def TestRun.split : TestRun ℤ ≃ TestRun Unit × ℤ where
  toFun params := ({ params with workers := () }, params.workers)
  invFun p := { p.1 with workers := p.2 }
  left_inv _ := rfl
  right_inv _ := rfl

def tables (blocks : List Block) : Option (Nested (TestRun Unit) ℤ Row) :=
  Nested.regroup TestRun.split row (results blocks).entries

variable {params : TestRun ℤ} {data : List (Except String RunData)}

def Complete (data : Except String RunData) : Prop :=
  ∃ run, data = .ok run ∧ run.ctime ≠ 0 ∧ run.lat50.isSome ∧ run.lat95.isSome

lemma complete_iff {run : Except String RunData} : Complete run ↔ (rate run).isSome ∧
    (latency RunData.lat95 run).isSome ∧ (latency RunData.lat50 run).isSome := by
  cases run with
  | error err => simp [Complete, rate]
  | ok run =>
    by_cases hc : run.ctime = 0
    · simp [Complete, rate, hc]
    · simp [Complete, rate, latency, stimeToNs, hc, and_comm]

lemma row_isSome :
    (row params data).isSome ↔ params.runtime ≠ 0 ∧ ∀ run ∈ data, Complete run := by
  have hbind : (row params data).isSome ↔ params.runtime ≠ 0 ∧ (data.mapM rate).isSome ∧
      (data.mapM (latency RunData.lat95)).isSome ∧
      (data.mapM (latency RunData.lat50)).isSome := by
    rw [row]
    cases data.mapM rate with
    | none => simp
    | some mps =>
      cases data.mapM (latency RunData.lat95) with
      | none => simp
      | some lat95 => cases data.mapM (latency RunData.lat50) <;> simp
  simp only [hbind, mapM_isSome, complete_iff, forall_and]

lemma mapM_rate (h : ∀ run ∈ data, Complete run) :
    data.mapM rate = some ((data.filterMap Except.toOption).map RunData.rate) := by
  induction data with
  | nil => rfl
  | cons run data ih =>
    obtain ⟨⟨run, rfl, hc, -⟩, hdata⟩ := List.forall_mem_cons.mp h
    simp [List.mapM_cons, ih hdata, rate, hc, Except.toOption]

lemma row_mps {r : Row} (h : row params data = some r) :
    r.mps = averageAndDev ((data.filterMap Except.toOption).map RunData.rate) := by
  have hdata := row_isSome.mp (Option.isSome_iff_exists.mpr ⟨r, h⟩)
  rw [row, mapM_rate hdata.2, Option.bind_some] at h
  obtain ⟨lat95, _, h⟩ := Option.bind_eq_some_iff.mp h
  obtain ⟨lat50, _, h⟩ := Option.bind_eq_some_iff.mp h
  rw [if_neg hdata.1] at h
  cases h
  rfl

def keyed (blocks : List Block) : List (TestRun ℤ × Except String RunData) :=
  blocks.flatMap fun block => block.data.map fun run => (block.testRun run.func, run.data)

lemma results_eq (blocks : List Block) : results blocks = Groups.group (keyed blocks) := by
  simp only [results, Groups.group, keyed, List.foldl_flatMap, List.foldl_map]

variable {blocks : List Block}

lemma tables_isSome : (tables blocks).isSome ↔
    ∀ p ∈ keyed blocks, p.1.runtime ≠ 0 ∧ Complete p.2 := by
  rw [tables, Nested.regroup_isSome, results_eq]
  apply (Groups.forall_entries (P := fun k as => (row k as).isSome)).trans
  constructor
  · intro h p hp
    obtain ⟨hr, hc⟩ := row_isSome.mp (h p hp)
    exact ⟨hr, hc p.2 (Groups.mem_valuesOf.mpr hp)⟩
  · intro h p hp
    exact row_isSome.mpr ⟨(h p hp).1, fun run hrun => (h _ (Groups.mem_valuesOf.mp hrun)).2⟩

lemma tables_mps {t : Nested (TestRun Unit) ℤ Row} (h : tables blocks = some t)
    (params : TestRun Unit) (workers : ℤ) :
    (t.get params workers).map Row.mps =
      if Groups.valuesOf (TestRun.split.symm (params, workers)) (keyed blocks) = [] then none
      else some (averageAndDev (((Groups.valuesOf (TestRun.split.symm (params, workers))
        (keyed blocks)).filterMap Except.toOption).map RunData.rate)) := by
  set key := TestRun.split.symm (params, workers)
  rw [Nested.get_regroup (results blocks).nodupKeys h]
  have hl : (results blocks).entries.dlookup key = if Groups.valuesOf key (keyed blocks) = [] then
      none else some (Groups.valuesOf key (keyed blocks)) := by
    rw [results_eq]
    exact Groups.lookup_group key (keyed blocks)
  rw [hl]
  split_ifs with hv
  · rfl
  · obtain ⟨run, hrun⟩ := List.exists_mem_of_ne_nil _ hv
    have hsome := tables_isSome.mp (Option.isSome_iff_exists.mpr ⟨t, h⟩)
    have hkey := (hsome (key, run) (Groups.mem_valuesOf.mp hrun)).1
    obtain ⟨r, hr⟩ := Option.isSome_iff_exists.mp
      (row_isSome.mpr ⟨hkey, fun run hrun => (hsome (key, run) (Groups.mem_valuesOf.mp hrun)).2⟩)
    rw [Option.bind_some, hr, Option.map_some, row_mps hr]

end NetworkPing.Report
