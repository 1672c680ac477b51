import NetworkPing.Report.Table

namespace NetworkPing.Report

structure Made where
  opts : Options
  func : String
  outcome : Except String Measured

def Made.data (r : Made) : Except String RunData := r.outcome.bind Measured.runData

structure Params where
  func : String
  msize : ℤ
  runtime : ℤ
  timeouts : Option (ℤ × ℤ)
  workers : ℤ
  ip : List Char
  deriving DecidableEq

def Made.params (r : Made) : Params where
  func := r.func
  msize := r.opts.msize
  runtime := r.opts.runtime
  timeouts := r.opts.timeouts
  workers := r.opts.count
  ip := r.opts.loaderIp

def Options.host (opts : Options) : List Char := opts.loaderIp.takeWhile (· ≠ ':')

def Made.key (r : Made) : TestRun ℤ where
  func := r.func
  workers := r.opts.count
  msize := r.opts.msize
  timeout := r.opts.timeout
  server := r.opts.host
  runtime := r.opts.runtime

def Made.cell (r : Made) : TestRun Unit × ℤ := TestRun.split r.key

def Invocation.made (i : Invocation) : List Made :=
  (i.funcs.getD []).mapIdx fun n func => ⟨i.opts, func, i.outcome n⟩

def made (is : List Invocation) : List Made := is.flatMap Invocation.made

def cellRuns (is : List Invocation) (cell : TestRun Unit × ℤ) : List RunData :=
  ((made is).filter (·.cell = cell)).filterMap fun r => r.data.toOption

def average (runs : List RunData) : Option AvgDev :=
  if runs = [] then none else some (averageAndDev (runs.map RunData.rate))

structure Averages (is : List Invocation) (t : Nested (TestRun Unit) ℤ Row) : Prop where
  entries (params : TestRun Unit) (workers : ℤ) :
    (t.get params workers).map Row.mps = average (cellRuns is (params, workers))
  apart : ∀ r ∈ made is, ∀ r' ∈ made is, r.data.isOk → r'.data.isOk →
    r.cell = r'.cell → r.params = r'.params

def Usable (outcome : Except String Measured) : Prop :=
  ∃ m lat50 lat75 lat95, outcome = .ok m ∧ m.msgPercentiles.length = 19 ∧ m.ctime ≠ 0 ∧
    getLats m.latDistribution m.latBase = some [some lat50, lat75, some lat95] ∧
    1 ≤ lat50 ∧ 1 ≤ lat95

structure Alike (opts opts' : Options) : Prop where
  count : opts.count = opts'.count
  msize : opts.msize = opts'.msize
  runtime : opts.runtime = opts'.runtime
  timeout : opts.timeout = opts'.timeout
  host : opts.host = opts'.host

structure Clean (is : List Invocation) : Prop where
  usable : ∀ r ∈ made is, r.opts.runtime ≠ 0 ∧ Usable r.outcome
  apart : ∀ r ∈ made is, ∀ r' ∈ made is, r.func = r'.func → Alike r.opts r'.opts →
    r.opts.loaderIp = r'.opts.loaderIp ∧
      (r.opts.timeout = 0 → r.opts.min = r'.opts.min ∧ r.opts.max = r'.opts.max)

lemma ofNs_isSome {val : ℚ} : (Readable.ofNs val).isSome ↔ 1 ≤ val := by
  rw [Readable.ofNs, List.findSome?_isSome_iff]
  constructor
  · rintro ⟨unit, -, h⟩
    have hv : (unit.inNs : ℚ) ≤ val := by
      by_contra hv
      rw [if_neg hv] at h
      cases h
    refine le_trans ?_ hv
    cases unit <;> norm_num [TimeUnit.inNs]
  · intro h
    refine ⟨.ns, by simp, ?_⟩
    rw [if_pos (by simpa [TimeUnit.inNs] using h)]
    rfl

lemma runData_of_lats {m : Measured} {lat50 lat95 : ℚ} {lat75 : Option ℚ}
    (hlen : m.msgPercentiles.length = 19)
    (hl : getLats m.latDistribution m.latBase = some [some lat50, lat75, some lat95]) :
    m.runData = .ok {
      utime := m.utime
      stime := m.stime
      ctime := m.ctime
      lat50 := Readable.ofNs lat50
      lat95 := Readable.ofNs lat95
      msg5perc := m.msgPercentiles.head?
      msg95perc := m.msgPercentiles.getLast?
      messages := m.msgProcessed } := by
  rw [Measured.runData, if_pos hlen, hl]
  rfl

lemma runData_ok {m : Measured} {run : RunData} (h : m.runData = .ok run) :
    m.msgPercentiles.length = 19 ∧ run.ctime = m.ctime ∧ ∃ lat50 lat75 lat95,
      getLats m.latDistribution m.latBase = some [some lat50, lat75, some lat95] ∧
      run.lat50 = Readable.ofNs lat50 ∧ run.lat95 = Readable.ofNs lat95 := by
  rw [Measured.runData] at h
  split_ifs at h with hlen
  split at h
  next lat50 lat75 lat95 hl =>
    cases lat50 with
    | none => cases h
    | some lat50 =>
      cases lat95 with
      | none => cases h
      | some lat95 =>
        cases h
        exact ⟨hlen, rfl, lat50, lat75, lat95, hl, rfl, rfl⟩
  next => cases h

lemma complete_data {r : Made} : Complete r.data ↔ Usable r.outcome := by
  obtain ⟨opts, func, outcome⟩ := r
  cases outcome with
  | error err => simp [Complete, Usable, Made.data, Except.bind]
  | ok m =>
    constructor
    · rintro ⟨run, hrun, hc, h50, h95⟩
      obtain ⟨hlen, hct, lat50, lat75, lat95, hl, hr50, hr95⟩ := runData_ok hrun
      rw [hr50, ofNs_isSome] at h50
      rw [hr95, ofNs_isSome] at h95
      exact ⟨m, lat50, lat75, lat95, rfl, hlen, hct ▸ hc, hl, h50, h95⟩
    · rintro ⟨_, lat50, lat75, lat95, ⟨⟩, hlen, hc, hl, h50, h95⟩
      exact ⟨_, runData_of_lats hlen hl, hc, ofNs_isSome.mpr h50, ofNs_isSome.mpr h95⟩

lemma host_server (ip port : List Char) :
    (ip ++ ':' :: port).takeWhile (· ≠ ':') = ip.takeWhile (· ≠ ':') := by
  induction ip with
  | nil => rfl
  | cons c ip ih =>
    rw [List.cons_append, List.takeWhile_cons, List.takeWhile_cons, ih]

lemma keyed_main (is : List Invocation) :
    keyed (is.filterMap Invocation.main) = (made is).map fun r => (r.key, r.data) := by
  induction is with
  | nil => rfl
  | cons i is ih =>
    rw [made, List.flatMap_cons, List.map_append, ← made, ← ih]
    cases hf : i.funcs with
    | none =>
      have hm : i.main = none := by rw [Invocation.main, hf, Option.map_none]
      rw [List.filterMap_cons_none hm, Invocation.made, hf]
      rfl
    | some funcs =>
      have hm : i.main = some (i.block funcs) := by rw [Invocation.main, hf, Option.map_some]
      rw [List.filterMap_cons_some hm, keyed, List.flatMap_cons, ← keyed]
      congr 1
      rw [Invocation.block, Invocation.made, hf, Option.getD_some, List.mapIdx_eq_zipIdx_map,
        List.mapIdx_eq_zipIdx_map, List.map_map, List.map_map]
      apply List.map_congr_left
      intro x _
      simp only [Function.comp_apply, Invocation.record, Block.testRun, host_server]
      rfl

lemma timeouts_eq {o : Options} {range : ℤ × ℤ} (h : o.timeouts = some range) :
    range = if o.timeout = 0 then (o.min, o.max) else (o.timeout, o.timeout) := by
  rw [Options.timeouts] at h
  split_ifs at h <;> simp_all

lemma timeouts_of_made {is : List Invocation} {r : Made} (h : r ∈ made is) :
    r.opts.timeouts.isSome := by
  obtain ⟨i, _, hr⟩ := List.mem_flatMap.mp h
  rw [Invocation.made] at hr
  obtain ⟨n, _, rfl⟩ := List.mem_mapIdx.mp hr
  cases ht : i.opts.timeouts with
  | none => simp [Invocation.funcs, ht] at *
  | some range => rfl

lemma timeouts_eq_iff {is : List Invocation} {r r' : Made} (hr : r ∈ made is)
    (hr' : r' ∈ made is) (ht : r.opts.timeout = r'.opts.timeout) :
    r.opts.timeouts = r'.opts.timeouts ↔
      (r.opts.timeout = 0 → r.opts.min = r'.opts.min ∧ r.opts.max = r'.opts.max) := by
  obtain ⟨range, hrange⟩ := Option.isSome_iff_exists.mp (timeouts_of_made hr)
  obtain ⟨range', hrange'⟩ := Option.isSome_iff_exists.mp (timeouts_of_made hr')
  rw [hrange, hrange', Option.some.injEq, timeouts_eq hrange, timeouts_eq hrange', ← ht]
  by_cases h0 : r.opts.timeout = 0 <;> simp [h0]

lemma cell_eq {r r' : Made} : r.cell = r'.cell ↔ r.func = r'.func ∧ Alike r.opts r'.opts := by
  rw [Made.cell, Made.cell, EmbeddingLike.apply_eq_iff_eq, Made.key, Made.key, TestRun.mk.injEq]
  constructor
  · rintro ⟨hfunc, hcount, hmsize, htimeout, hhost, hruntime⟩
    exact ⟨hfunc, hcount, hmsize, hruntime, htimeout, hhost⟩
  · rintro ⟨hfunc, hcount, hmsize, hruntime, htimeout, hhost⟩
    exact ⟨hfunc, hcount, hmsize, htimeout, hhost, hruntime⟩

lemma cellRuns_eq (is : List Invocation) (cell : TestRun Unit × ℤ) : cellRuns is cell =
    (Groups.valuesOf (TestRun.split.symm cell)
      (keyed (is.filterMap Invocation.main))).filterMap Except.toOption := by
  rw [keyed_main, Groups.valuesOf, List.filter_map, List.map_map, List.filterMap_map, cellRuns]
  congr 1
  apply List.filter_congr
  intro r _
  rw [Function.comp_apply, decide_eq_decide, Made.cell, Equiv.eq_symm_apply]

lemma entries_of_complete {is : List Invocation} {t : Nested (TestRun Unit) ℤ Row}
    (ht : tables (is.filterMap Invocation.main) = some t) (params : TestRun Unit) (workers : ℤ) :
    (t.get params workers).map Row.mps = average (cellRuns is (params, workers)) := by
  rw [tables_mps ht, average, ← cellRuns_eq]
  have hnil : cellRuns is (params, workers) = [] ↔
      Groups.valuesOf (TestRun.split.symm (params, workers))
        (keyed (is.filterMap Invocation.main)) = [] := by
    rw [cellRuns_eq, List.filterMap_eq_nil_iff, List.eq_nil_iff_forall_not_mem]
    refine forall₂_congr fun run hrun => ?_
    obtain ⟨d, rfl, _⟩ := (tables_isSome.mp (Option.isSome_iff_exists.mpr ⟨t, ht⟩) _
      (Groups.mem_valuesOf.mp hrun)).2
    simp [Except.toOption]
  simp only [hnil]

lemma tables_isSome_iff (is : List Invocation) :
    (tables (is.filterMap Invocation.main)).isSome ↔
      ∀ r ∈ made is, r.opts.runtime ≠ 0 ∧ Usable r.outcome := by
  rw [tables_isSome, keyed_main, List.forall_mem_map]
  simp only [complete_data]
  rfl

lemma clean_of_averages {is : List Invocation} {t : Nested (TestRun Unit) ℤ Row}
    (ht : tables (is.filterMap Invocation.main) = some t) (ha : Averages is t) : Clean is := by
  have husable := (tables_isSome_iff is).mp (Option.isSome_iff_exists.mpr ⟨t, ht⟩)
  refine ⟨husable, fun r hr r' hr' hfunc halike => ?_⟩
  have hok {r : Made} (hr : r ∈ made is) : r.data.isOk := by
    obtain ⟨d, hd, _⟩ := complete_data.mpr (husable r hr).2
    rw [hd]
    rfl
  have hparams := ha.apart r hr r' hr' (hok hr) (hok hr') (cell_eq.mpr ⟨hfunc, halike⟩)
  refine ⟨congrArg Params.ip hparams, ?_⟩
  exact (timeouts_eq_iff hr hr' halike.timeout).mp (congrArg Params.timeouts hparams)

lemma averages_of_clean {is : List Invocation} (h : Clean is) :
    ∃ t, tables (is.filterMap Invocation.main) = some t ∧ Averages is t := by
  obtain ⟨t, ht⟩ := Option.isSome_iff_exists.mp ((tables_isSome_iff is).mpr h.usable)
  refine ⟨t, ht, entries_of_complete ht, fun r hr r' hr' _ _ hcell => ?_⟩
  obtain ⟨hfunc, halike⟩ := cell_eq.mp hcell
  obtain ⟨hip, hrange⟩ := h.apart r hr r' hr' hfunc halike
  have htimeouts := (timeouts_eq_iff hr hr' halike.timeout).mpr hrange
  simp only [Made.params, hfunc, halike.msize, halike.runtime, halike.count, hip, htimeouts]

theorem results_table (is : List Invocation) :
    (∃ t, tables (is.filterMap Invocation.main) = some t ∧ Averages is t) ↔ Clean is := by
  constructor
  · rintro ⟨t, ht, ha⟩
    exact clean_of_averages ht ha
  · exact averages_of_clean

def sample : Measured where
  utime := 100
  stime := 200
  ctime := 3001
  msgProcessed := 1000
  latBase := 2
  latDistribution := AList.singleton 10 1000
  msgPercentiles := List.replicate 19 50

lemma usable_sample : Usable (.ok sample) := by
  have hget : getLats sample.latDistribution sample.latBase =
      some [some (2 ^ (10 : ℤ)), some (2 ^ (10 : ℤ)), some (2 ^ (10 : ℤ))] :=
    getLats_singleton (n := 1000) (by decide) (by decide) (by decide) (by decide)
  exact ⟨sample, _, _, _, rfl, rfl, by decide, hget, by norm_num, by norm_num⟩

theorem results_table_merged :
    let opts : Options := { loaderIp := "10.0.0.1".toList, count := 10, tests := ["selector"] }
    let short : Invocation :=
      ⟨{ opts with minTimeout := some 10, maxTimeout := some 20 }, fun _ => .ok sample⟩
    let long : Invocation :=
      ⟨{ opts with minTimeout := some 1000, maxTimeout := some 2000 }, fun _ => .ok sample⟩
    let failed : Invocation := ⟨opts, fun _ => .error "timed out"⟩
    (∃ t, tables ([short, long].filterMap Invocation.main) = some t ∧
      ¬ Averages [short, long] t) ∧ tables ([failed].filterMap Invocation.main) = none := by
  intro opts short long failed
  have hshort : short.made = [⟨short.opts, "selector", .ok sample⟩] := rfl
  have hlong : long.made = [⟨long.opts, "selector", .ok sample⟩] := rfl
  have hfailed : failed.made = [⟨opts, "selector", .error "timed out"⟩] := rfl
  constructor
  · have hsome := (tables_isSome_iff [short, long]).mpr fun r hr => by
      have hr : r = ⟨short.opts, "selector", .ok sample⟩ ∨
          r = ⟨long.opts, "selector", .ok sample⟩ := by simpa [made, hshort, hlong] using hr
      rcases hr with rfl | rfl <;> exact ⟨by decide, usable_sample⟩
    obtain ⟨t, ht⟩ := Option.isSome_iff_exists.mp hsome
    refine ⟨t, ht, fun ha => ?_⟩
    have hmin := (((clean_of_averages ht ha).apart ⟨short.opts, "selector", .ok sample⟩
      (by simp [made, hshort]) ⟨long.opts, "selector", .ok sample⟩ (by simp [made, hlong]) rfl
      ⟨rfl, rfl, rfl, rfl, rfl⟩).2 rfl).1
    exact absurd hmin (by decide)
  · rw [← Option.not_isSome_iff_eq_none, tables_isSome_iff]
    intro h
    obtain ⟨_, m, _, _, _, hm, _⟩ := h ⟨opts, "selector", .error "timed out"⟩
      (by simp [made, hfailed])
    cases hm

end NetworkPing.Report
