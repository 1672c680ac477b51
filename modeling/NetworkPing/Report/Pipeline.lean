import NetworkPing.Report.LatencyText
import NetworkPing.Server.LatencyMean
import NetworkPing.Server.TestEvents

namespace NetworkPing.Report

open Stats (getRunStats serializeToStr latEntries dict)

/-- A server sends no negative counts. -/
def distribution (d : AList fun _ : ℤ => ℤ) : Counter ℤ where
  entries := d.entries.map fun e => ⟨e.1, e.2.toNat⟩
  nodupKeys := by
    rw [List.NodupKeys, List.keys, List.map_map]
    exact d.nodupKeys

/-- What `get_run_stats` returns; of an exception nothing is kept. -/
def measured (utime stime ctime : ℕ) (result : List Char) : Except String Measured :=
  match getRunStats result with
  | .ok ⟨msgProcessed, .finite latBase, latDistribution, percentiles⟩ =>
    match Binary64.round latBase with
    | some latBase =>
      .ok ⟨utime, stime, ctime, msgProcessed, latBase, distribution latDistribution, percentiles⟩
    | none => .error ""
  | _ => .error ""

def sent (res : TestResult) : Counter ℤ := distribution (dict (latEntries res))

variable {res : TestResult} {ds : List ℤ} {bucket : ℤ → ℕ} {utime stime ctime : ℕ}
  {data : RunData} {lats : Counter ℤ} {logBase : ℚ} {percs : List ℚ} {b : ℤ}

lemma split_serialized (res : TestResult) : Stats.split (serializeToStr true res) =
    decimal res.mcount :: Stats.latBase true :: (Stats.numbers res).map decimal := by
  rw [Stats.split, Stats.serializeToStr_words]
  apply words_intercalate rfl
  simp only [List.forall_mem_cons, List.forall_mem_map]
  exact ⟨(isNumeral_decimal _).isWord, Stats.isWord_latBase true,
    fun n _ => (isNumeral_decimal n).isWord⟩

lemma getRunStats_serialized (res : TestResult) : getRunStats (serializeToStr true res) =
    .ok ⟨res.mcount, .finite 2, dict (latEntries res), res.percentiles.toList.map Nat.cast⟩ := by
  have hws : ∀ w ∈ (Stats.numbers res).map decimal, IsNumeral w := by
    simp only [List.forall_mem_map]
    exact fun n _ => isNumeral_decimal n
  have hbase : Stats.float (Stats.latBase true) = .ok (.finite 2) :=
    Stats.float_numeral (isNumeral_decimal 2)
  simp only [getRunStats, split_serialized, Stats.mapM_int hws, Stats.numbers_ofDecimal,
    Stats.readSections_numbers, Stats.int_numeral (isNumeral_decimal _), hbase, bind, Except.bind,
    ofDecimal_decimal]
  rfl

lemma measured_serialized (utime stime ctime : ℕ) (res : TestResult) :
    measured utime stime ctime (serializeToStr true res) = .ok ⟨utime, stime, ctime, res.mcount, 2,
      sent res, res.percentiles.toList.map Nat.cast⟩ := by
  have hbase : Binary64.round (2 : ℕ) = some 2 := Binary64.round_intCast (by decide)
  simp only [measured, getRunStats_serialized]
  rw [Nat.cast_ofNat] at hbase
  rw [hbase]
  rfl

lemma record_of_lats (utime stime ctime : ℕ) {lat50 lat95 : ℚ} {lat75 : Option ℚ}
    (hl : getLats (sent res) 2 = some [some lat50, lat75, some lat95]) :
    ∃ data, measured utime stime ctime (serializeToStr true res) >>= Measured.runData = .ok data ∧
      data.lat50 = Readable.ofNs lat50 ∧ data.lat95 = Readable.ofNs lat95 :=
  ⟨_, (congrArg (· >>= Measured.runData) (measured_serialized utime stime ctime res)).trans
    (runData_of_lats (by simp) hl), rfl, rfl⟩

lemma sent_entries (res : TestResult) :
    (sent res).entries.Perm (res.latMap.entries.map fun e => ⟨(e.1 : ℤ), e.2⟩) := by
  refine ((Stats.latEntries_dict res).map _).trans (.of_eq ?_)
  rw [List.map_map]
  rfl

lemma mem_sent (h : res.latMap.Counts (ds.map bucket)) :
    b ∈ sent res ↔ ∃ d ∈ ds, (bucket d : ℤ) = b := by
  have hk : b ∈ sent res ↔ ∃ k ∈ res.latMap, (k : ℤ) = b := by
    refine ((sent_entries res).map Sigma.fst).mem_iff.trans ?_
    simp only [AList.mem_keys, AList.keys, List.keys, List.mem_map, exists_exists_and_eq_and]
  simp only [hk, (h _).1, List.mem_map, exists_exists_and_eq_and]

lemma sum_boole {α : Type*} (p : α → Prop) [DecidablePred p] (xs : List α) :
    (xs.map fun x => if p x then 1 else 0).sum = xs.countP p := by
  induction xs with
  | nil => rfl
  | cons x xs ih =>
    rw [List.map_cons, List.sum_cons, ih, List.countP_cons, Nat.add_comm]
    simp only [decide_eq_true_eq]

lemma weightUpTo_sent (h : res.latMap.Counts (ds.map bucket)) (b : ℤ) :
    weightUpTo (sent res).entries b = ds.countP fun d => (bucket d : ℤ) ≤ b := by
  have hsum := h.weighted fun k => if (k : ℤ) ≤ b then 1 else 0
  rw [List.map_map] at hsum
  rw [weightUpTo_perm (sent_entries res), weightUpTo, List.map_map, ← sum_boole]
  simpa [Function.comp_def] using hsum

lemma total_sent (h : res.latMap.Counts (ds.map bucket)) : (sent res).total = ds.length := by
  have hperm := ((sent_entries res).map Sigma.snd).sum_eq
  rw [List.map_map] at hperm
  rw [← List.length_map bucket, ← h.total]
  exact hperm

lemma getLats_value (hp : percs.Pairwise (· ≤ ·)) {lat : List (Option ℚ)}
    (h : getLats lats logBase percs = some lat) {v : ℚ} (hv : some v ∈ lat) :
    v = 0 ∨ ∃ b ∈ lats, Binary64.power logBase b = some v := by
  by_cases hs : lats.keys.sum = 0
  · rw [getLats, if_pos hs.symm] at h
    cases h
    exact .inl (Option.some.inj (List.eq_of_mem_replicate hv))
  have hne : percs ≠ [] := by
    rintro rfl
    cases (getLats_nil lats logBase).symm.trans h
    cases hv
  have hl : lats.keys ≠ [] := fun hnil => hs (by rw [hnil, List.sum_nil])
  cases ht : Binary64.round lats.keys.sum with
  | none => cases (getLats_overflow hl hs hne ht).symm.trans h
  | some total =>
    rw [getLats_eq hs hp ht] at h
    obtain ⟨perc, -, hperc⟩ := forall₂_exists_right (mapM_eq_some.mp h) hv
    obtain ⟨b, hb, hpow⟩ := answer_eq_some hperc
    exact .inr ⟨b, hb.1.1, hpow⟩

lemma lat_bucket (hc : res.latMap.Counts (ds.map bucket)) (hlt : ∀ d, bucket d < 64)
    (h : measured utime stime ctime (serializeToStr true res) >>= Measured.runData = .ok data)
    {r : Readable} (hr : data.lat50 = some r ∨ data.lat95 = some r) :
    ∃ d ∈ ds, Readable.ofNs (2 ^ bucket d) = some r := by
  rw [measured_serialized] at h
  obtain ⟨-, -, lat50, lat75, lat95, hl, h50, h95⟩ := runData_ok h
  have hlat : ∃ v, some v ∈ [some lat50, lat75, some lat95] ∧ Readable.ofNs v = some r := by
    rcases hr with hr | hr
    · exact ⟨lat50, by simp, h50.symm.trans hr⟩
    · exact ⟨lat95, by simp, h95.symm.trans hr⟩
  obtain ⟨v, hv, hr⟩ := hlat
  rcases getLats_value percs_sorted hl hv with rfl | ⟨b, hb, hpow⟩
  · have := ofNs_isSome.mp (Option.isSome_iff_exists.mpr ⟨r, hr⟩)
    norm_num at this
  · obtain ⟨d, hd, rfl⟩ := (mem_sent hc).mp hb
    have hd64 := hlt d
    rw [Binary64.power_two (by omega) (by omega), zpow_natCast] at hpow
    exact ⟨d, hd, Option.some.inj hpow ▸ hr⟩

lemma ns_of_bucket {d : ℚ} {k : ℕ} {r : Readable} (h : Readable.ofNs (2 ^ k) = some r)
    (hle : (2 : ℚ) ^ k ≤ d) (hlt : d < 2 * 2 ^ k) : r.ns ≤ d ∧ d < 4 * r.ns := by
  obtain ⟨hu, hr, hk⟩ := ns_bounds h
  constructor <;> linarith

lemma lat_recorded {c : Worker.Config} {numConn sockCount : ℤ} {workerThreads : ℕ}
    (runs : Fin workerThreads → Worker.Finished c.log2Lat sockCount)
    (hclock : ∀ i, (Worker.clock c.log2Lat (runs i).labels).Pairwise (· ≤ ·))
    (hres : res.latMap = (RunTest.aggregate 2 numConn (RunTest.tresults runs)).value.latMap)
    (h : measured utime stime ctime (serializeToStr true res) >>= Measured.runData = .ok data)
    {r : Readable} (hr : data.lat50 = some r ∨ data.lat95 = some r) :
    ∃ d ∈ RunTest.recorded runs, d = 0 ∧ r.ns = 9223372036 * 10 ^ 9 ∨ r.ns ≤ d ∧ d < 4 * r.ns := by
  obtain ⟨hc, hd⟩ := RunTest.recorded_counts runs hclock
  have hc : res.latMap.Counts ((RunTest.recorded runs).map (Worker.bucketOf c.log2Lat)) := by
    rw [hres]
    exact hc
  obtain ⟨d, hmem, hr⟩ := lat_bucket hc RunTest.bucketOf_lt h hr
  refine ⟨d, hmem, ?_⟩
  by_cases h0 : d = 0
  · subst h0
    refine .inl ⟨rfl, ?_⟩
    have hzero : Readable.ofNs (2 ^ 63) = some ⟨9223372036, .s⟩ := by decide +kernel
    rw [RunTest.bucketOf_zero, hzero] at hr
    cases hr
    norm_num [Readable.ns, TimeUnit.inNs]
  · obtain ⟨hle, hlt⟩ := RunTest.bucket_bounds (by have := (hd d hmem).1; omega) (hd d hmem).2
    exact .inr (ns_of_bucket hr hle hlt)

theorem latency_reported (c : Worker.Config) (numConn sockCount : ℤ) (workerThreads : ℕ)
    (runs : Fin workerThreads → Worker.Finished c.log2Lat sockCount)
    (hclock : ∀ i, (Worker.clock c.log2Lat (runs i).labels).Pairwise (· ≤ ·))
    (utime stime ctime : ℕ) (data : RunData)
    (h : measured utime stime ctime (serializeToStr true
      (RunTest.aggregate 2 numConn (RunTest.tresults runs)).value) >>= Measured.runData = .ok data)
    (r : Readable) (hr : data.lat50 = some r ∨ data.lat95 = some r) :
    ∃ x, LatencyText.stimeToNs r.text = .ok (.finite x) ∧ ∃ d ∈ RunTest.recorded runs,
      d = 0 ∧ x = 9223372036 * 10 ^ 9 ∨ x ≤ d ∧ d < 4 * x :=
  ⟨r.ns, LatencyText.stimeToNs_text r, lat_recorded runs hclock rfl h hr⟩

lemma weightUpTo_lt {threshold : ℚ} (h : IsLeast (reached lats threshold) b) (h0 : 0 < threshold)
    {a : ℤ} (ha : a < b) : weightUpTo lats.entries a < threshold := by
  by_contra hle
  rw [not_lt] at hle
  have hne : weightUpTo lats.entries a ≠ 0 := by
    intro hz
    rw [hz, Nat.cast_zero] at hle
    exact hle.not_gt h0
  obtain ⟨b', hb', hba, hw⟩ := exists_key_weightUpTo hne
  exact ((h.2 ⟨hb', hw ▸ hle⟩).trans hba).not_gt ha

def oneRun (i : Fin 1) :
    Worker.Served (Worker.Config.log2Lat ⟨3, 0, 0, fun _ => 0⟩) 1 (RunTest.shard [5] 1 i) where
  labels := [.wait (some [5]) 10, .done false, .next 5 0, .done false, .exhausted,
    .done false, .ping 5 3 3 20, .pinged, .wait (some [5]) 22, .done false, .next 5 0, .done true]
  state := (Machine.run (Worker.step (Worker.Config.log2Lat ⟨3, 0, 0, fun _ => 0⟩))
    (Worker.start 1) _).get rfl
  out := [5]
  run := (Option.some_get _).symm
  reported := by
    rw [Fin.fin_one_eq_zero i]
    rfl
  returned := rfl

def oneLatency (i : Fin 1) :
    Worker.Finished (Worker.Config.log2Lat ⟨3, 0, 0, fun _ => 0⟩) 1 := (oneRun i).toFinished

def oneBucket : Counter ℤ := AList.singleton 1 1

lemma sent_oneLatency :
    sent (RunTest.aggregate 2 1 (RunTest.tresults oneLatency)).value = oneBucket :=
  AList.ext (by decide +kernel)

lemma getLats_oneBucket : getLats oneBucket 2 = some [some 2, some 2, some 2] := by
  have := getLats_singleton (b := 1) (n := 1) (by decide) (by decide) (by decide) (by decide)
  rwa [zpow_one] at this

theorem latency_reported_two : ∃ x, LatencyText.stimeToNs "2ns".toList = .ok (.finite x) ∧
    ∃ d ∈ RunTest.recorded oneLatency, d = 0 ∧ x = 9223372036 * 10 ^ 9 ∨ x ≤ d ∧ d < 4 * x := by
  obtain ⟨data, hdata, h50, -⟩ := record_of_lats 0 0 1 (sent_oneLatency ▸ getLats_oneBucket)
  have htwo : Readable.ofNs 2 = some ⟨2, .ns⟩ := by decide +kernel
  exact latency_reported ⟨3, 0, 0, fun _ => 0⟩ 1 1 1 oneLatency (by decide +kernel) 0 0 1 data
    hdata ⟨2, .ns⟩ (.inl (h50.trans htwo))

structure Quantile (ds : List ℤ) (perc x : ℚ) : Prop where
  below : (ds.countP fun d : ℤ => (d : ℚ) < x : ℕ) < ds.length * perc
  reached : ds.length * perc ≤ (ds.countP fun d : ℤ => (d : ℚ) < 4 * x : ℕ)

lemma quantile_of_isLeast (hc : res.latMap.Counts (ds.map bucket)) (hne : ds ≠ [])
    (hd : ∀ d ∈ ds, (2 : ℚ) ^ bucket d ≤ d ∧ (d : ℚ) < 2 * 2 ^ bucket d) {perc : ℚ} (hp : 0 < perc)
    (h : IsLeast (reached (sent res) ((sent res).total * perc)) b) {r : Readable}
    (hr : Readable.ofNs (2 ^ b) = some r) : Quantile ds perc r.ns := by
  obtain ⟨d', -, rfl⟩ := (mem_sent hc).mp h.1.1
  generalize bucket d' = k at h hr
  rw [zpow_natCast] at hr
  obtain ⟨hu, hrk, hk⟩ := ns_bounds hr
  have hthreshold : 0 < (sent res).total * perc := by
    rw [total_sent hc]
    exact mul_pos (by exact_mod_cast List.length_pos_iff.mpr hne) hp
  constructor
  · have hlt := weightUpTo_lt h hthreshold (Int.sub_one_lt_of_le (le_refl (k : ℤ)))
    rw [weightUpTo_sent hc, total_sent hc] at hlt
    refine lt_of_le_of_lt ?_ hlt
    rw [Nat.cast_le]
    apply List.countP_mono_left
    intro d hm hdx
    rw [decide_eq_true_eq] at hdx ⊢
    have hpow : (2 : ℚ) ^ bucket d < 2 ^ k := (hd d hm).1.trans_lt (hdx.trans_le hrk)
    have := (pow_lt_pow_iff_right₀ one_lt_two).mp hpow
    omega
  · have hle := h.1.2
    rw [weightUpTo_sent hc, total_sent hc] at hle
    refine hle.trans ?_
    rw [Nat.cast_le]
    apply List.countP_mono_left
    intro d hm hdk
    rw [decide_eq_true_eq] at hdk ⊢
    have hpow : (2 : ℚ) ^ bucket d ≤ 2 ^ k :=
      pow_le_pow_right₀ one_le_two (by exact_mod_cast hdk)
    linarith [(hd d hm).2]

theorem latency_quantiles (c : Worker.Config) (numConn sockCount : ℤ) (workerThreads : ℕ)
    (runs : Fin workerThreads → Worker.Finished c.log2Lat sockCount)
    (hclock : ∀ i, (Worker.clock c.log2Lat (runs i).labels).Pairwise (· ≤ ·))
    (hrec : RunTest.recorded runs ≠ []) (h0 : 0 ∉ RunTest.recorded runs)
    (hsame : SameBuckets (sent (RunTest.aggregate 2 numConn (RunTest.tresults runs)).value)
      [1 / 2, 3 / 4, perc95]) (utime stime ctime : ℕ) :
    ∃ data r50 r95, measured utime stime ctime (serializeToStr true
      (RunTest.aggregate 2 numConn (RunTest.tresults runs)).value) >>= Measured.runData = .ok data ∧
      data.lat50 = some r50 ∧ data.lat95 = some r95 ∧ r50.ns ≤ r95.ns ∧
      Quantile (RunTest.recorded runs) (1 / 2) r50.ns ∧
      Quantile (RunTest.recorded runs) perc95 r95.ns := by
  obtain ⟨hc, hd⟩ := RunTest.recorded_counts runs hclock
  set res := (RunTest.aggregate 2 numConn (RunTest.tresults runs)).value with hres
  have hc : res.latMap.Counts ((RunTest.recorded runs).map (Worker.bucketOf c.log2Lat)) := hc
  have hbounds : ∀ d ∈ RunTest.recorded runs, (2 : ℚ) ^ Worker.bucketOf c.log2Lat d ≤ d ∧
      (d : ℚ) < 2 * 2 ^ Worker.bucketOf c.log2Lat d := by
    intro d hm
    have hne : d ≠ 0 := fun he => h0 (he ▸ hm)
    exact RunTest.bucket_bounds (by have := (hd d hm).1; omega) (hd d hm).2
  have hkeys : (sent res).keys ≠ [] := by
    obtain ⟨d, hm⟩ := List.exists_mem_of_ne_nil _ hrec
    exact List.ne_nil_of_mem (AList.mem_keys.mp ((mem_sent hc).mpr ⟨d, hm, rfl⟩))
  have hbucket : ∀ b ∈ sent res, 0 ≤ b ∧ b < 64 := by
    intro b hb
    obtain ⟨d, -, rfl⟩ := (mem_sent hc).mp hb
    have := RunTest.bucketOf_lt (c := c) d
    omega
  obtain ⟨lats, hl, hex⟩ := exact_of_samePowers hkeys one_lt_two percs_sorted percs_fractions
    (hsame.samePowers fun b hb => Binary64.inRange_two
      (by have := (hbucket b (AList.mem_keys.mpr hb)).1; omega)
      (by have := (hbucket b (AList.mem_keys.mpr hb)).2; omega))
  obtain ⟨hall, -, hsorted⟩ := hex
  obtain ⟨v50, _, ⟨b50, hb50, hv50⟩, h75, rfl⟩ := List.forall₂_cons_left_iff.mp hall
  obtain ⟨v75, _, -, h95, rfl⟩ := List.forall₂_cons_left_iff.mp h75
  obtain ⟨v95, _, ⟨b95, hb95, hv95⟩, hnil, rfl⟩ := List.forall₂_cons_left_iff.mp h95
  obtain rfl := List.forall₂_nil_left_iff.mp hnil
  have readable {perc v : ℚ} {b : ℤ}
      (hb : IsLeast (reached (sent res) ((sent res).total * perc)) b)
      (hv : Binary64.power 2 b = some v) : v = 2 ^ b ∧ ∃ r, Readable.ofNs v = some r := by
    obtain ⟨hlo, hhi⟩ := hbucket b hb.1.1
    rw [Binary64.power_two (by omega) (by omega), Option.some.injEq] at hv
    refine ⟨hv.symm, Option.isSome_iff_exists.mp (ofNs_isSome.mpr ?_)⟩
    rw [← hv]
    exact one_le_zpow₀ one_le_two hlo
  obtain ⟨rfl, r50, hr50⟩ := readable hb50 hv50
  obtain ⟨rfl, r95, hr95⟩ := readable hb95 hv95
  have hle : (2 : ℚ) ^ b50 ≤ 2 ^ b95 := (List.pairwise_cons.mp hsorted).1 _ (by simp)
  obtain ⟨data, hdata, h50, h95⟩ := record_of_lats utime stime ctime hl
  exact ⟨data, r50, r95, hdata, h50.trans hr50, h95.trans hr95, ns_mono hr50 hr95 hle,
    quantile_of_isLeast hc hrec hbounds (by norm_num) hb50 hr50,
    quantile_of_isLeast hc hrec hbounds (percs_fractions _ (by simp)).1 hb95 hr95⟩

theorem latency_quantiles_two :
    ∃ data r50 r95, measured 0 0 1 (serializeToStr true
      (RunTest.aggregate 2 1 (RunTest.tresults oneLatency)).value) >>= Measured.runData = .ok data ∧
      data.lat50 = some r50 ∧ data.lat95 = some r95 ∧ r50.ns ≤ r95.ns ∧
      Quantile [2] (1 / 2) r50.ns ∧ Quantile [2] perc95 r95.ns := by
  have hrec : RunTest.recorded oneLatency = [2] := by decide +kernel
  have hsame : SameBuckets oneBucket [1 / 2, 3 / 4, perc95] :=
    ⟨by decide, by decide +kernel, by decide +kernel⟩
  have h := latency_quantiles ⟨3, 0, 0, fun _ => 0⟩ 1 1 1 oneLatency (by decide +kernel)
    (by rw [hrec]; simp) (by rw [hrec]; simp) (by rwa [sent_oneLatency]) 0 0 1
  rwa [hrec] at h

lemma record_messages
    (h : measured utime stime ctime (serializeToStr true res) >>= Measured.runData = .ok data) :
    data.messages = res.mcount ∧ data.msg5perc = some (res.percentiles.get 0 : ℤ) ∧
      data.msg95perc = some (res.percentiles.get 18 : ℤ) := by
  rw [measured_serialized] at h
  obtain ⟨hlen, -, lat50, lat75, lat95, hl, -⟩ := runData_ok h
  cases (runData_of_lats hlen hl).symm.trans h
  refine ⟨rfl, ?_, ?_⟩
  · simp [List.head?_eq_getElem?]
    rfl
  · simp [List.getLast?_eq_getElem?]
    rfl

theorem messages_reported (c : Worker.Config) (sockCount : ℤ) (sockets : List Fd)
    (workerThreads : ℕ) (hs : sockets.Nodup) (hw : 0 < workerThreads)
    (runs : ∀ i : Fin workerThreads,
      Worker.Served c sockCount (RunTest.shard sockets workerThreads i))
    (utime stime ctime : ℕ) (data : RunData)
    (h : measured utime stime ctime (serializeToStr true
      (RunTest.aggregate 2 sockets.length (RunTest.tresults fun i => (runs i).toFinished)).value)
        >>= Measured.runData = .ok data) :
    let es := RunTest.testEvents fun i => (runs i).toFinished
    es.countP Worker.Event.answers ≤ data.messages ∧
    data.messages ≤ es.countP Worker.Event.answers + sockets.length ∧
    (sockets ≠ [] → (∀ fd ∈ sockets, .answered fd ∈ es) → sockets.length * 19 < 2 ^ 31 →
      ∃ low high : ℕ, data.msg5perc = some (low : ℤ) ∧ data.msg95perc = some (high : ℤ) ∧
        low ≤ high ∧
        IsOrderStatistic (sockets.map fun fd => es.count (.answered fd)) (sockets.length / 20) low ∧
        IsOrderStatistic (sockets.map fun fd => es.count (.answered fd))
          (sockets.length * 19 / 20) high) := by
  obtain ⟨hm, h5, h95⟩ := record_messages h
  obtain ⟨hle, hge⟩ := RunTest.aggregate_answers runs hs hw
  rw [hm, RunTest.aggregate_mcount]
  refine ⟨by exact_mod_cast hle, by exact_mod_cast hge, fun h1 hpos hlt => ?_⟩
  have hrank (i : Fin 19) := RunTest.aggregate_percentiles runs 2 hs hw h1 hpos hlt i
  refine ⟨_, _, h5, h95, (hrank 0).mono (hrank 18) ?_, ?_, hrank 18⟩
  · exact Nat.div_le_div_right (Nat.mul_le_mul_left _ (by decide))
  · have h0 := hrank 0
    simp only [Fin.val_zero, zero_add, mul_one] at h0
    exact h0

theorem messages_reported_one : ∃ (data : RunData) (low high : ℕ),
    1 ≤ data.messages ∧ data.messages ≤ 1 + 1 ∧ data.msg5perc = some (low : ℤ) ∧
      data.msg95perc = some (high : ℤ) ∧ low ≤ high ∧ IsOrderStatistic [1] 0 low := by
  obtain ⟨data, hdata, -⟩ := record_of_lats 0 0 1 (sent_oneLatency ▸ getLats_oneBucket)
  have hanswers : (RunTest.testEvents fun i => (oneRun i).toFinished).countP
      Worker.Event.answers = 1 := by decide +kernel
  obtain ⟨hle, hge, h⟩ := messages_reported (Worker.Config.log2Lat ⟨3, 0, 0, fun _ => 0⟩) 1 [5] 1
    (by decide) (by decide) oneRun 0 0 1 data hdata
  rw [hanswers] at hle hge
  obtain ⟨low, high, hlow, hhigh, hlh, hrank, -⟩ :=
    h (by decide) (by decide +kernel) (by decide)
  have hcount : [5].map (fun fd => (RunTest.testEvents fun i => (oneRun i).toFinished).count
      (.answered fd)) = [1] := by decide +kernel
  rw [hcount] at hrank
  exact ⟨data, low, high, hle, hge, hlow, hhigh, hlh, hrank⟩

end NetworkPing.Report
