import Mathlib.Data.List.Basic
import NetworkPing.Client.Worker
import NetworkPing.Machine

/-! `RunTest` of client.go with `doLoad` and `prepare`: the goroutine of the test and one for each
result of `Accept`, in any interleaving. A panic ends the process when the deferred calls of its
goroutine have run. -/

namespace NetworkPing.Client.Go

structure Config where
  connectionCount : ℤ
  blockSize : ℕ

inductive Hook
  | readyConn
  | beforeTest
  | afterTest
  deriving DecidableEq

inductive Stage
  | created
  | reading
  | unwinding (calls : List Deferred) (exit : Exit)
  | gone
  deriving DecidableEq

/-- A goroutine of `worker`; `conn` is `nil` when it was not accepted. -/
structure Goroutine where
  accepted : Bool
  reads : List ReadResult := []
  stage : Stage := .created
  deriving DecidableEq

inductive Pc
  | listen
  | prepare (listening : Bool) (i : ℤ)
  | wait
  | returned
  deriving DecidableEq

structure Load where
  pc : Pc := .listen
  /-- The counter of the `sync.WaitGroup`. -/
  counter : ℤ := 0
  workers : List Goroutine := []
  hooks : List Hook := []
  crashed : Bool := false
  deriving DecidableEq

inductive Label
  | listenTCP (ok : Bool)
  | accept (ok : Bool)
  | prepared
  | wait
  | start (i : ℕ)
  | read (i : ℕ) (r : ReadResult)
  | unwind (i : ℕ)
  deriving DecidableEq

instance (blockSize : ℕ) (r : ReadResult) : Decidable (r.Possible blockSize) :=
  match h : r.err with
  | none => decidable_of_iff (1 ≤ r.count ∧ r.count ≤ blockSize) (by rw [ReadResult.Possible, h])
  | some _ => decidable_of_iff (r.count = 0) (by rw [ReadResult.Possible, h])

def Load.crash (s : Load) : Load := { s with crashed := true }

def Load.set (s : Load) (i : ℕ) (g : Goroutine) : Load := { s with workers := s.workers.set i g }

def Load.done (s : Load) : Load :=
  if s.counter - 1 < 0 then s.crash else { s with counter := s.counter - 1 }

/-- The two `defer` statements; there is no method value of a `nil` connection. -/
def start (s : Load) (i : ℕ) (g : Goroutine) : Load :=
  if g.accepted then s.set i { g with stage := .reading } else s.crash

def read (blockSize : ℕ) (s : Load) (i : ℕ) (g : Goroutine) (r : ReadResult) : Load :=
  let reads := g.reads ++ [r]
  let w := worker blockSize {} reads
  let stage := match w.exit with
    | none => .reading
    | some exit => .unwinding w.deferred exit
  s.set i { g with reads := reads, stage := stage }

def unwind (s : Load) (i : ℕ) (g : Goroutine) : List Deferred → Exit → Load
  | .done :: calls, exit => (s.set i { g with stage := .unwinding calls exit }).done
  | .close :: calls, exit => s.set i { g with stage := .unwinding calls exit }
  | [], .left => s.set i { g with stage := .gone }
  | [], .panicked => s.crash

def step (c : Config) (s : Load) (l : Label) : Option Load :=
  if s.crashed then none else
  match s.pc, l with
  | .listen, .listenTCP ok =>
    some { s with pc := .prepare ok 0, hooks := s.hooks ++ [.readyConn] }
  | .prepare listening i, .accept ok =>
    if i < c.connectionCount ∧ (ok → listening) then
      some { s with
        pc := .prepare listening (i + 1)
        counter := s.counter + 1
        workers := s.workers ++ [{ accepted := ok }] }
    else none
  | .prepare _ i, .prepared =>
    if i < c.connectionCount then none
    else some { s with pc := .wait, hooks := s.hooks ++ [.beforeTest] }
  | .wait, .wait =>
    if s.counter = 0 then some { s with pc := .returned, hooks := s.hooks ++ [.afterTest] }
    else none
  | _, .start i =>
    (s.workers[i]?).bind fun g => if g.stage = .created then some (start s i g) else none
  | _, .read i r =>
    (s.workers[i]?).bind fun g =>
      if g.stage = .reading ∧ r.Possible c.blockSize then some (read c.blockSize s i g r) else none
  | _, .unwind i =>
    (s.workers[i]?).bind fun g => match g.stage with
      | .unwinding calls exit => some (unwind s i g calls exit)
      | _ => none
  | _, _ => none

inductive Moves (c : Config) (s : Load) : Label → Load → Prop
  | listened {ok} (h : s.pc = .listen) :
      Moves c s (.listenTCP ok)
        { s with pc := .prepare ok 0, hooks := s.hooks ++ [.readyConn] }
  | accepted {listening i} {ok : Bool} (h : s.pc = .prepare listening i)
      (hi : i < c.connectionCount) (hl : ok → listening) :
      Moves c s (.accept ok) { s with
        pc := .prepare listening (i + 1)
        counter := s.counter + 1
        workers := s.workers ++ [{ accepted := ok }] }
  | prepared {listening i} (h : s.pc = .prepare listening i) (hi : ¬ i < c.connectionCount) :
      Moves c s .prepared { s with pc := .wait, hooks := s.hooks ++ [.beforeTest] }
  | waited (h : s.pc = .wait) (hc : s.counter = 0) :
      Moves c s .wait { s with pc := .returned, hooks := s.hooks ++ [.afterTest] }
  | started {i g} (hg : s.workers[i]? = some g) (hs : g.stage = .created) :
      Moves c s (.start i) (start s i g)
  | read {i g r} (hg : s.workers[i]? = some g) (hs : g.stage = .reading)
      (hr : r.Possible c.blockSize) : Moves c s (.read i r) (read c.blockSize s i g r)
  | unwound {i g calls exit} (hg : s.workers[i]? = some g)
      (hs : g.stage = .unwinding calls exit) : Moves c s (.unwind i) (unwind s i g calls exit)

variable {c : Config} {s t : Load} {l : Label} {ls : List Label} {g g' : Goroutine} {i : ℕ}
  {r : ReadResult} {blockSize : ℕ}

lemma step_moves (h : step c s l = some t) : s.crashed = false ∧ Moves c s l t := by
  rw [step.eq_def] at h
  by_cases hc : s.crashed = true
  · rw [if_pos hc] at h
    cases h
  rw [if_neg hc] at h
  refine ⟨by simpa using hc, ?_⟩
  split at h
  next hpc =>
    cases h
    exact .listened hpc
  next listening i ok hpc =>
    split_ifs at h with hi
    cases h
    exact .accepted hpc hi.1 hi.2
  next listening i hpc =>
    split_ifs at h with hi
    cases h
    exact .prepared hpc hi
  next hpc =>
    split_ifs at h with hcount
    cases h
    exact .waited hpc hcount
  next i =>
    obtain ⟨g, hg, h⟩ := Option.bind_eq_some_iff.mp h
    split_ifs at h with hs
    cases h
    exact .started hg hs
  next i r =>
    obtain ⟨g, hg, h⟩ := Option.bind_eq_some_iff.mp h
    split_ifs at h with hs
    cases h
    exact .read hg hs.1 hs.2
  next i =>
    obtain ⟨g, hg, h⟩ := Option.bind_eq_some_iff.mp h
    split at h
    next calls exit hs =>
      cases h
      exact .unwound hg hs
    next => cases h
  next => cases h

def Goroutine.owes (g : Goroutine) : Bool :=
  match g.stage with
  | .created | .reading => true
  | .unwinding calls _ => .done ∈ calls
  | .gone => false

def Goroutine.Ok (blockSize : ℕ) (g : Goroutine) : Prop :=
  match g.stage with
  | .created => g.reads = []
  | .reading => g.accepted = true ∧ g.reads = []
  | .unwinding calls exit => g.accepted = true ∧ calls <:+ [.done, .close] ∧
      ∃ r, g.reads = [r] ∧ (worker blockSize {} [r]).exit = some exit
  | .gone => g.accepted = true ∧
      ∃ r, g.reads = [r] ∧ (worker blockSize {} [r]).exit = some .left

def Goroutine.Panics (blockSize : ℕ) (g : Goroutine) : Prop :=
  g.accepted = false ∨ (worker blockSize {} g.reads).exit = some .panicked

def Place (c : Config) (s : Load) : Prop :=
  match s.pc with
  | .listen => s.workers = [] ∧ s.hooks = []
  | .prepare _ i => i = s.workers.length ∧ (i = 0 ∨ i ≤ c.connectionCount) ∧
      s.hooks = [.readyConn]
  | .wait => s.workers.length = c.connectionCount.toNat ∧ s.hooks = [.readyConn, .beforeTest]
  | .returned => s.workers.length = c.connectionCount.toNat ∧
      s.hooks = [.readyConn, .beforeTest, .afterTest] ∧ ∀ g ∈ s.workers, g.owes = false

structure Inv (c : Config) (s : Load) : Prop where
  counter : s.counter = s.workers.countP Goroutine.owes
  workers : ∀ g ∈ s.workers, g.Ok c.blockSize
  place : Place c s
  crashed : s.crashed = true → ∃ g ∈ s.workers, g.Panics c.blockSize

lemma worker_once (blockSize : ℕ) (r : ReadResult) : ∃ exit,
    (worker blockSize {} [r]).exit = some exit ∧
      (worker blockSize {} [r]).deferred = [.done, .close] ∧
      (worker blockSize {} [r]).replies = [] := by
  cases hr : asOpError r.err with
  | none => exact ⟨.panicked, by simp [worker, hr, State.unwind]⟩
  | some e =>
    obtain ⟨err, text⟩ := e
    obtain ⟨count, rerr⟩ := r
    cases rerr with
    | none => cases hr
    | some e => exact ⟨.left, by simp [worker, hr, State.unwind]⟩

lemma Inv.crash (hi : Inv c s) (hg : g ∈ s.workers) (hp : g.Panics c.blockSize) :
    Inv c s.crash :=
  ⟨hi.counter, hi.workers, hi.place, fun _ => ⟨g, hg, hp⟩⟩

lemma Inv.set {n : ℤ} (hi : Inv c s) (hc : s.crashed = false) (hg : s.workers[i]? = some g)
    (hok : g'.Ok c.blockSize) (howes : g'.owes → g.owes)
    (hn : n + g.owes.toNat = s.counter + g'.owes.toNat) :
    Inv c { s.set i g' with counter := n } := by
  obtain ⟨hlt, rfl⟩ := List.getElem?_eq_some_iff.mp hg
  refine ⟨?_, fun x hx => ?_, ?_, fun h => ?_⟩
  · have hcount := hi.counter
    have hpos : (s.workers[i].owes : Bool) → 0 < s.workers.countP Goroutine.owes := fun h =>
      List.countP_pos_iff.mpr ⟨_, List.getElem_mem hlt, h⟩
    simp only [Load.set, List.countP_set hlt]
    cases h : s.workers[i].owes with
    | false =>
      have h' : g'.owes = false := by
        by_contra hne
        exact absurd (howes (by simpa using hne)) (by simp [h])
      simp [h, h'] at hn ⊢
      omega
    | true =>
      have hle := hpos h
      cases h' : g'.owes <;> simp [h, h'] at hn ⊢ <;> omega
  · obtain hx | rfl := List.mem_or_eq_of_mem_set hx
    · exact hi.workers x hx
    · exact hok
  · have hplace := hi.place
    rw [Place] at hplace ⊢
    simp only [Load.set, List.length_set]
    split at hplace
    · rw [hplace.1] at hlt
      cases hlt
    · exact hplace
    · exact hplace
    · refine ⟨hplace.1, hplace.2.1, fun x hx => ?_⟩
      obtain hx | rfl := List.mem_or_eq_of_mem_set hx
      · exact hplace.2.2 x hx
      · have hold := hplace.2.2 _ (List.getElem_mem hlt)
        by_contra h
        exact absurd (howes (by simpa using h)) (by simp [hold])
  · rw [Load.set, hc] at h
    cases h

lemma unwound_inv {calls : List Deferred} {exit : Exit} (hi : Inv c s) (hc : s.crashed = false)
    (hg : s.workers[i]? = some g) (hs : g.stage = .unwinding calls exit) :
    Inv c (unwind s i g calls exit) := by
  have hmem := List.mem_of_getElem? hg
  have hok := hi.workers g hmem
  simp only [Goroutine.Ok, hs] at hok
  obtain ⟨ha, hcalls, r, hr, hexit⟩ := hok
  cases calls with
  | nil =>
    cases exit with
    | left =>
      exact hi.set hc hg ⟨ha, r, hr, hexit⟩ (by simp [Goroutine.owes])
        (by simp [Goroutine.owes, hs])
    | panicked =>
      refine hi.crash hmem (.inr ?_)
      rw [hr]
      exact hexit
  | cons call calls =>
    have hsuffix : calls <:+ [.done, .close] := (List.suffix_cons call calls).trans hcalls
    cases call with
    | done =>
      obtain rfl : calls = [.close] := by
        simpa [List.suffix_cons_iff] using hcalls
      have hpos : 0 < s.workers.countP Goroutine.owes :=
        List.countP_pos_iff.mpr ⟨g, hmem, by simp [Goroutine.owes, hs]⟩
      have hcount := hi.counter
      rw [unwind, Load.done, if_neg (by simp only [Load.set]; omega)]
      exact hi.set hc hg ⟨ha, hsuffix, r, hr, hexit⟩ (by simp [Goroutine.owes])
        (by simp [Goroutine.owes, hs, Load.set])
    | close =>
      obtain rfl : calls = [] := by
        simpa [List.suffix_cons_iff] using hcalls
      exact hi.set hc hg ⟨ha, hsuffix, r, hr, hexit⟩ (by simp [Goroutine.owes])
        (by simp [Goroutine.owes, hs])

lemma step_inv (hi : Inv c s) (h : step c s l = some t) : Inv c t := by
  obtain ⟨hc, hm⟩ := step_moves h
  have hplace := hi.place
  rw [Place] at hplace
  cases hm with
  | listened hpc =>
    simp only [hpc] at hplace
    refine ⟨hi.counter, hi.workers, ?_, hi.crashed⟩
    simp [Place, hplace.1, hplace.2]
  | @accepted listening k ok hpc hk =>
    simp only [hpc] at hplace
    obtain ⟨hlen, -, hhooks⟩ := hplace
    refine ⟨?_, ?_, ?_, fun h => by simp [hc] at h⟩
    · simp [hi.counter, Goroutine.owes]
    · intro x hx
      obtain hx | hx := List.mem_append.mp hx
      · exact hi.workers x hx
      · rw [List.mem_singleton.mp hx]
        rfl
    · refine ⟨?_, .inr (by omega), hhooks⟩
      simp [hlen]
  | prepared hpc hk =>
    simp only [hpc] at hplace
    obtain ⟨hlen, hle, hhooks⟩ := hplace
    refine ⟨hi.counter, hi.workers, ⟨?_, ?_⟩, hi.crashed⟩
    · simp only
      omega
    · simp [hhooks]
  | waited hpc hcount =>
    simp only [hpc] at hplace
    have hnone : s.workers.countP Goroutine.owes = 0 := by
      have := hi.counter
      omega
    refine ⟨hi.counter, hi.workers, ⟨hplace.1, by simp [hplace.2], fun g hg => ?_⟩, hi.crashed⟩
    simpa using List.countP_eq_zero.mp hnone g hg
  | @started i g hg hs =>
    have hok := hi.workers g (List.mem_of_getElem? hg)
    simp only [Goroutine.Ok, hs] at hok
    rw [start]
    split_ifs with ha
    · exact hi.set hc hg ⟨ha, hok⟩ (by simp [Goroutine.owes, hs]) (by simp [Goroutine.owes, hs])
    · exact hi.crash (List.mem_of_getElem? hg) (.inl (by simpa using ha))
  | @read i g r hg hs =>
    have hok := hi.workers g (List.mem_of_getElem? hg)
    simp only [Goroutine.Ok, hs] at hok
    obtain ⟨ha, hreads⟩ := hok
    obtain ⟨exit, hexit, hdeferred, -⟩ := worker_once c.blockSize r
    rw [read]
    simp only [hreads, List.nil_append, hexit, hdeferred]
    exact hi.set hc hg ⟨ha, List.suffix_rfl, r, rfl, hexit⟩ (by simp [Goroutine.owes, hs])
      (by simp [Goroutine.owes, hs])
  | unwound hg hs => exact unwound_inv hi hc hg hs

lemma run_inv (hr : Machine.run (step c) {} ls = some s) : Inv c s := by
  have hstart : Inv c {} := ⟨rfl, by simp, ⟨rfl, rfl⟩, by simp⟩
  exact Machine.run_invariant (Inv c) (fun _ _ _ hi h => step_inv hi h) hstart hr

lemma Goroutine.Ok.reads (h : g.Ok blockSize) : g.reads = [] ∨ ∃ r, g.reads = [r] := by
  rw [Ok] at h
  split at h
  · exact .inl h
  · exact .inl h.2
  · obtain ⟨-, -, r, hr, -⟩ := h
    exact .inr ⟨r, hr⟩
  · obtain ⟨-, r, hr, -⟩ := h
    exact .inr ⟨r, hr⟩

lemma Goroutine.Ok.read (h : g.Ok blockSize) (ho : g.owes = false) :
    g.accepted = true ∧ g.reads.length = 1 := by
  rw [Ok] at h
  split at h
  next hs => simp [owes, hs] at ho
  next hs => simp [owes, hs] at ho
  · obtain ⟨ha, -, r, hr, -⟩ := h
    exact ⟨ha, by rw [hr]; rfl⟩
  · obtain ⟨ha, r, hr, -⟩ := h
    exact ⟨ha, by rw [hr]; rfl⟩

structure Loaded (c : Config) (s : Load) : Prop where
  counter : s.counter = s.workers.countP Goroutine.owes
  silent : ∀ g ∈ s.workers, g.reads.length ≤ 1 ∧ (worker c.blockSize {} g.reads).replies = []
  hooks : s.hooks <+: [.readyConn, .beforeTest, .afterTest]
  returned : s.pc = .returned → .afterTest ∈ s.hooks ∧
    s.workers.length = c.connectionCount.toNat ∧
    ∀ g ∈ s.workers, g.accepted = true ∧ g.reads.length = 1
  gone : ∀ g ∈ s.workers, g.stage = .gone → ¬ g.Panics c.blockSize
  crashed : s.crashed = true → ∃ g ∈ s.workers, g.Panics c.blockSize

end NetworkPing.Client.Go
