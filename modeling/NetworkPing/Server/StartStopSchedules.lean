import NetworkPing.Schedule
import NetworkPing.Sequences
import NetworkPing.Server.MainLoop
import NetworkPing.Server.StartStopBarrier

namespace NetworkPing.StartStop

open Schedule (own share Plays Quietly quietly_step)

variable {c : Config} {s t : State} {l : Label} {ls : List Label} {i j : ℕ}
  {runs : ℕ → List Worker.Label} {ws : ℕ → Worker.State} {xs : List Thread} {x y : Thread}

def worked : Label → Option (ℕ × Worker.Label)
  | .loop i k => some (i, k)
  | _ => none

def Thread.state (c : Config) : Thread → Worker.State
  | loop w | returned w => w
  | _ => Worker.start c.sockCount

def view (c : Config) (xs : List Thread) (i : ℕ) : Worker.State :=
  (xs[i]?.map (Thread.state c)).getD (Worker.start c.sockCount)

lemma view_some (hx : xs[i]? = some x) : view c xs i = x.state c := by
  rw [view, hx]
  rfl

lemma view_set (hx : xs[j]? = some x) (y : Thread) :
    view c (xs.set j y) i = if j = i then y.state c else view c xs i := by
  split_ifs with h
  · subst h
    exact view_some (set_self hx y)
  · rw [view, view, List.getElem?_set_ne h]

lemma view_same (hx : xs[j]? = some x) (hy : y.state c = x.state c) :
    view c (xs.set j y) i = view c xs i := by
  rw [view_set hx]
  split_ifs with h
  · subst h
    rw [view_some hx, hy]
  · rfl

lemma share_loop (i : ℕ) (ks : List Worker.Label) (j : ℕ) :
    share worked j (ks.map (Label.loop i)) = if j = i then ks else [] :=
  Schedule.share_map (Label.loop i) (fun _ => rfl) ks j

lemma step_view (hb : Barrier c s ls) (h : step c s l = some t) (i : ℕ) :
    Machine.run (Worker.step c.worker) (view c s.threads i) (share worked i [l]) =
      some (view c t.threads i) := by
  have same {j : ℕ} {x y : Thread} (hx : s.threads[j]? = some x) (hy : y.state c = x.state c) :
      some (view c s.threads i) = some (view c (s.threads.set j y) i) := by
    rw [view_same hx hy]
  cases step_moves h with
  | @spawned k hm hk =>
    obtain ⟨x, hx⟩ : ∃ x, s.threads[k]? = some x :=
      ⟨_, List.getElem?_eq_getElem (hb.inv.length ▸ hk)⟩
    obtain rfl := hb.fresh k hm k le_rfl x hx
    exact same hx rfl
  | counted hx => exact same hx rfl
  | locked hx => exact same hx rfl
  | entered hx => exact same hx rfl
  | left hx => exact same hx rfl
  | @looped j k w w' hx hr hw =>
    have hshare : share worked i [.loop j k] = if i = j then [k] else [] := share_loop j [k] i
    rw [view_set hx, hshare]
    by_cases hj : i = j
    · subst hj
      rw [if_pos rfl, if_pos rfl, view_some hx]
      exact Machine.run_step hw Machine.run_nil
    · rw [if_neg hj, if_neg (Ne.symm hj)]
      rfl
  | _ => rfl

lemma run_worker (h : Machine.run (step c) (start c) ls = some s) (i : ℕ) :
    Machine.run (Worker.step c.worker) (Worker.start c.sockCount) (share worked i ls) =
      some (view c s.threads i) := by
  have hstart : view c (start c).threads i = Worker.start c.sockCount := by
    rw [view, start]
    cases h : (List.replicate c.workerThreads Thread.notStarted)[i]? with
    | none => rfl
    | some x =>
      obtain rfl := List.eq_of_mem_replicate (List.mem_of_getElem? h)
      rfl
  have hi : Barrier c s ls ∧ Machine.run (Worker.step c.worker) (Worker.start c.sockCount)
      (share worked i ls) = some (view c s.threads i) := by
    refine Machine.run_observed (fun s ls => Barrier c s ls ∧ Machine.run (Worker.step c.worker)
      (Worker.start c.sockCount) (share worked i ls) = some (view c s.threads i)) ?_
      ⟨start_barrier c, congrArg some hstart.symm⟩ h
    rintro s ls l t ⟨hb, hr⟩ hl
    rw [Schedule.share_append]
    exact ⟨step_barrier hb hl, Machine.run_trans hr (step_view hb hl i)⟩
  exact hi.2

structure Joins (c : Config) (s : State) : Prop where
  returned : ∀ (i : ℕ) (w : Worker.State), s.threads[i]? = some (.returned w) → w.pc = .returned
  passed : ∀ k, s.main = .join k → ∀ i < k, ∃ w, s.threads[i]? = some (.returned w)
  joined : s.main = .joined → ∀ i < s.threads.length, ∃ w, s.threads[i]? = some (.returned w)

lemma Joins.set (h : Joins c s) (sync : Sync) (hx : s.threads[i]? = some x)
    (hn : ∀ w, x ≠ .returned w) (hy : ∀ w, y = .returned w → w.pc = .returned) :
    Joins c { s with sync := sync, threads := s.threads.set i y } := by
  have hkeep {j : ℕ} (hj : ∃ w, s.threads[j]? = some (.returned w)) :
      ∃ w, (s.threads.set i y)[j]? = some (.returned w) := by
    obtain ⟨w, hw⟩ := hj
    refine ⟨w, set_ne (fun hji => ?_) hw⟩
    rw [hji, hx] at hw
    exact hn w (Option.some.inj hw)
  refine ⟨fun j w hw => ?_, fun k hk j hj => hkeep (h.passed k hk j hj), fun hm j hj => ?_⟩
  · obtain ⟨-, hz⟩ | ⟨-, hj⟩ := set_some hw
    · exact hy w hz.symm
    · exact h.returned j w hj
  · rw [List.length_set] at hj
    exact hkeep (h.joined hm j hj)

lemma step_joins (hs : Joins c s) (h : step c s l = some t) : Joins c t := by
  cases step_moves h with
  | @spawned k hm hk =>
    refine ⟨fun j w hw => ?_, nofun, nofun⟩
    obtain ⟨-, hz⟩ | ⟨-, hj⟩ := set_some hw
    · cases hz
    · exact hs.returned j w hj
  | counted hx => exact hs.set _ hx (by simp) (by simp)
  | locked hx => exact hs.set _ hx (by simp) (by simp)
  | entered hx => exact hs.set _ hx (by simp) (by simp)
  | left hx hw => exact hs.set _ hx (by simp) (by rintro w ⟨⟩; exact hw)
  | looped hx => exact hs.set _ hx (by simp) (by simp)
  | stored => exact ⟨hs.returned, by simp, by simp⟩
  | @joined k w hm hx =>
    refine ⟨hs.returned, fun k' hk' j hj => ?_, by simp⟩
    cases hk'
    obtain hj | rfl := Nat.lt_succ_iff_lt_or_eq.mp hj
    · exact hs.passed k hm j hj
    · exact ⟨w, hx⟩
  | @joinedAll k hm hx =>
    refine ⟨hs.returned, by simp, fun _ j hj => hs.passed k hm j ?_⟩
    exact Nat.lt_of_lt_of_le hj (List.getElem?_eq_none_iff.mp hx)
  | waited => exact hs
  | _ => exact ⟨hs.returned, by simp, by simp⟩

lemma run_joins (h : Machine.run (step c) (start c) ls = some s) : Joins c s := by
  have hstart : Joins c (start c) := by
    refine ⟨fun i w hw => ?_, by simp [start], by simp [start]⟩
    cases List.eq_of_mem_replicate (List.mem_of_getElem? hw)
  exact Machine.run_invariant (Joins c) (fun _ _ _ hs hl => step_joins hs hl) hstart h

lemma plays_loop {w w' : Worker.State} {ks : List Worker.Label}
    (hx : s.threads[i]? = some (.loop w))
    (hr : Machine.run (Worker.step c.worker) w ks = some w')
    (hd : ∀ k ∈ ks, Reads s.sync.done k) : Plays (step c) worked s
      { s with threads := s.threads.set i (.loop w') } fun j => if j = i then ks else [] := by
  refine ⟨ks.map (Label.loop i), ?_, fun j => share_loop i ks j⟩
  induction ks generalizing s w with
  | nil =>
    cases Option.some.inj hr
    obtain ⟨hi, he⟩ := List.getElem?_eq_some_iff.mp hx
    rw [← he, List.set_getElem_self]
    rfl
  | cons k ks ih =>
    obtain ⟨v, hv, hr⟩ := Machine.run_cons_some.mp hr
    obtain ⟨hk, hd⟩ := List.forall_mem_cons.mp hd
    have hrest := ih (s := { s with threads := s.threads.set i (.loop v) }) (set_self hx _) hr hd
    rw [List.set_set] at hrest
    exact Machine.run_step (Moves.step (.looped hx hk hv)) hrest

lemma split_done {w w' : Worker.State} {ks : List Worker.Label}
    (hr : Machine.run (Worker.step c.worker) w ks = some w') : ∃ pre last mid, ks = pre ++ last ∧
      Machine.run (Worker.step c.worker) w pre = some mid ∧
      Machine.run (Worker.step c.worker) mid last = some w' ∧
      (∀ k ∈ pre, Reads false k) ∧ ∀ k ∈ last, Reads true k := by
  have hreads {k : Worker.Label} (h : k ≠ .done true) : Reads false k := by
    cases k with
    | done b =>
      cases b with
      | false => rfl
      | true => exact (h rfl).elim
    | _ => trivial
  by_cases hm : .done true ∈ ks
  · obtain ⟨pre, rest, rfl, hpre⟩ := List.eq_append_cons_of_mem hm
    rw [Machine.run_append, Option.bind_eq_some_iff] at hr
    obtain ⟨mid, hmid, hlast⟩ := hr
    obtain ⟨v, hv, hrest⟩ := Machine.run_cons_some.mp hlast
    obtain rfl : rest = [] := by
      cases rest with
      | nil => rfl
      | cons k rest =>
        obtain ⟨u, hu, -⟩ := Machine.run_cons_some.mp hrest
        cases Worker.step_moves hv with
        | stopped => cases Worker.step_moves hu <;> simp_all
    exact ⟨pre, [.done true], mid, rfl, hmid, hlast,
      fun k hk => hreads fun he => hpre (he ▸ hk), by simp [Reads]⟩
  · exact ⟨ks, [], w', (List.append_nil ks).symm, hr, rfl,
      fun k hk => hreads fun he => hm (he ▸ hk), by simp⟩

def turns (before after : ℕ → Thread) (k i : ℕ) : Thread := if i < k then after i else before i

variable {before after : ℕ → Thread} {n k : ℕ}

lemma turns_get (hk : k < n) : ((List.range n).map (turns before after k))[k]? =
    some (before k) := by
  rw [List.getElem?_map, List.getElem?_range hk, Option.map_some, turns, if_neg (lt_irrefl k)]

lemma turns_set (hk : k < n) : ((List.range n).map (turns before after k)).set k (after k) =
    (List.range n).map (turns before after (k + 1)) := by
  apply List.ext_getElem (by simp)
  intro i hi hi'
  simp only [List.getElem_set, List.getElem_map, List.getElem_range, turns]
  obtain hlt | rfl | hlt := lt_trichotomy i k
  · rw [if_neg hlt.ne', if_pos hlt, if_pos (by omega)]
  · rw [if_pos rfl, if_pos (by omega)]
  · rw [if_neg hlt.ne, if_neg (by omega), if_neg (by omega)]

lemma turns_zero : (List.range n).map (turns before after 0) = (List.range n).map before := rfl

lemma turns_all : (List.range n).map (turns before after n) = (List.range n).map after :=
  List.map_congr_left fun _ hi => if_pos (List.mem_range.mp hi)

def place (c : Config) (sync : Sync) (main : Main) (threads : ℕ → Thread) : State :=
  ⟨sync, main, false, (List.range c.workerThreads).map threads⟩

lemma plays_turns (sync : ℕ → Sync) (main : ℕ → Main) (before after : ℕ → Thread)
    (runs : ℕ → List Worker.Label)
    (h : ∀ k < c.workerThreads, ∀ xs : List Thread, xs[k]? = some (before k) →
      Plays (step c) worked ⟨sync k, main k, false, xs⟩
        ⟨sync (k + 1), main (k + 1), false, xs.set k (after k)⟩
        fun i => if i = k then runs k else []) :
    Plays (step c) worked (place c (sync 0) (main 0) before)
      (place c (sync c.workerThreads) (main c.workerThreads) after)
      fun i => if i < c.workerThreads then runs i else [] := by
  have hall := Schedule.plays_each (fun k => place c (sync k) (main k) (turns before after k)) runs
    fun k hk => by
      have hturn := h k hk ((List.range c.workerThreads).map (turns before after k)) (turns_get hk)
      rwa [turns_set hk] at hturn
  rw [place, turns_zero, place, turns_all] at hall
  exact hall

lemma quietly_turns (sync : ℕ → Sync) (main : ℕ → Main) (before after : ℕ → Thread)
    (h : ∀ k < c.workerThreads, ∀ xs : List Thread, xs[k]? = some (before k) →
      Quietly (step c) worked ⟨sync k, main k, false, xs⟩
        ⟨sync (k + 1), main (k + 1), false, xs.set k (after k)⟩) :
    Quietly (step c) worked (place c (sync 0) (main 0) before)
      (place c (sync c.workerThreads) (main c.workerThreads) after) := by
  have hall := plays_turns sync main before after (fun _ => []) fun k hk xs hx => by
    simp only [ite_self]
    exact h k hk xs hx
  simp only [ite_self] at hall
  exact hall

lemma quietly_started (c : Config) : Quietly (step c) worked (start c)
    (place c ⟨false, some .main, 0⟩ (.write 0) fun _ => .started) := by
  have hstart : start c = place c ⟨false, some .main, 0⟩ (.spawn 0) fun _ => .notStarted := by
    simp [start, place]
  rw [hstart]
  refine (quietly_turns (fun _ => ⟨false, some .main, 0⟩) Main.spawn (fun _ => .notStarted)
    (fun _ => .started) fun k hk xs _ => ?_).trans ?_
  · exact quietly_step (Moves.step (.spawned rfl hk)) rfl
  · exact quietly_step (Moves.step (.spawnedAll rfl (lt_irrefl _))) rfl

lemma quietly_counted (c : Config) : Quietly (step c) worked
    (place c ⟨false, some .main, 0⟩ (.write 0) fun _ => .started)
    (place c ⟨false, none, c.workerThreads⟩ (.running (c.runtime * 10)) fun _ => .counted) := by
  have hwrites : Quietly (step c) worked
      (place c ⟨false, some .main, 0⟩ (.write 0) fun _ => .started)
      (place c ⟨false, some .main, 0⟩ (.write c.sockets) fun _ => .started) :=
    Schedule.quietly_each (fun k => place c ⟨false, some .main, 0⟩ (.write k) fun _ => .started)
      fun k hk => quietly_step (Moves.step (.wrote rfl hk)) rfl
  refine (hwrites.trans (quietly_step (Moves.step (.wroteAll rfl (lt_irrefl _))) rfl)).trans ?_
  refine (quietly_turns (fun k => ⟨false, some .main, k⟩) (fun _ => .await) (fun _ => .started)
    (fun _ => .counted) fun k hk xs hx => ?_).trans ?_
  · exact quietly_step (Moves.step (.counted hx)) rfl
  · refine (quietly_step (Moves.step (.passed rfl rfl)) rfl).trans ?_
    exact quietly_step (Moves.step (.unlocked rfl)) rfl

lemma quietly_slept (sync : Sync) (xs : List Thread) (sleeps : ℤ) :
    Quietly (step c) worked ⟨sync, .running sleeps, false, xs⟩ ⟨sync, .store, false, xs⟩ := by
  induction hn : sleeps.toNat generalizing sleeps with
  | zero => exact quietly_step (Moves.step (.ended rfl (by omega))) rfl
  | succ n ih =>
    by_cases hk : sleeps > 0 ∧ sync.activeCount ≠ 0
    · exact (quietly_step (Moves.step (.slept rfl hk)) rfl).trans (ih (sleeps - 1) (by omega))
    · exact quietly_step (Moves.step (.ended rfl hk)) rfl

lemma quietly_joined (sync : Sync) (ws : ℕ → Worker.State) : Quietly (step c) worked
    (place c sync (.join 0) fun i => .returned (ws i))
    (place c sync .joined fun i => .returned (ws i)) := by
  have hjoins : Quietly (step c) worked (place c sync (.join 0) fun i => .returned (ws i))
      (place c sync (.join c.workerThreads) fun i => .returned (ws i)) :=
    Schedule.quietly_each (fun k => place c sync (.join k) fun i => .returned (ws i))
      fun k hk => quietly_step (Moves.step (.joined (w := ws k) rfl (by simp [place, hk]))) rfl
  exact hjoins.trans (quietly_step (Moves.step (.joinedAll rfl (by simp [place]))) rfl)

def Sequential (c : Config) (runs : ℕ → List Worker.Label) (ws : ℕ → Worker.State) : Prop :=
  ∀ i < c.workerThreads, Machine.run (Worker.step c.worker) (Worker.start c.sockCount) (runs i) =
    some (ws i) ∧ (ws i).pc = .returned

def Threaded (c : Config) (runs : ℕ → List Worker.Label) (ws : ℕ → Worker.State) : Prop :=
  ∃ ls s, Machine.run (step c) (start c) ls = some s ∧ s.main = .joined ∧ .write false ∉ ls ∧
    (∀ i < c.workerThreads, share worked i ls = runs i) ∧
    s.threads = (List.range c.workerThreads).map fun i => .returned (ws i)

lemma Threaded.sequential (h : Threaded c runs ws) : Sequential c runs ws := by
  obtain ⟨ls, s, hr, -, -, hshare, hthreads⟩ := h
  intro i hi
  have hx : s.threads[i]? = some (.returned (ws i)) := by simp [hthreads, hi]
  have hrun := run_worker hr i
  rw [hshare i hi, view_some hx] at hrun
  exact ⟨hrun, (run_joins hr).returned i _ hx⟩

lemma plays_entered {w : Worker.State} {ks : List Worker.Label} {count : ℤ} {m : Main}
    (hx : xs[i]? = some .counted)
    (hr : Machine.run (Worker.step c.worker) (Worker.start c.sockCount) ks = some w)
    (hd : ∀ k ∈ ks, Reads false k) : Plays (step c) worked ⟨⟨false, none, count⟩, m, false, xs⟩
      ⟨⟨false, none, count⟩, m, false, xs.set i (.loop w)⟩ fun j => if j = i then ks else [] := by
  have hlock : Quietly (step c) worked ⟨⟨false, none, count⟩, m, false, xs⟩
      ⟨⟨false, some (.worker i), count⟩, m, false, xs.set i .locked⟩ :=
    quietly_step (Moves.step (.locked hx rfl)) rfl
  have henter : Quietly (step c) worked
      ⟨⟨false, some (.worker i), count⟩, m, false, xs.set i .locked⟩
      ⟨⟨false, none, count⟩, m, false,
        (xs.set i .locked).set i (.loop (Worker.start c.sockCount))⟩ :=
    quietly_step (Moves.step (.entered (set_self hx _))) rfl
  rw [List.set_set] at henter
  have hloop := plays_loop (s := ⟨⟨false, none, count⟩, m, false,
    xs.set i (.loop (Worker.start c.sockCount))⟩) (set_self hx _) hr hd
  rw [List.set_set] at hloop
  exact (hlock.trans henter).plays hloop

lemma plays_left {w w' : Worker.State} {ks : List Worker.Label} {count : ℤ} {m : Main}
    (hx : xs[i]? = some (.loop w)) (hr : Machine.run (Worker.step c.worker) w ks = some w')
    (hw : w'.pc = .returned) (hd : ∀ k ∈ ks, Reads true k) :
    Plays (step c) worked ⟨⟨true, none, count⟩, m, false, xs⟩
      ⟨⟨true, none, count - 1⟩, m, false, xs.set i (.returned w')⟩
      fun j => if j = i then ks else [] := by
  have hloop := plays_loop (s := ⟨⟨true, none, count⟩, m, false, xs⟩) hx hr hd
  have hleft : Quietly (step c) worked ⟨⟨true, none, count⟩, m, false, xs.set i (.loop w')⟩
      ⟨⟨true, none, count - 1⟩, m, false, (xs.set i (.loop w')).set i (.returned w')⟩ :=
    quietly_step (Moves.step (.left (set_self hx _) hw)) rfl
  rw [List.set_set] at hleft
  exact hloop.quietly hleft

lemma plays_workers (ws : ℕ → Worker.State) {mid : ℕ → Worker.State}
    {pre last : ℕ → List Worker.Label}
    (hpre : ∀ i < c.workerThreads, Machine.run (Worker.step c.worker) (Worker.start c.sockCount)
      (pre i) = some (mid i) ∧ ∀ k ∈ pre i, Reads false k)
    (hlast : ∀ i < c.workerThreads, Machine.run (Worker.step c.worker) (mid i) (last i) =
      some (ws i) ∧ (ws i).pc = .returned ∧ ∀ k ∈ last i, Reads true k) :
    Plays (step c) worked
      (place c ⟨false, none, c.workerThreads⟩ (.running (c.runtime * 10)) fun _ => .counted)
      (place c ⟨true, none, 0⟩ (.join 0) fun i => .returned (ws i))
      fun i => (if i < c.workerThreads then pre i else []) ++
        if i < c.workerThreads then last i else [] := by
  have hloops := plays_turns (c := c) (fun _ => ⟨false, none, c.workerThreads⟩)
    (fun _ => .running (c.runtime * 10)) (fun _ => .counted) (fun i => .loop (mid i)) pre
    fun k hk xs hx => plays_entered hx (hpre k hk).1 (hpre k hk).2
  have hreturns := plays_turns (c := c) (fun k => ⟨true, none, c.workerThreads - k⟩)
    (fun _ => .join 0) (fun i => .loop (mid i)) (fun i => .returned (ws i)) last
    fun k hk xs hx => by
      obtain ⟨hr, hw, hd⟩ := hlast k hk
      rw [Nat.cast_succ, ← sub_sub]
      exact plays_left hx hr hw hd
  have hstore : Quietly (step c) worked
      (place c ⟨false, none, c.workerThreads⟩ (.running (c.runtime * 10)) fun i => .loop (mid i))
      (place c ⟨true, none, c.workerThreads⟩ (.join 0) fun i => .loop (mid i)) :=
    (quietly_slept _ _ _).trans (quietly_step (Moves.step (.stored rfl)) rfl)
  simp only [Nat.cast_zero, sub_zero, sub_self] at hreturns
  exact (hloops.quietly hstore).trans hreturns

lemma Sequential.threaded (h : Sequential c runs ws) : Threaded c runs ws := by
  have hsplit (i : ℕ) : ∃ pre last mid, i < c.workerThreads → runs i = pre ++ last ∧
      Machine.run (Worker.step c.worker) (Worker.start c.sockCount) pre = some mid ∧
      Machine.run (Worker.step c.worker) mid last = some (ws i) ∧
      (∀ k ∈ pre, Reads false k) ∧ ∀ k ∈ last, Reads true k := by
    by_cases hi : i < c.workerThreads
    · obtain ⟨pre, last, mid, hs⟩ := split_done (h i hi).1
      exact ⟨pre, last, mid, fun _ => hs⟩
    · exact ⟨[], [], Worker.start 0, fun hlt => (hi hlt).elim⟩
  choose pre last mid hs using hsplit
  have hworkers := plays_workers ws (fun i hi => ⟨(hs i hi).2.1, (hs i hi).2.2.2.1⟩)
    fun i hi => ⟨(hs i hi).2.2.1, (h i hi).2, (hs i hi).2.2.2.2⟩
  obtain ⟨ls, hr, hshare⟩ := (((quietly_started c).trans (quietly_counted c)).plays
    hworkers).quietly (quietly_joined _ ws)
  refine ⟨ls, _, hr, rfl, ?_, fun i hi => ?_, rfl⟩
  · rw [← run_failed hr]
    simp [place]
  · rw [hshare]
    dsimp only
    rw [if_pos hi, if_pos hi, (hs i hi).1]

lemma stuck_not_joined (h : Machine.run (step c) (start c) ls = some s) (hw : .write false ∈ ls)
    (hn : 0 < c.workerThreads) : s.main ≠ .joined := by
  intro hm
  have hi := run_inv h
  obtain ⟨w, hx⟩ := (run_joins h).joined hm 0 (hi.length ▸ hn)
  exact Stuck.not_returns ⟨hi, (run_failed h).mpr hw⟩ 0 ⟨s, .refl s, w, hx⟩

end NetworkPing.StartStop

namespace NetworkPing.MainLoop

open RunTest (threads maxSockCountPerWorker shard)
open StartStop (Threaded)

variable {α : Type}

def threadConfig (c : Config α) (r : Running) : StartStop.Config where
  workerThreads := (threads r.params 3).toNat
  sockets := r.sockets.length
  runtime := r.params.runtime.toInt
  sockCount := maxSockCountPerWorker r.params 3
  worker := RunTest.workerConfig c.bucket r.params

lemma tresults_sequential {c : Config α} {r : Running} {runs : ℕ → List Worker.Label}
    {ws : ℕ → Worker.State} (hs : StartStop.Sequential (threadConfig c r) runs ws)
    (ho : ∀ i < (threads r.params 3).toNat, (Machine.run (Worker.report
      (RunTest.workerConfig c.bucket r.params) (shard r.sockets (threads r.params 3).toNat i)) []
      (runs i)).isSome) :
    tresults c r runs =
      some ((List.range (threads r.params 3).toNat).map fun i => (ws i).result) := by
  rw [tresults, mapM_eq_some, List.forall₂_map_right_iff, List.forall₂_same]
  intro i hi
  replace hi : i < (threads r.params 3).toNat := List.mem_range.mp hi
  obtain ⟨hr, hpc⟩ := hs i hi
  exact workerResult_eq_some.mpr ⟨ho i hi, ws i, hr, hpc, rfl⟩

theorem test_threads (c : Config α) (r : Running) (runs : ℕ → List Worker.Label)
    (res : List TestResult) :
    (tresults c r runs = some res ↔ ∃ ws, Threaded (threadConfig c r) runs ws ∧
      (∀ i < (threads r.params 3).toNat,
        (Machine.run (Worker.report (RunTest.workerConfig c.bucket r.params)
          (shard r.sockets (threads r.params 3).toNat i)) [] (runs i)).isSome) ∧
      res = (List.range (threads r.params 3).toNat).map fun i => (ws i).result) ∧
    ∀ ls s, Machine.run (StartStop.step (threadConfig c r)) (StartStop.start (threadConfig c r))
      ls = some s → .write false ∈ ls → 0 < threads r.params 3 → s.main ≠ .joined := by
  refine ⟨⟨fun h => ?_, ?_⟩, fun ls s hr hw hn => ?_⟩
  · have hworkers (i : ℕ) : ∃ w, i < (threads r.params 3).toNat →
        (Machine.run (Worker.report (RunTest.workerConfig c.bucket r.params)
          (shard r.sockets (threads r.params 3).toNat i)) [] (runs i)).isSome ∧
        Machine.run (Worker.step (RunTest.workerConfig c.bucket r.params))
          (Worker.start (maxSockCountPerWorker r.params 3)) (runs i) = some w ∧
        w.pc = .returned := by
      by_cases hi : i < (threads r.params 3).toNat
      · have hsome := mapM_isSome.mp (Option.isSome_of_eq_some h) i (List.mem_range.mpr hi)
        obtain ⟨res, hres⟩ := Option.isSome_iff_exists.mp hsome
        obtain ⟨ho, w, hw, hpc, -⟩ := workerResult_eq_some.mp hres
        exact ⟨w, fun _ => ⟨ho, hw, hpc⟩⟩
      · exact ⟨Worker.start 0, fun hlt => (hi hlt).elim⟩
    choose ws hws using hworkers
    have hs : StartStop.Sequential (threadConfig c r) runs ws := fun i hi => (hws i hi).2
    have hres := tresults_sequential hs fun i hi => (hws i hi).1
    exact ⟨ws, hs.threaded, fun i hi => (hws i hi).1, Option.some.inj (h.symm.trans hres)⟩
  · rintro ⟨ws, ht, ho, rfl⟩
    exact tresults_sequential ht.sequential ho
  · exact StartStop.stuck_not_joined hr hw (by simp [threadConfig, hn])

def oneTest : Running :=
  ⟨4, ⟨5000, 1, 1, 3, 0, 0, ⟨"1.1.1.1".toList, by decide⟩⟩, [6], [5]⟩

def oneRun : List Worker.Label :=
  [.wait (some [6]) 10, .done false, .next 6 0, .done false, .exhausted, .done false,
    .ping 6 3 3 20, .pinged, .wait (some [6]) 22, .done false, .next 6 0, .done true]

theorem test_threads_one : ∃ ws, Threaded (threadConfig oneShot oneTest) (fun _ => oneRun) ws := by
  have hsome : (tresults oneShot oneTest fun _ => oneRun).isSome := by decide +kernel
  obtain ⟨res, hres⟩ := Option.isSome_iff_exists.mp hsome
  obtain ⟨ws, ht, -⟩ := (test_threads oneShot oneTest (fun _ => oneRun) res).1.mp hres
  exact ⟨ws, ht⟩

end NetworkPing.MainLoop
