import Mathlib.Data.List.Perm.Basic
import NetworkPing.Machine

/-! Ledgers of what is acquired and released. A ledger is replayed over what is held: nothing is
acquired that is held already, and nothing is released that is not. A process owns resources at
each of its places, and its log has a ledger in it. -/

namespace NetworkPing.Ledger

variable {κ P L E : Type*}

inductive Entry (κ : Type*)
  | acquire (k : κ)
  | release (k : κ)
  deriving DecidableEq

lemma release_injective : Function.Injective (Entry.release (κ := κ)) := by
  intro a b h
  cases h
  rfl

/-- A move of a process follows a call, which may have acquired a resource, up to the next call. -/
structure Process (P L E κ : Type*) where
  move : P → L → Option (P × List E)
  opens : L → Option κ
  acquired : L → κ → E
  entry : E → Option (Entry κ)
  entry_acquired : ∀ l k, entry (acquired l k) = some (.acquire k)
  owned : P → List κ

structure State (P E : Type*) where
  pc : P
  events : List E

namespace Process

variable (p : Process P L E κ)

def entries (es : List E) : List (Entry κ) := es.filterMap p.entry

def news (l : L) : List E := ((p.opens l).map (p.acquired l)).toList

def Settles (owned : List κ) (y : P × List E) : Prop :=
  ∃ ks : List κ, p.entries y.2 = ks.map .release ∧ owned.Perm (ks ++ p.owned y.1)

variable {p} {l : L} {y : P × List E} {pc : P} {owned owned' : List κ} {body new : List E}

lemma entries_append : p.entries (body ++ new) = p.entries body ++ p.entries new :=
  List.filterMap_append

lemma mem_news {e : E} : e ∈ p.news l ↔ ∃ k ∈ p.opens l, p.acquired l k = e := by
  simp [news]

lemma entries_news : p.entries (p.news l) = (p.opens l).toList.map .acquire := by
  rw [news]
  cases p.opens l with
  | none => rfl
  | some k => simp [entries, p.entry_acquired]

lemma Settles.perm (hp : owned'.Perm owned) (h : p.Settles owned y) : p.Settles owned' y := by
  obtain ⟨ks, he, hk⟩ := h
  exact ⟨ks, he, hp.trans hk⟩

lemma Settles.quiet {es : List E} (he : p.entries es = []) (h : p.Settles owned (pc, body)) :
    p.Settles owned (pc, es ++ body) := by
  obtain ⟨ks, hb, hk⟩ := h
  exact ⟨ks, by rw [entries_append, he, hb, List.nil_append], hk⟩

lemma settles_nil (h : owned.Perm (p.owned pc)) : p.Settles owned (pc, []) := ⟨[], rfl, h⟩

end Process

variable [DecidableEq κ]

def post (held : List κ) : Entry κ → Option (List κ)
  | .acquire k => if k ∈ held then none else some (k :: held)
  | .release k => if k ∈ held then some (held.erase k) else none

def replay (held : List κ) (es : List (Entry κ)) : Option (List κ) := Machine.run post held es

def after (held : List κ) (es : List (Entry κ)) : List κ := es.foldl (fun held e =>
  match e with
  | .acquire k => k :: held
  | .release k => held.erase k) held

variable {held held' held'' ks rest : List κ} {k : κ} {es es' : List (Entry κ)}

lemma replay_append (h : replay held es = some held') (h' : replay held' es' = some held'') :
    replay held (es ++ es') = some held'' :=
  Machine.run_trans h h'

lemma replay_acquire (hk : k ∉ held) : replay held [.acquire k] = some (k :: held) := by
  rw [replay, Machine.run_cons, post, if_neg hk]
  rfl

lemma replay_release (h : held.Perm (ks ++ rest)) :
    ∃ held', replay held (ks.map .release) = some held' ∧ held'.Perm rest := by
  induction ks generalizing held with
  | nil => exact ⟨held, rfl, h⟩
  | cons k ks ih =>
    have hk : k ∈ held := h.mem_iff.mpr List.mem_cons_self
    have he : (held.erase k).Perm (ks ++ rest) := by
      rw [List.cons_append] at h
      simpa only [List.erase_cons_head] using h.erase k
    obtain ⟨held', hr, hp⟩ := ih he
    refine ⟨held', ?_, hp⟩
    have hpost : post held (.release k) = some (held.erase k) := if_pos hk
    exact Machine.run_step hpost hr

lemma after_eq (h : replay held es = some held') : after held es = held' := by
  induction es generalizing held with
  | nil => exact Option.some.inj h
  | cons e es ih =>
    obtain ⟨held'', hp, hr⟩ := Machine.run_cons_some.mp h
    rw [after, List.foldl_cons]
    cases e with
    | acquire k =>
      rw [post] at hp
      split_ifs at hp
      cases hp
      exact ih hr
    | release k =>
      rw [post] at hp
      split_ifs at hp
      cases hp
      exact ih hr

lemma replay_nodup (hn : held.Nodup) (h : replay held es = some held') : held'.Nodup := by
  refine Machine.run_invariant List.Nodup (fun held e held' hn hp => ?_) hn h
  cases e with
  | acquire k =>
    rw [post] at hp
    split_ifs at hp with hk
    cases hp
    exact List.nodup_cons.mpr ⟨hk, hn⟩
  | release k =>
    rw [post] at hp
    split_ifs at hp with hk
    cases hp
    exact hn.erase k

namespace Process

variable (p : Process P L E κ)

def live (s : State P E) : List κ := after [] (p.entries s.events)

def step (s : State P E) (l : L) : Option (State P E) :=
  if ∀ k ∈ p.opens l, k ∉ p.live s then
    (p.move s.pc l).map fun y => ⟨y.1, s.events ++ (p.news l ++ y.2)⟩
  else none

structure Accounted (s : State P E) : Prop where
  replayed : replay [] (p.entries s.events) = some (p.live s)
  owned : (p.live s).Perm (p.owned s.pc)

variable {p} {s t : State P E} {l : L} {owned : List κ} {body new : List E}

lemma step_moves (h : p.step s l = some t) : (∀ k ∈ p.opens l, k ∉ p.live s) ∧
    ∃ y, p.move s.pc l = some y ∧ t = ⟨y.1, s.events ++ (p.news l ++ y.2)⟩ := by
  rw [step] at h
  split_ifs at h with hnew
  obtain ⟨y, hm, rfl⟩ := Option.map_eq_some_iff.mp h
  exact ⟨hnew, y, hm, rfl⟩

lemma replay_move (hnew : ∀ k ∈ p.opens l, k ∉ held)
    (hr : replay [] (p.entries body) = some held) (hp : held.Perm owned)
    (he : p.entries new = ks.map .release)
    (hks : ((p.opens l).toList ++ owned).Perm (ks ++ rest)) :
    ∃ held', replay [] (p.entries (body ++ (p.news l ++ new))) = some held' ∧ held'.Perm rest := by
  have hopen : replay held (p.entries (p.news l)) = some ((p.opens l).toList ++ held) := by
    rw [entries_news]
    cases ho : p.opens l with
    | none => rfl
    | some k => exact replay_acquire (hnew k ho)
  obtain ⟨held', hr', hp'⟩ := replay_release ((hp.append_left (p.opens l).toList).trans hks)
  rw [← he] at hr'
  refine ⟨held', ?_, hp'⟩
  rw [entries_append, entries_append]
  exact replay_append hr (replay_append hopen hr')

lemma start_accounted {pc : P} (h : p.owned pc = []) : p.Accounted ⟨pc, []⟩ :=
  ⟨rfl, h ▸ .nil⟩

lemma Accounted.step (hi : p.Accounted s) (h : p.step s l = some t)
    (hs : ∀ y, p.move s.pc l = some y → p.Settles ((p.opens l).toList ++ p.owned s.pc) y) :
    p.Accounted t := by
  obtain ⟨hnew, y, hm, rfl⟩ := step_moves h
  obtain ⟨ks, he, hks⟩ := hs y hm
  obtain ⟨held, hr, hp⟩ := replay_move hnew hi.replayed hi.owned he hks
  have hlive : p.live ⟨y.1, s.events ++ (p.news l ++ y.2)⟩ = held := after_eq hr
  exact ⟨hlive ▸ hr, hlive ▸ hp⟩

lemma Accounted.nodup (h : p.Accounted s) : (p.live s).Nodup :=
  replay_nodup List.nodup_nil h.replayed

end Process

end NetworkPing.Ledger
