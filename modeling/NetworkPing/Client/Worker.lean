import Mathlib.Algebra.GroupWithZero.Nat
import Mathlib.Data.List.Infix
import Mathlib.Tactic.Common

/-! `worker` of client.go, over the results of `conn.Read`. The result of `conn.Write` is
not read, and a worker whose results have run out is blocked in `conn.Read`. -/

namespace NetworkPing.Client.Go

def ECONNRESET : ℕ := 104

inductive Wrapped
  | syscallError (errno : ℕ)
  | other
  deriving DecidableEq

inductive Err
  | eof
  | opError (err : Wrapped) (text : String)
  deriving DecidableEq

structure ReadResult where
  count : ℕ
  err : Option Err
  deriving DecidableEq

def ReadResult.Possible (blockSize : ℕ) (r : ReadResult) : Prop :=
  match r.err with
  | none => 1 ≤ r.count ∧ r.count ≤ blockSize
  | some _ => r.count = 0

inductive Log
  | reading (text : String)
  | partialMessage
  deriving DecidableEq

inductive Deferred
  | done
  | close
  deriving DecidableEq

inductive Exit
  | left
  | panicked
  deriving DecidableEq

structure State where
  reads : ℕ := 0
  replies : List ℕ := []
  logs : List Log := []
  deferred : List Deferred := []
  exit : Option Exit := none
  deriving DecidableEq

def State.unwind (s : State) (exit : Exit) : State :=
  { s with deferred := s.deferred ++ [.done, .close], exit := some exit }

/-- `err.(*net.OpError)`, which panics on `nil` and on any other type of error. -/
def asOpError : Option Err → Option (Wrapped × String)
  | some (.opError err text) => some (err, text)
  | _ => none

def report (err : Err) (operr : Wrapped) : List Log :=
  match err with
  | .eof => []
  | .opError _ text =>
    if operr ≠ .syscallError ECONNRESET ∧ ¬ "connection reset by peer".toList <:+: text.toList then
      [.reading text]
    else []

def worker (blockSize : ℕ) (s : State) : List ReadResult → State
  | [] => s
  | r :: rs =>
    let s := { s with reads := s.reads + 1 }
    match asOpError r.err with
    | none => s.unwind .panicked
    | some (operr, _) =>
      match r.err with
      | some err => { s with logs := s.logs ++ report err operr }.unwind .left
      | none =>
        if r.count = 0 then s.unwind .left
        else
          let logs := if r.count < blockSize then s.logs ++ [.partialMessage] else s.logs
          worker blockSize { s with logs := logs, replies := s.replies ++ [blockSize] } rs

def beforeError (rs : List ReadResult) : List ReadResult := rs.takeWhile fun r => r.err.isNone

def complete (blockSize : ℕ) (rs : List ReadResult) : ℕ :=
  ((beforeError rs).map ReadResult.count).sum / blockSize

structure Serves (blockSize : ℕ) (rs : List ReadResult) (t : State) : Prop where
  calm : t.exit ≠ some .panicked
  replies : t.replies = List.replicate (complete blockSize rs) blockSize
  leaves : t.reads = min rs.length ((beforeError rs).length + 1)
  exits : (∃ r ∈ rs, r.err ≠ none) → t.exit = some .left ∧ t.deferred.Perm [.close, .done]

variable {blockSize : ℕ} {r : ReadResult} {rs : List ReadResult}

lemma worker_left (err : Wrapped) (text : String) (hr : r.err = some (.opError err text)) :
    let t := worker blockSize {} (r :: rs)
    t.exit = some .left ∧ t.reads = 1 ∧ t.replies = [] ∧ t.deferred = [.done, .close] := by
  simp [worker, hr, asOpError, State.unwind]

lemma worker_panics (hr : asOpError r.err = none) :
    (worker blockSize {} (r :: rs)).exit = some .panicked := by
  simp [worker, hr, State.unwind]

theorem worker_serves (blockSize : ℕ) (rs : List ReadResult) :
    Serves blockSize rs (worker blockSize {} rs) ↔
      ∀ r ∈ rs.head?, ∃ err text, r.err = some (.opError err text) := by
  cases rs with
  | nil =>
    refine iff_of_true ⟨by simp [worker], ?_, by simp [worker], by simp⟩ (by simp)
    simp [worker, complete, beforeError]
  | cons r rs =>
    simp only [List.head?_cons, Option.mem_some_iff, forall_eq']
    constructor
    · intro hs
      cases hr : r.err with
      | none => exact (hs.calm (worker_panics (by rw [hr]; rfl))).elim
      | some e =>
        cases e with
        | eof => exact (hs.calm (worker_panics (by rw [hr]; rfl))).elim
        | opError err text => exact ⟨err, text, rfl⟩
    · rintro ⟨err, text, hr⟩
      obtain ⟨hexit, hreads, hreplies, hdeferred⟩ := worker_left err text hr
      have hbefore : beforeError (r :: rs) = [] := by simp [beforeError, hr]
      refine ⟨by simp [hexit], ?_, ?_, fun _ => ⟨hexit, ?_⟩⟩
      · simp [hreplies, complete, hbefore]
      · simp [hreads, hbefore]
      · rw [hdeferred]
        exact List.Perm.swap ..

theorem worker_serves_nothing :
    let rs : List ReadResult := [⟨3, none⟩, ⟨0, some .eof⟩]
    (∀ r ∈ rs, r.Possible 3) ∧ (worker 3 {} rs).exit = some .panicked ∧
      (worker 3 {} rs).replies = [] ∧ complete 3 rs = 1 ∧ ¬ Serves 3 rs (worker 3 {} rs) := by
  refine ⟨?_, by decide, by decide, by decide, fun h => h.calm (by decide)⟩
  simp [ReadResult.Possible]

end NetworkPing.Client.Go
