import Mathlib.Tactic

/-! The epoll selector. `size` is `events.size()`, `ready` the entries from
`current_ready` to `end_of_ready`, and `current` the entry at `current_ready - 1`.
An entry carries what the caller reads of an `epoll_event`. -/

namespace NetworkPing

abbrev Fd := ℤ

structure EPollRSelector (ε : Type) where
  size : ℕ
  ready : List ε
  current : Option ε

namespace EPollRSelector

variable {ε : Type}

def create (sockCount : ℤ) : EPollRSelector ε := ⟨sockCount.toNat, [], none⟩

def wait (sel : EPollRSelector ε) (result : Option (List ε)) : Option (EPollRSelector ε) :=
  result.map fun batch => { sel with ready := batch, current := none }

def next (sel : EPollRSelector ε) : Option (ε × EPollRSelector ε) :=
  match sel.ready with
  | [] => none
  | e :: es => some (e, { sel with ready := es, current := some e })

def readyCount (sel : EPollRSelector ε) : ℕ := sel.ready.length

def removeCurrentReady (sel : EPollRSelector ε) : Option ε := sel.current

lemma next_cons {sel : EPollRSelector ε} {e : ε} {es : List ε} (h : sel.ready = e :: es) :
    sel.next = some (e, { sel with ready := es, current := some e }) := by
  simp only [next, h]

lemma next_nil {sel : EPollRSelector ε} (h : sel.ready = []) : sel.next = none := by
  simp only [next, h]

end EPollRSelector

end NetworkPing
