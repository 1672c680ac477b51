import NetworkPing.Decimal
import NetworkPing.Server.WorkerThread

/-! The answer of the server: `serialize_to_str`, and the part of `get_run_stats`
that reads it. A byte is written as the character of its code. -/

namespace NetworkPing

namespace Stats

/-- The base as it is printed, without and with `LOG2_LAT`; 2 ^ 0.1 has twelve digits. -/
def latBase (log2Lat : Bool) : List Char :=
  if log2Lat then "2".toList else "1.07177346254".toList

/-- The entries of `lat_map` come in the order in which the map is iterated. -/
def serializeToStr (log2Lat : Bool) (res : TestResult) : List Char :=
  decimal res.mcount ++ (' ' :: latBase log2Lat) ++ (' ' :: decimal res.latMap.entries.length) ++
    (res.latMap.entries.flatMap fun val => (' ' :: decimal val.1) ++ (' ' :: decimal val.2)) ++
    (' ' :: decimal res.percentiles.toList.length) ++
    res.percentiles.toList.flatMap fun val => ' ' :: decimal val

inductive PyError
  | valueError
  | indexError
  | assertionError
  deriving DecidableEq

def split (result : List Char) : List (List Char) := words isSpace result

def strip (w : List Char) : List Char :=
  ((w.dropWhile isSpace).reverse.dropWhile isSpace).reverse

def digits (w : List Char) : Except PyError (List Char) :=
  let groups := w.splitOn '_'
  if groups.all fun g => g ≠ [] ∧ g.all Char.isDigit then .ok groups.flatten else .error .valueError

def int (w : List Char) : Except PyError ℤ :=
  let (neg, w) := sign (strip w)
  (digits w).map fun ds => if neg then -(ofDecimal ds : ℤ) else ofDecimal ds

/-- A float before it is rounded to a double. -/
inductive PyFloat
  | finite (q : ℚ)
  | inf (neg : Bool)
  | nan
  deriving DecidableEq

def optDigits (w : List Char) : Except PyError (List Char) :=
  if w = [] then .ok [] else digits w

def exponent (w : List Char) : Except PyError ℤ :=
  match w with
  | [] => .ok 0
  | _ :: w => let (neg, w) := sign w
    (digits w).map fun ds => if neg then -(ofDecimal ds : ℤ) else ofDecimal ds

def float (w : List Char) : Except PyError PyFloat :=
  let (neg, w) := sign (strip w)
  let low := w.map Char.toLower
  if low = "inf".toList ∨ low = "infinity".toList then .ok (.inf neg)
  else if low = "nan".toList then .ok .nan
  else do
    let (mantissa, exp) := w.span fun c => c ≠ 'e' ∧ c ≠ 'E'
    let (whole, frac) := mantissa.span (· ≠ '.')
    let whole ← optDigits whole
    let frac ← optDigits frac.tail
    let exp ← exponent exp
    if whole = [] ∧ frac = [] then .error .valueError
    else
      let q := (ofDecimal (whole ++ frac) : ℚ) * (10 : ℚ) ^ (exp - frac.length)
      .ok (.finite (if neg then -q else q))

def bound (len : ℕ) (i : ℤ) : ℕ := min len (if i < 0 then i + len else i).toNat

def slice {α : Type} (xs : List α) (i j : ℤ) : List α :=
  (xs.take (bound xs.length j)).drop (bound xs.length i)

def sliceFrom {α : Type} (xs : List α) (i : ℤ) : List α := xs.drop (bound xs.length i)

def everyOther {α : Type} : List α → List α
  | [] => []
  | [x] => [x]
  | x :: _ :: xs => x :: everyOther xs

def item {α : Type} (xs : List α) (i : ℕ) : Except PyError α :=
  match xs[i]? with
  | some x => .ok x
  | none => .error .indexError

def dict (entries : List (ℤ × ℤ)) : AList fun _ : ℤ => ℤ :=
  entries.foldl (fun d e => d.insert e.1 e.2) ∅

structure RunStats where
  msgProcessed : ℤ
  latBase : PyFloat
  latDistribution : AList fun _ : ℤ => ℤ
  percentiles : List ℤ

def readSections (latDistributionAndPercentiles : List ℤ) :
    Except PyError ((AList fun _ : ℤ => ℤ) × List ℤ) := do
  let latsSize ← item latDistributionAndPercentiles 0
  let latDistributionRaw := slice latDistributionAndPercentiles 1 (1 + latsSize * 2)
  let rawMsgPercentiles := sliceFrom latDistributionAndPercentiles (1 + latsSize * 2)
  let latDistribution :=
    dict ((everyOther latDistributionRaw).zip (everyOther (sliceFrom latDistributionRaw 1)))
  let percSize ← item rawMsgPercentiles 0
  if rawMsgPercentiles.length = percSize + 1 then
    return (latDistribution, sliceFrom rawMsgPercentiles 1)
  else .error .assertionError

def getRunStats (result : List Char) : Except PyError RunStats :=
  match split result with
  | msgProcessed :: latBase :: latDistributionAndPercentilesS => do
    let latDistributionAndPercentiles ← latDistributionAndPercentilesS.mapM int
    let (latDistribution, percentiles) ← readSections latDistributionAndPercentiles
    return ⟨← int msgProcessed, ← float latBase, latDistribution, percentiles⟩
  | _ => .error .valueError

end Stats

end NetworkPing
