import NetworkPing.Decimal
import NetworkPing.Report.Latency

/-! `main` of main.py: the block that an invocation prints. The times are in the
hundredths of a second in which they are printed, and `tests` are the names between
the commas. -/

namespace NetworkPing.Report

structure Options where
  loaderIp : List Char
  count : ℤ
  tests : List String
  loaderPort : ℤ := 33331
  rounds : ℤ := 1
  msize : ℤ := 1024
  runtime : ℤ := 30
  timeout : ℤ := 0
  maxTimeout : Option ℤ := none
  minTimeout : Option ℤ := none

def Options.max (opts : Options) : ℤ := opts.maxTimeout.getD 0

def Options.min (opts : Options) : ℤ := opts.minTimeout.getD 0

/-- `params.timeout`, or `none` where the options conflict. `None` is as false as 0. -/
def Options.timeouts (opts : Options) : Option (ℤ × ℤ) :=
  if opts.timeout ≠ 0 ∧ (opts.max ≠ 0 ∨ opts.min ≠ 0) then none
  else if (opts.max ≠ 0 ∨ opts.min ≠ 0) ∧ ¬ (opts.max ≠ 0 ∧ opts.min ≠ 0) then none
  else if opts.max ≠ 0 ∧ opts.max < opts.min then none
  else if opts.max ≠ 0 then some (opts.min, opts.max)
  else if opts.timeout ≠ 0 then some (opts.timeout, opts.timeout)
  else some (0, 0)

def allTests : List String :=
  ["selector", "asyncio_sock", "asyncio", "asyncio_proto", "uvloop", "uvloop_sock", "uvloop_proto",
    "thread", "gevent", "go", "cpp_poll", "cpp_epoll", "cpp_th"]

def Options.runTests (opts : Options) : Option (List String) :=
  if opts.tests = ["*"] then some (sorted allTests)
  else if ∀ test ∈ opts.tests, test ∈ allTests then some (sorted opts.tests)
  else none
where
  sorted (tests : List String) : List String :=
    tests.insertionSort fun f g => f ++ "_test" ≤ g ++ "_test"

inductive TimeUnit
  | s
  | ms
  | us
  | ns
  deriving DecidableEq

def TimeUnit.inNs : TimeUnit → ℕ
  | s => 10 ^ 9
  | ms => 10 ^ 6
  | us => 10 ^ 3
  | ns => 1

structure Readable where
  value : ℕ
  unit : TimeUnit
  deriving DecidableEq

def Readable.ofNs (val : ℚ) : Option Readable :=
  [TimeUnit.s, .ms, .us, .ns].findSome? fun unit =>
    if val ≥ unit.inNs then some ⟨(val / unit.inNs).floor.toNat, unit⟩ else none

/-- `None` cannot be compared with a number. -/
def nsToReadable : Option ℚ → Except String (Option Readable)
  | none => .error "'>=' not supported between instances of 'NoneType' and 'float'"
  | some val => .ok (Readable.ofNs val)

structure Measured where
  utime : ℕ
  stime : ℕ
  ctime : ℕ
  msgProcessed : ℤ
  latBase : ℚ
  latDistribution : Counter ℤ
  msgPercentiles : List ℤ

structure RunData where
  utime : ℕ
  stime : ℕ
  ctime : ℕ
  lat50 : Option Readable
  lat95 : Option Readable
  msg5perc : Option ℤ
  msg95perc : Option ℤ
  messages : ℤ
  deriving DecidableEq

def Measured.runData (m : Measured) : Except String RunData :=
  if m.msgPercentiles.length = 19 then
    match getLats m.latDistribution m.latBase with
    | some [lat50, _, lat95] => do
      return {
        utime := m.utime
        stime := m.stime
        ctime := m.ctime
        lat50 := ← nsToReadable lat50
        lat95 := ← nsToReadable lat95
        msg5perc := m.msgPercentiles.head?
        msg95perc := m.msgPercentiles.getLast?
        messages := m.msgProcessed }
    | _ => .error ""
  else .error ""

structure Record where
  func : String
  data : Except String RunData

structure Block where
  workers : ℤ
  server : List Char
  msize : ℤ
  runtime : ℤ
  timeout : ℤ
  data : List Record

structure Invocation where
  opts : Options
  outcome : ℕ → Except String Measured

def Invocation.funcs (i : Invocation) : Option (List String) :=
  i.opts.timeouts.bind fun _ =>
    i.opts.runTests.map (·.flatMap (List.replicate i.opts.rounds.toNat))

def Invocation.record (i : Invocation) (n : ℕ) (func : String) : Record :=
  ⟨func, (i.outcome n).bind Measured.runData⟩

def Invocation.block (i : Invocation) (funcs : List String) : Block where
  workers := i.opts.count
  server := i.opts.loaderIp ++ ':' :: signed i.opts.loaderPort
  msize := i.opts.msize
  runtime := i.opts.runtime
  timeout := i.opts.timeout
  data := funcs.mapIdx i.record

def Invocation.main (i : Invocation) : Option Block := i.funcs.map i.block

end NetworkPing.Report
