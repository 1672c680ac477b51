import NetworkPing.Server.Aggregation
import NetworkPing.Server.ConnectSuccess
import NetworkPing.Wire.Request

namespace NetworkPing

structure ConnectAll.Finished {α : Type} (c : ConnectAll.Config α) where
  labels : List ConnectAll.Label
  state : ConnectAll.State α
  result : Bool
  run : Machine.run (ConnectAll.step c) (ConnectAll.start c []) labels = some state
  returned : state.pc = .ret result

namespace RunTest

variable {α : Type}

def connectConfig (params : TestParams) (clientIpAddrs : List α) : ConnectAll.Config α :=
  ⟨params.numConn, clientIpAddrs, 32⟩

def workerConfig (bucket : UInt64 → ℕ) (params : TestParams) : Worker.Config :=
  ⟨params.messageLen.toInt, params.minTimeout, params.maxTimeout, bucket⟩

def threads (params : TestParams) (workerThreads : ℤ) : ℤ := min params.numConn.toInt workerThreads

def maxSockCountPerWorker (params : TestParams) (workerThreads : ℤ) : ℤ :=
  params.numConn.toInt.tdiv (threads params workerThreads) + 1

structure Outcomes (α : Type) (bucket : UInt64 → ℕ) (params : TestParams) (workerThreads : ℤ) where
  clientIpAddrs : List α
  connect : ConnectAll.Finished (connectConfig params clientIpAddrs)
  distinct : connect.state.sockets.Nodup
  selectorOk : ℕ → Bool
  addFd : ℕ → Bool
  write : ℕ → ℤ
  workers : ∀ i : Fin (threads params workerThreads).toNat,
    Worker.Served (workerConfig bucket params) (maxSockCountPerWorker params workerThreads)
      (shard connect.state.sockets (threads params workerThreads).toNat i)

def createSelectors (sockCount : ℤ) (ok : ℕ → Bool) (i : ℕ) : ℕ → Checked Check Bool
  | 0 => pure true
  | n + 1 => do
    size sockCount
    if ok i then createSelectors sockCount ok (i + 1) n else pure false

def workerBuffers (messageLen sockCount : ℤ) : Checked Check Unit := do
  size messageLen
  size sockCount

def sleeps (failed : Bool) (runtime : ℤ) : Checked Check ℤ :=
  if failed then pure 0 else mul runtime 10

def runTest (base : ℚ) {bucket : UInt64 → ℕ} (params : TestParams) (workerThreads : ℤ)
    (o : Outcomes α bucket params workerThreads) : Checked Check (Bool × TestResult) :=
  if !o.connect.result then pure (false, {})
  else do
    let n := (threads params workerThreads).toNat
    let perWorker ← div params.numConn.toInt (threads params workerThreads)
    let maxSockCount := perWorker + 1
    let created ← createSelectors maxSockCount o.selectorOk 0 n
    if !created then pure (false, {})
    else if (List.range o.connect.state.sockets.length).any (!o.addFd ·) then pure (false, {})
    else do
      forM (List.range n) fun _ => workerBuffers params.messageLen.toInt maxSockCount
      size params.messageLen.toInt
      let failed := (List.range o.connect.state.sockets.length).any fun i =>
        params.messageLen.toInt ≠ o.write i
      let _ ← sleeps failed params.runtime.toInt
      let res ← aggregate base params.numConn.toInt (tresults fun i => (o.workers i).toFinished)
      pure (!failed, res)

def serve (base : ℚ) {bucket : UInt64 → ℕ} (params : TestParams) (o : Outcomes α bucket params 3) :
    Checked Check (Option TestResult) := do
  let (ok, res) ← runTest base params 3 o
  if !ok then pure none
  else do
    let _ ← div res.mcount params.runtime.toInt
    pure (some res)

end RunTest

end NetworkPing
