import NetworkPing.Machine
import NetworkPing.Counter
import NetworkPing.Grouping
import NetworkPing.OrderStatistic
import NetworkPing.Cumulative
import NetworkPing.Checked
import NetworkPing.Words
import NetworkPing.Decimal
import NetworkPing.Scan
import NetworkPing.Sequences
import NetworkPing.Bits
import NetworkPing.Server.Selector
import NetworkPing.Server.EpollWait
import NetworkPing.Server.WorkerThread
import NetworkPing.Server.WorkerHolding
import NetworkPing.Server.MessageAccounting
import NetworkPing.Server.WorkerTrace
import NetworkPing.Server.WorkerPacing
import NetworkPing.Server.PingPong
import NetworkPing.Server.WorkerStop
import NetworkPing.Server.StartStop
import NetworkPing.Server.StartStopJoin
import NetworkPing.Server.StartStopBarrier
import NetworkPing.Server.ConnectAll
import NetworkPing.Server.ConnectWindow
import NetworkPing.Server.ConnectSuccess
import NetworkPing.Server.ConnectTimeout
import NetworkPing.Wire.Stats
import NetworkPing.Wire.StatsRoundTrip
import NetworkPing.Wire.StatsTruncation
import NetworkPing.Wire.Request
import NetworkPing.Wire.RequestRoundTrip
import NetworkPing.Wire.RequestTruncation
import NetworkPing.Server.Aggregation
import NetworkPing.Server.Sharding
import NetworkPing.Server.RunTest
import NetworkPing.Server.WorkerSleep
import NetworkPing.Server.RequestArithmetic
import NetworkPing.Report.Latency
import NetworkPing.Client.Interchange
import NetworkPing.Report.Cells
import NetworkPing.Report.LatencyText
import NetworkPing.Server.LatencyMean
import NetworkPing.Server.Log2
import NetworkPing.Client.WaitForConn
import NetworkPing.Client.RunTestTh
import NetworkPing.Client.Worker
import NetworkPing.Client.Asyncio
import NetworkPing.Yaml.Printer
import NetworkPing.Yaml.Scalars
import NetworkPing.Yaml.Width
import NetworkPing.Yaml.Injective
import NetworkPing.Yaml.Strings
import NetworkPing.ByteStream
import NetworkPing.Server.WorkerFast
import NetworkPing.Server.TestEvents
import NetworkPing.Protocol.Connection
import NetworkPing.Protocol.ConnectionEnd
import NetworkPing.Protocol.Streams
import NetworkPing.Protocol.StreamsRefine
import NetworkPing.Report.Pipeline
import NetworkPing.Client.Backends
import NetworkPing.Ledger
import NetworkPing.Server.MainLoop
import NetworkPing.Server.MainLoopClients
import NetworkPing.Server.MainLoopAnswers
import NetworkPing.Report.EndToEnd
import NetworkPing.Client.Lifetime
import NetworkPing.Client.Load
import NetworkPing.Schedule
import NetworkPing.Server.StartStopSchedules
import NetworkPing.Protocol.Session
import NetworkPing.Protocol.SessionClient
import NetworkPing.Protocol.SessionProgress
import NetworkPing.Protocol.SessionWoken
