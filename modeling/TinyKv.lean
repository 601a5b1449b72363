import TinyKv.Core.KvStoreRefinement
import TinyKv.Core.CommandRendering
import TinyKv.Core.GetReply
import TinyKv.Core.HeapBound
import TinyKv.Config.ServerStart
import TinyKv.Config.FileAgreement
import TinyKv.Config.ConfigOptions
import TinyKv.Observability.LatencyHistogram
import TinyKv.Net.EndOfInput
import TinyKv.Net.Backpressure
import TinyKv.Net.HalfClose
import TinyKv.Net.FinalResponse
import TinyKv.Net.ReadBufferLimit
import TinyKv.Net.Draining
import TinyKv.Net.PollerInterest
import TinyKv.Net.Encodable
import TinyKv.Net.ControlRequests
import TinyKv.Net.StopDeadline
import TinyKv.Net.ActiveConnections
import TinyKv.Net.ShutdownCoordination
import TinyKv.Net.AcceptErrors
import TinyKv.Net.Ownership
import TinyKv.Core.TtlCountdown
import TinyKv.Net.OutputMemory
import TinyKv.Observability.Percentile
import TinyKv.Net.StoppedReactor
import TinyKv.Net.PollerRemoval
import TinyKv.Net.TerminationSignalHandler
import TinyKv.Observability.UpdateMaximum
import TinyKv.Net.ScopedFdOwnership
import TinyKv.Core.Reclamation
import TinyKv.Core.ConcurrentStore
import TinyKv.Net.SweptServer
import TinyKv.Net.ReactorSessions
import TinyKv.Net.ReactorRefinement
import TinyKv.App.Answering
import TinyKv.Net.WaitTimeout
import TinyKv.Net.Accounting
import TinyKv.Net.Departures
import TinyKv.Net.RoundRobin
import TinyKv.Net.ShutdownTime
