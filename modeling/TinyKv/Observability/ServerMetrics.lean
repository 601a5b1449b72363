import Mathlib.Data.Nat.Basic

/-!
# Metric calls

The handlers report to `ServerMetrics` through these calls. The counters behind them
are shared by all threads, so that a handler's part in them is the list of its calls.
-/

namespace TinyKv

/-- A call of a member function of `ServerMetrics`; a latency is in nanoseconds. -/
inductive MetricCall where
  | onConnectionAccepted
  | onConnectionClosed
  | addBytesReceived (bytes : Nat)
  | addBytesSent (bytes : Nat)
  | addFramesReceived (frames : Nat)
  | onCommandProcessed
  | onCommandError
  | onProtocolError
  | onSlowClientDisconnected
  | onReadPaused
  | onReadResumed
  | addForcedShutdownConnections (connections : Nat)
  | observePendingWriteBytes (bytes : Nat)
  | recordCommandLatency (latency : Int)
deriving DecidableEq, Repr

namespace MetricCall

/-- What a call adds to `bytesSent`. -/
def bytesSent : MetricCall → Nat
  | addBytesSent bytes => bytes
  | _ => 0

/-- The number of calls of `OnConnectionAccepted`. -/
def accepted (calls : List MetricCall) : Nat := calls.count onConnectionAccepted

/-- The number of calls of `OnConnectionClosed`. -/
def closed (calls : List MetricCall) : Nat := calls.count onConnectionClosed

theorem accepted_append (calls more : List MetricCall) :
    accepted (calls ++ more) = accepted calls + accepted more :=
  List.count_append

theorem closed_append (calls more : List MetricCall) :
    closed (calls ++ more) = closed calls + closed more :=
  List.count_append

end MetricCall

/-- The connection counters of `ServerMetrics`. -/
structure ServerMetrics where
  acceptedConnections : UInt64 := 0
  closedConnections : UInt64 := 0
  activeConnections : UInt64 := 0
deriving DecidableEq

namespace ServerMetrics

/-- What a call does to the connection counters. -/
def record (m : ServerMetrics) : MetricCall → ServerMetrics
  | .onConnectionAccepted =>
      { m with
        acceptedConnections := m.acceptedConnections + 1
        activeConnections := m.activeConnections + 1 }
  | .onConnectionClosed =>
      { m with
        closedConnections := m.closedConnections + 1
        activeConnections := m.activeConnections - 1 }
  | _ => m

/-- The counters after a list of calls; their order does not matter. -/
theorem foldl_record (m : ServerMetrics) (calls : List MetricCall) :
    calls.foldl record m =
      { acceptedConnections := m.acceptedConnections + .ofNat (MetricCall.accepted calls)
        closedConnections := m.closedConnections + .ofNat (MetricCall.closed calls)
        activeConnections := m.activeConnections + .ofNat (MetricCall.accepted calls) -
          .ofNat (MetricCall.closed calls) } := by
  induction calls generalizing m with
  | nil => simp [MetricCall.accepted, MetricCall.closed]
  | cons call rest ih =>
      rw [List.foldl_cons, ih]
      cases call with
      | onConnectionAccepted =>
          have haccepted : MetricCall.accepted (.onConnectionAccepted :: rest) =
              MetricCall.accepted rest + 1 := List.count_cons_self
          have hclosed : MetricCall.closed (.onConnectionAccepted :: rest) =
              MetricCall.closed rest := List.count_cons_of_ne (by decide)
          rw [haccepted, hclosed, UInt64.ofNat_add]
          simp only [record, mk.injEq]
          grind
      | onConnectionClosed =>
          have haccepted : MetricCall.accepted (.onConnectionClosed :: rest) =
              MetricCall.accepted rest := List.count_cons_of_ne (by decide)
          have hclosed : MetricCall.closed (.onConnectionClosed :: rest) =
              MetricCall.closed rest + 1 := List.count_cons_self
          rw [haccepted, hclosed, UInt64.ofNat_add]
          simp only [record, mk.injEq]
          grind
      | _ => simp [record, MetricCall.accepted, MetricCall.closed]

end ServerMetrics

end TinyKv
