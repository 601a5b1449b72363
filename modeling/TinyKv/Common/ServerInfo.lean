import Mathlib.Data.Nat.Basic

/-!
# Server states and options

The states a reactor publishes, and the options it is constructed with. The checks
on the network options are made twice in the source with the same texts, by the
configuration loader and by the server's constructor; here they are one definition.
-/

namespace TinyKv

/-- `ServerState`. -/
inductive ServerState where
  | created
  | running
  | draining
  | stopped
deriving DecidableEq, Repr

/-- `NetworkOptions` with its defaults. -/
structure NetworkOptions where
  maxReadBufferBytes : Nat := 1024 * 1024 + 4
  writeHighWatermarkBytes : Nat := 1024 * 1024
  writeLowWatermarkBytes : Nat := 512 * 1024
  writeHardLimitBytes : Nat := 4 * 1024 * 1024
  maxWriteBytesPerEvent : Nat := 64 * 1024
  maxAcceptsPerEvent : Nat := 64
deriving DecidableEq, Repr

/-- The checks on the network options in `ConfigLoader::Validate` and in the
constructor of `TcpServer`, with the text of the exception. -/
def NetworkOptions.check (o : NetworkOptions) : Except String Unit :=
  if o.maxReadBufferBytes < 4 then
    .error "maxReadBufferBytes must be at least 4"
  else if o.writeLowWatermarkBytes > o.writeHighWatermarkBytes then
    .error "write low watermark exceeds high watermark"
  else if o.writeHighWatermarkBytes > o.writeHardLimitBytes then
    .error "write high watermark exceeds hard limit"
  else if o.maxWriteBytesPerEvent = 0 then
    .error "maxWriteBytesPerEvent must be greater than zero"
  else if o.maxAcceptsPerEvent = 0 then
    .error "maxAcceptsPerEvent must be greater than zero"
  else
    .ok ()

/-- What the checks on the network options promise. -/
structure NetworkOptions.Accepted (o : NetworkOptions) : Prop where
  read : 4 ≤ o.maxReadBufferBytes
  low_le_high : o.writeLowWatermarkBytes ≤ o.writeHighWatermarkBytes
  high_le_hard : o.writeHighWatermarkBytes ≤ o.writeHardLimitBytes
  write_pos : 0 < o.maxWriteBytesPerEvent
  accepts_pos : 0 < o.maxAcceptsPerEvent

theorem NetworkOptions.check_ok_iff {o : NetworkOptions} : o.check = .ok () ↔ o.Accepted := by
  constructor
  · intro h
    unfold NetworkOptions.check at h
    split at h
    · cases h
    split at h
    · cases h
    split at h
    · cases h
    split at h
    · cases h
    split at h
    · cases h
    constructor <;> omega
  · rintro ⟨hread, hlow, hhigh, hwrite, haccepts⟩
    unfold NetworkOptions.check
    rw [if_neg (by omega), if_neg (by omega), if_neg (by omega), if_neg (by omega),
      if_neg (by omega)]

/-- `PollerBackend`, which `PollerFactory` resolves to a backend. -/
inductive PollerOption where
  | auto
  | poll
  | epoll
deriving DecidableEq, Repr

/-- `ReactorOptions`. -/
structure ReactorOptions where
  pollerBackend : PollerOption := .auto
  subReactorCount : Nat := 2
deriving DecidableEq, Repr

/-- `ShutdownOptions`; the timeout is a number of milliseconds. -/
structure ShutdownOptions where
  gracefulTimeout : Int := 3000
deriving DecidableEq, Repr

end TinyKv
