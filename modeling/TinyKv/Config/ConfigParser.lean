import TinyKv.Common.ServerInfo
import TinyKv.Core.Bytes

/-!
# Names in the configuration

The names of poller backends and log levels, which the configuration file and the command
line share.
-/

namespace TinyKv

/-- What a sequence of two readings returns. -/
theorem bind_eq_ok {ε α β : Type} {x : Except ε α} {f : α → Except ε β} {b : β} :
    x >>= f = .ok b ↔ ∃ a, x = .ok a ∧ f a = .ok b := by
  cases x with
  | error e => exact ⟨nofun, fun ⟨a, ha, _⟩ => nomatch ha⟩
  | ok a => exact ⟨fun h => ⟨a, rfl, h⟩, fun ⟨a', ha', h⟩ => by cases ha'; exact h⟩

theorem pure_eq_ok {ε α : Type} {a b : α} : (pure a : Except ε α) = .ok b ↔ b = a := by
  constructor
  · rintro ⟨⟩
    rfl
  · rintro rfl
    rfl

/-- `LogLevel`. -/
inductive LogLevel where
  | debug
  | info
  | warn
  | error
  | off
deriving DecidableEq, Repr

namespace ConfigParser

/-- `ParsePollerBackend`. -/
def parsePollerBackend (value : Bytes) : Except String PollerOption :=
  if value = ascii "auto" then
    .ok .auto
  else if value = ascii "epoll" then
    .ok .epoll
  else if value = ascii "poll" then
    .ok .poll
  else
    .error "poller backend must be auto, epoll or poll"

/-- The table of `ParseLogLevel`. -/
def logValueMap : List (Bytes × LogLevel) :=
  [(ascii "debug", .debug), (ascii "info", .info), (ascii "warn", .warn),
    (ascii "error", .error), (ascii "off", .off)]

/-- `ParseLogLevel`. -/
def parseLogLevel (value : Bytes) : Except String LogLevel :=
  match logValueMap.lookup value with
  | none => .error "log level must be debug, info, warn, error, or off"
  | some level => .ok level

end ConfigParser

end TinyKv
