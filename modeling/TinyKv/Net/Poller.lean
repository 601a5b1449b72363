import TinyKv.Foundation.KeyedMap

/-!
# I/O events and the pollers

The two poller backends keep the same interest table; they differ in whether a change
of it is a system call that can fail, and in how they report a peer that has shut down
its sending side.
-/

namespace TinyKv

open Foundation

/-- `IoEvent`: the set of its four flags. -/
structure IoEvent where
  read : Bool := false
  write : Bool := false
  error : Bool := false
  hangup : Bool := false
deriving DecidableEq, Repr

/-- `IoEvent::None`. -/
def IoEvent.none : IoEvent := {}

/-- `ReadyEvent`. -/
structure ReadyEvent where
  fd : Int
  events : IoEvent
deriving DecidableEq, Repr

/-- The backends behind `Poller`. -/
inductive PollerBackend where
  | poll
  | epoll
deriving DecidableEq, Repr

/-- The flags of `epoll_event::events` and `pollfd::revents` that the pollers use:
`EPOLLIN`, `EPOLLPRI`, `EPOLLOUT`, `EPOLLERR`, `EPOLLHUP`, `EPOLLRDHUP`, and those of
`poll`, where `POLLNVAL` counts as `POLLERR` and nothing stands for `EPOLLRDHUP`. -/
structure NativeEvents where
  readable : Bool := false
  priority : Bool := false
  writable : Bool := false
  error : Bool := false
  hangup : Bool := false
  peerClosed : Bool := false
deriving DecidableEq, Repr

namespace PollerBackend

/-- `ToNativeEvents`. -/
def toNativeEvents : PollerBackend → IoEvent → NativeEvents
  | .poll, interests => { readable := interests.read, writable := interests.write }
  | .epoll, interests =>
      { readable := interests.read, writable := interests.write, peerClosed := true }

/-- `FromNativeEvents`. -/
def fromNativeEvents : PollerBackend → NativeEvents → IoEvent
  | .poll, native =>
      { read := native.readable || native.priority
        write := native.writable
        error := native.error
        hangup := native.hangup }
  | .epoll, native =>
      { read := native.readable || native.priority
        write := native.writable
        error := native.error
        hangup := native.hangup || native.peerClosed }

end PollerBackend

/-- The exceptions of the interest table. -/
inductive PollerError where
  | negativeFd
  | noInterest
  | alreadyRegistered
  | unknownFd
  | systemCall
deriving DecidableEq, Repr

/-- A poller: its backend and `m_interests`. -/
structure Poller where
  backend : PollerBackend
  interests : KeyedMap Int IoEvent

namespace Poller

/-- `ValidateInterests`. -/
def validateInterests (fd : Int) (interests : IoEvent) : Except PollerError Unit :=
  if fd < 0 then
    .error .negativeFd
  else if !interests.read && !interests.write then
    .error .noInterest
  else
    .ok ()

/-- Whether the system call behind a change of the table fails; `ctlOk` is the outcome
of `epoll_ctl`, which the `poll` backend does not need. -/
def ctlFails (p : Poller) (ctlOk : Bool) : Bool := p.backend == .epoll && !ctlOk

/-- `Add`. -/
def add (p : Poller) (fd : Int) (interests : IoEvent) (ctlOk : Bool) :
    Except PollerError Poller := do
  validateInterests fd interests
  match p.interests.lookup fd with
  | some _ => throw .alreadyRegistered
  | none =>
      if p.ctlFails ctlOk then
        throw .systemCall
      else
        pure { p with interests := p.interests.insert fd interests }

/-- `Modity`. -/
def modity (p : Poller) (fd : Int) (interests : IoEvent) (ctlOk : Bool) :
    Except PollerError Poller := do
  validateInterests fd interests
  match p.interests.lookup fd with
  | none => throw .unknownFd
  | some _ =>
      if p.ctlFails ctlOk then
        throw .systemCall
      else
        pure { p with interests := p.interests.insert fd interests }

/-- `Remove`. -/
def remove (p : Poller) (fd : Int) (ctlOk : Bool) : Except PollerError Poller :=
  match p.interests.lookup fd with
  | none => pure p
  | some _ =>
      if p.ctlFails ctlOk then
        throw .systemCall
      else
        pure { p with interests := p.interests.erase fd }

/-- A successful change of the table is an insertion. -/
theorem modity_eq {p p' : Poller} {fd : Int} {interests : IoEvent} {ctlOk : Bool}
    (h : p.modity fd interests ctlOk = .ok p') :
    p' = { p with interests := p.interests.insert fd interests } := by
  unfold modity at h
  cases hvalid : validateInterests fd interests with
  | error e =>
      rw [hvalid] at h
      cases h
  | ok u =>
      rw [hvalid] at h
      cases hlook : p.interests.lookup fd with
      | none =>
          simp only [hlook] at h
          cases h
      | some held =>
          simp only [hlook] at h
          change (if p.ctlFails ctlOk = true then _ else _) = _ at h
          split at h
          · cases h
          · cases h
            rfl

theorem add_eq {p p' : Poller} {fd : Int} {interests : IoEvent} {ctlOk : Bool}
    (h : p.add fd interests ctlOk = .ok p') :
    p' = { p with interests := p.interests.insert fd interests } := by
  unfold add at h
  cases hvalid : validateInterests fd interests with
  | error e =>
      rw [hvalid] at h
      cases h
  | ok u =>
      rw [hvalid] at h
      cases hlook : p.interests.lookup fd with
      | some held =>
          simp only [hlook] at h
          cases h
      | none =>
          simp only [hlook] at h
          change (if p.ctlFails ctlOk = true then _ else _) = _ at h
          split at h
          · cases h
          · cases h
            rfl

end Poller

end TinyKv
