import Mathlib.Data.Nat.Basic

/-!
# The wakeup channel

A pair of connected sockets with a bounded buffer, which makes the wakeup of an event loop
a readable descriptor. The `write` of `Notify` fails only when the buffer is full; that it is
repeated after `EINTR` is left out.
-/

namespace TinyKv

/-- `WakeupChannel`: the bytes that wait at the reading end, at most `capacity`. -/
structure WakeupChannel where
  capacity : Nat
  bytes : Nat
  positive : 0 < capacity
  bounded : bytes ≤ capacity

namespace WakeupChannel

/-- `Notify`: a full channel takes no further byte. -/
def notify (w : WakeupChannel) : WakeupChannel :=
  if h : w.bytes < w.capacity then
    { w with bytes := w.bytes + 1, bounded := h }
  else
    w

/-- One `read` in the loop of `Drain`, which asks for 256 bytes. -/
def read (w : WakeupChannel) : WakeupChannel :=
  { w with
    bytes := w.bytes - 256
    bounded := Nat.le_trans (Nat.sub_le ..) w.bounded }

/-- Also a notification that is dropped leaves the channel readable. -/
theorem bytes_notify_pos (w : WakeupChannel) : 0 < w.notify.bytes := by
  unfold notify
  split
  · exact Nat.succ_pos _
  · next hfull => exact Nat.lt_of_lt_of_le w.positive (Nat.not_lt.mp hfull)

end WakeupChannel

end TinyKv
