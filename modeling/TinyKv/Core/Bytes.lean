import Mathlib.Algebra.Group.Int.Defs
import Mathlib.Algebra.GroupWithZero.Nat
import Mathlib.Data.List.Basic

/-!
# Byte strings

A `std::string` is read as its sequence of bytes. Nothing here assumes that the
bytes are text.
-/

namespace TinyKv

/-- The content of a `std::string`. -/
abbrev Bytes := List UInt8

/-- The bytes of an ASCII string literal of the source. -/
def ascii (text : String) : Bytes := text.toList.map fun c => UInt8.ofNat c.toNat

/-- The bytes written by `std::to_string` for an unsigned integer. -/
def natText (n : Nat) : Bytes := ascii (toString n)

/-- The bytes written by `std::to_string` for a signed integer. -/
def intText (n : Int) : Bytes := ascii (toString n)

end TinyKv
