import Mathlib.Order.Lattice

/-!
# The map with deadlines a cache stands for

An abstract map gives every key at most one value with at most one deadline. A key
is live until its deadline; an entry past its deadline behaves as if it were
absent, whether or not anything ever removes it.
-/

namespace TinyKv

/-- Keys with a value and an optional deadline. -/
def TtlMap (κ ν τ : Type*) := κ → Option (ν × Option τ)

namespace TtlMap

variable {κ ν τ : Type*} [DecidableEq κ] [LinearOrder τ]

/-- The map without entries. -/
def empty : TtlMap κ ν τ := fun _ => none

/-- A deadline that has not been reached; an absent deadline never is. -/
def Ahead (now : τ) (deadline : Option τ) : Prop := ∀ d ∈ deadline, now < d

instance (now : τ) (deadline : Option τ) : Decidable (Ahead now deadline) :=
  inferInstanceAs (Decidable (∀ d ∈ deadline, now < d))

/-- The entry of a key that is live at `now`. -/
def live (m : TtlMap κ ν τ) (now : τ) (key : κ) : Option (ν × Option τ) :=
  (m key).filter fun e => decide (Ahead now e.2)

/-- Writing or clearing one entry. -/
def write (m : TtlMap κ ν τ) (key : κ) (e : Option (ν × Option τ)) : TtlMap κ ν τ :=
  fun k => if k = key then e else m k

omit [LinearOrder τ] in
@[simp] theorem write_self (m : TtlMap κ ν τ) (key : κ) (e : Option (ν × Option τ)) :
    m.write key e key = e := by
  simp [write]

omit [LinearOrder τ] in
@[simp] theorem write_ne (m : TtlMap κ ν τ) {key k : κ} (e : Option (ν × Option τ))
    (h : k ≠ key) : m.write key e k = m k := by
  simp [write, h]

/-- Storing a value clears the deadline. -/
def set (m : TtlMap κ ν τ) (key : κ) (value : ν) : TtlMap κ ν τ :=
  m.write key (some (value, none))

/-- The value of a live key. -/
def get (m : TtlMap κ ν τ) (now : τ) (key : κ) : Option ν :=
  (m.live now key).map Prod.fst

/-- Deleting succeeds exactly on a live key. -/
def del (m : TtlMap κ ν τ) (now : τ) (key : κ) : Bool × TtlMap κ ν τ :=
  match m.live now key with
  | none => (false, m)
  | some _ => (true, m.write key none)

/-- Giving a live key a new deadline. -/
def expireAt (m : TtlMap κ ν τ) (now : τ) (key : κ) (deadline : τ) : Bool × TtlMap κ ν τ :=
  match m.live now key with
  | none => (false, m)
  | some (value, _) => (true, m.write key (some (value, some deadline)))

/-- The deadline of a live key, if the key is live. -/
def deadline (m : TtlMap κ ν τ) (now : τ) (key : κ) : Option (Option τ) :=
  (m.live now key).map Prod.snd

omit [DecidableEq κ] in
theorem live_eq_none_of_le {m : TtlMap κ ν τ} {now d : τ} {key : κ} {value : ν}
    (h : m key = some (value, some d)) (hle : d ≤ now) : m.live now key = none := by
  simp [live, h, Ahead, hle]

end TtlMap

end TinyKv
