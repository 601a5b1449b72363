import Mathlib.Data.Fintype.Basic
import Mathlib.Logic.Function.Basic
import TinyKv.Foundation.LinearOwnership
import TinyKv.Foundation.Machine

/-!
# Scoped descriptors

A `ScopedFd` closes its descriptor when it is destroyed or takes another one. Any number of
objects share a table of open descriptors, in which the kernel uses a number again after it has
been closed; what is owned is therefore not the number, but what was opened under it.
-/

namespace TinyKv

open Foundation

def INVALID_FD : Int := -1

theorem invalid_lt : INVALID_FD < 0 := by decide

/-- `m_fd` of an object. -/
structure ScopedFd where
  fd : Int := INVALID_FD
deriving DecidableEq

/-- The objects of a program and the table of open descriptors, which has the opening behind
each number; openings are counted. The history and the closes of numbers that were not open are
a record only. -/
structure ScopedFds (ι : Type) where
  objects : ι → Option ScopedFd := fun _ => none
  table : Int → Option Nat := fun _ => none
  openings : Nat := 0
  log : List (OwnershipEvent ι Nat) := []
  strayCloses : List Int := []

namespace ScopedFds

variable {ι : Type} [DecidableEq ι]

/-! ### The descriptors -/

/-- The kernel opens something under a number. -/
def opens (s : ScopedFds ι) (fd : Int) : ScopedFds ι :=
  { s with
    table := Function.update s.table fd (some s.openings)
    openings := s.openings + 1
    log := s.log ++ [.acquired s.openings] }

/-- `close`, by an object or by the program itself. -/
def close (s : ScopedFds ι) (owner : Option ι) (fd : Int) : ScopedFds ι :=
  match s.table fd with
  | some opening =>
      { s with
        table := Function.update s.table fd none
        log := s.log ++ [.disposed owner opening] }
  | none => { s with strayCloses := s.strayCloses ++ [fd] }

/-- What happens to the opening behind a number, if there is one, is recorded. -/
def record (s : ScopedFds ι) (event : Nat → OwnershipEvent ι Nat) (fd : Int) : ScopedFds ι :=
  match s.table fd with
  | some opening => { s with log := s.log ++ [event opening] }
  | none => s

/-! ### The operations of an object -/

def setFd (s : ScopedFds ι) (a : ι) (fd : Int) : ScopedFds ι :=
  { s with objects := Function.update s.objects a (some ⟨fd⟩) }

/-- `m_fd` takes over a descriptor. -/
def take (s : ScopedFds ι) (a : ι) (fd : Int) : ScopedFds ι :=
  (s.record (.adopted a) fd).setFd a fd

/-- `Release`. -/
def release (s : ScopedFds ι) (a : ι) : Int × ScopedFds ι :=
  match s.objects a with
  | none => (INVALID_FD, s)
  | some ⟨oldFd⟩ => (oldFd, (s.record (.released a) oldFd).setFd a INVALID_FD)

/-- `Reset`. -/
def reset (s : ScopedFds ι) (a : ι) (newFd : Int := INVALID_FD) : ScopedFds ι :=
  match s.objects a with
  | none => s
  | some ⟨fd⟩ =>
      if fd = newFd then
        s
      else
        let s := if fd ≥ 0 then s.close (some a) fd else s
        s.take a newFd

/-- The constructor that takes over a descriptor; the default constructor takes none. -/
def construct (s : ScopedFds ι) (a : ι) (fd : Int := INVALID_FD) : ScopedFds ι := s.take a fd

/-- The move constructor. -/
def moveConstruct (s : ScopedFds ι) (a other : ι) : ScopedFds ι :=
  let (fd, s) := s.release other
  s.take a fd

/-- `operator=`. -/
def moveAssign (s : ScopedFds ι) (a other : ι) : ScopedFds ι :=
  if a ≠ other then
    let (fd, s) := s.release other
    s.reset a fd
  else
    s

/-- The destructor, and the end of the object. -/
def destroy (s : ScopedFds ι) (a : ι) : ScopedFds ι :=
  let s := s.reset a
  { s with objects := Function.update s.objects a none }

/-! ### Programs -/

/-- What a program does. -/
inductive Action (ι : Type) where
  | opens (fd : Int)
  | close (fd : Int)
  | constructDefault (a : ι)
  | construct (a : ι) (fd : Int)
  | moveConstruct (a other : ι)
  | moveAssign (a other : ι)
  | release (a : ι)
  | reset (a : ι) (fd : Int)
  | destroy (a : ι)

/-- The object whose function runs. -/
def Action.object? : Action ι → Option ι
  | .opens _ => none
  | .close _ => none
  | .constructDefault a => some a
  | .construct a _ => some a
  | .moveConstruct a _ => some a
  | .moveAssign a _ => some a
  | .release a => some a
  | .reset a _ => some a
  | .destroy a => some a

def step (s : ScopedFds ι) : Action ι → ScopedFds ι
  | .opens fd => s.opens fd
  | .close fd => s.close none fd
  | .constructDefault a => s.construct a
  | .construct a fd => s.construct a fd
  | .moveConstruct a other => s.moveConstruct a other
  | .moveAssign a other => s.moveAssign a other
  | .release a => (s.release a).2
  | .reset a fd => s.reset a fd
  | .destroy a => s.destroy a

/-- The runs of a program. -/
def machine : Machine (ScopedFds ι) (Action ι) := ⟨step⟩

/-- An object holds a valid descriptor. -/
def Holds (s : ScopedFds ι) (a : ι) (fd : Int) : Prop := 0 ≤ fd ∧ s.objects a = some ⟨fd⟩

/-- A descriptor is open and owned by no object. -/
def Free (s : ScopedFds ι) (fd : Int) : Prop :=
  s.table fd ≠ none ∧ ∀ a, s.objects a ≠ some ⟨fd⟩

/-- A number can be handed over to an object: it is invalid, or the descriptor is free. -/
def Transferable (s : ScopedFds ι) (fd : Int) : Prop := fd < 0 ∨ s.Free fd

/-- What a program may do. The kernel opens under numbers that are not in use; an object is used
while it lives; and a program hands over and closes only descriptors that no object owns. -/
def Admissible (s : ScopedFds ι) : Action ι → Prop
  | .opens fd => 0 ≤ fd ∧ s.table fd = none
  | .close fd => s.Free fd
  | .constructDefault a => s.objects a = none
  | .construct a fd => s.objects a = none ∧ s.Transferable fd
  | .moveConstruct a other => s.objects a = none ∧ s.objects other ≠ none
  | .moveAssign a other => s.objects a ≠ none ∧ s.objects other ≠ none
  | .release a => s.objects a ≠ none
  | .reset a fd => s.objects a ≠ none ∧ (s.objects a = some ⟨fd⟩ ∨ s.Transferable fd)
  | .destroy a => s.objects a ≠ none

instance [Fintype ι] (s : ScopedFds ι) (fd : Int) : Decidable (s.Free fd) :=
  inferInstanceAs (Decidable (_ ∧ _))

instance [Fintype ι] (s : ScopedFds ι) (fd : Int) : Decidable (s.Transferable fd) :=
  inferInstanceAs (Decidable (_ ∨ _))

instance [Fintype ι] (s : ScopedFds ι) : ∀ action, Decidable (s.Admissible action)
  | .opens _ => inferInstanceAs (Decidable (_ ∧ _))
  | .close fd => inferInstanceAs (Decidable (s.Free fd))
  | .constructDefault a => inferInstanceAs (Decidable (s.objects a = none))
  | .construct _ _ => inferInstanceAs (Decidable (_ ∧ _))
  | .moveConstruct _ _ => inferInstanceAs (Decidable (_ ∧ _))
  | .moveAssign _ _ => inferInstanceAs (Decidable (_ ∧ _))
  | .release a => inferInstanceAs (Decidable (s.objects a ≠ none))
  | .reset _ _ => inferInstanceAs (Decidable (_ ∧ (_ ∨ _)))
  | .destroy a => inferInstanceAs (Decidable (s.objects a ≠ none))

/-- A descriptor that is closed is held by no object but the one whose function runs. -/
def ClosesOwn (s : ScopedFds ι) (action : Action ι) : Prop :=
  ∀ fd, s.table fd ≠ none → (s.step action).table fd = none →
    ∀ a, s.Holds a fd → action.object? = some a

/-- What was opened has been closed exactly once, or released and not adopted again. -/
def Settled (s : ScopedFds ι) (opening : Nat) : Prop :=
  OwnershipEvent.disposals opening s.log = 1 ∨ OwnershipEvent.ReleasedForGood opening s.log

/-- The ownership of the descriptors is linear. -/
structure Linear (s : ScopedFds ι) : Prop where
  exclusive : ∀ {a b fd}, s.Holds a fd → s.Holds b fd → a = b
  held_open : ∀ {a fd}, s.Holds a fd → s.table fd ≠ none
  strayCloses_nil : s.strayCloses = []
  disposals_le : ∀ opening, OwnershipEvent.disposals opening s.log ≤ 1
  adopted : ∀ opening owner, .adopted owner opening ∈ s.log →
    (∃ a fd, s.Holds a fd ∧ s.table fd = some opening) ∨ s.Settled opening

end ScopedFds

end TinyKv
