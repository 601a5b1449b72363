import TinyKv.Core.Bytes

/-!
# The output buffer

`OutputBuffer` is a byte queue that moves a read position instead of its storage and
compacts from time to time. The position never passes the end of the storage; seen
from outside, the buffer is the list of its pending bytes.
-/

namespace TinyKv

/-- `OutputBuffer`. -/
structure OutputBuffer where
  storage : Bytes
  readPos : Nat
  readPos_le : readPos ≤ storage.length

namespace OutputBuffer

/-- `COMPACT_THRESHOLD`. -/
def compactThreshold : Nat := 64 * 1024

/-- `std::out_of_range`, thrown by `Consume`. -/
inductive OutOfRange where
  | consumeExceedsPending
deriving DecidableEq, Repr

/-- A buffer as it is constructed. -/
def empty : OutputBuffer := ⟨[], 0, Nat.le_refl 0⟩

/-- The bytes from `Data()` on. -/
def data (b : OutputBuffer) : Bytes := b.storage.drop b.readPos

/-- `Size`. -/
def size (b : OutputBuffer) : Nat := b.storage.length - b.readPos

/-- `Empty`. -/
def isEmpty (b : OutputBuffer) : Bool := b.size == 0

/-- `Clear`. -/
def clear (_ : OutputBuffer) : OutputBuffer := empty

/-- `CompactIfNeed`. -/
def compactIfNeed (b : OutputBuffer) : OutputBuffer :=
  if b.readPos < compactThreshold then
    b
  else if b.readPos < b.storage.length / 2 then
    b
  else
    ⟨b.storage.drop b.readPos, 0, Nat.zero_le _⟩

/-- The last two lines of `CompactIfNeed`. -/
def compact (b : OutputBuffer) : OutputBuffer :=
  ⟨b.storage.drop b.readPos, 0, Nat.zero_le _⟩

/-- `Append`. -/
def append (b : OutputBuffer) (bytes : Bytes) : OutputBuffer :=
  if bytes = [] then
    b
  else
    let b := b.compactIfNeed
    ⟨b.storage ++ bytes, b.readPos, by
      have := b.readPos_le
      rw [List.length_append]
      omega⟩

/-- `Consume` once its check has passed. -/
def advance (b : OutputBuffer) (bytes : Nat) (h : bytes ≤ b.size) : OutputBuffer :=
  if b.readPos + bytes = b.storage.length then
    b.clear
  else
    compactIfNeed ⟨b.storage, b.readPos + bytes, by
      have := b.readPos_le
      simp only [size] at h
      omega⟩

/-- `Consume`. -/
def consume (b : OutputBuffer) (bytes : Nat) : Except OutOfRange OutputBuffer :=
  if h : bytes > b.size then
    .error .consumeExceedsPending
  else
    .ok (b.advance bytes (Nat.le_of_not_gt h))

/-! ### The queue of pending bytes -/

theorem size_eq (b : OutputBuffer) : b.size = b.data.length := by
  simp [size, data]

theorem isEmpty_iff (b : OutputBuffer) : b.isEmpty = true ↔ b.data = [] := by
  simp [isEmpty, size_eq]

theorem isEmpty_eq_false_iff (b : OutputBuffer) : b.isEmpty = false ↔ b.data ≠ [] := by
  rw [Ne, ← isEmpty_iff, Bool.not_eq_true]

@[simp] theorem data_clear (b : OutputBuffer) : b.clear.data = [] := rfl

@[simp] theorem data_compactIfNeed (b : OutputBuffer) : b.compactIfNeed.data = b.data := by
  unfold compactIfNeed
  split
  · rfl
  split <;> rfl

@[simp] theorem data_append (b : OutputBuffer) (bytes : Bytes) :
    (b.append bytes).data = b.data ++ bytes := by
  unfold append
  split
  · next h => simp [h]
  · have hdata := data_compactIfNeed b
    simp only [data] at hdata ⊢
    rw [List.drop_append_of_le_length b.compactIfNeed.readPos_le, hdata]

@[simp] theorem data_advance (b : OutputBuffer) (bytes : Nat) (h : bytes ≤ b.size) :
    (b.advance bytes h).data = b.data.drop bytes := by
  unfold advance
  split
  · next hend =>
    rw [data_clear, data, List.drop_drop, hend, List.drop_length]
  · rw [data_compactIfNeed, data, data, List.drop_drop]

/-- `Consume` throws exactly on more bytes than are pending. -/
theorem consume_eq (b : OutputBuffer) (bytes : Nat) :
    (b.size < bytes ∧ b.consume bytes = .error .consumeExceedsPending) ∨
      ∃ h : bytes ≤ b.size, b.consume bytes = .ok (b.advance bytes h) := by
  unfold consume
  split
  · next h => exact .inl ⟨h, rfl⟩
  · next h => exact .inr ⟨Nat.le_of_not_gt h, rfl⟩

end OutputBuffer

end TinyKv
