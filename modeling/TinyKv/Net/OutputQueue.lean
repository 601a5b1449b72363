import TinyKv.Foundation.Machine
import TinyKv.Net.OutputBuffer

/-!
# The output buffer as a queue

The reference is a list that grows at its end and is dropped from its front. The
buffer represents it from its read position on. Where a consumed prefix is removed is
invisible in the reference, and removing it under the two thresholds bounds the storage
by the pending bytes.
-/

namespace TinyKv.OutputBuffer

open Foundation

/-! ### Runs of the buffer -/

/-- The operations on a buffer; `compact` removes the consumed prefix whatever the
thresholds say. -/
inductive Op where
  | append (bytes : Bytes)
  | consume (bytes : Nat)
  | clear
  | compact
deriving DecidableEq

theorem compactIfNeed_cases (b : OutputBuffer) :
    ((b.readPos < compactThreshold ∨ b.readPos < b.storage.length / 2) ∧ b.compactIfNeed = b) ∨
      b.compactIfNeed = b.compact := by
  unfold compactIfNeed
  split
  · next hbelow => exact .inl ⟨.inl hbelow, rfl⟩
  split
  · next hhalf => exact .inl ⟨.inr hhalf, rfl⟩
  · exact .inr rfl

@[simp] theorem data_compact (b : OutputBuffer) : b.compact.data = b.data := rfl

/-- One operation, with the exception it ends with; a throwing `Consume` has changed
nothing. -/
def perform (b : OutputBuffer) : Op → Option OutOfRange × OutputBuffer
  | .append bytes => (none, b.append bytes)
  | .consume bytes =>
      match b.consume bytes with
      | .error e => (some e, b)
      | .ok b => (none, b)
  | .clear => (none, b.clear)
  | .compact => (none, b.compact)

/-- The buffer and its operations. -/
def machine : Transducer OutputBuffer Op (Option OutOfRange) := ⟨perform⟩

/-- The reference queue and its operations. -/
def queue : Transducer Bytes Op (Option OutOfRange) where
  step pending
    | .append bytes => (none, pending ++ bytes)
    | .consume bytes =>
        if bytes > pending.length then (some .consumeExceedsPending, pending)
        else (none, pending.drop bytes)
    | .clear => (none, [])
    | .compact => (none, pending)

/-- One operation of the buffer is that operation of the queue of its pending bytes. -/
theorem perform_refines (b : OutputBuffer) (op : Op) :
    (b.perform op).1 = (queue.step b.data op).1 ∧
      (b.perform op).2.data = (queue.step b.data op).2 := by
  cases op with
  | append bytes => exact ⟨rfl, data_append b bytes⟩
  | consume bytes =>
      have hsize := size_eq b
      simp only [perform, queue]
      obtain ⟨hlt, hthrows⟩ | ⟨hle, hok⟩ := consume_eq b bytes
      · rw [hthrows, if_pos (by omega)]
        exact ⟨rfl, rfl⟩
      · rw [hok, if_neg (by omega)]
        exact ⟨rfl, data_advance b bytes hle⟩
  | clear => exact ⟨rfl, data_clear b⟩
  | compact => exact ⟨rfl, data_compact b⟩

/-- Every run of the buffer has the exceptions and the pending bytes of the queue. -/
theorem run_refines (ops : List Op) :
    (machine.run empty ops).1 = (queue.run [] ops).1 ∧
      (machine.run empty ops).2.data = (queue.run [] ops).2 := by
  apply machine.run_refines queue (R := fun b pending => b.data = pending)
  · rintro b - rfl op
    exact perform_refines b op
  · rfl

/-- The buffer is a queue of bytes after every run from an empty buffer: its pending
bytes are those of the reference queue, its size does not underflow, `Consume` throws
exactly on more than the pending bytes and changes nothing then, and a compaction
anywhere in the run is invisible. -/
theorem run_refines_queue (ops : List Op) :
    let b := (machine.run empty ops).2
    (machine.run empty ops).1 = (queue.run [] ops).1 ∧
      b.data = (queue.run [] ops).2 ∧ b.size = b.data.length ∧
      b.readPos ≤ b.storage.length ∧ b.readPos + b.size = b.storage.length ∧
      (∀ bytes, (b.perform (.consume bytes)).1 = some .consumeExceedsPending ↔
        bytes > b.size) ∧
      (∀ bytes, bytes > b.size → (b.perform (.consume bytes)).2 = b) ∧
      (machine.run empty (ops.filter (· ≠ .compact))).2.data = b.data ∧
      b.compactIfNeed.data = b.data := by
  intro b
  obtain ⟨hanswers, hdata⟩ := run_refines ops
  have hthrows (bytes : Nat) (h : bytes > b.size) :
      b.perform (.consume bytes) = (some .consumeExceedsPending, b) := by
    obtain ⟨-, heq⟩ | ⟨hle, -⟩ := consume_eq b bytes
    · simp only [perform, heq]
    · omega
  refine ⟨hanswers, hdata, size_eq b, b.readPos_le, Nat.add_sub_cancel' b.readPos_le,
    fun bytes => ⟨fun h => ?_, fun h => by rw [hthrows bytes h]⟩,
    fun bytes h => by rw [hthrows bytes h], ?_, data_compactIfNeed b⟩
  · by_contra hle
    obtain ⟨hlt, -⟩ | ⟨hwithin, heq⟩ := consume_eq b bytes
    · exact hle hlt
    · simp [perform, heq] at h
  · rw [(run_refines _).2, hdata]
    apply queue.run_filter
    intro pending op hop
    have hcompact : op = .compact := by simpa using hop
    rw [hcompact]
    rfl

/-! ### The consumed prefix -/

/-- The consumed prefix is short, or less than half of the storage. -/
def Reclaimed (b : OutputBuffer) : Prop :=
  b.readPos < compactThreshold ∨ b.readPos < b.storage.length / 2

theorem reclaimed_of_readPos_eq_zero {b : OutputBuffer} (h : b.readPos = 0) : b.Reclaimed :=
  .inl (h ▸ by decide)

theorem reclaimed_empty : empty.Reclaimed := reclaimed_of_readPos_eq_zero rfl

theorem reclaimed_compactIfNeed (b : OutputBuffer) : b.compactIfNeed.Reclaimed := by
  obtain ⟨hkept, heq⟩ | heq := compactIfNeed_cases b
  · rw [heq]
    exact hkept
  · rw [heq]
    exact reclaimed_of_readPos_eq_zero rfl

/-- The check runs before the storage grows, which only favours it. -/
theorem Reclaimed.append {b : OutputBuffer} (h : b.Reclaimed) (bytes : Bytes) :
    (b.append bytes).Reclaimed := by
  unfold OutputBuffer.append
  split
  · exact h
  · obtain hshort | hhalf := reclaimed_compactIfNeed b
    · exact .inl hshort
    · right
      change b.compactIfNeed.readPos < (b.compactIfNeed.storage ++ bytes).length / 2
      rw [List.length_append]
      omega

theorem reclaimed_advance (b : OutputBuffer) (bytes : Nat) (h : bytes ≤ b.size) :
    (b.advance bytes h).Reclaimed := by
  unfold advance
  split
  · exact reclaimed_empty
  · exact reclaimed_compactIfNeed _

theorem Reclaimed.perform {b : OutputBuffer} (h : b.Reclaimed) (op : Op) :
    (b.perform op).2.Reclaimed := by
  cases op with
  | append bytes => exact h.append bytes
  | consume bytes =>
      obtain ⟨-, heq⟩ | ⟨hle, heq⟩ := consume_eq b bytes
      · simpa only [OutputBuffer.perform, heq] using h
      · simpa only [OutputBuffer.perform, heq] using reclaimed_advance b bytes hle
  | clear => exact reclaimed_empty
  | compact => exact reclaimed_of_readPos_eq_zero rfl

theorem reclaimed_run (ops : List Op) : (machine.run empty ops).2.Reclaimed := by
  apply machine.run_invariant
  · intro b h op
    exact h.perform op
  · exact reclaimed_empty

/-- The storage is bounded by the pending bytes. -/
theorem Reclaimed.storage_le {b : OutputBuffer} (h : b.Reclaimed) :
    b.storage.length ≤ max (b.size + 65535) (2 * b.size) := by
  have hle := b.readPos_le
  simp only [Reclaimed, compactThreshold] at h
  simp only [size]
  omega

end TinyKv.OutputBuffer
