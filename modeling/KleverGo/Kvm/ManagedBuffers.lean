import KleverGo.Core.Bytes

/-!
# The growth of managed buffers

`kvm/vmhost/contexts/managedType.go`: a buffer is moved to a larger array only when its capacity
does not suffice, and an append is charged for the bytes that it copies, before it copies them.
-/

namespace KleverGo.Kvm

open List

/-- A slice that starts at the first byte of its backing array. -/
structure Slice where
  array : Bytes
  len : Nat
  len_le : len ≤ array.length

namespace Slice

def cap (buffer : Slice) : Nat := buffer.array.length

def bytes (buffer : Slice) : Bytes := buffer.array.take buffer.len

def managedBufferGrowthFactor : Nat := 2

section

variable (buffer : Slice)

def appendWillReallocate (dataLength : Nat) : Bool :=
  buffer.cap < buffer.len + dataLength

/-- `growManagedBuffer`, with the number of bytes that it copies. -/
def growManagedBuffer (neededLen : Nat) : Slice × Nat :=
  if neededLen ≤ buffer.cap then (buffer, 0)
  else
    let newCapacity := max (managedBufferGrowthFactor * buffer.cap) neededLen
    (⟨buffer.bytes ++ replicate (newCapacity - buffer.len) 0, buffer.len, by
      simp only [bytes, length_append, length_take_of_le buffer.len_le]
      omega⟩, buffer.len)

/-- The builtin `append` where the capacity suffices: the bytes go behind those of the slice. -/
def append (data : Bytes) : Slice :=
  ⟨buffer.bytes ++ data ++ buffer.array.drop (buffer.len + data.length), buffer.len + data.length, by
    simp only [bytes, length_append, length_take_of_le buffer.len_le]
    omega⟩

/-- `AppendBytes` on the buffer of a handle, with the number of bytes that it copies. -/
def appendBytes (data : Bytes) : Slice × Nat :=
  let grown := buffer.growManagedBuffer (buffer.len + data.length)
  (grown.1.append data, grown.2 + data.length)

/-- The bytes that `ConsumeGasForAppend` charges for. -/
def bytesToCopy (dataLength : Int32) : Nat :=
  let data := if 0 < dataLength then dataLength.toInt.toNat else 0
  if buffer.appendWillReallocate data then data + buffer.len else data

end

/-- An append, charged before with the length of its data. -/
structure ChargedAppend where
  data : Bytes
  dataLength : Int32
  same : dataLength.toInt = data.length

/-- The buffer after an append, and all the bytes charged so far. -/
def chargeAndAppend (s : Slice × Nat) (a : ChargedAppend) : Slice × Nat :=
  ((s.1.appendBytes a.data).1, s.2 + s.1.bytesToCopy a.dataLength)

def chargeAndAppendAll (buffer : Slice) (appends : List ChargedAppend) : Slice × Nat :=
  appends.foldl chargeAndAppend (buffer, 0)

section
variable (buffer : Slice)
include buffer

theorem grow_len (needed : Nat) : (buffer.growManagedBuffer needed).1.len = buffer.len := by
  unfold growManagedBuffer
  split <;> rfl

theorem grow_cap (needed : Nat) :
    (buffer.growManagedBuffer needed).1.cap =
      if needed ≤ buffer.cap then buffer.cap else max (2 * buffer.cap) needed := by
  have hle := buffer.len_le
  unfold growManagedBuffer
  split
  · rfl
  · simp only [cap, bytes, managedBufferGrowthFactor, length_append, length_replicate,
      length_take_of_le hle] at *
    omega

theorem appendBytes_len (data : Bytes) :
    (buffer.appendBytes data).1.len = buffer.len + data.length := by
  simp only [appendBytes, append, grow_len]

theorem append_cap (data : Bytes) (h : buffer.len + data.length ≤ buffer.cap) :
    (buffer.append data).cap = buffer.cap := by
  simp only [append, cap, bytes, length_append, length_drop, length_take_of_le buffer.len_le] at *
  omega

theorem appendBytes_cap (data : Bytes) :
    (buffer.appendBytes data).1.cap = if buffer.len + data.length ≤ buffer.cap then buffer.cap
      else max (2 * buffer.cap) (buffer.len + data.length) := by
  refine (append_cap _ data ?_).trans (buffer.grow_cap _)
  rw [grow_len, grow_cap]
  split <;> omega

theorem bytesToCopy_eq (a : ChargedAppend) :
    buffer.bytesToCopy a.dataLength = if buffer.len + a.data.length ≤ buffer.cap then a.data.length
      else a.data.length + buffer.len := by
  have hdata : (if 0 < a.dataLength then a.dataLength.toInt.toNat else 0) = a.data.length := by
    have hsame := a.same
    split
    · omega
    · rename_i hneg
      rw [Int32.lt_iff_toInt_lt, Int32.toInt_zero] at hneg
      omega
  simp only [bytesToCopy, hdata, appendWillReallocate, decide_eq_true_eq, ← Nat.not_le, ite_not]

/-- An append copies what it was charged for. -/
theorem appendBytes_copies (a : ChargedAppend) :
    (buffer.appendBytes a.data).2 = buffer.bytesToCopy a.dataLength := by
  rw [bytesToCopy_eq]
  simp only [appendBytes, growManagedBuffer]
  split <;> dsimp only <;> omega

end

/-- What has been charged since the buffer was `start`: its new bytes, and the moves, which together
copied no more than the capacity that they led to, nor twice the bytes there are now. -/
structure Charged (start : Slice) (s : Slice × Nat) : Prop where
  cap : s.1.cap ≤ max start.cap (2 * s.1.len)
  moves : s.2 + start.len ≤ s.1.cap + s.1.len
  total : s.2 + start.len ≤ 3 * s.1.len

theorem Charged.step {start : Slice} {s : Slice × Nat} (h : Charged start s) (a : ChargedAppend) :
    Charged start (chargeAndAppend s a) := by
  obtain ⟨hcap, hmoves, htotal⟩ := h
  have hle : s.1.len ≤ s.1.cap := s.1.len_le
  constructor <;> simp only [chargeAndAppend, appendBytes_cap, appendBytes_len, bytesToCopy_eq] <;>
    split <;> omega

theorem Charged.all (start : Slice) (appends : List ChargedAppend) :
    Charged start (start.chargeAndAppendAll appends) := by
  have hstart : Charged start (start, 0) :=
    ⟨Nat.le_max_left .., by dsimp only; omega, by dsimp only; omega⟩
  exact foldlRecOn appends _ hstart fun s h a _ => h.step a

/-- **Appending costs gas linear in the final length**, from any buffer and over any appends. -/
theorem append_charges_linear (start : Slice) (appends : List ChargedAppend) :
    (∀ before a after, appends = before ++ a :: after →
      ((start.chargeAndAppendAll before).1.appendBytes a.data).2 ≤
        (start.chargeAndAppendAll before).1.bytesToCopy a.dataLength) ∧
    (∀ before after, appends = before ++ after →
      (start.chargeAndAppendAll before).1.cap ≤
        max start.cap (2 * (start.chargeAndAppendAll before).1.len)) ∧
    (start.chargeAndAppendAll appends).2 ≤ 3 * (start.chargeAndAppendAll appends).1.len := by
  refine ⟨fun before a _ _ => Nat.le_of_eq (appendBytes_copies _ a), fun before _ _ => ?_, ?_⟩
  · exact (Charged.all start before).cap
  · have htotal := (Charged.all start appends).total
    omega

end Slice

end KleverGo.Kvm
