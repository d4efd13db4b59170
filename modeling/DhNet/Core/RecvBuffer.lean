import Mathlib.Data.List.Basic
import Mathlib.Data.List.OfFn

/-!
# The receive buffer

`RecvBuffer` is a linear buffer of ten times `m_bufferSize` bytes with a read and a write cursor.
The memory is a function on addresses, so that a pointer into the buffer can be read at any offset;
the bounds of the cursors are part of the type.

* `data`: the bytes in `[m_readPos, m_writePos)`.
* `fill_onWrite`, `onRead`, `clean`: how the operations change `data`.
-/

namespace DhNet

/-- The bytes seen through a pointer. -/
abbrev Pointer := ℕ → UInt8

/-- The first `n` bytes behind a pointer. -/
def Pointer.bytes (p : Pointer) (n : ℕ) : List UInt8 := List.ofFn fun i : Fin n => p i

/-- `p + n`. -/
def Pointer.advance (p : Pointer) (n : ℕ) : Pointer := fun i => p (n + i)

/-- `RecvBuffer`, with the order of its cursors. -/
structure RecvBuffer where
  bufferSize : ℕ
  buffer : Pointer
  readPos : ℕ
  writePos : ℕ
  readPos_le : readPos ≤ writePos
  writePos_le : writePos ≤ bufferSize * 10

namespace RecvBuffer

/-- `RecvBuffer::RecvBuffer`. -/
def init (bufferSize : ℕ) : RecvBuffer := ⟨bufferSize, fun _ => 0, 0, 0, le_refl 0, Nat.zero_le _⟩

def capacity (b : RecvBuffer) : ℕ := b.bufferSize * 10

def dataSize (b : RecvBuffer) : ℕ := b.writePos - b.readPos

def freeSize (b : RecvBuffer) : ℕ := b.capacity - b.writePos

/-- `RecvBuffer::ReadPos`. -/
def readPointer (b : RecvBuffer) : Pointer := b.buffer.advance b.readPos

/-- The bytes a receive wrote behind `WritePos` before it completed. -/
def fill (b : RecvBuffer) (bytes : List UInt8) : RecvBuffer :=
  { b with buffer := fun i =>
      if b.writePos ≤ i then bytes.getD (i - b.writePos) (b.buffer i) else b.buffer i }

/-- `RecvBuffer::OnRead`. -/
def onRead (b : RecvBuffer) (numOfBytes : ℕ) : Option RecvBuffer :=
  if h : b.dataSize < numOfBytes then none
  else some { b with
    readPos := b.readPos + numOfBytes
    readPos_le := by have := b.readPos_le; unfold dataSize at h; omega }

/-- `RecvBuffer::OnWrite`. -/
def onWrite (b : RecvBuffer) (numOfBytes : ℕ) : Option RecvBuffer :=
  if h : b.freeSize < numOfBytes then none
  else some { b with
    writePos := b.writePos + numOfBytes
    readPos_le := Nat.le_add_right_of_le b.readPos_le
    writePos_le := by
      have := b.writePos_le
      unfold freeSize capacity at h
      omega }

/-- `RecvBuffer::Clean`. -/
def clean (b : RecvBuffer) : RecvBuffer :=
  if b.dataSize = 0 then
    { b with readPos := 0, writePos := 0, readPos_le := le_refl 0, writePos_le := Nat.zero_le _ }
  else if b.freeSize < b.bufferSize then
    { b with
      buffer := fun i => if i < b.dataSize then b.buffer (b.readPos + i) else b.buffer i
      readPos := 0
      writePos := b.dataSize
      readPos_le := Nat.zero_le _
      writePos_le := (Nat.sub_le _ _).trans b.writePos_le }
  else b

/-- The bytes received and not yet read. -/
def data (b : RecvBuffer) : List UInt8 := b.readPointer.bytes b.dataSize

end RecvBuffer

/-! ## Bytes behind a pointer -/

namespace Pointer

@[simp] theorem length_bytes (p : Pointer) (n : ℕ) : (p.bytes n).length = n := by
  simp [bytes]

theorem getElem?_bytes (p : Pointer) (n i : ℕ) :
    (p.bytes n)[i]? = if i < n then some (p i) else none := by
  unfold bytes
  split_ifs with h <;> simp [h]

theorem bytes_congr {p q : Pointer} {n : ℕ} (h : ∀ i < n, p i = q i) : p.bytes n = q.bytes n := by
  unfold bytes
  congr 1
  funext i
  exact h i i.isLt

theorem bytes_add (p : Pointer) (m n : ℕ) :
    p.bytes (m + n) = p.bytes m ++ (p.advance m).bytes n := by
  apply List.ext_getElem?
  intro i
  rw [getElem?_bytes, List.getElem?_append]
  rcases Nat.lt_or_ge i m with hi | hi
  · rw [if_pos (by omega), if_pos (by rwa [length_bytes]), getElem?_bytes, if_pos hi]
  · obtain ⟨k, rfl⟩ := Nat.exists_eq_add_of_le hi
    simp [getElem?_bytes, advance]

theorem take_bytes (p : Pointer) {m n : ℕ} (h : m ≤ n) : (p.bytes n).take m = p.bytes m := by
  obtain ⟨k, rfl⟩ := Nat.exists_eq_add_of_le h
  rw [bytes_add, List.take_left' (length_bytes p m)]

theorem drop_bytes (p : Pointer) {m n : ℕ} (h : m ≤ n) :
    (p.bytes n).drop m = (p.advance m).bytes (n - m) := by
  obtain ⟨k, rfl⟩ := Nat.exists_eq_add_of_le h
  rw [bytes_add, List.drop_left' (length_bytes p m), Nat.add_sub_cancel_left]

theorem advance_advance (p : Pointer) (m n : ℕ) : (p.advance m).advance n = p.advance (m + n) := by
  funext i
  simp [advance, Nat.add_assoc]

end Pointer

/-! ## The operations on the data -/

namespace RecvBuffer

variable {b b' : RecvBuffer}

@[simp] theorem length_data (b : RecvBuffer) : b.data.length = b.dataSize := by
  simp [data]

@[simp] theorem fill_freeSize (b : RecvBuffer) (bytes : List UInt8) :
    (b.fill bytes).freeSize = b.freeSize := rfl

/-- A completion of as many bytes as fit appends them to the data. -/
theorem fill_onWrite (b : RecvBuffer) {bytes : List UInt8} (h : bytes.length ≤ b.freeSize) :
    ∃ b', (b.fill bytes).onWrite bytes.length = some b' ∧ b'.data = b.data ++ bytes ∧
      b'.readPointer = (b.fill bytes).readPointer ∧ b'.bufferSize = b.bufferSize := by
  have hle := b.readPos_le
  refine ⟨_, dif_neg (by simpa using h), ?_, rfl, rfl⟩
  unfold data dataSize readPointer fill
  simp only
  rw [show b.writePos + bytes.length - b.readPos = b.writePos - b.readPos + bytes.length by omega,
    Pointer.bytes_add]
  congr 1
  · apply Pointer.bytes_congr
    intro i hi
    simp only [Pointer.advance]
    rw [if_neg (by omega)]
  · apply List.ext_getElem?
    intro i
    rw [Pointer.getElem?_bytes]
    simp only [Pointer.advance]
    split_ifs with hi hpos
    · rw [show b.readPos + (b.writePos - b.readPos + i) - b.writePos = i by omega,
        List.getD_eq_getElem?_getD, List.getElem?_eq_getElem hi, Option.getD_some]
    · omega
    · rw [List.getElem?_eq_none (by omega)]

/-- Reading drops bytes from the front of the data. -/
theorem onRead_of_le {n : ℕ} (h : n ≤ b.dataSize) :
    ∃ b', b.onRead n = some b' ∧ b'.data = b.data.drop n ∧
      b'.readPointer = b.readPointer.advance n ∧ b'.dataSize = b.dataSize - n ∧
      b'.bufferSize = b.bufferSize := by
  refine ⟨_, dif_neg (by omega), ?_, ?_, ?_, rfl⟩
  · unfold data
    rw [Pointer.drop_bytes _ h]
    unfold dataSize readPointer
    rw [Pointer.advance_advance, Nat.sub_add_eq]
  · unfold readPointer
    rw [Pointer.advance_advance]
  · unfold dataSize
    exact Nat.sub_add_eq _ _ _

@[simp] theorem clean_data (b : RecvBuffer) : b.clean.data = b.data := by
  unfold clean
  split_ifs with h1 h2
  · rw [List.length_eq_zero_iff.1 ((length_data b).trans h1)]
    rfl
  · unfold data dataSize readPointer
    apply Pointer.bytes_congr
    intro i hi
    simp only [Nat.sub_zero] at hi
    simp [Pointer.advance, hi]
  · rfl

end RecvBuffer

end DhNet
