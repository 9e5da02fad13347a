import Console64.BigEndian

/-! # Main memory

The bus gives main memory a window larger than what is installed: bytes past
the installed size read as zero and swallow stores. -/

namespace Console64

/-- Installed main memory. -/
structure Rdram where
  data : ByteArray

namespace Rdram

/-- Size of a fully equipped machine, in bytes. -/
def fullSize : Nat := 8 * 1024 * 1024

/-- `size` zero bytes. -/
def zero (size : Nat) : Rdram := ⟨⟨Array.replicate size 0⟩⟩

/-- Installed size in bytes. -/
def size (m : Rdram) : Nat := m.data.size

/-- The byte at `offset`, zero past the installed size. -/
def byteAt (m : Rdram) (offset : Nat) : UInt8 := BigEndian.byteAt m.data offset

/-- Store one byte; a store past the installed size is dropped. -/
def storeByte (m : Rdram) (offset : Nat) (byte : UInt8) : Rdram :=
  if h : offset < m.data.size then ⟨m.data.set offset byte⟩ else m

/-- `length` bytes from `offset` on. -/
def load (m : Rdram) (offset length : Nat) : List UInt8 :=
  (List.range length).map fun i => m.byteAt (offset + i)

/-- Store a run of bytes, first to last. -/
def store (m : Rdram) (offset : Nat) : List UInt8 → Rdram
  | [] => m
  | byte :: rest => (m.storeByte offset byte).store (offset + 1) rest

/-- The 32-bit word at `offset`. -/
def word (m : Rdram) (offset : Nat) : UInt32 := (BigEndian.value (m.load offset 4)).toUInt32

/-- Store a 32-bit word. -/
def storeWord (m : Rdram) (offset : Nat) (value : UInt32) : Rdram :=
  m.store offset (BigEndian.bytes 4 value.toUInt64)

/-- A store does not change how much is installed, -/
@[simp] theorem size_storeByte (m : Rdram) (offset : Nat) (byte : UInt8) :
    (m.storeByte offset byte).size = m.size := by
  unfold storeByte
  split
  · simp only [size]
    exact Array.size_set ..
  · rfl

/-- A store changes the byte that it is made to, if that is installed, and no other. -/
theorem byteAt_storeByte (m : Rdram) (offset i : Nat) (byte : UInt8) :
    (m.storeByte offset byte).byteAt i =
      if offset = i ∧ offset < m.size then byte else m.byteAt i := by
  unfold storeByte
  split
  case isFalse h => rw [if_neg fun hi => h hi.2]
  case isTrue h =>
    have set_size : (m.data.set offset byte h).size = m.data.size := Array.size_set h
    -- A byte that is not installed reads as zero before and after
    simp only [byteAt, BigEndian.byteAt, size, h, and_true, set_size]
    by_cases hi : i < m.data.size
    · rw [dif_pos hi, dif_pos hi]
      exact Array.getElem_set ..
    · have ne : offset ≠ i := fun e => hi (e ▸ h)
      rw [dif_neg hi, dif_neg hi, if_neg ne]

/-- however long it is. -/
@[simp] theorem size_store (m : Rdram) (offset : Nat) (data : List UInt8) :
    (m.store offset data).size = m.size := by
  induction data generalizing m offset with
  | nil => rfl
  | cons byte rest ih => simp [store, ih]

end Rdram

end Console64
