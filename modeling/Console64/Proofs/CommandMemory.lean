import Console64.Device.Pif

/-!
# The command memory

Stores into the command memory, by the bus and by the answers to packets.  Neither leaves the
64 bytes, and one that covers all of them leaves nothing of what was there.

## Key results

- `Joybus.getElem_store`: the bytes of the command memory after a store
- `Pif.store_eq`: a store behind the ROM is one into the command memory
-/

namespace Console64

namespace Joybus

/-- The control byte is part of the command memory. -/
theorem control_lt : control < memorySize := by decide

/-- After a store its bytes are there, as far as there is room. -/
theorem getElem_store (m : Memory) (pos : Nat) (data : List UInt8) (i : Nat) (hi : i < memorySize) :
    (store m pos data)[i] = if pos ≤ i then (data[i - pos]?).getD m[i] else m[i] := by
  induction data generalizing m pos with
  | nil => simp [store]
  | cons byte rest ih =>
    rw [store, ih]
    -- Below, at or behind the first byte
    rcases Nat.lt_trichotomy i pos with h | rfl | h
    · rw [if_neg (by omega), if_neg (by omega), Vector.getElem_setIfInBounds_ne hi (by omega)]
    · rw [if_neg (by omega), if_pos (Nat.le_refl i), Vector.getElem_setIfInBounds_self]
      simp
    · have hindex : i - pos = i - (pos + 1) + 1 := by omega
      rw [if_pos (Nat.succ_le_of_lt h), if_pos (Nat.le_of_lt h), hindex, List.getElem?_cons_succ,
        Vector.getElem_setIfInBounds_ne hi (by omega)]

/-- A store of all bytes. -/
theorem store_all (m frame : Memory) : store m 0 frame.toList = frame := by
  apply Vector.ext
  intro i hi
  rw [getElem_store, if_pos (Nat.zero_le i), Nat.sub_zero]
  simp [hi]

end Joybus

namespace Pif

/-- A store in two parts. -/
theorem store_append (p : Pif) (offset : Nat) (data data' : List UInt8) :
    p.store offset (data ++ data') = (p.store offset data).store (offset + data.length) data' := by
  induction data generalizing p offset with
  | nil => rfl
  | cons byte rest ih =>
    rw [List.cons_append, store, store, ih, List.length_cons, Nat.add_assoc, Nat.add_comm 1]

/-- A store behind the ROM changes the command memory only. -/
theorem store_eq (p : Pif) (place : Nat) (data : List UInt8) :
    p.store (romSize + place) data = { p with ram := Joybus.store p.ram place data } := by
  induction data generalizing p place with
  | nil => rfl
  | cons byte rest ih =>
    have hbehind : ¬romSize + place < romSize := by omega
    rw [store, storeByte, if_neg hbehind, Nat.add_assoc, ih, Nat.add_sub_cancel_left, Joybus.store]

/-- A store of a whole frame. -/
theorem store_frame (p : Pif) (frame : Joybus.Memory) :
    p.store romSize frame.toList = { p with ram := frame } := by
  rw [show romSize = romSize + 0 from rfl, store_eq, Joybus.store_all]

end Pif

end Console64
