import Console64.Machine.Interpreter

/-!
# Parts of words

A load of the left or the right part of a word moves some bits of it into the register and
leaves the others.  Which ones, is said here for words and doublewords alike, together with
what a run of bytes has to do with the number that it spells.

## Key results

- `BigEndian.getLsbD_value`: the bits of a number are those of its bytes
- `BigEndian.getLsbD_value_bytes`: reading the bytes of a number gives the number
- `PartialSize.getLsbD_left` / `PartialSize.getLsbD_right`: where the bits of a merged
  register come from
- `PartialSize.image_congr`: the bits that a register image depends on
-/

namespace Console64

/-! ## Numbers and their bytes -/

namespace BigEndian

/-- A byte behind a number moves it up. -/
private theorem getLsbD_push (v : UInt64) (b : UInt8) {j : Nat} (hj : j < 64) :
    ((v <<< 8) ||| b.toUInt64).toBitVec.getLsbD j =
      if j < 8 then b.toBitVec.getLsbD j else v.toBitVec.getLsbD (j - 8) := by
  by_cases h : j < 8
  · simp [-BitVec.getLsbD_eq_getElem, h, hj]
  · have hb : b.toBitVec.getLsbD j = false := BitVec.getLsbD_of_ge _ _ (Nat.le_of_not_lt h)
    simp [-BitVec.getLsbD_eq_getElem, h, hj, hb]

/-- So the bytes behind it are the lowest bits, and it is found above them. -/
private theorem getLsbD_foldl (bs : List UInt8) (v : UInt64) {j : Nat} (hj : j < 64) :
    (bs.foldl (fun (v : UInt64) (b : UInt8) => (v <<< 8) ||| b.toUInt64) v).toBitVec.getLsbD j =
      if j < 8 * bs.length then ((bs[bs.length - 1 - j / 8]?).getD 0).toBitVec.getLsbD (j % 8)
      else v.toBitVec.getLsbD (j - 8 * bs.length) := by
  induction bs generalizing v with
  | nil => simp
  | cons b bs ih =>
    rw [List.foldl_cons, ih, List.length_cons]
    -- The bit is in the bytes behind, in this byte, or in what was there before
    by_cases hlow : j < 8 * bs.length
    · have hindex : bs.length + 1 - 1 - j / 8 = bs.length - 1 - j / 8 + 1 := by omega
      rw [if_pos hlow, if_pos (by omega), hindex, List.getElem?_cons_succ]
    · rw [if_neg hlow, getLsbD_push _ _ (by omega)]
      by_cases hb : j < 8 * (bs.length + 1)
      · have hindex : bs.length + 1 - 1 - j / 8 = 0 := by omega
        have hbit : j % 8 = j - 8 * bs.length := by omega
        rw [if_pos (by omega), if_pos hb, hindex, hbit]
        rfl
      · rw [if_neg (by omega), if_neg hb]
        congr 1

/-- The bits of a number are those of its bytes, the last of which is the lowest. -/
theorem getLsbD_value {bs : List UInt8} (hlength : bs.length ≤ 8) {j : Nat}
    (hj : j < 8 * bs.length) :
    (value bs).toBitVec.getLsbD j =
      ((bs[bs.length - 1 - j / 8]?).getD 0).toBitVec.getLsbD (j % 8) := by
  rw [value, getLsbD_foldl bs 0 (by omega), if_pos hj]

/-- A byte of a number holds the bits from where it starts. -/
private theorem getLsbD_shiftRight_toUInt8 (v : UInt64) {shift j : Nat} (hshift : shift < 64)
    (hj : j < 8) :
    (v >>> UInt64.ofNat shift).toUInt8.toBitVec.getLsbD j = v.toBitVec.getLsbD (shift + j) := by
  have hamount : ((UInt64.ofNat shift).toBitVec % 64).toNat = shift := by
    show shift % 2 ^ 64 % 64 = shift
    omega
  rw [UInt64.toBitVec_toUInt8, BitVec.getLsbD_setWidth, decide_eq_true hj, Bool.true_and,
    UInt64.toBitVec_shiftRight, BitVec.ushiftRight_eq', hamount, BitVec.getLsbD_ushiftRight]

/-- So each bit of the number is in the byte that it belongs to, counted from the end. -/
private theorem getLsbD_bytes {n : Nat} (hn : n ≤ 8) (v : UInt64) {j : Nat} (hj : j < 8 * n) :
    (((bytes n v)[n - 1 - j / 8]?).getD 0).toBitVec.getLsbD (j % 8) = v.toBitVec.getLsbD j := by
  induction n with
  | zero => omega
  | succ n ih =>
    rw [bytes]
    -- The bit is in the bytes behind the first, or in the first
    by_cases hlow : j < 8 * n
    · have hindex : n + 1 - 1 - j / 8 = n - 1 - j / 8 + 1 := by omega
      rw [hindex, List.getElem?_cons_succ, ih (by omega) hlow]
    · have hindex : n + 1 - 1 - j / 8 = 0 := by omega
      have hbit : 8 * n + j % 8 = j := by omega
      rw [hindex, List.getElem?_cons_zero, Option.getD_some,
        getLsbD_shiftRight_toUInt8 v (by omega) (by omega), hbit]

/-- Reading the bytes of a number gives the number, as far as they go. -/
theorem getLsbD_value_bytes {n : Nat} (hn : n ≤ 8) (v : UInt64) {j : Nat} (hj : j < 8 * n) :
    (value (bytes n v)).toBitVec.getLsbD j = v.toBitVec.getLsbD j := by
  rw [getLsbD_value (by simpa using hn) (by simpa using hj), length_bytes, getLsbD_bytes hn v hj]

end BigEndian

/-! ## Replacing one end of a word -/

/-- Replacing the bits from `shift` on keeps those below, -/
private theorem getLsbD_replaceHigh {w : Nat} (r m : BitVec w) (shift : Nat) {j : Nat}
    (hj : j < w) :
    ((r &&& ~~~(BitVec.allOnes w <<< shift)) ||| (m <<< shift)).getLsbD j =
      if j < shift then r.getLsbD j else m.getLsbD (j - shift) := by
  have hback : j - shift < w := by omega
  simp only [BitVec.getLsbD_or, BitVec.getLsbD_and, BitVec.getLsbD_not, BitVec.getLsbD_shiftLeft,
    BitVec.getLsbD_allOnes, hj, hback, decide_true, Bool.true_and, Bool.and_true]
  by_cases h : j < shift <;> simp [h]

/-- and replacing those below keeps those above. -/
private theorem getLsbD_replaceLow {w : Nat} (r m : BitVec w) (shift : Nat) {j : Nat}
    (hj : j < w) :
    ((r &&& ~~~(BitVec.allOnes w >>> shift)) ||| (m >>> shift)).getLsbD j =
      if j + shift < w then m.getLsbD (j + shift) else r.getLsbD j := by
  simp only [BitVec.getLsbD_or, BitVec.getLsbD_and, BitVec.getLsbD_not, BitVec.getLsbD_ushiftRight,
    BitVec.getLsbD_allOnes, hj, Nat.add_comm shift, decide_true, Bool.true_and]
  by_cases h : j + shift < w
  · simp [h]
  · simp [h, BitVec.getLsbD_of_ge m _ (Nat.le_of_not_lt h)]

/-- A left part replaces the upper bytes of a word, -/
private theorem toBitVec_mergeLeft32 (r m : UInt32) {k : UInt32} (hk : k.toNat < 4) :
    (mergeLeft32 r m k).toBitVec =
      (r.toBitVec &&& ~~~(BitVec.allOnes 32 <<< (8 * k.toNat))) |||
        (m.toBitVec <<< (8 * k.toNat)) := by
  have hshift : ((8 * k).toBitVec % 32).toNat = 8 * k.toNat := by
    simp
    omega
  simp only [mergeLeft32, UInt32.toBitVec_or, UInt32.toBitVec_and, UInt32.toBitVec_not,
    UInt32.toBitVec_shiftLeft, BitVec.shiftLeft_eq', hshift]
  rfl

/-- a right part the lower ones. -/
private theorem toBitVec_mergeRight32 (r m : UInt32) {k : UInt32} (hk : k.toNat < 4) :
    (mergeRight32 r m k).toBitVec =
      (r.toBitVec &&& ~~~(BitVec.allOnes 32 >>> (8 * (3 - k.toNat)))) |||
        (m.toBitVec >>> (8 * (3 - k.toNat))) := by
  have hshift : ((8 * (3 - k)).toBitVec % 32).toNat = 8 * (3 - k.toNat) := by
    simp
    omega
  simp only [mergeRight32, UInt32.toBitVec_or, UInt32.toBitVec_and, UInt32.toBitVec_not,
    UInt32.toBitVec_shiftRight, BitVec.ushiftRight_eq', hshift]
  rfl

/-- So it is with a left part of a doubleword -/
private theorem toBitVec_mergeLeft64 (r m : UInt64) {k : UInt64} (hk : k.toNat < 8) :
    (mergeLeft64 r m k).toBitVec =
      (r.toBitVec &&& ~~~(BitVec.allOnes 64 <<< (8 * k.toNat))) |||
        (m.toBitVec <<< (8 * k.toNat)) := by
  have hshift : ((8 * k).toBitVec % 64).toNat = 8 * k.toNat := by
    simp
    omega
  simp only [mergeLeft64, UInt64.toBitVec_or, UInt64.toBitVec_and, UInt64.toBitVec_not,
    UInt64.toBitVec_shiftLeft, BitVec.shiftLeft_eq', hshift]
  rfl

/-- and with a right part. -/
private theorem toBitVec_mergeRight64 (r m : UInt64) {k : UInt64} (hk : k.toNat < 8) :
    (mergeRight64 r m k).toBitVec =
      (r.toBitVec &&& ~~~(BitVec.allOnes 64 >>> (8 * (7 - k.toNat)))) |||
        (m.toBitVec >>> (8 * (7 - k.toNat))) := by
  have hshift : ((8 * (7 - k)).toBitVec % 64).toNat = 8 * (7 - k.toNat) := by
    simp
    omega
  simp only [mergeRight64, UInt64.toBitVec_or, UInt64.toBitVec_and, UInt64.toBitVec_not,
    UInt64.toBitVec_shiftRight, BitVec.ushiftRight_eq', hshift]
  rfl

/-! ## Words and doublewords -/

/-- The sizes of data whose parts are transferred. -/
inductive PartialSize where
  | word
  | doubleword
  deriving DecidableEq, Repr

namespace PartialSize

/-- Its bytes. -/
def length : PartialSize → Nat
  | word => 4
  | doubleword => 8

/-- The register that holds a value of the size. -/
def image (s : PartialSize) (v : UInt64) : UInt64 :=
  match s with
  | word => signExtend32 v.toUInt32
  | doubleword => v

/-- The register once the left part of `memory`, from address `a` on, is merged in. -/
def left (s : PartialSize) (register memory a : UInt64) : UInt64 :=
  match s with
  | word => signExtend32 (mergeLeft32 register.toUInt32 memory.toUInt32 (a &&& 3).toUInt32)
  | doubleword => mergeLeft64 register memory (a &&& 7)

/-- The register once the right part of `memory`, up to address `a`, is merged in. -/
def right (s : PartialSize) (register memory a : UInt64) : UInt64 :=
  match s with
  | word => signExtend32 (mergeRight32 register.toUInt32 memory.toUInt32 (a &&& 3).toUInt32)
  | doubleword => mergeRight64 register memory (a &&& 7)

/-- No more than eight bytes, -/
theorem length_le (s : PartialSize) : s.length ≤ 8 := by cases s <;> decide

/-- and not none. -/
theorem length_pos (s : PartialSize) : 0 < s.length := by cases s <;> decide

/-- Filling in the sign keeps the lower half, -/
private theorem getLsbD_signExtend32 (w : UInt32) {j : Nat} (hj : j < 32) :
    (signExtend32 w).toBitVec.getLsbD j = w.toBitVec.getLsbD j := by
  have hbits : (signExtend32 w).toBitVec = w.toBitVec.signExtend 64 := by
    simp only [signExtend32, Int64.toBitVec_toUInt64, Int32.toBitVec_toInt64,
      UInt32.toBitVec_toInt32]
  rw [hbits, BitVec.getLsbD_signExtend, if_pos hj, decide_eq_true (by omega), Bool.true_and]

/-- and so does cutting off the upper one. -/
private theorem getLsbD_toUInt32 (v : UInt64) {j : Nat} (hj : j < 32) :
    v.toUInt32.toBitVec.getLsbD j = v.toBitVec.getLsbD j := by
  rw [UInt64.toBitVec_toUInt32, BitVec.getLsbD_setWidth, decide_eq_true hj, Bool.true_and]

/-- The place in its word of an address. -/
private theorem toNat_and_three (a : UInt64) : (a &&& 3).toUInt32.toNat = a.toNat % 4 := by
  have hlow : a.toNat &&& 3 = a.toNat % 4 := Nat.and_two_pow_sub_one_eq_mod a.toNat 2
  rw [UInt64.toNat_toUInt32, UInt64.toNat_and]
  show (a.toNat &&& 3) % 2 ^ 32 = _
  omega

/-- Likewise in its doubleword. -/
private theorem toNat_and_seven (a : UInt64) : (a &&& 7).toNat = a.toNat % 8 := by
  rw [UInt64.toNat_and]
  exact Nat.and_two_pow_sub_one_eq_mod a.toNat 3

/-- The left part fills the register from the top. -/
theorem getLsbD_left (s : PartialSize) (r m a : UInt64) {j : Nat} (hj : j < 8 * s.length) :
    (s.left r m a).toBitVec.getLsbD j =
      if j < 8 * (a.toNat % s.length) then r.toBitVec.getLsbD j
      else m.toBitVec.getLsbD (j - 8 * (a.toNat % s.length)) := by
  -- As for the right part, a word is extended by its sign in the end
  cases s with
  | word =>
    change j < 8 * 4 at hj
    change _ = if j < 8 * (a.toNat % 4) then _ else m.toBitVec.getLsbD (j - 8 * (a.toNat % 4))
    have hk := toNat_and_three a
    rw [left, getLsbD_signExtend32 _ hj, toBitVec_mergeLeft32 _ _ (by omega), hk,
      getLsbD_replaceHigh _ _ _ hj, getLsbD_toUInt32 _ hj, getLsbD_toUInt32 _ (by omega)]
  | doubleword =>
    change j < 8 * 8 at hj
    change _ = if j < 8 * (a.toNat % 8) then _ else m.toBitVec.getLsbD (j - 8 * (a.toNat % 8))
    have hk := toNat_and_seven a
    rw [left, toBitVec_mergeLeft64 _ _ (by omega), hk, getLsbD_replaceHigh _ _ _ hj]

/-- The right part fills it from the bottom. -/
theorem getLsbD_right (s : PartialSize) (r m a : UInt64) {j : Nat} (hj : j < 8 * s.length) :
    (s.right r m a).toBitVec.getLsbD j =
      if j + 8 * (s.length - 1 - a.toNat % s.length) < 8 * s.length then
        m.toBitVec.getLsbD (j + 8 * (s.length - 1 - a.toNat % s.length))
      else r.toBitVec.getLsbD j := by
  -- Both sizes are the general merge, one of them extended by its sign
  cases s with
  | word =>
    change j < 8 * 4 at hj
    change _ = if j + 8 * (3 - a.toNat % 4) < 8 * 4 then
      m.toBitVec.getLsbD (j + 8 * (3 - a.toNat % 4)) else _
    have hk := toNat_and_three a
    rw [right, getLsbD_signExtend32 _ hj, toBitVec_mergeRight32 _ _ (by omega), hk,
      getLsbD_replaceLow _ _ _ hj, getLsbD_toUInt32 r hj]
    split
    case isTrue hlow => rw [getLsbD_toUInt32 m hlow]
    case isFalse => rfl
  | doubleword =>
    change j < 8 * 8 at hj
    change _ = if j + 8 * (7 - a.toNat % 8) < 8 * 8 then
      m.toBitVec.getLsbD (j + 8 * (7 - a.toNat % 8)) else _
    have hk := toNat_and_seven a
    rw [right, toBitVec_mergeRight64 _ _ (by omega), hk, getLsbD_replaceLow _ _ _ hj]

/-- Register images depend on the bits of the size only. -/
theorem image_congr (s : PartialSize) {u v : UInt64}
    (h : ∀ j < 8 * s.length, u.toBitVec.getLsbD j = v.toBitVec.getLsbD j) :
    s.image u = s.image v := by
  cases s with
  | word =>
    refine congrArg signExtend32 (UInt32.eq_of_toBitVec_eq (BitVec.eq_of_getLsbD_eq ?_))
    intro j hj
    rw [getLsbD_toUInt32 u hj, getLsbD_toUInt32 v hj, h j hj]
  | doubleword => exact UInt64.eq_of_toBitVec_eq (BitVec.eq_of_getLsbD_eq h)

/-- The sign that was filled in is cut off again. -/
private theorem toUInt32_signExtend32 (w : UInt32) : (signExtend32 w).toUInt32 = w := by
  refine UInt32.eq_of_toBitVec_eq (BitVec.eq_of_getLsbD_eq ?_)
  intro j hj
  rw [getLsbD_toUInt32 _ hj, getLsbD_signExtend32 w hj]

/-- What is merged is such an image. -/
theorem image_right (s : PartialSize) (r m a : UInt64) :
    s.image (s.right r m a) = s.right r m a := by
  cases s with
  | word => exact congrArg signExtend32 (toUInt32_signExtend32 _)
  | doubleword => rfl

end PartialSize

end Console64
