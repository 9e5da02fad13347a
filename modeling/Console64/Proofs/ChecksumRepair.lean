import Console64.Cartridge.Checksum
import Console64.Proofs.DeviceCopy
import Console64.Proofs.ImageOrder
import Mathlib.Data.List.Basic

/-!
# Renewed checksums

The checksum words lie outside of what is summed.  So to store them does not change the sum, and
once they are stored, storing them again changes nothing.

## Key results

- `BigEndian.byteAt_setBytes`: the bytes that are replaced, and the others
- `Checksum.sums_congr`: what the sum is read from
- `Checksum.checkedSums_eq`: none of it lies past the end of the image
- `Checksum.repair`: an image with its checksum renewed
-/

namespace Console64

/-! ## Bytes that are replaced -/

/-- Main memory is a run of bytes, some of which a store replaces. -/
theorem Rdram.data_store (m : Rdram) (offset : Nat) (data : List UInt8) :
    (m.store offset data).data = BigEndian.setBytes m.data offset data := by
  induction data generalizing m offset with
  | nil => rfl
  | cons byte rest ih =>
    have hbyte : (m.storeByte offset byte).data =
        if h : offset < m.data.size then m.data.set offset byte else m.data := by
      unfold storeByte
      split <;> rfl
    rw [store, ih, BigEndian.setBytes, hbyte]

namespace BigEndian

/-- The image keeps its size. -/
theorem size_setBytes (data : ByteArray) (i : Nat) (bs : List UInt8) :
    (setBytes data i bs).size = data.size := by
  rw [← Rdram.data_store ⟨data⟩]
  exact Rdram.size_store _ _ _

/-- The bytes that are replaced, as far as the image goes, and the others. -/
theorem byteAt_setBytes (data : ByteArray) (i j : Nat) (bs : List UInt8) :
    byteAt (setBytes data i bs) j =
      if i ≤ j ∧ j < data.size then (bs[j - i]?).getD (byteAt data j) else byteAt data j := by
  rw [← Rdram.data_store ⟨data⟩]
  exact Rdram.byteAt_store ⟨data⟩ i j bs

/-- Bytes outside the span stay as they were. -/
theorem byteAt_setBytes_of_outside (data : ByteArray) {i j : Nat} {bs : List UInt8}
    (h : j < i ∨ i + bs.length ≤ j) : byteAt (setBytes data i bs) j = byteAt data j := by
  rw [byteAt_setBytes]
  split
  · rw [List.getElem?_eq_none (by omega), Option.getD_none]
  · rfl

/-- Bytes that fit into the image are there. -/
theorem bytesFrom_setBytes {data : ByteArray} {i : Nat} {bs : List UInt8}
    (h : i + bs.length ≤ data.size) :
    bytesFrom (byteAt (setBytes data i bs)) i bs.length = bs := by
  apply List.ext_getElem (length_bytesFrom _ _ _)
  intro k hk hk'
  simp only [bytesFrom, List.getElem_map, List.getElem_range]
  rw [byteAt_setBytes, if_pos ⟨Nat.le_add_right i k, by omega⟩, Nat.add_sub_cancel_left,
    List.getElem?_eq_getElem hk', Option.getD_some]

/-- To replace bytes by what they are changes nothing. -/
theorem setBytes_setBytes (data : ByteArray) (i : Nat) (bs : List UInt8) :
    setBytes (setBytes data i bs) i bs = setBytes data i bs := by
  refine ext_byteAt (size_setBytes _ _ _) fun j _ => ?_
  rw [byteAt_setBytes, byteAt_setBytes, size_setBytes]
  split
  · cases bs[j - i]? <;> rfl
  · rfl

/-- The word at `i`, if the image has all of its bytes. -/
def checkedWordAt (data : ByteArray) (i : Nat) : Option UInt32 := do
  let b0 ← data[i]?
  let b1 ← data[i + 1]?
  let b2 ← data[i + 2]?
  let b3 ← data[i + 3]?
  return (b0.toUInt32 <<< 24) ||| (b1.toUInt32 <<< 16) ||| (b2.toUInt32 <<< 8) ||| b3.toUInt32

/-- A word that the image has is found. -/
theorem checkedWordAt_eq {data : ByteArray} {i : Nat} (h : i + 4 ≤ data.size) :
    checkedWordAt data i = some (wordAt data i) := by
  have hbyte : ∀ k < 4, data[i + k]? = some (byteAt data (i + k)) := by
    intro k hk
    have hin : i + k < data.size := by omega
    rw [getElem?_pos data (i + k) hin, byteAt, dif_pos hin]
  have hfirst : data[i]? = some (byteAt data i) := hbyte 0 (by decide)
  simp [checkedWordAt, wordAt, hfirst, hbyte 1, hbyte 2, hbyte 3]

end BigEndian

namespace Checksum

/-! ## What the sum is read from -/

/-- Two images agree on what is summed, and on the boot code words that are mixed in. -/
structure Agree (chip : BootChip) (a b : ByteArray) : Prop where
  summed : ∀ i, start ≤ i → i < start + length → BigEndian.byteAt a i = BigEndian.byteAt b i
  mixed : chip = .x105 → ∀ i, x105Table ≤ i → i < x105Table + 256 →
    BigEndian.byteAt a i = BigEndian.byteAt b i

/-- The sum over an image, before its result is taken. -/
def sums (data : ByteArray) (chip : BootChip) : Sums :=
  (List.range (length / 4)).foldl (stepAt data chip) (.seeded chip.checksumSeed)

/-- An image with the summed area has checksums, -/
theorem compute_of_size_le {data : ByteArray} (h : start + length ≤ data.size) (chip : BootChip) :
    compute data chip = .ok ((sums data chip).result chip) := if_neg (Nat.not_lt.mpr h)

/-- and a smaller one is refused. -/
theorem compute_of_size_lt {data : ByteArray} (h : data.size < start + length) (chip : BootChip) :
    compute data chip = .error (.tooSmall data.size) := if_pos h

/-- A step reads a word that is summed, and perhaps one that is mixed in. -/
theorem stepAt_congr {chip : BootChip} {a b : ByteArray} (h : Agree chip a b) (s : Sums) {i : Nat}
    (hi : i < length / 4) : stepAt a chip s i = stepAt b chip s i := by
  have hend : start + 4 * i + 4 ≤ start + length := by
    have hwhole : length / 4 * 4 = length := by decide
    omega
  have hword : BigEndian.wordAt a (start + 4 * i) = BigEndian.wordAt b (start + 4 * i) :=
    BigEndian.wordAt_congr fun k hk => h.summed _ (by omega) (by omega)
  unfold stepAt
  rw [hword]
  by_cases hchip : chip = .x105
  · -- The words mixed in are taken in turn from 256 bytes
    have hmixed : BigEndian.wordAt a (x105Table + i * 4 % 256) =
        BigEndian.wordAt b (x105Table + i * 4 % 256) :=
      BigEndian.wordAt_congr fun k hk => h.mixed hchip _ (by omega) (by omega)
    rw [hmixed]
  · simp only [if_neg hchip]

/-- Nothing else matters for the sum. -/
theorem sums_congr {chip : BootChip} {a b : ByteArray} (h : Agree chip a b) :
    sums a chip = sums b chip :=
  List.foldl_ext _ _ _ fun s _ hi => stepAt_congr h s (List.mem_range.mp hi)

/-! ## Reads inside the image -/

/-- Take word `i` of the summed area, if the image has the words that are read for that. -/
def checkedStepAt (data : ByteArray) (chip : BootChip) (s : Sums) (i : Nat) : Option Sums := do
  let mixed ←
    if chip = .x105 then (BigEndian.checkedWordAt data (x105Table + (i * 4) % 256)).map some
    else pure none
  let w ← BigEndian.checkedWordAt data (start + 4 * i)
  return s.step w mixed

/-- The sum over an image, given up at the first read past its end. -/
def checkedSums (data : ByteArray) (chip : BootChip) : Option Sums :=
  (List.range (length / 4)).foldlM (checkedStepAt data chip) (.seeded chip.checksumSeed)

/-- It has them if it has the summed area. -/
theorem checkedStepAt_eq {data : ByteArray} (h : start + length ≤ data.size) (chip : BootChip)
    (s : Sums) {i : Nat} (hi : i < length / 4) :
    checkedStepAt data chip s i = some (stepAt data chip s i) := by
  have hend : start + 4 * i + 4 ≤ data.size := by
    have hwhole : length / 4 * 4 = length := by decide
    omega
  have htable : x105Table + i * 4 % 256 + 4 ≤ data.size := by
    have hbefore : x105Table + 256 ≤ start := by decide
    omega
  unfold checkedStepAt stepAt
  rw [BigEndian.checkedWordAt_eq hend, BigEndian.checkedWordAt_eq htable]
  split <;> rfl

/-- No read lies past the end of an image that has the summed area. -/
theorem checkedSums_eq {data : ByteArray} (h : start + length ≤ data.size) (chip : BootChip) :
    checkedSums data chip = some (sums data chip) := by
  unfold checkedSums sums
  have hsteps : ∀ i ∈ List.range (length / 4), ∀ s,
      checkedStepAt data chip s i = some (stepAt data chip s i) :=
    fun i hi s => checkedStepAt_eq h chip s (List.mem_range.mp hi)
  -- Induction on the words, whatever has been summed before
  generalize Sums.seeded chip.checksumSeed = s
  revert hsteps
  generalize List.range (length / 4) = words
  intro hsteps
  induction words generalizing s with
  | nil => rfl
  | cons i rest ih =>
    rw [List.foldlM_cons, hsteps i List.mem_cons_self, List.foldl_cons]
    exact ih _ fun i hi => hsteps i (List.mem_cons_of_mem _ hi)

/-! ## The header -/

/-- First byte of the checksum words. -/
def wordsStart : Nat := 0x10

/-- First byte past them. -/
def wordsStop : Nat := 0x18

/-- The checksum words as they stand in the header. -/
def words (crc : UInt32 × UInt32) : List UInt8 :=
  BigEndian.bytes 4 crc.1.toUInt64 ++ BigEndian.bytes 4 crc.2.toUInt64

/-- There are two words, up to the end. -/
theorem length_words (crc : UInt32 × UInt32) : wordsStart + (words crc).length = wordsStop := by
  simp [words, wordsStart, wordsStop]

/-- If there are checksums, they are stored and given back. -/
theorem update_of_compute {data : ByteArray} {chip : BootChip} {crc : UInt32 × UInt32}
    (h : compute data chip = .ok crc) :
    update data chip = .ok (BigEndian.setBytes data wordsStart (words crc), crc) := by
  rw [update, h]
  rfl

/-- The sum does not read the words that are stored. -/
theorem agree_setBytes (data : ByteArray) (chip : BootChip) (crc : UInt32 × UInt32) :
    Agree chip (BigEndian.setBytes data wordsStart (words crc)) data := by
  have hwords := length_words crc
  have hstart : wordsStop ≤ x105Table := by decide
  have htable : x105Table + 256 ≤ start := by decide
  constructor
  case summed =>
    intro i hi _
    exact BigEndian.byteAt_setBytes_of_outside data (.inr (by omega))
  case mixed =>
    intro _ i hi _
    exact BigEndian.byteAt_setBytes_of_outside data (.inr (by omega))

/-- The image that an update leaves: as it was, if that is refused. -/
def left (data : ByteArray) (chip : BootChip) : ByteArray :=
  match update data chip with
  | .ok (renewed, _) => renewed
  | .error _ => data

/-- An image whose checksum words are renewed. -/
structure Renewed (data : ByteArray) (chip : BootChip) (crc : UInt32 × UInt32) : Prop where
  /-- The update succeeds and answers the two words. -/
  update : update data chip = .ok (left data chip, crc)
  size : (left data chip).size = data.size
  /-- Outside of the checksum words, no byte changes. -/
  kept : ∀ i, i < wordsStart ∨ wordsStop ≤ i →
    BigEndian.byteAt (left data chip) i = BigEndian.byteAt data i
  /-- The words are in the header, the most significant byte of each first. -/
  stored : bytesFrom (BigEndian.byteAt (left data chip)) wordsStart 8 =
    BigEndian.bytes 4 crc.1.toUInt64 ++ BigEndian.bytes 4 crc.2.toUInt64
  /-- They are what is computed for the image with them. -/
  computed : compute (left data chip) chip = .ok crc
  /-- Another update changes nothing. -/
  again : Checksum.update (left data chip) chip = .ok (left data chip, crc)
  /-- No read of the sum lies past the end of the image. -/
  inside : (checkedSums data chip).map (·.result chip) = some crc

/-- An image with the summed area is renewed. -/
theorem renewed_of_size_le {data : ByteArray} (h : start + length ≤ data.size) (chip : BootChip) :
    ∃ crc, Renewed data chip crc := by
  refine ⟨(sums data chip).result chip, ?_⟩
  have hcompute := compute_of_size_le h chip
  generalize hcrc : (sums data chip).result chip = crc at hcompute
  have hupdate := update_of_compute hcompute
  have hleft : left data chip = BigEndian.setBytes data wordsStart (words crc) := by
    rw [left, hupdate]
  have hwords := length_words crc
  have hsize : (left data chip).size = data.size := by
    rw [hleft]
    exact BigEndian.size_setBytes _ _ _
  -- What is stored is not read again
  have hcomputed : compute (left data chip) chip = .ok crc := by
    rw [compute_of_size_le (by omega), hleft, sums_congr (agree_setBytes data chip crc), hcrc]
  constructor
  case update => rw [hleft, hupdate]
  case size => exact hsize
  case kept =>
    intro i hi
    rw [hleft]
    exact BigEndian.byteAt_setBytes_of_outside data (by omega)
  case stored =>
    have hfits : wordsStart + (words crc).length ≤ data.size := by
      have hbefore : wordsStop ≤ start := by decide
      omega
    rw [hleft]
    exact BigEndian.bytesFrom_setBytes hfits
  case computed => exact hcomputed
  case again =>
    rw [update_of_compute hcomputed, hleft, BigEndian.setBytes_setBytes]
  case inside => rw [checkedSums_eq h, Option.map_some, hcrc]

/-- Checksums of images, for every boot chip:
* an image that has the summed area is renewed, and stays as it is from then on;
* two such images that agree on that area, and for `x105` on the boot code words mixed in, have
  the same checksum;
* a shorter one is refused, and left as it is. -/
theorem repair (chip : BootChip) :
    (∀ data, start + length ≤ data.size → ∃ crc, Renewed data chip crc) ∧
      (∀ a b, start + length ≤ a.size → start + length ≤ b.size → Agree chip a b →
        compute a chip = compute b chip) ∧
      ∀ data, data.size < start + length →
        compute data chip = .error (.tooSmall data.size) ∧
          update data chip = .error (.tooSmall data.size) ∧ left data chip = data := by
  refine ⟨fun data h => renewed_of_size_le h chip, fun a b ha hb h => ?_, fun data h => ?_⟩
  · rw [compute_of_size_le ha, compute_of_size_le hb, sums_congr h]
  · have hcompute := compute_of_size_lt h chip
    have hupdate : update data chip = .error (.tooSmall data.size) := by
      rw [update, hcompute]
      rfl
    exact ⟨hcompute, hupdate, by rw [left, hupdate]⟩

/-! ## An image of zeros -/

/-- Zeros up to the end of the summed area. -/
def blank : ByteArray := ⟨Array.replicate (start + length) 0⟩

/-- It is just large enough, -/
theorem size_blank : blank.size = start + length := Array.size_replicate

/-- and all of its words are zero. -/
theorem wordAt_blank (i : Nat) : BigEndian.wordAt blank i = 0 := by
  have hbyte : ∀ j, BigEndian.byteAt blank j = 0 := by
    intro j
    unfold BigEndian.byteAt
    split
    · exact Array.getElem_replicate ..
    · rfl
  simp [BigEndian.wordAt, hbyte]

/-- Of the accumulators, a zero word moves the first alone. -/
theorem Sums.step_zero {s : Sums} (h : 0 < s.t2) :
    s.step 0 none = { s with t1 := s.t1 + s.t5 } := by
  simp [Sums.step, rotateLeft, h]

/-- So that one counts the words. -/
theorem sums_blank : sums blank .x102 =
    { Sums.seeded BootChip.x102.checksumSeed with
      t1 := UInt32.ofNat (length / 4 + 1) * BootChip.x102.checksumSeed } := by
  unfold sums
  -- The induction is on the words that are summed, each of which is zero
  generalize length / 4 = n
  induction n with
  | zero => decide
  | succ n ih =>
    have hseed : 0 < BootChip.x102.checksumSeed := by decide
    have hstep : ∀ s, stepAt blank .x102 s n = s.step 0 none := by
      intro s
      rw [stepAt, wordAt_blank]
      rfl
    rw [List.range_succ, List.foldl_append, ih, List.foldl_cons, List.foldl_nil, hstep,
      Sums.step_zero hseed, UInt32.ofNat_add (n + 1) 1, UInt32.add_mul]
    simp [Sums.seeded]

/-- Its header is given the words `F8CA4DDC` and `303A4DDC`; they are not summed, and what is cut
off before the end of the area is refused. -/
theorem repair_blank :
    blank.size = start + length ∧ Renewed blank .x102 (0xF8CA4DDC, 0x303A4DDC) ∧
      compute (left blank .x102) .x102 = compute blank .x102 ∧
      compute .empty .x102 = .error (.tooSmall 0) ∧ left .empty .x102 = .empty := by
  obtain ⟨hrenewed, hagree, hshort⟩ := repair .x102
  have hlong : start + length ≤ blank.size := Nat.le_of_eq size_blank.symm
  obtain ⟨crc, hcrc⟩ := hrenewed blank hlong
  -- The image holds the sums from `0x10` on, which is where the words come from
  have hwords : crc = (0xF8CA4DDC, 0x303A4DDC) := by
    have hinside := hcrc.inside
    rw [checkedSums_eq hlong, sums_blank, Option.map_some, Option.some_inj] at hinside
    rw [← hinside]
    decide
  subst hwords
  -- The two images differ in the header alone, which is not summed
  have hsame : compute (left blank .x102) .x102 = compute blank .x102 := by
    refine hagree _ _ (by rwa [hcrc.size]) hlong ⟨fun i hi _ => ?_, nofun⟩
    exact hcrc.kept i (.inr (Nat.le_trans (by decide) hi))
  obtain ⟨hrefused, -, hkept⟩ := hshort .empty (by decide)
  exact ⟨size_blank, hcrc, hsame, hrefused, hkept⟩

end Checksum

end Console64
