import Console64.Cartridge.Basic
import Mathlib.Tactic.IntervalCases

/-!
# Byte orders of images

Bringing an image into another byte order exchanges bytes inside groups, so doing it twice changes
nothing, and the first word tells which order was used.  So a cartridge is the same whichever
order its image is stored in.

## Key results

- `BigEndian.lane_wordAt`: a word and its bytes
- `ByteOrder.byteAt_normalize`: where each byte comes from
- `ByteOrder.normalize_normalize`: the same exchange twice
- `Cartridge.ofBytes_normalize`: an image stored in any order
-/

namespace Console64

namespace BigEndian

/-- Images with the same bytes are the same. -/
theorem ext_byteAt {a b : ByteArray} (hsize : a.size = b.size)
    (hbytes : ∀ i < a.size, byteAt a i = byteAt b i) : a = b := by
  apply ByteArray.ext
  apply Array.ext hsize
  intro i hi hi'
  have hbyte := hbytes i hi
  rw [byteAt, byteAt, dif_pos (show i < a.size from hi), dif_pos (show i < b.size from hi')]
    at hbyte
  exact hbyte

/-- Past the end of an image its bytes are zero. -/
theorem byteAt_of_size_le {data : ByteArray} {i : Nat} (h : data.size ≤ i) : byteAt data i = 0 :=
  dif_neg (Nat.not_lt.mpr h)

/-- A word is read from four bytes and no others. -/
theorem wordAt_congr {a b : ByteArray} {i : Nat}
    (h : ∀ k < 4, byteAt a (i + k) = byteAt b (i + k)) :
    wordAt a i = wordAt b i := by
  have hfirst : byteAt a i = byteAt b i := h 0 (by decide)
  rw [wordAt, wordAt, hfirst, h 1 (by decide), h 2 (by decide), h 3 (by decide)]

/-- Four bytes that have been put together can be taken apart again. -/
theorem lane_joined (b0 b1 b2 b3 : UInt8) {k : Nat} (hk : k < 4) :
    lane ((b0.toUInt32 <<< 24) ||| (b1.toUInt32 <<< 16) ||| (b2.toUInt32 <<< 8) ||| b3.toUInt32) k =
      [b0, b1, b2, b3][k] := by
  apply UInt8.toBitVec_inj.mp
  ext j hj
  -- Bit by bit, for each of the lanes
  interval_cases k <;> interval_cases j <;> simp [lane]

/-- The bytes of a word are those that it was read from. -/
theorem lane_wordAt (data : ByteArray) (i : Nat) {k : Nat} (hk : k < 4) :
    lane (wordAt data i) k = byteAt data (i + k) := by
  interval_cases k <;> exact lane_joined _ _ _ _ (by decide)

end BigEndian

namespace ByteOrder

/-! ## Exchanging bytes -/

/-- A byte stays in its group. -/
theorem xor_laneMask_div (order : ByteOrder) (i : Nat) :
    (i ^^^ order.laneMask) / (order.laneMask + 1) = i / (order.laneMask + 1) := by
  -- The groups are of one, two and four bytes
  cases order with
  | bigEndian => simp [laneMask]
  | byteSwapped => simpa [laneMask] using @Nat.xor_div_two_pow i 1 1
  | littleEndian => simpa [laneMask] using @Nat.xor_div_two_pow i 3 2

/-- The exchange undoes itself. -/
theorem sourceIndex_sourceIndex (order : ByteOrder) (size i : Nat) :
    order.sourceIndex size (order.sourceIndex size i) = i := by
  unfold sourceIndex
  by_cases h : i / (order.laneMask + 1) < size / (order.laneMask + 1)
  · rw [if_pos h, xor_laneMask_div, if_pos h, Nat.xor_assoc, Nat.xor_self, Nat.xor_zero]
  · rw [if_neg h, if_neg h]

/-- Nothing is exchanged past the end. -/
theorem sourceIndex_of_size_le (order : ByteOrder) {size i : Nat} (h : size ≤ i) :
    order.sourceIndex size i = i :=
  if_neg (Nat.not_lt.mpr (Nat.div_le_div_right h))

/-- In whole words, all groups are whole. -/
theorem sourceIndex_of_word (order : ByteOrder) {size i : Nat} (h : i / 4 < size / 4) :
    order.sourceIndex size i = i ^^^ order.laneMask := by
  refine if_pos ?_
  cases order with
  | bigEndian => simp only [laneMask]; omega
  | byteSwapped => simp only [laneMask]; omega
  | littleEndian => exact h

/-- Normalizing keeps the size. -/
theorem size_normalize (order : ByteOrder) (data : ByteArray) :
    (order.normalize data).size = data.size := Array.size_ofFn

/-- Where each byte comes from. -/
theorem byteAt_normalize (order : ByteOrder) (data : ByteArray) (i : Nat) :
    BigEndian.byteAt (order.normalize data) i =
      BigEndian.byteAt data (order.sourceIndex data.size i) := by
  by_cases h : i < data.size
  · rw [BigEndian.byteAt, dif_pos (by rwa [size_normalize])]
    exact Array.getElem_ofFn ..
  · have hpast : data.size ≤ i := Nat.not_lt.mp h
    rw [sourceIndex_of_size_le order hpast, BigEndian.byteAt_of_size_le hpast,
      BigEndian.byteAt_of_size_le (by rwa [size_normalize])]

/-- The same exchange twice changes nothing, whatever the length of the image. -/
theorem normalize_normalize (order : ByteOrder) (data : ByteArray) :
    order.normalize (order.normalize data) = data := by
  refine BigEndian.ext_byteAt (by simp only [size_normalize]) fun i _ => ?_
  rw [byteAt_normalize, byteAt_normalize, size_normalize, sourceIndex_sourceIndex]

/-- The first word of an image tells in which order it has been brought. -/
theorem ofMagic_normalize (order : ByteOrder) {data : ByteArray} (hsize : 4 ≤ data.size)
    (hmagic : BigEndian.wordAt data 0 = magic) :
    ofMagic (BigEndian.wordAt (order.normalize data) 0) = .ok order := by
  -- The bytes of the first word come from the first word, so that four of them decide
  have hbyte : ∀ k (_ : k < 4), BigEndian.byteAt data k = BigEndian.lane magic k := by
    intro k hk
    rw [← hmagic, BigEndian.lane_wordAt data 0 hk, Nat.zero_add]
  have hsource : ∀ k < 4, order.sourceIndex data.size k = k ^^^ order.laneMask := by
    intro k hk
    exact sourceIndex_of_word order (by omega)
  have hmoved : ∀ k < 4, BigEndian.byteAt (order.normalize data) k =
      BigEndian.lane magic (k ^^^ order.laneMask) := by
    intro k hk
    have hinside : k ^^^ order.laneMask < 4 :=
      Nat.xor_lt_two_pow (n := 2) hk (by cases order <;> decide)
    rw [byteAt_normalize, hsource k hk, hbyte _ hinside]
  rw [BigEndian.wordAt, hmoved 0 (by decide), hmoved (0 + 1) (by decide),
    hmoved (0 + 2) (by decide), hmoved (0 + 3) (by decide)]
  cases order <;> decide

end ByteOrder

/-! ## Cartridges -/

namespace CartridgeHeader

/-- An image that is long enough has a header, which tells the order it was asked for. -/
theorem exists_parse {data : ByteArray} (hsize : size ≤ data.size) (order : ByteOrder) :
    ∃ header, parse data order = .ok header ∧ header.order = order := by
  unfold parse
  rw [if_neg (Nat.not_lt.mpr hsize)]
  exact ⟨_, rfl, rfl⟩

/-- Nothing else in the header depends on the order. -/
theorem parse_order {data : ByteArray} {order : ByteOrder} {header : CartridgeHeader}
    (h : parse data order = .ok header) (other : ByteOrder) :
    parse data other = .ok { header with order := other } := by
  unfold parse at h ⊢
  split at h
  case isTrue => exact nomatch h
  case isFalse hsize =>
    cases h
    rw [if_neg hsize]

end CartridgeHeader

namespace Cartridge

/-- A cartridge is made of the image in the machine's own order and the header found there. -/
theorem ofBytes_of_parse {stored data : ByteArray} {order : ByteOrder} {header : CartridgeHeader}
    (hsize : CartridgeHeader.size ≤ stored.size)
    (hmagic : ByteOrder.ofMagic (BigEndian.wordAt stored 0) = .ok order)
    (hdata : order.normalize stored = data)
    (hheader : CartridgeHeader.parse data order = .ok header) :
    ofBytes stored = .ok { data, header, chip := .detect data } := by
  have hlong : ¬stored.size < CartridgeHeader.size := Nat.not_lt.mpr hsize
  simp [ofBytes, hlong, hmagic, hdata, hheader, bind, Except.bind, pure, Except.pure]

/-- An image in the machine's own order, of any length that holds a header, makes a cartridge.
Brought into any byte order,
* it comes back when it is brought there once more;
* its first word tells that order;
* it makes the same cartridge, apart from the order that the header tells. -/
theorem ofBytes_normalize {data : ByteArray} (hsize : CartridgeHeader.size ≤ data.size)
    (hmagic : BigEndian.wordAt data 0 = ByteOrder.magic) :
    ∃ cartridge : Cartridge, ofBytes data = .ok cartridge ∧ cartridge.data = data ∧
      cartridge.header.order = .bigEndian ∧
      ∀ order : ByteOrder,
        order.normalize (order.normalize data) = data ∧
          ByteOrder.ofMagic (BigEndian.wordAt (order.normalize data) 0) = .ok order ∧
          ofBytes (order.normalize data) = .ok { cartridge with header.order := order } := by
  obtain ⟨header, hparse, horder⟩ := CartridgeHeader.exists_parse hsize .bigEndian
  have hword : 4 ≤ data.size := Nat.le_trans (by decide) hsize
  -- Every order is undone, and then the image is the one given
  have hload : ∀ order : ByteOrder, ofBytes (order.normalize data) =
      .ok { data, header := { header with order }, chip := .detect data } := by
    intro order
    exact ofBytes_of_parse (by rwa [ByteOrder.size_normalize])
      (ByteOrder.ofMagic_normalize order hword hmagic) (order.normalize_normalize data)
      (CartridgeHeader.parse_order hparse order)
  have hown : ofBytes data = .ok { data, header, chip := .detect data } := by
    refine ofBytes_of_parse hsize (by rw [hmagic]; rfl) ?_ hparse
    refine BigEndian.ext_byteAt (ByteOrder.size_normalize _ _) fun i _ => ?_
    rw [ByteOrder.byteAt_normalize, ByteOrder.sourceIndex, ByteOrder.laneMask, Nat.xor_zero,
      ite_self]
  refine ⟨_, hown, rfl, horder, fun order => ⟨order.normalize_normalize data, ?_, hload order⟩⟩
  exact ByteOrder.ofMagic_normalize order hword hmagic

/-- An image that ends inside a word. -/
def ragged : ByteArray := ⟨#[0x80, 0x37, 0x12, 0x40] ++ Array.replicate 63 0x20⟩

/-- Stored with its words reversed, as far as there are whole ones, it is the same cartridge. -/
theorem ofBytes_normalize_ragged :
    ragged.size = 67 ∧ ∃ cartridge, ofBytes ragged = .ok cartridge ∧
      ofBytes (ByteOrder.littleEndian.normalize ragged) =
        .ok { cartridge with header.order := .littleEndian } := by
  have hsize : ragged.size = 67 := by decide +kernel
  have hmagic : BigEndian.wordAt ragged 0 = ByteOrder.magic := by decide +kernel
  obtain ⟨cartridge, hown, -, -, hstored⟩ := ofBytes_normalize (by rw [hsize]; decide) hmagic
  exact ⟨hsize, cartridge, hown, (hstored .littleEndian).2.2⟩

end Cartridge

end Console64
