import Console64.Machine.Interpreter
import Console64.Proofs.PageTranslation
import Mathlib.Data.Nat.Bitwise
import Mathlib.Logic.Relation

/-!
# Serving a TLB refill

A refill leaves the page of the address at fault in the register from which the next
entry is written.  Once the handler has written an entry for that page, the access that
missed is made again.  The TLB is asked for the address in the width in use, but the
register holds the address as it was given: in 32-bit addressing the two agree for
addresses whose upper half is the sign of the lower one, and for others that differ in no
bit by which entries are told apart.

## Key results

- `Cpu.Keyed`: the exception leaves the page that the TLB is asked for
- `Cpu.keyed_of_wide` / `Cpu.keyed_of_signExtended`: it does in 64-bit addressing, and
  where the upper half of the address is the sign of the lower one
- `Cpu.refill_served`: the retried access hits where the address is keyed, at the frame
  that was written, and runs into the same refill elsewhere
- `Cpu.refill_endless`: and so it does as often as the handler serves it
-/

namespace Console64

/-! ## Page sizes -/

/-- The page sizes that an entry can choose: 4 KiB, and each next one four times as
large, up to 16 MiB. -/
abbrev PageSize := Fin 7

namespace PageSize

/-- The bytes of a page. -/
def bytes (s : PageSize) : Nat := 4096 * 4 ^ s.val

/-- The page mask that chooses the size. -/
def mask (s : PageSize) : UInt64 := UInt64.ofNat (2 * s.bytes - 8192)

/-- The offset bits inside a pair of pages. -/
def pairMask (s : PageSize) : UInt64 := UInt64.ofNat (2 * s.bytes - 1)

/-- The page of `a` is the odd one of its pair. -/
def isOdd (s : PageSize) (a : UInt64) : Bool := a.toNat / s.bytes % 2 = 1

/-- The frame that an entry register names, counted in 4 KiB. -/
def frameNumber (lo : UInt64) : Nat := lo.toNat / 64 % 2 ^ 24

/-- The physical address of `a` in the frame that `lo` names.  Frames start at multiples
of their size, and physical addresses have 32 bits. -/
def physical (s : PageSize) (lo a : UInt64) : Nat :=
  (frameNumber lo * 4096 / s.bytes * s.bytes + a.toNat % s.bytes) % 2 ^ 32

/-- A page size is a power of two. -/
private theorem bytes_eq (s : PageSize) : s.bytes = 2 ^ (12 + 2 * s.val) := by
  rw [bytes, Nat.pow_add, Nat.pow_mul]

/-- The offset bits in a page are the low ones. -/
private theorem toNat_pairMask_shiftRight (s : PageSize) :
    (s.pairMask >>> 1).toNat = 2 ^ (12 + 2 * s.val) - 1 := by
  decide +revert

/-- One more than half the mask of the pair is the size of a page. -/
private theorem toNat_pairMask_add_shiftRight (s : PageSize) :
    ((s.pairMask + 1) >>> 1).toNat = 2 ^ (12 + 2 * s.val) := by
  decide +revert

end PageSize

/-! ## Arithmetic of masks -/

/-- Clearing the low bits rounds down. -/
private theorem and_not_low {n y : Nat} (hy : y < 2 ^ 64) (hn : n ≤ 64) :
    y &&& (2 ^ 64 - 1 - (2 ^ n - 1)) = 2 ^ n * (y / 2 ^ n) := by
  have hlow : 2 ^ n - 1 < 2 ^ 64 :=
    Nat.lt_of_lt_of_le (Nat.sub_lt (Nat.two_pow_pos n) Nat.one_pos)
      (Nat.pow_le_pow_right (by decide) hn)
  apply Nat.eq_of_testBit_eq
  intro i
  rw [Nat.sub_sub, Nat.add_comm 1, Nat.testBit_and, Nat.testBit_two_pow_sub_succ hlow,
    Nat.testBit_two_pow_sub_one, Nat.testBit_two_pow_mul, Nat.testBit_div_two_pow]
  -- Below the cut and above the word there is nothing on either side
  by_cases hlt : i < n
  · simp [hlt, Nat.not_le.mpr hlt]
  · by_cases hword : i < 64
    · simp [hlt, Nat.not_lt.mp hlt, hword]
    · have hbit : y.testBit i = false :=
        Nat.testBit_lt_two_pow
          (Nat.lt_of_lt_of_le hy (Nat.pow_le_pow_right (by decide) (Nat.not_lt.mp hword)))
      simp [Nat.not_lt.mp hlt, hword, hbit]

/-- A number with its low bits replaced by those of another. -/
private theorem and_not_low_or {n y : Nat} (x : Nat) (hy : y < 2 ^ 64) (hn : n ≤ 64) :
    (y &&& (2 ^ 64 - 1 - (2 ^ n - 1))) ||| (x &&& (2 ^ n - 1)) =
      y / 2 ^ n * 2 ^ n + x % 2 ^ n := by
  rw [and_not_low hy hn, Nat.and_two_pow_sub_one_eq_mod,
    ← Nat.two_pow_add_eq_or_of_lt (Nat.mod_lt x (Nat.two_pow_pos n)), Nat.mul_comm]

/-- Masks are spread over joined bits, -/
private theorem or_and_distrib (a b m : UInt64) : (a ||| b) &&& m = (a &&& m) ||| (b &&& m) :=
  UInt64.toBitVec_inj.mp BitVec.and_or_distrib_right

/-- and joined masks over bits. -/
private theorem and_or_distrib (x m n : UInt64) : x &&& (m ||| n) = (x &&& m) ||| (x &&& n) :=
  UInt64.toBitVec_inj.mp BitVec.and_or_distrib_left

/-- Words with the same low half agree wherever only it is looked at. -/
private theorem and_low_eq {x a : UInt64} (h : x.toUInt32 = a.toUInt32) {m : UInt64}
    (hm : 0xFFFFFFFF &&& m = m) : x &&& m = a &&& m := by
  have hlow : x &&& 0xFFFFFFFF = a &&& 0xFFFFFFFF := by
    apply UInt64.toNat_inj.mp
    have hmod := congrArg UInt32.toNat h
    simp only [UInt64.toNat_toUInt32] at hmod
    rw [UInt64.toNat_and, UInt64.toNat_and, show (0xFFFFFFFF : UInt64).toNat = 2 ^ 32 - 1 from rfl,
      Nat.and_two_pow_sub_one_eq_mod, Nat.and_two_pow_sub_one_eq_mod, hmod]
  rw [← hm, ← UInt64.and_assoc, ← UInt64.and_assoc, hlow]

/-! ## The entry that is written -/

namespace TlbEntry

variable {e : TlbEntry} {s : PageSize}

/-- The mask that is stored is that of the pair of pages. -/
private theorem mask_stored (h : e.pageMask = s.mask.toUInt32) : e.stored.mask = s.pairMask := by
  have hall : ∀ s : PageSize,
      (s.mask.toUInt32 &&& pageMaskBits).toUInt64 ||| 0x1FFF = s.pairMask := by decide
  simp only [mask, stored, h]
  exact hall s

/-- The address bits that an entry of a page size compares: all that tell pages apart, but
for those inside the pair of pages, which lie in the low half. -/
private theorem comparedBits_stored (h : e.pageMask = s.mask.toUInt32) :
    pageBits &&& e.stored.comparedBits = e.stored.comparedBits ∧
      0xFF &&& e.stored.comparedBits = 0 ∧
      e.stored.comparedBits ||| 0xFFFFE000 = pageBits := by
  have hall : ∀ s : PageSize,
      pageBits &&& (pageBits &&& ~~~s.pairMask) = pageBits &&& ~~~s.pairMask ∧
        0xFF &&& (pageBits &&& ~~~s.pairMask) = 0 ∧
        (pageBits &&& ~~~s.pairMask) ||| 0xFFFFE000 = pageBits := by decide
  rw [comparedBits, mask_stored h]
  exact hall s

/-- Where an address has the low half of the one at fault, the entry written for the latter
covers it if they are the same in all bits that tell pages apart. -/
private theorem covers_stored {x a old : UInt64} (h : e.pageMask = s.mask.toUInt32)
    (hhi : e.hi = (a &&& pageBits) ||| (old &&& 0xFF)) (hlow : x.toUInt32 = a.toUInt32) :
    e.stored.covers x old.toUInt8 = decide (x &&& pageBits = a &&& pageBits) := by
  obtain ⟨hwithin, hspace, hrest⟩ := comparedBits_stored h
  have hstored : e.stored.hi = (e.hi &&& e.stored.comparedBits) ||| (e.hi &&& 0xFF) := rfl
  have hkept : e.stored.hi &&& e.stored.comparedBits = a &&& e.stored.comparedBits := by
    rw [hstored, hhi]
    simp only [or_and_distrib, UInt64.and_assoc, hwithin, hspace, UInt64.and_self,
      UInt64.and_zero, UInt64.or_zero]
  -- The address space is the low byte, which the mask of the page does not reach
  have hsame : e.stored.hi.toUInt8 = old.toUInt8 := by
    have hlow8 : e.stored.hi &&& 0xFF = old &&& 0xFF := by
      have hnone : e.stored.comparedBits &&& 0xFF = 0 := UInt64.and_comm _ _ ▸ hspace
      rw [hstored, hhi]
      simp only [or_and_distrib, UInt64.and_assoc, hnone, UInt64.and_self, UInt64.and_zero,
        UInt64.zero_or]
      rw [show pageBits &&& 0xFF = 0 from rfl, UInt64.and_zero, UInt64.zero_or]
    have hbyte : ∀ v : UInt64, (v &&& 0xFF).toUInt8 = v.toUInt8 := by
      intro v
      rw [UInt64.toUInt8_and]
      exact UInt8.and_neg_one
    rw [← hbyte, hlow8, hbyte]
  simp only [covers, hkept, hsame, decide_true, Bool.or_true, Bool.and_true]
  rw [decide_eq_decide]
  constructor
  · intro hcompared
    rw [← hrest, and_or_distrib, and_or_distrib, hcompared, and_low_eq hlow rfl]
  · intro hpage
    rw [← hwithin, ← UInt64.and_assoc, ← UInt64.and_assoc, hpage]

/-- The bit above the offset in the page tells odd from even. -/
private theorem frameFor_stored {x a : UInt64} (h : e.pageMask = s.mask.toUInt32)
    (hlow : x.toUInt32 = a.toUInt32) :
    e.stored.frameFor x = if s.isOdd a then e.stored.lo1 else e.stored.lo0 := by
  have hbound : 12 + 2 * s.val < 32 := by omega
  -- The two addresses have the bit in common that chooses the half
  have hbit : x.toNat.testBit (12 + 2 * s.val) = a.toNat.testBit (12 + 2 * s.val) := by
    have hmod := congrArg UInt32.toNat hlow
    simp only [UInt64.toNat_toUInt32] at hmod
    have := congrArg (Nat.testBit · (12 + 2 * s.val)) hmod
    simpa only [Nat.testBit_mod_two_pow, hbound, decide_true, Bool.true_and] using this
  have hodd : (x &&& ((s.pairMask + 1) >>> 1) ≠ 0) ↔ s.isOdd a = true := by
    rw [ne_eq, ← UInt64.toNat_inj, UInt64.toNat_and, s.toNat_pairMask_add_shiftRight,
      Nat.and_two_pow, hbit, Nat.testBit_eq_decide_div_mod_eq, PageSize.isOdd, PageSize.bytes_eq]
    by_cases h : a.toNat / 2 ^ (12 + 2 * s.val) % 2 = 1 <;> simp [h]
  simp only [frameFor, mask_stored h, hodd]

/-- A stored frame keeps its number and its flags; only the flag for all address spaces
depends on the other half. -/
private theorem frame_stored (lo g : UInt64) {m : UInt64} (hkept : frameBits &&& m = m)
    (hflag : 1 &&& m = 0) : (((lo &&& ~~~1) ||| (g &&& 1)) &&& frameBits) &&& m = lo &&& m := by
  have hothers : ~~~1 &&& m = m := by
    have hall := or_and_distrib 1 (~~~1) m
    rw [show (1 : UInt64) ||| ~~~1 = -1 from rfl, UInt64.neg_one_and, hflag,
      UInt64.zero_or] at hall
    exact hall.symm
  simp only [or_and_distrib, UInt64.and_assoc, hkept, hflag, hothers, UInt64.and_zero,
    UInt64.or_zero]

/-- The physical address in the frame that is stored. -/
private theorem physical_stored {x a frame lo : UInt64} (h : e.pageMask = s.mask.toUInt32)
    (hlow : x.toUInt32 = a.toUInt32) (hframe : frame &&& 0x3FFFFFC0 = lo &&& 0x3FFFFFC0) :
    (e.stored.physical frame x).toNat = s.physical lo a := by
  have hnumber : ∀ lo : UInt64,
      ((lo >>> 6) &&& 0xFFFFFF).toNat = PageSize.frameNumber lo := by
    intro lo
    rw [UInt64.toNat_and, show (0xFFFFFF : UInt64).toNat = 2 ^ 24 - 1 from rfl,
      Nat.and_two_pow_sub_one_eq_mod, UInt64.toNat_shiftRight,
      show (6 : UInt64).toNat % 64 = 6 from rfl, Nat.shiftRight_eq_div_pow]
    rfl
  have hsame : frame >>> 6 &&& (0xFFFFFF : UInt64) = lo >>> 6 &&& 0xFFFFFF := by
    have hshift := congrArg (· >>> (6 : UInt64)) hframe
    simp only [UInt64.shiftRight_and] at hshift
    exact hshift
  have hmod := congrArg UInt32.toNat hlow
  simp only [UInt64.toNat_toUInt32] at hmod
  -- A page size divides 2^32, so the low half of an address has all of its offset
  have hoffset : x.toNat % s.bytes = a.toNat % s.bytes := by
    have hdvd : s.bytes ∣ 2 ^ 32 := by
      rw [PageSize.bytes_eq]
      exact Nat.pow_dvd_pow 2 (by omega)
    rw [← Nat.mod_mod_of_dvd _ hdvd, hmod, Nat.mod_mod_of_dvd _ hdvd]
  have hlt : PageSize.frameNumber lo < 2 ^ 24 := Nat.mod_lt _ (by decide)
  have hbase : PageSize.frameNumber lo <<< (12 % 64) % 2 ^ 64 = PageSize.frameNumber lo * 4096 := by
    rw [Nat.shiftLeft_eq, show 2 ^ (12 % 64) = 4096 from rfl]
    omega
  simp only [physical, mask_stored h, hsame, UInt64.toNat_toUInt32, UInt64.toNat_or,
    UInt64.toNat_and _ (~~~_), UInt64.toNat_and x, UInt64.toNat_not, s.toNat_pairMask_shiftRight,
    UInt64.toNat_shiftLeft, hnumber]
  rw [show (12 : UInt64).toNat = 12 from rfl, hbase,
    show UInt64.size = 2 ^ 64 from rfl, and_not_low_or x.toNat (by omega) (by omega),
    ← PageSize.bytes_eq, hoffset]
  rfl

end TlbEntry

/-- Where no entry covered an address, only the one that is written can. -/
private theorem Tlb.find?_write {t : Tlb} {covers : TlbEntry → Bool}
    (h : t.entries.find? covers = none) (n : Fin 32) (e : TlbEntry) :
    (t.write n e).entries.find? covers = if covers e.stored then some e.stored else none := by
  -- An entry of the new TLB is the one that is written or one that did not cover
  have hothers : ∀ e' ∈ (t.write n e).entries, covers e' = true → e' = e.stored := by
    intro e' hmem hcovers
    rcases @Vector.mem_or_eq_of_mem_set _ _ _ _ _ _ n.isLt hmem with hold | hnew
    · exact absurd hcovers (Vector.find?_eq_none.mp h e' hold)
    · exact hnew
  split
  case isTrue hcovers =>
    cases hfind : (t.write n e).entries.find? covers with
    | none => exact absurd hcovers (Vector.find?_eq_none.mp hfind _ (Vector.mem_set n.isLt))
    | some e' =>
      rw [hothers e' (Vector.mem_of_find?_eq_some hfind) (Vector.find?_some hfind)]
  case isFalse hcovers =>
    refine Vector.find?_eq_none.mpr fun e' hmem hcovers' => hcovers ?_
    rwa [← hothers e' hmem hcovers']

/-! ## The retried access -/

/-- TLBWI and TLBWR. -/
def Instruction.writesEntry (i : Instruction) : Bool :=
  i.opcode = 0x10 && 0x10 ≤ i.fmt && (i.funct = 0x02 || i.funct = 0x06)

/-- No entry translates the address, in 32-bit or in 64-bit addressing. -/
def Condition.isRefill : Condition → Bool
  | tlbRefill _ _ | xtlbRefill _ _ => true
  | _ => false

/-- The address at fault leaves its page, and keeps the address space. -/
private theorem Cop0.get_entryHi_recordFault (c : Cop0) (a : UInt64) :
    (c.recordFault a).get entryHi =
      (a &&& TlbEntry.pageBits) ||| (c.get entryHi &&& 0xFF) := by
  have hothers : ∀ (c : Cop0) {r : RegisterIndex} (v : UInt64), r ≠ entryHi →
      (c.put r v).get entryHi = c.get entryHi :=
    fun c r v hr => (get_put c r entryHi v).trans (if_neg hr)
  simp only [recordFault]
  rw [get_put, if_pos rfl, hothers _ _ (by decide), hothers _ _ (by decide),
    hothers _ _ (by decide)]
  rfl

namespace Cpu

/-- The exception leaves the page that the TLB is asked for. -/
def Keyed (c : Cpu) (a : UInt64) : Prop :=
  c.pageOf a &&& TlbEntry.pageBits = a &&& TlbEntry.pageBits

instance (c : Cpu) (a : UInt64) : Decidable (c.Keyed a) :=
  inferInstanceAs (Decidable (c.pageOf a &&& TlbEntry.pageBits = a &&& TlbEntry.pageBits))

/-- `h` is ready to serve the refill that `c` has run into: with the page as the exception
left it, an architectural page size, and two frames that are valid and may be stored to. -/
structure Serves (c : Cpu) (a : UInt64) (access : Access) (s : PageSize) (h : Cpu) : Prop where
  tlb : h.tlb = c.tlb
  entryHi : h.cop0.get Cop0.entryHi = (c.translate a access).2.cop0.get Cop0.entryHi
  pageMask : h.cop0.get Cop0.pageMask = s.mask
  even : h.cop0.get Cop0.entryLo0 &&& 6 = 6
  odd : h.cop0.get Cop0.entryLo1 &&& 6 = 6
  usable : h.cop0.privilege = .kernel ∨ h.cop0.status.usable 0 = true

/-- `c'` is back from the handler `h`, in the mode and the address space of `c`. -/
structure Returned (c h c' : Cpu) : Prop where
  tlb : c'.tlb = h.tlb
  addressSpace : c'.cop0.addressSpace = c.cop0.addressSpace
  privilege : c'.cop0.privilege = c.cop0.privilege
  wide : c'.cop0.wideAddresses = c.cop0.wideAddresses

/-- The frame register for the page that holds `a`. -/
def frameRegister (h : Cpu) (s : PageSize) (a : UInt64) : UInt64 :=
  h.cop0.get (if s.isOdd a then Cop0.entryLo1 else Cop0.entryLo0)

/-- The TLB is asked for the whole address in 64-bit addressing. -/
theorem keyed_of_wide {c : Cpu} (h : c.cop0.wideAddresses = true) (a : UInt64) : c.Keyed a := by
  rw [Keyed, pageOf, if_pos h]

/-- In 32-bit addressing too, for an address whose upper half is the sign of the lower one. -/
theorem keyed_of_signExtended (c : Cpu) {a : UInt64} (h : signExtend32 a.toUInt32 = a) :
    c.Keyed a := by
  rw [Keyed, pageOf, h, ite_self]

/-- A refill says that the address is mapped and that no entry covers it. -/
private theorem miss_of_refill {c : Cpu} {a : UInt64} {access : Access} {k : Condition}
    (h : c.resolve a access = .error k) (hk : k.isRefill = true) :
    c.segmentOf a = .mapped ∧
      c.tlb.entries.find? (·.covers (c.pageOf a) c.cop0.addressSpace) = none ∧
      k = tlbCondition c.cop0.wideAddresses (access = .store) a .miss := by
  rw [resolve_eq] at h
  cases hseg : c.segmentOf a with
  | direct physical => rw [hseg] at h; cases h
  | forbidden => rw [hseg] at h; cases h; cases hk
  | mapped =>
    rw [hseg] at h
    simp only [Tlb.translate] at h
    cases hfind : c.tlb.entries.find? (·.covers (c.pageOf a) c.cop0.addressSpace) with
    | none =>
      simp only [hfind] at h
      cases h
      exact ⟨rfl, rfl, rfl⟩
    | some e =>
      -- An entry that covers the address leads to other conditions
      simp only [hfind] at h
      split at h
      case h_1 => cases h
      case h_2 fault hfault =>
        split at hfault
        · cases hfault; cases h; cases hk
        · split at hfault
          · cases hfault; cases h; cases hk
          · cases hfault

/-- Where the coprocessor may be used, the operations on the TLB and the exception return are
told apart by their function code. -/
theorem performCop0_operation {c : Cpu} {i : Instruction} (hfmt : 0x10 ≤ i.fmt)
    (husable : c.cop0.privilege = .kernel ∨ c.cop0.status.usable 0 = true) :
    c.performCop0 i = match i.funct with
      | 0x01 => c.readEntry
      | 0x02 => c.writeEntry Cop0.index
      | 0x06 => c.writeEntry Cop0.random
      | 0x08 => c.probeEntry
      | 0x18 => c.exceptionReturn
      | _ => c.raise .reservedInstruction := by
  have hallowed : (c.cop0.privilege ≠ .kernel && !c.cop0.status.usable 0) = false := by
    rcases husable with husable | husable <;> simp [husable]
  rw [performCop0, if_neg (ne_true_of_eq_false hallowed)]
  split
  case h_1 hfmt' | h_2 hfmt' | h_3 hfmt' | h_4 hfmt' => exact absurd hfmt (by rw [hfmt']; decide)
  case h_5 => exact if_neg (UInt32.not_lt.mpr hfmt)

/-- What a handler writes. -/
private theorem tlb_perform {h : Cpu} {i : Instruction} (pc : UInt64)
    (hi : i.writesEntry = true)
    (husable : h.cop0.privilege = .kernel ∨ h.cop0.status.usable 0 = true) :
    ∃ n, (h.perform i pc).tlb = h.tlb.write n h.entryFromRegisters := by
  simp only [Instruction.writesEntry, Bool.and_eq_true, Bool.or_eq_true, decide_eq_true_eq] at hi
  obtain ⟨⟨hop, hfmt⟩, hfunct⟩ := hi
  have hperform : h.perform i pc = h.performCop0 i := by
    simp only [perform, hop]
  rw [hperform, performCop0_operation hfmt husable]
  rcases hfunct with hfunct | hfunct
  · rw [hfunct]
    exact ⟨_, rfl⟩
  · rw [hfunct]
    exact ⟨_, rfl⟩

/-- The page that the exception leaves for the handler. -/
private theorem entryHi_translate {c : Cpu} {a : UInt64} {access : Access} {k : Condition}
    (h : c.resolve a access = .error k) (hk : k.isRefill = true)
    (hrecorded : c.cop0.pending.any (k.priority ≤ ·.priority) = false) :
    (c.translate a access).2.cop0.get Cop0.entryHi =
      (a &&& TlbEntry.pageBits) ||| (c.cop0.get Cop0.entryHi &&& 0xFF) := by
  obtain ⟨-, -, hkind⟩ := miss_of_refill h hk
  have hfault : k.faultAddress = some a := by
    rw [hkind, tlbCondition]
    split <;> rfl
  simp only [translate, h, recordCondition, Cop0.recordCondition, hrecorded, hfault]
  exact c.cop0.get_entryHi_recordFault a

/-- In either width the TLB is asked for an address with the low half of the one given. -/
private theorem toUInt32_pageOf (c : Cpu) (a : UInt64) : (c.pageOf a).toUInt32 = a.toUInt32 := by
  simp only [pageOf]
  split
  · rfl
  · apply UInt32.toNat_inj.mp
    have hlt := a.toUInt32.toNat_lt
    rw [UInt64.toNat_toUInt32, toNat_signExtend32]
    split <;> omega

/-- The entry that was written leads to the even or the odd frame, which may be used. -/
private theorem frame_returned {c h : Cpu} {a x : UInt64} {access : Access} {s : PageSize}
    (hserves : c.Serves a access s h) (hlow : x.toUInt32 = a.toUInt32) :
    let frame := h.entryFromRegisters.stored.frameFor x
    ¬ frame &&& 2 = 0 ∧ decide (frame &&& 4 = 0) = false ∧
      (h.entryFromRegisters.stored.physical frame x).toNat =
        s.physical (h.frameRegister s a) a := by
  have hsize : h.entryFromRegisters.pageMask = s.mask.toUInt32 :=
    congrArg UInt64.toUInt32 hserves.pageMask
  have hflags : h.frameRegister s a &&& 6 = 6 := by
    rw [frameRegister]
    split
    · exact hserves.odd
    · exact hserves.even
  -- Whichever half it is, the entry keeps the flags and the number of the frame
  have hkept : ∀ m : UInt64, TlbEntry.frameBits &&& m = m → 1 &&& m = 0 →
      h.entryFromRegisters.stored.frameFor x &&& m = h.frameRegister s a &&& m := by
    intro m hm hflag
    rw [TlbEntry.frameFor_stored hsize hlow, frameRegister]
    cases s.isOdd a with
    | true => exact TlbEntry.frame_stored _ _ hm hflag
    | false => exact TlbEntry.frame_stored _ _ hm hflag
  have hflag : ∀ m : UInt64, 6 &&& m = m → h.frameRegister s a &&& m = m := by
    intro m hm
    have hboth := congrArg (· &&& m) hflags
    simpa only [UInt64.and_assoc, hm] using hboth
  refine ⟨?_, ?_, TlbEntry.physical_stored hsize hlow (hkept _ rfl rfl)⟩
  · rw [hkept 2 rfl rfl, hflag 2 rfl]
    decide
  · rw [hkept 4 rfl rfl, hflag 4 rfl]
    decide

/-- The retried access asks the TLB for the same address. -/
private theorem resolve_returned {c h c' : Cpu} {a : UInt64} {access : Access} {k : Condition}
    (hmiss : c.resolve a access = .error k) (hk : k.isRefill = true)
    (hreturned : c.Returned h c') :
    c'.resolve a access =
      match c'.tlb.translate (c.pageOf a) c.cop0.addressSpace (access = .store) with
      | .ok physical => .ok physical
      | .error fault =>
        .error (tlbCondition c.cop0.wideAddresses (access = .store) a fault) := by
  obtain ⟨hmapped, -, -⟩ := miss_of_refill hmiss hk
  have hseg : c'.segmentOf a = .mapped := by
    rw [← hmapped, segmentOf, segmentOf, hreturned.wide, hreturned.privilege]
  have hpage : c'.pageOf a = c.pageOf a := by
    rw [pageOf, pageOf, hreturned.wide]
  have hresolve := c'.resolve_eq a access
  rw [hseg, hpage, hreturned.addressSpace, hreturned.wide] at hresolve
  exact hresolve

section
variable {c h c' : Cpu} {a : UInt64} {access : Access} {k : Condition} {s : PageSize}
  {i : Instruction} {pc : UInt64}
  (hmiss : c.resolve a access = .error k) (hk : k.isRefill = true)
  (hrecorded : c.cop0.pending.any (k.priority ≤ ·.priority) = false)
  (hserves : c.Serves a access s h) (hi : i.writesEntry = true)
  (hreturned : c.Returned (h.perform i pc) c')
include hmiss hk hrecorded hserves hi hreturned

/-- The retried access finds in the TLB what was written, if that covers the address. -/
private theorem find?_returned :
    c'.tlb.entries.find? (·.covers (c.pageOf a) c.cop0.addressSpace) =
      if c.Keyed a then some h.entryFromRegisters.stored else none := by
  -- Nothing covered the address before, so that only the entry that was written can
  obtain ⟨-, hnone, -⟩ := miss_of_refill hmiss hk
  obtain ⟨n, htlb⟩ := tlb_perform pc hi hserves.usable
  have hsize : h.entryFromRegisters.pageMask = s.mask.toUInt32 :=
    congrArg UInt64.toUInt32 hserves.pageMask
  have hpage : h.entryFromRegisters.hi =
      (a &&& TlbEntry.pageBits) ||| (c.cop0.get Cop0.entryHi &&& 0xFF) :=
    hserves.entryHi.trans (entryHi_translate hmiss hk hrecorded)
  have hcovers := TlbEntry.covers_stored hsize hpage (toUInt32_pageOf c a)
  rw [hreturned.tlb, htlb, hserves.tlb, Tlb.find?_write hnone]
  simp only [Cop0.addressSpace, hcovers, decide_eq_true_eq]
  rfl

/-- If the page is the one that was written, the access goes to the frame, -/
private theorem resolve_of_keyed (hkeyed : c.Keyed a) :
    ∃ p, c'.resolve a access = .ok p ∧ p.toNat = s.physical (h.frameRegister s a) a := by
  have hfind := find?_returned hmiss hk hrecorded hserves hi hreturned
  obtain ⟨hvalid, hdirty, hphysical⟩ := frame_returned hserves (toUInt32_pageOf c a)
  refine ⟨_, ?_, hphysical⟩
  rw [resolve_returned hmiss hk hreturned]
  simp only [Tlb.translate, hfind, if_pos hkeyed, if_neg hvalid, hdirty, Bool.and_false,
    if_neg Bool.false_ne_true]

/-- and otherwise it runs into the same refill. -/
private theorem resolve_of_not_keyed (hkeyed : ¬ c.Keyed a) : c'.resolve a access = .error k := by
  have hfind := find?_returned hmiss hk hrecorded hserves hi hreturned
  obtain ⟨-, -, hkind⟩ := miss_of_refill hmiss hk
  rw [resolve_returned hmiss hk hreturned, hkind]
  simp only [Tlb.translate, hfind, if_neg hkeyed]

/-- A refill that has been served.  The handler has the page that the exception left, an
architectural page size and two usable frames, and carries out TLBWI or TLBWR for any
entry; then the access is made again in the same mode and address space.  It hits exactly
if the exception has left the page that the TLB is asked for, and is led to the even or
the odd frame by the offset of the address; otherwise it runs into the same refill. -/
theorem refill_served :
    (c.Keyed a →
      ∃ p, c'.resolve a access = .ok p ∧ p.toNat = s.physical (h.frameRegister s a) a) ∧
    (¬ c.Keyed a → c'.resolve a access = .error k) :=
  ⟨resolve_of_keyed hmiss hk hrecorded hserves hi hreturned,
    resolve_of_not_keyed hmiss hk hrecorded hserves hi hreturned⟩

end

/-- A handler for loads from `a`, which knows the frames 1 and 2. -/
def serving (c : Cpu) (a : UInt64) : Cpu :=
  let c := (c.translate a .load).2
  { c with cop0 := (c.cop0.put Cop0.entryLo0 0x46).put Cop0.entryLo1 0x86 }

/-- TLBWR in that handler. -/
def served (c : Cpu) (a : UInt64) : Cpu := (c.serving a).perform ⟨0x42000006⟩ 0

/-- A load from an odd page goes to the second frame. -/
theorem refill_served_odd_page :
    ∃ p, (initial.served 0x40001234).resolve 0x40001234 .load = .ok p ∧ p.toNat = 0x2234 :=
  (@refill_served initial (initial.serving 0x40001234) (initial.served 0x40001234) 0x40001234
    .load (.tlbRefill false 0x40001234) 0 ⟨0x42000006⟩ 0 rfl rfl rfl
    ⟨rfl, rfl, rfl, rfl, rfl, .inl rfl⟩ rfl ⟨rfl, rfl, rfl, rfl⟩).1 rfl

/-- In 32-bit addressing bit 32 is not looked up, but the entry is written with it: what
has been served misses again. -/
theorem refill_missed_again :
    initial.resolve 0x100000000 .load = .error (.tlbRefill false 0x100000000) ∧
      initial.Serves 0x100000000 .load 0 (initial.serving 0x100000000) ∧
      initial.Returned (initial.served 0x100000000) (initial.served 0x100000000) ∧
      (initial.served 0x100000000).resolve 0x100000000 .load =
        .error (.tlbRefill false 0x100000000) :=
  ⟨rfl, ⟨rfl, rfl, rfl, rfl, rfl, .inl rfl⟩, ⟨rfl, rfl, rfl, rfl⟩, rfl⟩

/-! ## Going round -/

/-- The handler serves the refill at `a` once and returns. -/
def Round (a : UInt64) (access : Access) (c c' : Cpu) : Prop :=
  ∃ (h : Cpu) (s : PageSize) (i : Instruction) (pc : UInt64),
    c.Serves a access s h ∧ i.writesEntry = true ∧ c.Returned (h.perform i pc) c' ∧
      c'.cop0.pending = none

/-- However often the handler serves the refill, the access to an address that is not
keyed misses again. -/
theorem refill_endless {c c' : Cpu} {a : UInt64} {access : Access} {k : Condition}
    (hmiss : c.resolve a access = .error k) (hk : k.isRefill = true)
    (hclear : c.cop0.pending = none) (hkeyed : ¬ c.Keyed a)
    (hrounds : Relation.ReflTransGen (Round a access) c c') :
    c'.resolve a access = .error k := by
  -- A round leaves the width alone, and with it that the address is not keyed
  suffices h : c'.resolve a access = .error k ∧ c'.cop0.pending = none ∧ ¬ c'.Keyed a from h.1
  induction hrounds with
  | refl => exact ⟨hmiss, hclear, hkeyed⟩
  | @tail c₁ c₂ _ hround ih =>
    obtain ⟨hmiss', hclear', hkeyed'⟩ := ih
    obtain ⟨h, s, i, pc, hserves, hi, hreturned, hclear''⟩ := hround
    refine ⟨?_, hclear'', ?_⟩
    · have hrecorded : c₁.cop0.pending.any (k.priority ≤ ·.priority) = false := by
        rw [hclear']
        rfl
      exact resolve_of_not_keyed hmiss' hk hrecorded hserves hi hreturned hkeyed'
    · rw [Keyed, pageOf, hreturned.wide]
      exact hkeyed'

end Cpu

end Console64
