import Console64.Cpu.Basic

/-!
# One translation serves a page

Pages are 4 KiB or larger, and the segments of the address space start and end with
pages.  So the bytes after a translated one, up to the end of the page, are found right
behind it in physical memory: what a block compiled from consecutive physical words
relies on.

## Key results

- `Cpu.resolve_offset`: translation keeps the offset inside the page
- `Cpu.resolve_add`: what follows in the page follows in the frame
- `Cpu.resolve_add_four`: the next word of the page is the next word of the frame
-/

namespace Console64

/-- The byte `n` bytes after `a` is in the same page. -/
def SamePage (a n : UInt64) : Prop := a.toNat % 4096 + n.toNat < 4096

/-- The word at `a` is followed by another one in the same page. -/
def InsidePage (a : UInt64) : Prop := a.toNat % 4096 + 4 < 4096

/-! ## Arithmetic of page offsets -/

/-- Masks and joins work on the offset in the page -/
private theorem and_mod_page (a b : Nat) : (a &&& b) % 4096 = (a % 4096) &&& (b % 4096) :=
  @Nat.and_mod_two_pow a b 12

/-- and on the page -/
private theorem and_div_page (a b : Nat) : (a &&& b) / 4096 = (a / 4096) &&& (b / 4096) :=
  @Nat.and_div_two_pow a b 12

/-- separately, -/
private theorem or_mod_page (a b : Nat) : (a ||| b) % 4096 = (a % 4096) ||| (b % 4096) :=
  @Nat.or_mod_two_pow a b 12

/-- because a page is a power of two. -/
private theorem or_div_page (a b : Nat) : (a ||| b) / 4096 = (a / 4096) ||| (b / 4096) :=
  @Nat.or_div_two_pow a b 12

/-- What masks only whole pages does not see the offset. -/
private theorem and_eq_of_page {a b m : Nat} (hm : m % 4096 = 0) (hp : a / 4096 = b / 4096) :
    a &&& m = b &&& m := by
  -- The quotients by the size of a page agree, and both remainders are zero
  have hdiv : (a &&& m) / 4096 = (b &&& m) / 4096 := by
    rw [and_div_page, and_div_page, hp]
  have hmod : ∀ x : Nat, (x &&& m) % 4096 = 0 := by
    intro x
    rw [and_mod_page, hm, Nat.and_zero]
  have ha := hmod a
  have hb := hmod b
  omega

/-- Some more bytes inside a page do not leave it. -/
theorem toNat_add_of_samePage {a n : UInt64} (h : SamePage a n) :
    (a + n).toNat = a.toNat + n.toNat := by
  have hlt := a.toNat_lt
  simp only [SamePage] at h
  rw [UInt64.toNat_add]
  omega

/-- Four more bytes inside a page do not leave it. -/
theorem toNat_add_four {a : UInt64} (h : InsidePage a) : (a + 4).toNat = a.toNat + 4 :=
  @toNat_add_of_samePage a 4 h

/-- Masks of whole pages do not tell the bytes of a page apart. -/
private theorem and_add {a n m : UInt64} (hm : m.toNat % 4096 = 0) (h : SamePage a n) :
    (a + n) &&& m = a &&& m := by
  apply UInt64.toNat_inj.mp
  rw [UInt64.toNat_and, UInt64.toNat_and]
  apply and_eq_of_page hm
  rw [toNat_add_of_samePage h]
  simp only [SamePage] at h
  omega

/-- A base of whole pages, joined with an address under a mask that keeps offsets,
has the offset of the address. -/
private theorem or_and_mod {base mask : Nat} (hbase : base % 4096 = 0)
    (hmask : mask % 4096 = 4095) (x : Nat) :
    (base ||| (x &&& mask)) % 4096 = x % 4096 := by
  have hoffset : x % 4096 &&& 4095 = x % 4096 % 4096 :=
    Nat.and_two_pow_sub_one_eq_mod (x % 4096) 12
  rw [or_mod_page, and_mod_page, hbase, hmask, hoffset, Nat.zero_or, Nat.mod_mod]

/-- What follows inside the page follows behind such a base. -/
private theorem or_and_add {base mask a b n : Nat} (hbase : base % 4096 = 0)
    (hmask : mask % 4096 = 4095) (hb : b = a + n) (h : a % 4096 + n < 4096) :
    (base ||| (b &&& mask)) = (base ||| (a &&& mask)) + n := by
  have hpage : b / 4096 = a / 4096 := by omega
  -- The page part is shared, and the offset is that of the address
  have hdiv : (base ||| (b &&& mask)) / 4096 = (base ||| (a &&& mask)) / 4096 := by
    rw [or_div_page, or_div_page, and_div_page, and_div_page, hpage]
  have ha := or_and_mod hbase hmask a
  have hb' := or_and_mod hbase hmask b
  omega

/-- The physical address behind an unmapped segment moves on with the address. -/
private theorem unmapped_add {a n : UInt64} (h : SamePage a n) :
    (a.toUInt32 + n.toUInt32) &&& 0x1FFFFFFF = (a.toUInt32 &&& 0x1FFFFFFF) + n.toUInt32 := by
  have hmask : (0x1FFFFFFF : UInt32).toNat = 2 ^ 29 - 1 := rfl
  apply UInt32.toNat_inj.mp
  simp only [SamePage] at h
  simp only [UInt32.toNat_and, UInt32.toNat_add, hmask, Nat.and_two_pow_sub_one_eq_mod,
    UInt64.toNat_toUInt32]
  omega

/-- It has the same offset in its page. -/
private theorem unmapped_offset (a : UInt64) :
    (a.toUInt32 &&& 0x1FFFFFFF).toNat % 4096 = a.toNat % 4096 := by
  have hmask : (0x1FFFFFFF : UInt32).toNat = 2 ^ 29 - 1 := rfl
  simp only [UInt32.toNat_and, hmask, Nat.and_two_pow_sub_one_eq_mod, UInt64.toNat_toUInt32]
  omega

/-- Filling the upper half with the sign adds nothing, or all ones there. -/
theorem toNat_signExtend32 (w : UInt32) :
    (signExtend32 w).toNat = w.toNat + if w.toNat < 0x80000000 then 0 else 0xFFFFFFFF00000000 := by
  have hbits : (signExtend32 w).toBitVec = w.toBitVec.signExtend 64 := by
    simp only [signExtend32, Int64.toBitVec_toUInt64, Int32.toBitVec_toInt64,
      UInt32.toBitVec_toInt32]
  have hlt := w.toNat_lt
  rw [← UInt64.toNat_toBitVec, hbits, BitVec.toNat_signExtend, BitVec.msb_eq_decide]
  simp only [BitVec.toNat_setWidth, UInt32.toNat_toBitVec, decide_eq_true_eq]
  -- The sign bit is set from the middle of the range on
  split
  · rw [if_neg (by omega)]
    omega
  · rw [if_pos (by omega)]
    omega

/-- The page address of a narrow address moves on with it. -/
private theorem signExtend32_add {a n : UInt64} (h : SamePage a n) :
    signExtend32 (a + n).toUInt32 = signExtend32 a.toUInt32 + n ∧
      SamePage (signExtend32 a.toUInt32) n := by
  have ha := toNat_signExtend32 a.toUInt32
  have hb := toNat_signExtend32 (a + n).toUInt32
  have hlt := a.toUInt32.toNat_lt
  simp only [SamePage] at h ⊢
  simp only [UInt64.toUInt32_add, UInt32.toNat_add, UInt64.toNat_toUInt32] at hb
  simp only [UInt64.toNat_toUInt32] at ha
  -- Filling the upper half leaves the offset alone
  have hpage : (signExtend32 a.toUInt32).toNat % 4096 + n.toNat < 4096 := by
    rw [ha]
    split <;> omega
  refine ⟨?_, hpage⟩
  apply UInt64.toNat_inj.mp
  rw [toNat_add_of_samePage hpage, UInt64.toUInt32_add, hb, ha]
  split <;> split <;> omega

/-! ## The TLB -/

namespace TlbEntry

/-- An entry maps at least two pages of 4 KiB. -/
private theorem mask_mod (e : TlbEntry) : e.mask.toNat % 8192 = 8191 := by
  show e.mask.toNat % 2 ^ 13 = 2 ^ 13 - 1
  simp only [mask, UInt64.toNat_or, Nat.or_mod_two_pow]
  -- All of the low 13 bits are set, whatever the page mask holds
  apply Nat.eq_of_testBit_eq
  intro i
  rw [show (0x1FFF : UInt64).toNat % 2 ^ 13 = 2 ^ 13 - 1 from rfl]
  simp only [Nat.testBit_or, Nat.testBit_mod_two_pow, Nat.testBit_two_pow_sub_one]
  by_cases hi : i < 13 <;> simp [hi]

/-- The mask has 32 bits. -/
private theorem mask_lt (e : TlbEntry) : e.mask.toNat < 0x100000000 := by
  simp only [mask, UInt64.toNat_or, UInt32.toNat_toUInt64]
  exact @Nat.or_lt_two_pow _ _ 32 e.pageMask.toNat_lt (by decide)

/-- An entry covers all bytes of a page or none. -/
private theorem covers_add (e : TlbEntry) {a n : UInt64} (space : UInt8) (h : SamePage a n) :
    e.covers (a + n) space = e.covers a space := by
  have hbits : e.comparedBits.toNat % 4096 = 0 := by
    simp only [comparedBits, UInt64.toNat_and, and_mod_page]
    rw [show pageBits.toNat % 4096 = 0 from rfl, Nat.zero_and]
  simp only [covers, and_add hbits h]

/-- The bytes of a page have one frame. -/
private theorem frameFor_add (e : TlbEntry) {a n : UInt64} (h : SamePage a n) :
    e.frameFor (a + n) = e.frameFor a := by
  have hmask := e.mask_mod
  have hlt := e.mask_lt
  -- What selects one of the two frames is a bit above the offset
  have hbit : ((e.mask + 1) >>> 1).toNat % 4096 = 0 := by
    simp only [UInt64.toNat_shiftRight, UInt64.toNat_add, UInt64.toNat_ofNat]
    rw [show 1 % 2 ^ 64 % 64 = 1 from rfl, Nat.shiftRight_eq_div_pow]
    omega
  simp only [frameFor, and_add hbit h]

/-- What is kept of a frame are whole pages, and what is taken of the address has all of the
offset. -/
private theorem physical_parts (e : TlbEntry) (frame : UInt64) :
    ((((frame >>> 6 &&& 0x00FFFFFF) <<< 12) &&& ~~~(e.mask >>> 1)).toNat % 4096 = 0) ∧
      (e.mask >>> 1).toNat % 4096 = 4095 := by
  have hmask := e.mask_mod
  constructor
  · rw [UInt64.toNat_and, and_mod_page, UInt64.toNat_shiftLeft]
    rw [show (12 : UInt64).toNat % 64 = 12 from rfl, Nat.shiftLeft_eq]
    -- The number of the frame is shifted up by a page
    have hshift : ∀ x : Nat, x * 2 ^ 12 % 2 ^ 64 % 4096 = 0 := by omega
    rw [hshift, Nat.zero_and]
  · rw [UInt64.toNat_shiftRight, show (1 : UInt64).toNat % 64 = 1 from rfl,
      Nat.shiftRight_eq_div_pow]
    omega

/-- A frame is as contiguous as its page. -/
private theorem physical_add (e : TlbEntry) (frame : UInt64) {a n : UInt64}
    (h : SamePage a n) : e.physical frame (a + n) = e.physical frame a + n.toUInt32 := by
  obtain ⟨hbase, hmask⟩ := physical_parts e frame
  have hstep := or_and_add hbase hmask (toNat_add_of_samePage h) h
  apply UInt32.toNat_inj.mp
  simp only [physical, UInt64.toNat_toUInt32, UInt32.toNat_add, UInt64.toNat_or,
    UInt64.toNat_and (a + n), UInt64.toNat_and a]
  rw [hstep]
  omega

/-- The offset comes from the address alone. -/
private theorem physical_offset (e : TlbEntry) (frame a : UInt64) :
    (e.physical frame a).toNat % 4096 = a.toNat % 4096 := by
  obtain ⟨hbase, hmask⟩ := physical_parts e frame
  have hmod := or_and_mod hbase hmask a.toNat
  simp only [physical, UInt64.toNat_toUInt32, UInt64.toNat_or, UInt64.toNat_and a]
  omega

end TlbEntry

/-- The TLB translates the bytes of a page alike. -/
private theorem Tlb.translate_add (t : Tlb) {a n : UInt64} (space : UInt8) (store : Bool)
    (h : SamePage a n) :
    t.translate (a + n) space store = (t.translate a space store).map (· + n.toUInt32) := by
  have hcovers : (fun e : TlbEntry => e.covers (a + n) space) = (·.covers a space) :=
    funext fun e => e.covers_add space h
  simp only [Tlb.translate, hcovers]
  -- The same entry is found for both bytes
  cases t.entries.find? (·.covers a space) with
  | none => rfl
  | some e =>
    simp only [TlbEntry.frameFor_add e h, TlbEntry.physical_add e _ h]
    split
    · rfl
    · split <;> rfl

/-- What the TLB translates keeps its offset in the page. -/
private theorem Tlb.translate_offset {t : Tlb} {a : UInt64} {space : UInt8} {store : Bool}
    {p : UInt32} (h : t.translate a space store = .ok p) : p.toNat % 4096 = a.toNat % 4096 := by
  simp only [Tlb.translate] at h
  split at h
  case h_1 => exact nomatch h
  case h_2 e _ =>
    split at h
    · exact nomatch h
    · split at h
      · exact nomatch h
      · cases h
        exact e.physical_offset _ a

/-! ## Segments -/

namespace Cpu

/-- The segment `n` bytes on. -/
def Segment.next (n : UInt32) : Segment → Segment
  | .direct physical => .direct (physical + n)
  | .mapped => .mapped
  | .forbidden => .forbidden

/-- Bounds of whole pages hold the bytes of a page together. -/
private theorem within_add {least greatest a n : UInt64} (hl : least.toNat % 4096 = 0)
    (hg : greatest.toNat % 4096 = 4095) (h : SamePage a n) :
    within least greatest (a + n) = within least greatest a := by
  have hadd := toNat_add_of_samePage h
  simp only [SamePage] at h
  rw [Bool.eq_iff_iff]
  simp only [within, UInt64.le_iff_toNat_le, hadd, Bool.and_eq_true, decide_eq_true_eq]
  omega

/-- In 64-bit addressing the bytes of a page lie in one segment, one behind the other. -/
private theorem wideSegment_add (k : Privilege) {a n : UInt64} (h : SamePage a n) :
    wideSegment k (a + n) = (wideSegment k a).next n.toUInt32 := by
  have hunmapped := unmapped_add h
  simp only [wideSegment, UInt64.toUInt32_add, hunmapped]
  -- All segments are bounded by whole pages
  rw [within_add rfl rfl h, within_add rfl rfl h, within_add rfl rfl h, within_add rfl rfl h,
    within_add rfl rfl h, within_add rfl rfl h, within_add rfl rfl h]
  simp only [apply_ite (Segment.next n.toUInt32)]
  rfl

/-- A bound of whole pages does not separate them either. -/
private theorem lt_add {a n : UInt64} {bound : UInt32} (hbound : bound.toNat % 4096 = 0)
    (h : SamePage a n) : a.toUInt32 + n.toUInt32 < bound ↔ a.toUInt32 < bound := by
  have hlt := bound.toNat_lt
  simp only [SamePage] at h
  simp only [UInt32.lt_iff_toNat_lt, UInt32.toNat_add, UInt64.toNat_toUInt32]
  omega

/-- So it is in 32-bit addressing. -/
private theorem narrowSegment_add (k : Privilege) {a n : UInt64} (h : SamePage a n) :
    narrowSegment k (a + n).toUInt32 = (narrowSegment k a.toUInt32).next n.toUInt32 := by
  have hunmapped := unmapped_add h
  rw [UInt64.toUInt32_add]
  simp only [narrowSegment, hunmapped]
  simp only [lt_add (show (0x80000000 : UInt32).toNat % 4096 = 0 from rfl) h,
    lt_add (show (0xC0000000 : UInt32).toNat % 4096 = 0 from rfl) h,
    lt_add (show (0xE0000000 : UInt32).toNat % 4096 = 0 from rfl) h]
  simp only [apply_ite (Segment.next n.toUInt32)]
  rfl

/-! ## The whole translation -/

/-- A segment keeps the offset inside the page. -/
private theorem wideSegment_offset {k : Privilege} {a : UInt64} {p : UInt32}
    (h : wideSegment k a = .direct p) : p.toNat % 4096 = a.toNat % 4096 := by
  have hlow : a.toUInt32.toNat % 4096 = a.toNat % 4096 := by
    simp only [UInt64.toNat_toUInt32]
    omega
  have hunmapped := unmapped_offset a
  simp only [wideSegment] at h
  repeat' split at h
  all_goals cases h
  · exact hlow
  · exact hunmapped

/-- So it does there. -/
private theorem narrowSegment_offset {k : Privilege} {a : UInt64} {p : UInt32}
    (h : narrowSegment k a.toUInt32 = .direct p) : p.toNat % 4096 = a.toNat % 4096 := by
  have hunmapped := unmapped_offset a
  simp only [narrowSegment] at h
  repeat' split at h
  all_goals cases h
  exact hunmapped

/-- The segment that an address lies in. -/
def segmentOf (c : Cpu) (a : UInt64) : Segment :=
  if c.cop0.wideAddresses then wideSegment c.cop0.privilege a
  else narrowSegment c.cop0.privilege a.toUInt32

/-- The address that the TLB is asked for. -/
def pageOf (c : Cpu) (a : UInt64) : UInt64 :=
  if c.cop0.wideAddresses then a else signExtend32 a.toUInt32

/-- An address is resolved by its segment, and by the TLB if that is mapped. -/
theorem resolve_eq (c : Cpu) (a : UInt64) (access : Access) :
    c.resolve a access =
      match c.segmentOf a with
      | .direct physical => .ok physical
      | .forbidden => .error (.address (.addressError (access = .store)) a)
      | .mapped =>
        match c.tlb.translate (c.pageOf a) c.cop0.addressSpace (access = .store) with
        | .ok physical => .ok physical
        | .error fault => .error (tlbCondition c.cop0.wideAddresses (access = .store) a fault) :=
  rfl

/-- The address the TLB is asked for has the same offset. -/
private theorem pageOf_offset (c : Cpu) (a : UInt64) :
    (c.pageOf a).toNat % 4096 = a.toNat % 4096 := by
  simp only [pageOf]
  split
  · rfl
  · rw [toNat_signExtend32, UInt64.toNat_toUInt32]
    split <;> omega

/-- Translation keeps the offset inside the page. -/
theorem resolve_offset {c : Cpu} {a : UInt64} {access : Access} {p : UInt32}
    (h : c.resolve a access = .ok p) : p.toNat % 4096 = a.toNat % 4096 := by
  rw [resolve_eq] at h
  cases hseg : c.segmentOf a with
  -- Without translation the offset is that of the segment
  | direct physical =>
    rw [hseg] at h
    cases h
    simp only [segmentOf] at hseg
    split at hseg
    · exact wideSegment_offset hseg
    · exact narrowSegment_offset hseg
  | mapped =>
    rw [hseg] at h
    cases htlb : c.tlb.translate (c.pageOf a) c.cop0.addressSpace (access = .store) with
    | ok physical =>
      simp only [htlb] at h
      cases h
      rw [Tlb.translate_offset htlb, pageOf_offset]
    | error fault =>
      simp only [htlb] at h
      exact nomatch h
  | forbidden =>
    rw [hseg] at h
    exact nomatch h

/-- What lies in the same page lies in the same segment, -/
private theorem segmentOf_add (c : Cpu) {a n : UInt64} (hpage : SamePage a n) :
    c.segmentOf (a + n) = (c.segmentOf a).next n.toUInt32 := by
  simp only [segmentOf]
  split
  · exact wideSegment_add _ hpage
  · exact narrowSegment_add _ hpage

/-- and the TLB is asked for the same page. -/
private theorem pageOf_add (c : Cpu) {a n : UInt64} (hpage : SamePage a n) :
    c.pageOf (a + n) = c.pageOf a + n ∧ SamePage (c.pageOf a) n := by
  simp only [pageOf]
  split
  · exact ⟨rfl, hpage⟩
  · exact signExtend32_add hpage

/-- What follows in the page follows in the frame. -/
theorem resolve_add {c : Cpu} {a n : UInt64} {access : Access} {p : UInt32}
    (h : c.resolve a access = .ok p) (hpage : SamePage a n) :
    c.resolve (a + n) access = .ok (p + n.toUInt32) := by
  obtain ⟨hnext, hinside⟩ := c.pageOf_add hpage
  rw [resolve_eq] at h ⊢
  rw [segmentOf_add c hpage]
  cases hseg : c.segmentOf a with
  | direct physical =>
    rw [hseg] at h
    cases h
    rfl
  | mapped =>
    rw [hseg] at h
    -- The TLB is asked for another byte of the same page
    simp only [Segment.next, hnext, Tlb.translate_add _ _ _ hinside]
    cases htlb : c.tlb.translate (c.pageOf a) c.cop0.addressSpace (access = .store) with
    | ok physical =>
      simp only [htlb] at h
      cases h
      rfl
    | error fault =>
      simp only [htlb] at h
      exact nomatch h
  | forbidden =>
    rw [hseg] at h
    exact nomatch h

/-- The next word of a page is the next word of the frame. -/
theorem resolve_add_four {c : Cpu} {a : UInt64} {access : Access} {p : UInt32}
    (h : c.resolve a access = .ok p) (hpage : InsidePage a) :
    c.resolve (a + 4) access = .ok (p + 4) := @resolve_add c a 4 access p h hpage

end Cpu

end Console64
