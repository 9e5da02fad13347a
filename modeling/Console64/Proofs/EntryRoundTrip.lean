import Console64.Proofs.ExceptionEntry
import Console64.Proofs.RefillService
import Console64.Proofs.ResetEntries

/-!
# Moving entries between the TLB and its registers

TLBWI and TLBWR write an entry from four registers of the system control coprocessor, and
TLBR reads one back into them.  On the way in, bits that do not exist are dropped, and the
two global bits become one; on the way out they become one again.  What an entry can hold
passes through unchanged in either direction, so that reading and writing undo each other.

## Key results

- `TlbEntry.Settled`: an entry that loses nothing when it is written
- `Tlb.Filled.settled`: the entries that TLBWI and TLBWR leave are of this kind
- `EntryRegisters.registers_stored`: what is read back of any four registers
- `Cpu.readEffect_next` / `Cpu.writeEffect_next`: the two instructions, up to their end
- `Cpu.entry_round_trip`: reading undoes writing, and writing undoes reading
- `Cpu.filled_of_activity`: a run fills the TLB by TLBWI and TLBWR only
-/

namespace Console64

/-! ## Entries -/

namespace TlbEntry

/-- The entry with both of its global bits, or with neither. -/
def unified (e : TlbEntry) : TlbEntry :=
  let isGlobal := e.lo0 &&& e.lo1 &&& 1
  { e with
    lo0 := (e.lo0 &&& ~~~1) ||| isGlobal
    lo1 := (e.lo1 &&& ~~~1) ||| isGlobal }

/-- Nothing of the entry is lost when it is written. -/
structure Settled (e : TlbEntry) : Prop where
  stored : e.stored = e
  unified : e.unified = e

/-- Keeping some bits twice is keeping them once. -/
private theorem keep_keep (w m n : UInt64) :
    (((w &&& m) ||| (w &&& n)) &&& m) ||| (((w &&& m) ||| (w &&& n)) &&& n) =
      (w &&& m) ||| (w &&& n) := by
  apply UInt64.toBitVec_inj.mp
  ext i
  simp only [UInt64.toBitVec_or, UInt64.toBitVec_and, BitVec.getElem_or, BitVec.getElem_and]
  grind

/-- What was written once is written again as it is. -/
theorem stored_stored (e : TlbEntry) : e.stored.stored = e.stored := by
  have hmask : e.pageMask &&& pageMaskBits &&& pageMaskBits = e.pageMask &&& pageMaskBits := by
    rw [UInt32.and_assoc, UInt32.and_self]
  simp only [stored, comparedBits, mask, hmask, keep_keep, UInt64.and_assoc, UInt64.and_self]

/-- A half takes its global bit from both, also if both have done so before. -/
private theorem half_half (lo lo0 lo1 : UInt64) :
    (((lo &&& ~~~1) ||| (lo0 &&& lo1 &&& 1)) &&& ~~~1) |||
        (((lo0 &&& ~~~1) ||| (lo0 &&& lo1 &&& 1)) &&& ((lo1 &&& ~~~1) ||| (lo0 &&& lo1 &&& 1)) &&&
          1) =
      (lo &&& ~~~1) ||| (lo0 &&& lo1 &&& 1) := by
  apply UInt64.toBitVec_inj.mp
  ext i
  simp only [UInt64.toBitVec_or, UInt64.toBitVec_and, UInt64.toBitVec_not, BitVec.getElem_or,
    BitVec.getElem_and, BitVec.getElem_not]
  grind

/-- So it is with the entry as a whole. -/
theorem unified_unified (e : TlbEntry) : e.unified.unified = e.unified := by
  simp only [unified, half_half]

/-- It does not matter whether a mask is put on the halves before or after that. -/
private theorem half_masked (lo lo0 lo1 m : UInt64) :
    ((lo &&& ~~~1) ||| (lo0 &&& lo1 &&& 1)) &&& m =
      (lo &&& m &&& ~~~1) ||| (lo0 &&& m &&& (lo1 &&& m) &&& 1) := by
  apply UInt64.toBitVec_inj.mp
  ext i
  simp only [UInt64.toBitVec_or, UInt64.toBitVec_and, BitVec.getElem_or, BitVec.getElem_and]
  grind

/-- Writing an entry and giving it a single global bit may come in any order. -/
theorem stored_unified (e : TlbEntry) : e.unified.stored = e.stored.unified := by
  simp only [unified, stored, comparedBits, mask, half_masked]

/-- Once an entry has a single global bit and was written, it is settled. -/
theorem settled_stored_unified (e : TlbEntry) : e.unified.stored.Settled where
  stored := stored_stored e.unified
  unified := by rw [stored_unified, unified_unified]

end TlbEntry

/-! ## The registers -/

/-- The registers that an entry is written from and read into. -/
structure EntryRegisters where
  pageMask : UInt64
  hi : UInt64
  lo0 : UInt64
  lo1 : UInt64
  deriving DecidableEq

namespace EntryRegisters

/-- The entry that they describe. -/
def entry (r : EntryRegisters) : TlbEntry :=
  TlbEntry.unified { pageMask := r.pageMask.toUInt32, hi := r.hi, lo0 := r.lo0, lo1 := r.lo1 }

/-- Both halves say that the entry is global. -/
def isGlobal (r : EntryRegisters) : Prop := r.lo0 &&& 1 = 1 ∧ r.lo1 &&& 1 = 1

/-- What of them an entry can hold. -/
def kept (r : EntryRegisters) : EntryRegisters :=
  let pageMask := r.pageMask &&& 0x01FFE000
  let isGlobal := r.lo0 &&& r.lo1 &&& 1
  { pageMask
    hi := (r.hi &&& 0xC00000FFFFFFE000 &&& ~~~pageMask) ||| (r.hi &&& 0xFF)
    lo0 := (r.lo0 &&& 0x3FFFFFFE) ||| isGlobal
    lo1 := (r.lo1 &&& 0x3FFFFFFE) ||| isGlobal }

end EntryRegisters

/-- The registers with an entry in them. -/
def TlbEntry.registers (e : TlbEntry) : EntryRegisters :=
  { pageMask := e.pageMask.toUInt64, hi := e.hi, lo0 := e.unified.lo0, lo1 := e.unified.lo1 }

/-- Registers that an entry was read into describe it. -/
theorem TlbEntry.entry_registers (e : TlbEntry) : e.registers.entry = e.unified := by
  have hmask : e.pageMask.toUInt64.toUInt32 = e.pageMask := UInt32.toUInt32_toUInt64 e.pageMask
  rw [EntryRegisters.entry, registers, hmask]
  exact e.unified_unified

namespace EntryRegisters

/-- The mask that is kept, and the bits that it leaves to compare. -/
private theorem mask_kept (w : UInt64) :
    (w.toUInt32 &&& TlbEntry.pageMaskBits).toUInt64 = w &&& 0x01FFE000 := by
  apply UInt64.toNat_inj.mp
  rw [UInt32.toNat_toUInt64, UInt32.toNat_and, UInt64.toNat_and, UInt64.toNat_toUInt32,
    ← Nat.and_two_pow_sub_one_eq_mod, Nat.and_assoc]
  rfl

/-- The page keeps the bits that the mask leaves to compare. -/
private theorem compared_kept (m : UInt64) :
    TlbEntry.pageBits &&& ~~~(m ||| 0x1FFF) = 0xC00000FFFFFFE000 &&& ~~~m := by
  apply UInt64.toBitVec_inj.mp
  show (0xC00000FFFFFFE000#64 &&& ~~~(m.toBitVec ||| 0x1FFF#64)) =
    0xC00000FFFFFFE000#64 &&& ~~~m.toBitVec
  rw [BitVec.not_or, BitVec.and_comm (~~~m.toBitVec), ← BitVec.and_assoc]
  rfl

/-- A half keeps its frame, and takes its global bit from elsewhere. -/
private theorem half_kept (lo g : UInt64) :
    ((lo &&& ~~~1) ||| (g &&& 1)) &&& TlbEntry.frameBits = (lo &&& 0x3FFFFFFE) ||| (g &&& 1) := by
  apply UInt64.toBitVec_inj.mp
  rw [UInt64.toBitVec_and, UInt64.toBitVec_or, BitVec.and_or_distrib_right]
  simp only [UInt64.toBitVec_and, BitVec.and_assoc]
  rfl

/-- An entry that was written and is read again comes as the part of the registers that was
kept. -/
theorem registers_stored (r : EntryRegisters) : r.entry.stored.registers = r.kept := by
  have hsettled := (TlbEntry.settled_stored_unified
    { pageMask := r.pageMask.toUInt32, hi := r.hi, lo0 := r.lo0, lo1 := r.lo1 }).unified
  rw [TlbEntry.registers, entry, hsettled]
  simp only [TlbEntry.stored, TlbEntry.unified, TlbEntry.comparedBits, TlbEntry.mask, mask_kept,
    compared_kept, half_kept, kept, ← UInt64.and_assoc]

/-- Writing that part stores the same entry as writing all of them. -/
theorem stored_kept (r : EntryRegisters) : r.kept.entry.stored = r.entry.stored := by
  have hsettled := TlbEntry.settled_stored_unified
    { pageMask := r.pageMask.toUInt32, hi := r.hi, lo0 := r.lo0, lo1 := r.lo1 }
  rw [← registers_stored, TlbEntry.entry_registers, entry, hsettled.unified, hsettled.stored]

/-- So it is kept as it is. -/
theorem kept_kept (r : EntryRegisters) : r.kept.kept = r.kept := by
  rw [← registers_stored r.kept, stored_kept, registers_stored]

/-- The lowest bit of a word. -/
private theorem and_one_eq_one (w : UInt64) : w &&& 1 = 1 ↔ w.toBitVec.getLsbD 0 = true := by
  rw [← UInt64.toNat_inj, UInt64.toNat_and]
  show w.toNat &&& 1 = 1 ↔ w.toNat.testBit 0 = true
  rw [Nat.and_one_is_mod, Nat.testBit_zero, decide_eq_true_eq]

/-- The global bit of a half that was read is set if both halves had it. -/
private theorem globalBit_kept (lo lo0 lo1 : UInt64) :
    ((lo &&& 0x3FFFFFFE) ||| (lo0 &&& lo1 &&& 1)) &&& 1 = 1 ↔ lo0 &&& 1 = 1 ∧ lo1 &&& 1 = 1 := by
  have hmask : (0x3FFFFFFE : UInt64).toBitVec.getLsbD 0 = false := by decide
  have hone : (1 : UInt64).toBitVec.getLsbD 0 = true := by decide
  simp only [and_one_eq_one, UInt64.toBitVec_or, UInt64.toBitVec_and, BitVec.getLsbD_or,
    BitVec.getLsbD_and, hmask, hone, Bool.and_false, Bool.false_or, Bool.and_true,
    Bool.and_eq_true]

/-- So both halves of what is kept say whether the registers were global. -/
theorem isGlobal_kept (r : EntryRegisters) :
    (r.kept.lo0 &&& 1 = 1 ↔ r.isGlobal) ∧ (r.kept.lo1 &&& 1 = 1 ↔ r.isGlobal) :=
  ⟨globalBit_kept r.lo0 r.lo0 r.lo1, globalBit_kept r.lo1 r.lo0 r.lo1⟩

end EntryRegisters

/-! ## The TLB -/

namespace Tlb

/-- The TLB has come about since reset by writes of the kind that TLBWI and TLBWR make, with
anything in the registers. -/
inductive Filled : Tlb → Prop
  | reset : Filled .initial
  | written {t : Tlb} (h : Filled t) (n : Fin 32) (r : EntryRegisters) : Filled (t.write n r.entry)

/-- The entries at reset are settled, -/
private theorem settled_initial (n : Fin 32) : (initial.read n).Settled := by
  have hall : ∀ n, (initial.read n).stored = initial.read n ∧
      (initial.read n).unified = initial.read n := by
    decide
  exact ⟨(hall n).1, (hall n).2⟩

/-- Entries that came about that way lose nothing when they are written. -/
theorem Filled.settled {t : Tlb} (h : t.Filled) (n : Fin 32) : (t.read n).Settled := by
  induction h with
  | reset => exact settled_initial n
  | written _ k r ih =>
    rw [read_write]
    split
    · exact TlbEntry.settled_stored_unified _
    · exact ih

/-- Two TLBs with the same entries are the same. -/
private theorem ext_read {t t' : Tlb} (h : ∀ n, t.read n = t'.read n) : t = t' := by
  obtain ⟨entries⟩ := t
  obtain ⟨entries'⟩ := t'
  have hentries : entries = entries' := Vector.ext fun i hi => h ⟨i, hi⟩
  rw [hentries]

/-- Writing an entry back that is there already changes nothing. -/
theorem write_of_stored_eq {t : Tlb} {n : Fin 32} {e : TlbEntry} (h : e.stored = t.read n) :
    t.write n e = t := by
  apply ext_read
  intro k
  rw [read_write]
  split
  case isTrue hk => rw [h, hk]
  case isFalse => rfl

end Tlb

/-! ## The two instructions -/

/-- TLBR: read the entry that the index register names. -/
def Instruction.readsIndexed (i : Instruction) : Bool :=
  i.opcode = 0x10 && 0x10 ≤ i.fmt && i.funct = 0x01

/-- The registers that an exception changes as it is taken. -/
def Cop0.exceptionRegisters : List RegisterIndex :=
  [Cop0.statusWord, Cop0.causeWord, Cop0.epc, Cop0.errorEpc]

namespace Cop0

/-- What is taken at the end of an instruction leads to kernel mode and changes no other
register; if nothing is taken, nothing changes. -/
theorem service_keeps (c : Cop0) (site : ExceptionSite) :
    (∀ r, r ∉ exceptionRegisters → (c.service site).2.get r = c.get r) ∧
      ((c.service site).2.status = c.status ∨ (c.service site).2.privilege = .kernel) := by
  have hkept : ∀ {c' : Cop0}, (∀ r, r ≠ statusWord → r ≠ causeWord → r ≠ epc →
      c'.get r = c.get r) ∨ (∀ r, r ≠ statusWord → r ≠ errorEpc → c'.get r = c.get r) →
      ∀ r, r ∉ exceptionRegisters → c'.get r = c.get r := by
    intro c' h r hr
    simp only [exceptionRegisters, List.mem_cons, List.not_mem_nil, or_false, not_or] at hr
    obtain ⟨hstatus, hcause, hepc, herror⟩ := hr
    rcases h with h | h
    · exact h r hstatus hcause hepc
    · exact h r hstatus herror
  have hkernel : ∀ {c' : Cop0}, (c'.status.exl = true ∨ c'.status.erl = true) →
      c'.privilege = .kernel := by
    intro c' h
    rw [privilege, if_pos ((Bool.or_eq_true _ _).mpr h)]
  -- An exception or an error is entered, an interrupt is, or nothing is taken
  cases hnoted : c.pending with
  | some k =>
    obtain ⟨target, c', hservice, -, htaken⟩ := taken_service hnoted site
    rw [hservice]
    cases k with
    | reset | cacheError => exact ⟨hkept (.inr htaken.others), .inr (hkernel (.inr htaken.erl))⟩
    | tlbRefill | xtlbRefill | address | coprocessorUnusable | general =>
      exact ⟨hkept (.inl htaken.others), .inr (hkernel (.inl htaken.exl))⟩
  | none =>
    by_cases hinterruptible : c.Interruptible
    · obtain ⟨target, c', hservice, hinterrupted⟩ :=
        interrupted_service hnoted hinterruptible site
      rw [hservice]
      exact ⟨hkept (.inl hinterrupted.entry.others),
        .inr (hkernel (.inl hinterrupted.entry.exl))⟩
    · rw [idle_service hnoted hinterruptible site]
      exact ⟨fun _ _ => rfl, .inl rfl⟩

end Cop0

namespace Cpu

/-- The system control coprocessor may be used. -/
def MayControl (c : Cpu) : Prop :=
  c.cop0.privilege = .kernel ∨ c.cop0.status.usable 0 = true

/-- The registers for TLB entries as they are. -/
def entryRegisters (c : Cpu) : EntryRegisters where
  pageMask := c.cop0.get Cop0.pageMask
  hi := c.cop0.get Cop0.entryHi
  lo0 := c.cop0.get Cop0.entryLo0
  lo1 := c.cop0.get Cop0.entryLo1

/-- It is the entry that they describe that is written. -/
theorem entryFromRegisters_eq (c : Cpu) : c.entryFromRegisters = c.entryRegisters.entry := rfl

/-- An entry was read. -/
structure ReadEffect (c c' : Cpu) : Prop where
  tlb : c'.tlb = c.tlb
  registers : c'.entryRegisters = (c.tlb.read (c.entryIndex Cop0.index)).registers
  index : c'.entryIndex Cop0.index = c.entryIndex Cop0.index

/-- An entry was written. -/
structure WriteEffect (c c' : Cpu) : Prop where
  tlb : c'.tlb = c.tlb.write (c.entryIndex Cop0.index) c.entryRegisters.entry
  registers : c'.entryRegisters = c.entryRegisters
  index : c'.entryIndex Cop0.index = c.entryIndex Cop0.index

/-- To read an entry puts it into the registers, and leaves the TLB alone. -/
theorem readEffect_readEntry (c : Cpu) : ReadEffect c c.readEntry where
  tlb := rfl
  registers := by
    simp +decide only [entryRegisters, readEntry, Cop0.get_put, if_true, if_false]
    rfl
  index := by
    simp +decide only [entryIndex, readEntry, Cop0.get_put, if_false]

/-- To write one puts what the registers describe into the TLB, and leaves them alone. -/
theorem writeEffect_writeEntry (c : Cpu) : WriteEffect c (c.writeEntry Cop0.index) where
  tlb := congrArg (c.tlb.write (c.entryIndex Cop0.index)) c.entryFromRegisters_eq
  registers := rfl
  index := rfl

/-! ## The end of an instruction -/

/-- The end of an instruction leaves the TLB, the registers for its entries and the index
alone. -/
theorem get_retire (c : Cpu) {r : RegisterIndex}
    (h : r ∉ Cop0.movingRegisters ++ Cop0.exceptionRegisters) :
    c.retire.1.cop0.get r = c.cop0.get r := by
  rw [List.mem_append, not_or] at h
  have hservice := (c.cop0.ticked.service_keeps c.ended.exceptionSite).1 r h.2
  rw [cop0_retire]
  exact hservice.trans (c.cop0.get_ticked h.1)

/-- So it keeps those registers -/
theorem entryRegisters_retire (c : Cpu) : c.retire.1.entryRegisters = c.entryRegisters := by
  simp only [entryRegisters]
  rw [get_retire c (by decide), get_retire c (by decide), get_retire c (by decide),
    get_retire c (by decide)]

/-- and the entry that is meant. -/
theorem entryIndex_retire (c : Cpu) :
    c.retire.1.entryIndex Cop0.index = c.entryIndex Cop0.index := by
  rw [entryIndex, get_retire c (by decide), entryIndex]

/-- It keeps the coprocessor usable: what is taken leads to kernel mode. -/
theorem MayControl.retire {c : Cpu} (h : c.MayControl) : c.retire.1.MayControl := by
  have hticked : c.cop0.ticked.status = c.cop0.status := congrArg Prod.snd c.cop0.ticked_keeps.2
  have hservice := (c.cop0.ticked.service_keeps c.ended.exceptionSite).2
  have hstate : c.retire.1.cop0 = (c.cop0.ticked.service c.ended.exceptionSite).2 :=
    c.cop0_retire
  rw [← hstate, hticked] at hservice
  rcases hservice with hsame | hkernel
  · rw [MayControl, Cop0.privilege, hsame]
    exact h
  · exact .inl hkernel

/-- What an instruction has read is still so at its end, -/
theorem ReadEffect.retire {c c' : Cpu} (h : ReadEffect c c') : ReadEffect c c'.retire.1 :=
  ⟨(tlb_retire c').trans h.tlb, (entryRegisters_retire c').trans h.registers,
    (entryIndex_retire c').trans h.index⟩

/-- and what it has written. -/
theorem WriteEffect.retire {c c' : Cpu} (h : WriteEffect c c') : WriteEffect c c'.retire.1 :=
  ⟨(tlb_retire c').trans h.tlb, (entryRegisters_retire c').trans h.registers,
    (entryIndex_retire c').trans h.index⟩

/-! ## Whole instructions -/

/-- The event is a TLBR. -/
def Event.readsIndexed : Event → Bool
  | .carriedOut word _ _ => (Instruction.mk word).readsIndexed
  | .refused _ => false

/-- An operation of the coprocessor, from its start to its end. -/
private theorem next_carriedOut {word : UInt32} (hop : (Instruction.mk word).opcode = 0x10)
    (c : Cpu) (pc : UInt64) (bus : Bus) :
    c.next (.carriedOut word pc bus) = ((c.begin pc word).performCop0 ⟨word⟩).retire.1 := by
  have hexecute : Machine.execute ⟨word⟩ pc = Machine.modifyCpu (·.performCop0 ⟨word⟩) := by
    simp only [Machine.execute, hop, perform]
    rfl
  rw [next, Machine.carryOut, Machine.interpret, hexecute]
  rfl

/-- A TLBR reads the entry, if the coprocessor may be used. -/
theorem readEffect_next {c : Cpu} (hcontrol : c.MayControl) {e : Event}
    (he : e.readsIndexed = true) : ReadEffect c (c.next e) ∧ (c.next e).MayControl := by
  cases e with
  | refused k => exact nomatch he
  | carriedOut word pc bus =>
    simp only [Event.readsIndexed, Instruction.readsIndexed, Bool.and_eq_true,
      decide_eq_true_eq] at he
    obtain ⟨⟨hop, hfmt⟩, hfunct⟩ := he
    have hbegun : (c.begin pc word).MayControl := hcontrol
    -- Only the TLBR of the coprocessor is such an instruction
    have hread : (c.begin pc word).performCop0 ⟨word⟩ = (c.begin pc word).readEntry := by
      rw [performCop0_operation hfmt hbegun, hfunct]
      rfl
    have hcontrol' : (c.begin pc word).readEntry.MayControl := hcontrol
    have heffect := (c.begin pc word).readEffect_readEntry.retire
    rw [next_carriedOut hop, hread]
    exact ⟨⟨heffect.tlb, heffect.registers, heffect.index⟩, hcontrol'.retire⟩

/-- A TLBWI writes it. -/
theorem writeEffect_next {c : Cpu} (hcontrol : c.MayControl) {e : Event}
    (he : e.writesIndexed = true) : WriteEffect c (c.next e) ∧ (c.next e).MayControl := by
  cases e with
  | refused k => exact nomatch he
  | carriedOut word pc bus =>
    simp only [Event.writesIndexed, Instruction.writesIndexed, Bool.and_eq_true,
      decide_eq_true_eq] at he
    obtain ⟨⟨hop, hfmt⟩, hfunct⟩ := he
    -- Beginning the instruction leaves what decides about it
    have hbegun : (c.begin pc word).MayControl := hcontrol
    have hwrite : (c.begin pc word).performCop0 ⟨word⟩ =
        (c.begin pc word).writeEntry Cop0.index := by
      rw [performCop0_operation hfmt hbegun, hfunct]
      rfl
    have hcontrol' : ((c.begin pc word).writeEntry Cop0.index).MayControl := hcontrol
    have heffect := (c.begin pc word).writeEffect_writeEntry.retire
    rw [next_carriedOut hop, hwrite]
    exact ⟨⟨heffect.tlb, heffect.registers, heffect.index⟩, hcontrol'.retire⟩

/-! ## There and back -/

/-- Reading and writing undo each other from `c` on, where `read` and `write` tell what
carrying out the one and the other can lead to. -/
structure EntryRoundTrip (read write : Cpu → Cpu → Prop) (c : Cpu) : Prop where
  /-- An entry that is read and written back is what it was, and so are the others. -/
  entries : ∀ {c₁ c₂}, c.tlb.Filled → read c c₁ → write c₁ c₂ → c₂.tlb = c.tlb
  /-- Registers that are written and read back are what is kept of them. -/
  registers : ∀ {c₁ c₂}, write c c₁ → read c₁ c₂ → c₂.entryRegisters = c.entryRegisters.kept
  /-- Either half is global then if both were. -/
  isGlobal : ∀ {c₁ c₂}, write c c₁ → read c₁ c₂ →
    (c₂.entryRegisters.lo0 &&& 1 = 1 ↔ c.entryRegisters.isGlobal) ∧
      (c₂.entryRegisters.lo1 &&& 1 = 1 ↔ c.entryRegisters.isGlobal)
  /-- Once more, the same entry is written and the same registers are read. -/
  again : ∀ {c₁ c₂ c₃ c₄}, write c c₁ → read c₁ c₂ → write c₂ c₃ → read c₃ c₄ →
    c₃.tlb = c₁.tlb ∧ c₄.entryRegisters = c₂.entryRegisters

section
variable {c c₁ c₂ : Cpu}

/-- An entry that was read and is written back. -/
private theorem tlb_read_write (hfilled : c.tlb.Filled) (hread : ReadEffect c c₁)
    (hwrite : WriteEffect c₁ c₂) : c₂.tlb = c.tlb := by
  have hsettled := hfilled.settled (c.entryIndex Cop0.index)
  have hback : c₁.entryRegisters.entry.stored = c.tlb.read (c.entryIndex Cop0.index) := by
    rw [hread.registers, TlbEntry.entry_registers, hsettled.unified, hsettled.stored]
  rw [hwrite.tlb, hread.tlb, hread.index]
  exact Tlb.write_of_stored_eq hback

/-- Registers that were written and are read back. -/
private theorem registers_write_read (hwrite : WriteEffect c c₁) (hread : ReadEffect c₁ c₂) :
    c₂.entryRegisters = c.entryRegisters.kept := by
  rw [hread.registers, hwrite.tlb, hwrite.index, Tlb.read_write, if_pos rfl,
    EntryRegisters.registers_stored]

/-- What was read back is written again to where it came from. -/
private theorem tlb_write_read_write {c₃ : Cpu} (hwrite : WriteEffect c c₁)
    (hread : ReadEffect c₁ c₂) (hagain : WriteEffect c₂ c₃) : c₃.tlb = c₁.tlb := by
  have hstored : c₂.entryRegisters.entry.stored = c₁.tlb.read (c₁.entryIndex Cop0.index) := by
    rw [registers_write_read hwrite hread, EntryRegisters.stored_kept, hwrite.tlb, hwrite.index,
      Tlb.read_write, if_pos rfl]
  rw [hagain.tlb, hread.tlb, hread.index]
  exact Tlb.write_of_stored_eq hstored

end

/-- All of it follows from the effects of the two instructions, as long as they have them. -/
private theorem entryRoundTrip_of_effects {read write : Cpu → Cpu → Prop} (able : Cpu → Prop)
    (hread : ∀ {c c'}, able c → read c c' → ReadEffect c c' ∧ able c')
    (hwrite : ∀ {c c'}, able c → write c c' → WriteEffect c c' ∧ able c')
    {c : Cpu} (hc : able c) : EntryRoundTrip read write c where
  entries := by
    intro c₁ c₂ hfilled h₁ h₂
    obtain ⟨heffect₁, hable₁⟩ := hread hc h₁
    exact tlb_read_write hfilled heffect₁ (hwrite hable₁ h₂).1
  registers := by
    intro c₁ c₂ h₁ h₂
    obtain ⟨heffect₁, hable₁⟩ := hwrite hc h₁
    exact registers_write_read heffect₁ (hread hable₁ h₂).1
  isGlobal := by
    intro c₁ c₂ h₁ h₂
    obtain ⟨heffect₁, hable₁⟩ := hwrite hc h₁
    rw [registers_write_read heffect₁ (hread hable₁ h₂).1]
    exact c.entryRegisters.isGlobal_kept
  -- The first write settles the entry, so that the second one stores it as it is
  again := by
    intro c₁ c₂ c₃ c₄ h₁ h₂ h₃ h₄
    obtain ⟨heffect₁, hable₁⟩ := hwrite hc h₁
    obtain ⟨heffect₂, hable₂⟩ := hread hable₁ h₂
    obtain ⟨heffect₃, hable₃⟩ := hwrite hable₂ h₃
    obtain ⟨heffect₄, -⟩ := hread hable₃ h₄
    refine ⟨tlb_write_read_write heffect₁ heffect₂ heffect₃, ?_⟩
    rw [registers_write_read heffect₃ heffect₄, registers_write_read heffect₁ heffect₂,
      EntryRegisters.kept_kept]

/-- Reading an entry and writing it back leaves the TLB as it was, if it was filled by TLBWI
and TLBWR, and writing an entry and reading it back leaves of the registers what can be
written and read any number of times.  This holds of the two operations in every state, and
wherever the coprocessor may be used also of the whole instructions, whatever else is taken
at the end of either. -/
theorem entry_round_trip (c : Cpu) :
    EntryRoundTrip (fun c c' => c' = c.readEntry) (fun c c' => c' = c.writeEntry Cop0.index) c ∧
      (c.MayControl →
        EntryRoundTrip (fun c c' => ∃ e : Event, e.readsIndexed = true ∧ c' = c.next e)
          (fun c c' => ∃ e : Event, e.writesIndexed = true ∧ c' = c.next e) c) := by
  constructor
  · apply entryRoundTrip_of_effects (fun _ => True) _ _ trivial
    · rintro c _ - rfl
      exact ⟨readEffect_readEntry c, trivial⟩
    · rintro c _ - rfl
      exact ⟨writeEffect_writeEntry c, trivial⟩
  · intro hcontrol
    -- The whole instructions have the effects of the operations, and the program stays permitted
    apply entryRoundTrip_of_effects MayControl _ _ hcontrol
    · rintro c _ hc ⟨e, he, rfl⟩
      exact readEffect_next hc he
    · rintro c _ hc ⟨e, he, rfl⟩
      exact writeEffect_next hc he

/-- A CPU just switched on, with more in the registers than an entry can hold, and with one
half of the entry global. -/
def overfull : Cpu where
  cop0 := ((((Cpu.initial.cop0.put Cop0.pageMask 0xFFFFFFFFFFFFFFFF).put Cop0.entryHi
    0x123456789ABCDEF0).put Cop0.entryLo0 0xFFFFFFFFFFFFFFFF).put Cop0.entryLo1
    0x8000000000000046).put Cop0.index 5
  tlb := Tlb.initial.write 5 (EntryRegisters.entry ⟨0x6000, 0x10007, 0x1007, 0x1047⟩)

/-- The mask overlaps the page, and the entry is not global. -/
theorem entry_round_trip_overfull :
    let read := Event.carriedOut 0x42000001 0xFFFFFFFF80000100 replacing.bus
    let write := Event.carriedOut 0x42000002 0xFFFFFFFF80000104 replacing.bus
    (overfull.after [read, write]).tlb = overfull.tlb ∧
      (overfull.after [write, read]).entryRegisters =
        ⟨0x01FFE000, 0x000000789A0000F0, 0x3FFFFFFE, 0x46⟩ ∧
      ¬ overfull.entryRegisters.isGlobal ∧
      (overfull.after [write, read, write]).tlb = (overfull.after [write]).tlb ∧
      (overfull.after [write, read, write, read]).entryRegisters =
        (overfull.after [write, read]).entryRegisters := by
  intro read write
  have hcontrol : overfull.MayControl := .inl (by decide)
  have hfilled : overfull.tlb.Filled := .written .reset 5 _
  have htrip := (entry_round_trip overfull).2 hcontrol
  have hread : ∀ c : Cpu, ∃ e : Event, e.readsIndexed = true ∧ c.next read = c.next e :=
    fun c => ⟨read, by decide, rfl⟩
  have hwrite : ∀ c : Cpu, ∃ e : Event, e.writesIndexed = true ∧ c.next write = c.next e :=
    fun c => ⟨write, by decide, rfl⟩
  -- The values are those that the registers keep, and the theorem says that they are kept
  have hkept := htrip.registers (hwrite _) (hread _)
  have hglobal := (htrip.isGlobal (hwrite _) (hread _)).1
  rw [hkept] at hglobal
  have hagain := htrip.again (hwrite _) (hread _) (hwrite _) (hread _)
  have hhalf : ¬ overfull.entryRegisters.kept.lo0 &&& 1 = 1 := by decide
  exact ⟨htrip.entries hfilled (hread _) (hwrite _), hkept, fun h => hhalf (hglobal.mpr h),
    hagain.1, hagain.2⟩

/-! ## Runs -/

/-- An event writes from the registers, or it writes nothing. -/
private theorem filled_next {c : Cpu} (e : Event) (h : c.tlb.Filled) : (c.next e).tlb.Filled := by
  rcases c.tlb_next e with hsame | ⟨-, hwritten⟩ | ⟨-, hwritten⟩
  · exact hsame ▸ h
  · exact hwritten ▸ h.written _ c.entryRegisters
  · exact hwritten ▸ h.written _ c.entryRegisters

/-- Whatever happens to a CPU from power-on, its TLB is one that TLBWI and TLBWR have filled. -/
theorem filled_of_activity {start c : Cpu} (hstart : start.tlb = .initial)
    (h : Relation.ReflTransGen Activity start c) : c.tlb.Filled := by
  induction h with
  | refl => exact hstart ▸ .reset
  | tail _ hactivity ih =>
    cases hactivity with
    | call hcall => exact @ComesTo.preserves (·.tlb.Filled) filled_next _ _ hcall.comesTo ih
    | outside ops hcop0 htlb => exact htlb ▸ ih

end Cpu

end Console64
