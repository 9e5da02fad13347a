import Console64.Proofs.PageTranslation
import Console64.Proofs.WiredEntries
import Mathlib.Algebra.Group.Nat.Defs

/-!
# What an unwritten TLB entry translates

At reset the entries hold the tags of pages in a hole of the address space, behind the last
page of the kernel's mapped segment.  An entry compares only some bits of an address, so
the tags stand for other addresses as well; but no segment that the TLB maps holds any of
them.  Until a program writes an entry, the entry translates nothing.

## Key results

- `Tlb.read_afterWrites`: an entry is as at reset, or as its last write left it
- `Tlb.translate_cases`: the first entry that covers an address gives the answer
- `Cpu.not_covers_initial`: a tag of reset covers no address of a mapped segment
- `Cpu.mapped_by_written`: what translates an address has been written
- `Cpu.written_of_activity`: a run changes the TLB by writes only
-/

namespace Console64

/-- What an entry answers for an address that it covers. -/
def TlbEntry.answer (e : TlbEntry) (address : UInt64) (store : Bool) : Except TlbFault UInt32 :=
  let frame := e.frameFor address
  if frame &&& 2 = 0 then .error .invalid
  else if store && frame &&& 4 = 0 then .error .modified
  else .ok (e.physical frame address)

namespace Tlb

/-! ## Writes -/

/-- Entries written one after the other. -/
def afterWrites (t : Tlb) (writes : List (Fin 32 × TlbEntry)) : Tlb :=
  writes.foldl (fun t w => t.write w.1 w.2) t

/-- Writes after other writes. -/
theorem afterWrites_append (t : Tlb) (before writes : List (Fin 32 × TlbEntry)) :
    t.afterWrites (before ++ writes) = (t.afterWrites before).afterWrites writes :=
  List.foldl_append

/-- The TLB has come about by writes since reset. -/
def Written (t : Tlb) : Prop := ∃ writes, t = initial.afterWrites writes

/-- One write more. -/
theorem Written.write {t : Tlb} (h : t.Written) (n : Fin 32) (e : TlbEntry) :
    (t.write n e).Written := by
  obtain ⟨writes, rfl⟩ := h
  exact ⟨writes ++ [(n, e)], (afterWrites_append initial writes [(n, e)]).symm⟩

/-- The last of the writes to entry `n` wrote `e`. -/
def LastWrite (writes : List (Fin 32 × TlbEntry)) (n : Fin 32) (e : TlbEntry) : Prop :=
  ∃ before after, writes = before ++ (n, e) :: after ∧ ∀ w ∈ after, w.1 ≠ n

/-- A write is seen in its entry and in no other. -/
theorem read_write (t : Tlb) (n k : Fin 32) (e : TlbEntry) :
    (t.write n e).read k = if n = k then e.stored else t.read k :=
  get_replaceAt t.entries n k e.stored

/-- An entry is as it was if it is not written, and else as the last write to it left it. -/
theorem read_afterWrites (t : Tlb) (writes : List (Fin 32 × TlbEntry)) (n : Fin 32) :
    ((∀ w ∈ writes, w.1 ≠ n) ∧ (t.afterWrites writes).read n = t.read n) ∨
      ∃ e, LastWrite writes n e ∧ (t.afterWrites writes).read n = e.stored := by
  induction writes generalizing t with
  | nil => exact .inl ⟨fun _ h => (nomatch h), rfl⟩
  | cons w writes ih =>
    rcases ih (t.write w.1 w.2) with ⟨hothers, hread⟩ | ⟨e, ⟨before, after, rfl, hlast⟩, hread⟩
    · rw [read_write] at hread
      -- A later write to the entry decides; without one this write does, if it is to the entry
      by_cases hw : w.1 = n
      · subst hw
        rw [if_pos rfl] at hread
        exact .inr ⟨w.2, ⟨[], writes, rfl, hothers⟩, hread⟩
      · rw [if_neg hw] at hread
        exact .inl ⟨List.forall_mem_cons.mpr ⟨hw, hothers⟩, hread⟩
    · exact .inr ⟨e, ⟨w :: before, after, rfl, hlast⟩, hread⟩

/-! ## The entry that answers -/

/-- Entry `n` is the first that covers the address. -/
structure Selects (t : Tlb) (address : UInt64) (space : UInt8) (n : Fin 32) : Prop where
  covers : (t.read n).covers address space = true
  first : ∀ k < n, (t.read k).covers address space = false

/-- The first entry that covers an address answers, and what no entry covers is missed. -/
theorem translate_cases (t : Tlb) (a : UInt64) (space : UInt8) (store : Bool) :
    (∃ n, t.Selects a space n ∧ t.translate a space store = (t.read n).answer a store) ∨
      ((∀ n, (t.read n).covers a space = false) ∧ t.translate a space store = .error .miss) := by
  cases hfound : t.entries.find? (·.covers a space) with
  | some e =>
    obtain ⟨hcovers, n, hn, rfl, hbefore⟩ := Vector.find?_eq_some_iff_getElem.mp hfound
    refine .inl ⟨⟨n, hn⟩, ⟨hcovers, fun k hk => ?_⟩, ?_⟩
    · exact (Bool.not_eq_true' _).mp (hbefore k hk)
    · simp only [translate, hfound]
      rfl
  | none =>
    refine .inr ⟨fun n => ?_, by simp only [translate, hfound]⟩
    exact Bool.eq_false_iff.mpr (Vector.find?_eq_none.mp hfound _ (Vector.getElem_mem n.isLt))

/-! ## The tags of reset -/

/-- The bits of a tag that all tags of reset compare and have in common. -/
private def sharedBits : UInt64 := 0xC00000FFFFFC0000

/-- All tags of reset compare these bits -/
private theorem comparedBits_initial (n : Fin 32) :
    (initial.read n).comparedBits &&& sharedBits = sharedBits := by
  revert n
  decide

/-- and have them alike. -/
private theorem hi_initial (n : Fin 32) : (initial.read n).hi &&& sharedBits = unusedPage := by
  revert n
  decide

/-- The bits from `2 ^ low` on under a mask of `width` bits there. -/
private theorem and_field (x mask low width : Nat) (hmask : mask / 2 ^ low = 2 ^ width - 1) :
    (x &&& mask) / 2 ^ low = x / 2 ^ low % 2 ^ width := by
  rw [Nat.and_div_two_pow, hmask, Nat.and_two_pow_sub_one_eq_mod]

/-- What a tag of reset covers lies in the kernel's mapped region, and there, as far as
offsets are compared, in the pages from `unusedPage` on. -/
private theorem covers_initial {n : Fin 32} {a : UInt64} {space : UInt8}
    (h : (initial.read n).covers a space = true) :
    a.toNat / 2 ^ 62 = 3 ∧ a.toNat % 2 ^ 40 / 2 ^ 18 = 0x3FE000 := by
  simp only [TlbEntry.covers, Bool.and_eq_true, decide_eq_true_eq] at h
  have hshared : a &&& sharedBits = unusedPage := by
    rw [← comparedBits_initial n, ← UInt64.and_assoc, h.1, UInt64.and_assoc,
      comparedBits_initial, hi_initial]
  -- The bits that every entry compares, as a field at the top and one in the middle
  have hnat : a.toNat &&& 0xC00000FFFFFC0000 = 0xC00000FF80000000 := by
    have := congrArg UInt64.toNat hshared
    rwa [UInt64.toNat_and] at this
  have hlt := a.toNat_lt
  have hregion := and_field a.toNat 0xC00000FFFFFC0000 62 2 rfl
  have hoffset := and_field (a.toNat % 2 ^ 40) (0xC00000FFFFFC0000 % 2 ^ 40) 18 22 rfl
  rw [← Nat.and_mod_two_pow, hnat] at hoffset
  rw [hnat] at hregion
  omega

end Tlb

namespace Cpu

/-- Where the mapped segments of the 64-bit address space lie. -/
private theorem toNat_of_wide_mapped {k : Privilege} {a : UInt64}
    (h : wideSegment k a = .mapped) :
    a.toNat ≤ 0xFFFFFFFFFF ∨ (0x4000000000000000 ≤ a.toNat ∧ a.toNat ≤ 0x400000FFFFFFFFFF) ∨
      (0xC000000000000000 ≤ a.toNat ∧ a.toNat ≤ 0xC00000FF7FFFFFFF) ∨
      0xFFFFFFFFC0000000 ≤ a.toNat := by
  have hnat : ∀ least greatest, within least greatest a = true ↔
      least.toNat ≤ a.toNat ∧ a.toNat ≤ greatest.toNat := by
    intro least greatest
    simp only [within, UInt64.le_iff_toNat_le, Bool.and_eq_true, decide_eq_true_eq]
  simp only [wideSegment] at h
  repeat' split at h
  all_goals cases h
  all_goals simp only [Bool.and_eq_true, hnat, UInt64.toNat_ofNat] at *
  all_goals omega

/-- Where those of the 32-bit address space lie. -/
private theorem toNat_of_narrow_mapped {k : Privilege} {a : UInt32}
    (h : narrowSegment k a = .mapped) : a.toNat < 0x80000000 ∨ 0xC0000000 ≤ a.toNat := by
  simp only [narrowSegment] at h
  repeat' split at h
  all_goals cases h
  all_goals simp only [UInt32.lt_iff_toNat_lt, UInt32.toNat_ofNat] at *
  all_goals omega

/-- A tag of reset covers no address that the TLB is asked for. -/
theorem not_covers_initial {c : Cpu} {a : UInt64} (hmapped : c.segmentOf a = .mapped)
    (n : Fin 32) (space : UInt8) : (Tlb.initial.read n).covers (c.pageOf a) space = false := by
  rw [← Bool.not_eq_true]
  intro hcovers
  obtain ⟨hregion, hpage⟩ := Tlb.covers_initial hcovers
  cases hwide : c.cop0.wideAddresses with
  | true =>
    simp only [segmentOf, pageOf, hwide, if_true] at hmapped hregion hpage
    have := toNat_of_wide_mapped hmapped
    omega
  | false =>
    simp only [segmentOf, pageOf, hwide, Bool.false_eq_true, if_false] at hmapped hpage
    have := toNat_of_narrow_mapped hmapped
    have := a.toUInt32.toNat_lt
    rw [toNat_signExtend32] at hpage
    -- With the sign filled in, the tags stand for addresses of an unmapped segment
    split at hpage <;> omega

/-- An address of a mapped segment is what the TLB says of its page. -/
private theorem resolve_mapped {c : Cpu} {a : UInt64} (hmapped : c.segmentOf a = .mapped)
    (access : Access) :
    c.resolve a access =
      (c.tlb.translate (c.pageOf a) c.cop0.addressSpace (access = .store)).mapError
        (tlbCondition c.cop0.wideAddresses (access = .store) a) := by
  rw [resolve_eq, hmapped]
  cases c.tlb.translate (c.pageOf a) c.cop0.addressSpace (access = .store) <;> rfl

/-- After any writes to the TLB as it is at reset, an address of a mapped segment is
translated by what a write has left, whatever the mode, the width of addresses and the
address space: the first entry that covers it has been written, and answers as the last
write to it says.  What no entry covers is missed. -/
theorem mapped_by_written {writes : List (Fin 32 × TlbEntry)} {c : Cpu} {a : UInt64}
    (htlb : c.tlb = Tlb.initial.afterWrites writes) (hmapped : c.segmentOf a = .mapped)
    (access : Access) :
    let page := c.pageOf a
    let space := c.cop0.addressSpace
    let answer := c.tlb.translate page space (access = .store)
    (c.resolve a access =
      answer.mapError (tlbCondition c.cop0.wideAddresses (access = .store) a)) ∧
    ((∃ n e, c.tlb.Selects page space n ∧ Tlb.LastWrite writes n e ∧ c.tlb.read n = e.stored ∧
        answer = e.stored.answer page (access = .store)) ∨
      ((∀ n, (c.tlb.read n).covers page space = false) ∧ answer = .error .miss)) := by
  intro page space answer
  constructor
  · exact resolve_mapped hmapped access
  · rcases c.tlb.translate_cases page space (access = .store) with ⟨n, hselects, hanswer⟩ | hmiss
    · have hread := Tlb.read_afterWrites Tlb.initial writes n
      rw [← htlb] at hread
      rcases hread with ⟨-, hreset⟩ | ⟨e, hlast, hwritten⟩
      · -- An unwritten entry does not cover the address
        have hcovers := hselects.covers
        rw [hreset, not_covers_initial hmapped] at hcovers
        exact Bool.noConfusion hcovers
      · exact .inl ⟨n, e, hselects, hlast, hwritten, hwritten ▸ hanswer⟩
    · exact .inr hmiss

/-- A CPU just switched on, but with one pair of pages mapped. -/
def oneMapped : Cpu :=
  { Cpu.initial with tlb := Tlb.initial.afterWrites [(5, ⟨0, 0x2000, 0x1007, 0x1047⟩)] }

/-- Entry 5 maps its page: an address in it is translated, and by what was written. -/
theorem mapped_by_written_oneMapped :
    let page := oneMapped.pageOf 0x2ABC
    let space := oneMapped.cop0.addressSpace
    oneMapped.resolve 0x2ABC .load = .ok 0x40ABC ∧
      ((∃ n e, oneMapped.tlb.Selects page space n ∧
          Tlb.LastWrite [(5, ⟨0, 0x2000, 0x1007, 0x1047⟩)] n e ∧ oneMapped.tlb.read n = e.stored ∧
          oneMapped.tlb.translate page space false = e.stored.answer page false) ∨
        ((∀ n, (oneMapped.tlb.read n).covers page space = false) ∧
          oneMapped.tlb.translate page space false = .error .miss)) :=
  ⟨rfl, (mapped_by_written (c := oneMapped) (a := 0x2ABC) rfl (by decide +kernel) .load).2⟩

/-! ## Runs -/

/-- An event writes one entry or none. -/
private theorem written_next {c : Cpu} (h : c.tlb.Written) (e : Event) :
    (c.next e).tlb.Written := by
  rcases c.tlb_next e with hsame | ⟨-, hwritten⟩ | ⟨-, hwritten⟩
  · exact hsame ▸ h
  · exact hwritten ▸ h.write _ _
  · exact hwritten ▸ h.write _ _

/-- So it is with several of them. -/
private theorem written_after {c : Cpu} (h : c.tlb.Written) (events : List Event) :
    (c.after events).tlb.Written := by
  induction events generalizing c with
  | nil => exact h
  | cons e events ih => exact ih (written_next h e)

/-- A run from power-on changes the TLB by writes only, so that all of the above holds of the
TLB that it comes to. -/
theorem written_of_activity {start c : Cpu} (hstart : start.tlb = .initial)
    (h : Relation.ReflTransGen Activity start c) : c.tlb.Written := by
  induction h with
  | refl => exact ⟨[], hstart⟩
  | tail _ hactivity ih =>
    cases hactivity with
    | call hcall =>
      obtain ⟨events, rfl⟩ := hcall.comesTo
      exact written_after ih events
    | outside ops hcop0 htlb => exact htlb ▸ ih

end Cpu

end Console64
