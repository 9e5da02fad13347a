import Console64.Fpu.Basic
import Mathlib.Data.List.Induction
import Mathlib.Data.Nat.Bitwise

/-!
# Words and doubles in the floating-point registers

The floating-point registers are seen as words and as doubles, and what these views share depends
on the register mode.  Narrow registers are sixteen pairs: a double is the two words of its pair,
so that all that is ever written comes to words, and a word holds what was written to it last.
Wide registers do not share anything, and a word is the lower half of its register.

## Key results

- `Fpu.apply_of_narrow`: a write to narrow registers as writes of words
- `Fpu.readWord_writeWords`: words hold what was written to them last
- `Fpu.readDouble_writeAll_of_wide`: a wide register depends on the writes to it only
- `Fpu.views`: both views after any writes, in either mode
-/

namespace Console64

/-! ## The two words of a double -/

/-- The lower word of a double. -/
def lowWord (v : UInt64) : UInt32 := v.toUInt32

/-- The upper one. -/
def highWord (v : UInt64) : UInt32 := (v >>> 32).toUInt32

/-- The double of these two words. -/
def joined (high low : UInt32) : UInt64 := (high.toUInt64 <<< 32) ||| low.toUInt64

/-- The bits of the two words are those of the double. -/
private theorem getLsbD_joined (high low : UInt32) {k : Nat} (hk : k < 64) :
    (joined high low).toBitVec.getLsbD k =
      if k < 32 then low.toBitVec.getLsbD k else high.toBitVec.getLsbD (k - 32) := by
  by_cases hlow : k < 32
  · simp [joined, hlow, hk]
  -- The lower word has no bits there
  · have hpast : low.toBitVec.getLsbD k = false := BitVec.getLsbD_of_ge _ _ (by omega)
    simp [joined, hlow, hk, hpast]

/-- The lower word can be taken out again. -/
@[simp] theorem lowWord_joined (high low : UInt32) : lowWord (joined high low) = low := by
  apply UInt32.toBitVec_inj.mp
  apply BitVec.eq_of_getLsbD_eq
  intro k hk
  rw [lowWord, UInt64.toBitVec_toUInt32, BitVec.getLsbD_setWidth, decide_eq_true hk, Bool.true_and,
    getLsbD_joined _ _ (by omega), if_pos hk]

/-- The upper word starts at bit 32. -/
private theorem getLsbD_highWord (v : UInt64) {k : Nat} (hk : k < 32) :
    (highWord v).toBitVec.getLsbD k = v.toBitVec.getLsbD (32 + k) := by
  simp [highWord, hk]

/-- So can the upper one. -/
@[simp] theorem highWord_joined (high low : UInt32) : highWord (joined high low) = high := by
  apply UInt32.toBitVec_inj.mp
  apply BitVec.eq_of_getLsbD_eq
  intro k hk
  rw [getLsbD_highWord _ hk, getLsbD_joined _ _ (by omega), if_neg (by omega),
    Nat.add_sub_cancel_left]

/-- A double is its two words. -/
theorem joined_words (v : UInt64) : joined (highWord v) (lowWord v) = v := by
  apply UInt64.toBitVec_inj.mp
  apply BitVec.eq_of_getLsbD_eq
  intro k hk
  rw [getLsbD_joined _ _ hk]
  split
  case isTrue hlow => simp [lowWord, hlow]
  case isFalse hhigh =>
    rw [getLsbD_highWord _ (by omega), Nat.add_sub_cancel' (by omega)]

/-- The mask of the lower word. -/
private theorem getLsbD_mask (k : Nat) :
    (0xFFFFFFFF : UInt64).toBitVec.getLsbD k = decide (k < 32) := by
  show (2 ^ 32 - 1 : Nat).testBit k = decide (k < 32)
  exact Nat.testBit_two_pow_sub_one 32 k

/-- A word put in the place of the low one. -/
private theorem replace_low (v : UInt64) (w : UInt32) :
    (v &&& 0xFFFFFFFF00000000) ||| w.toUInt64 = joined (highWord v) w := by
  have hmask : (0xFFFFFFFF00000000 : UInt64) = ~~~0xFFFFFFFF := by decide
  apply UInt64.toBitVec_inj.mp
  apply BitVec.eq_of_getLsbD_eq
  intro k hk
  rw [getLsbD_joined _ _ hk, hmask, UInt64.toBitVec_or, UInt64.toBitVec_and, UInt64.toBitVec_not,
    BitVec.getLsbD_or, BitVec.getLsbD_and, BitVec.getLsbD_not, getLsbD_mask]
  -- Below bit 32 the mask clears, and the word is put there
  split
  case isTrue hlow => simp [hlow, hk]
  case isFalse hhigh =>
    have hpast : w.toBitVec.getLsbD k = false := BitVec.getLsbD_of_ge _ _ (by omega)
    rw [getLsbD_highWord _ (by omega), Nat.add_sub_cancel' (by omega)]
    simp [hhigh, hk, hpast]

/-- A word put in the place of the high one. -/
private theorem replace_high (v : UInt64) (w : UInt32) :
    (v &&& 0xFFFFFFFF) ||| (w.toUInt64 <<< (32 : UInt64)) = joined w (lowWord v) := by
  apply UInt64.toBitVec_inj.mp
  apply BitVec.eq_of_getLsbD_eq
  intro k hk
  rw [getLsbD_joined _ _ hk, UInt64.toBitVec_or, UInt64.toBitVec_and, BitVec.getLsbD_or,
    BitVec.getLsbD_and, getLsbD_mask]
  split
  case isTrue hlow => simp [lowWord, hlow]
  case isFalse hhigh => simp [hhigh, hk]

/-! ## Histories of writes -/

/-- A write to the floating-point registers. -/
inductive FpuWrite where
  | word (r : RegisterIndex) (v : UInt32)
  | double (r : RegisterIndex) (v : UInt64)
  deriving DecidableEq, Repr

/-- The odd register of a pair. -/
def Fpu.oddOf (r : RegisterIndex) : RegisterIndex := Fin.ofNat 32 (r.val - r.val % 2 + 1)

namespace FpuWrite

/-- The register that is written to. -/
def target : FpuWrite → RegisterIndex
  | word r _ => r
  | double r _ => r

/-- The words of narrow registers that are written: a double writes both words of its pair. -/
def words : FpuWrite → List (RegisterIndex × UInt32)
  | word r v => [(r, v)]
  | double r v => [(Fpu.evenOf r, lowWord v), (Fpu.oddOf r, highWord v)]

/-- What becomes of a wide register that is written to: a word replaces the lower half. -/
def replace (old : UInt64) : FpuWrite → UInt64
  | word _ v => joined (highWord old) v
  | double _ v => v

end FpuWrite

/-- What was written last under this key. -/
def lastTo {κ α : Type} [BEq κ] (key : κ) (writes : List (κ × α)) : Option α :=
  writes.reverse.lookup key

/-- A further write is the last one under its key, and changes nothing under the others. -/
theorem lastTo_append_singleton {κ α : Type} [DecidableEq κ] (key k : κ) (writes : List (κ × α))
    (v : α) : lastTo key (writes ++ [(k, v)]) = if k = key then some v else lastTo key writes := by
  rw [lastTo, List.reverse_append, List.reverse_singleton, List.singleton_append, List.lookup_cons]
  by_cases h : k = key
  · subst h
    simp
  · rw [if_neg h, beq_false_of_ne (Ne.symm h)]
    rfl

namespace Fpu

/-- The unit after a write. -/
def apply (u : Fpu) : FpuWrite → Fpu
  | .word r v => u.writeWord r v
  | .double r v => u.writeDouble r v

/-- Several writes, in order. -/
def writeAll (u : Fpu) (ws : List FpuWrite) : Fpu := ws.foldl apply u

/-- Several words, in order. -/
def writeWords (u : Fpu) (ws : List (RegisterIndex × UInt32)) : Fpu :=
  ws.foldl (fun u w => u.writeWord w.1 w.2) u

/-- The unit in a register mode. -/
def inMode (u : Fpu) (wide : Bool) : Fpu := { u with wide }

/-- A register that is written has the value, the others stay. -/
@[simp] theorem get_put (u : Fpu) (r s : RegisterIndex) (v : UInt64) :
    (u.put r v).registers.get s = if r = s then v else u.registers.get s :=
  get_replaceAt u.registers r s v

/-- Of two writes to a register the second one counts. -/
@[simp] theorem put_put (u : Fpu) (r : RegisterIndex) (v w : UInt64) :
    (u.put r v).put r w = u.put r w := by
  simp only [put, replaceAt, Vector.set_set]

/-! ## Halves of registers -/

/-- A half of a register. -/
structure Half where
  register : RegisterIndex
  upper : Bool
  deriving DecidableEq

/-- Where a word is. -/
def place (wide : Bool) (r : RegisterIndex) : Half :=
  if wide || r.val % 2 = 0 then ⟨r, false⟩ else ⟨evenOf r, true⟩

/-- Different words are in different places, in either mode. -/
theorem place_inj {wide : Bool} {r s : RegisterIndex} : place wide r = place wide s ↔ r = s := by
  refine ⟨fun h => ?_, fun h => h ▸ rfl⟩
  cases wide with
  | true => exact congrArg Half.register h
  | false =>
    revert h
    revert r s
    decide

/-- What a half holds. -/
def half (u : Fpu) (h : Half) : UInt32 :=
  if h.upper then highWord (u.registers.get h.register) else lowWord (u.registers.get h.register)

/-- Replace a half. -/
def setHalf (u : Fpu) (h : Half) (v : UInt32) : Fpu :=
  let old := u.registers.get h.register
  u.put h.register (if h.upper then joined v (lowWord old) else joined (highWord old) v)

/-- A half that is replaced is there, and no other half has changed. -/
theorem half_setHalf (u : Fpu) (h k : Half) (v : UInt32) :
    (u.setHalf h v).half k = if h = k then v else u.half k := by
  obtain ⟨r, upper⟩ := h
  obtain ⟨s, other⟩ := k
  -- Two halves of one register, or of two
  by_cases hr : r = s
  · subst hr
    cases upper <;> cases other <;> simp [half, setHalf]
  · simp [half, setHalf, hr]

/-- A word is read where its place is. -/
theorem readWord_eq (u : Fpu) (r : RegisterIndex) : u.readWord r = u.half (place u.wide r) := by
  rw [readWord, place, holdsLowHalf]
  split <;> rfl

/-- It is written there too. -/
theorem writeWord_eq (u : Fpu) (r : RegisterIndex) (v : UInt32) :
    u.writeWord r v = u.setHalf (place u.wide r) v := by
  rw [writeWord, place, holdsLowHalf, replace_low, replace_high]
  split <;> rfl

/-- A word that is written is there, and no other has changed. -/
theorem readWord_writeWord (u : Fpu) (r s : RegisterIndex) (v : UInt32) :
    (u.writeWord r v).readWord s = if r = s then v else u.readWord s := by
  have hwide : (u.setHalf (place u.wide r) v).wide = u.wide := rfl
  rw [writeWord_eq, readWord_eq, readWord_eq, hwide, half_setHalf]
  simp only [place_inj]

/-- So it is with all that are written: each word holds the last one. -/
theorem readWord_writeWords (u : Fpu) (ws : List (RegisterIndex × UInt32)) (r : RegisterIndex) :
    (u.writeWords ws).readWord r = (lastTo r ws).getD (u.readWord r) := by
  induction ws using List.reverseRecOn with
  | nil => rfl
  | append_singleton ws w ih =>
    rw [writeWords, List.foldl_append, List.foldl_cons, List.foldl_nil, readWord_writeWord,
      lastTo_append_singleton]
    split
    · rfl
    · exact ih

/-! ## Narrow registers -/

/-- The word of an even register is the lower half of the pair. -/
theorem place_evenOf : ∀ r, place false (evenOf r) = ⟨evenOf r, false⟩ := by decide

/-- That of the odd register is the upper half of the same one. -/
theorem place_oddOf : ∀ r, place false (oddOf r) = ⟨evenOf r, true⟩ := by decide

/-- A double of narrow registers is two words, and they are written one after the other. -/
theorem apply_of_narrow {u : Fpu} (h : u.wide = false) (w : FpuWrite) :
    u.apply w = u.writeWords w.words := by
  cases w with
  | word r v => rfl
  | double r v =>
    have hwide : (u.setHalf ⟨evenOf r, false⟩ (lowWord v)).wide = false := h
    show u.writeDouble r v = (u.writeWord (evenOf r) (lowWord v)).writeWord (oddOf r) (highWord v)
    -- Both halves of the pair are replaced, so that the double is all that is left
    rw [writeWord_eq u, h, place_evenOf, writeWord_eq, hwide, place_oddOf, writeDouble, h]
    simp [setHalf, joined_words]

/-- No write changes the mode. -/
theorem wide_apply (u : Fpu) (w : FpuWrite) : (u.apply w).wide = u.wide := by
  cases w with
  | word r v =>
    rw [apply, writeWord_eq]
    rfl
  | double r v => rfl

/-- So several writes do not either. -/
theorem wide_writeAll (u : Fpu) (ws : List FpuWrite) : (u.writeAll ws).wide = u.wide := by
  induction ws using List.reverseRecOn with
  | nil => rfl
  | append_singleton ws w ih =>
    rw [writeAll, List.foldl_append]
    exact (wide_apply _ w).trans ih

/-- All writes come to words. -/
theorem writeAll_of_narrow {u : Fpu} (h : u.wide = false) (ws : List FpuWrite) :
    u.writeAll ws = u.writeWords (ws.flatMap FpuWrite.words) := by
  -- Induction on the writes, from whatever unit the first one leaves
  induction ws generalizing u with
  | nil => rfl
  | cons w ws ih =>
    rw [List.flatMap_cons, writeWords, List.foldl_append, writeAll, List.foldl_cons]
    refine (ih ((wide_apply u w).trans h)).trans ?_
    rw [apply_of_narrow h]
    rfl

/-- A double is the two words of its pair. -/
theorem readDouble_of_narrow {u : Fpu} (h : u.wide = false) (r : RegisterIndex) :
    u.readDouble r = joined (u.readWord (oddOf r)) (u.readWord (evenOf r)) := by
  rw [readWord_eq, readWord_eq, h, place_evenOf, place_oddOf, readDouble, h]
  exact (joined_words _).symm

/-- No write reaches an odd register. -/
theorem get_apply_of_odd {u : Fpu} (h : u.wide = false) {r : RegisterIndex} (hr : r.val % 2 = 1)
    (w : FpuWrite) : (u.apply w).registers.get r = u.registers.get r := by
  -- Both views go to even registers, which there are few enough of to try
  have heven : ∀ s, evenOf s ≠ r := by
    revert hr
    revert r
    decide
  have hplace : ∀ s, (place false s).register ≠ r := by
    revert hr
    revert r
    decide
  cases w with
  | word s v =>
    rw [apply, writeWord_eq, h, setHalf, get_put, if_neg (hplace s)]
  | double s v =>
    rw [apply, writeDouble, h, get_put]
    exact if_neg (heven s)

/-- So it is after any number of writes. -/
theorem get_writeAll_of_odd {u : Fpu} (h : u.wide = false) {r : RegisterIndex}
    (hr : r.val % 2 = 1) (ws : List FpuWrite) :
    (u.writeAll ws).registers.get r = u.registers.get r := by
  induction ws generalizing u with
  | nil => rfl
  | cons w ws ih => exact (ih ((wide_apply u w).trans h)).trans (get_apply_of_odd h hr w)

/-! ## Wide registers -/

/-- A write concerns the register that it goes to, and no other. -/
theorem readDouble_apply_of_wide {u : Fpu} (h : u.wide = true) (w : FpuWrite) (r : RegisterIndex) :
    (u.apply w).readDouble r =
      if w.target = r then FpuWrite.replace (u.readDouble r) w else u.readDouble r := by
  -- In this mode a double is its register
  have hread : ∀ v : Fpu, v.wide = true → v.readDouble r = v.registers.get r := by
    intro v hv
    rw [readDouble, hv]
    rfl
  rw [hread _ ((wide_apply u w).trans h), hread u h]
  cases w with
  | word s v =>
    have hplace : place u.wide s = ⟨s, false⟩ := by
      rw [h]
      rfl
    rw [apply, writeWord_eq, hplace, setHalf, get_put]
    split
    case isTrue hs =>
      subst hs
      exact (if_pos rfl).symm
    case isFalse hs => exact (if_neg hs).symm
  | double s v =>
    rw [apply, writeDouble, h, get_put]
    rfl

/-- So a register depends on the writes to it only. -/
theorem readDouble_writeAll_of_wide {u : Fpu} (h : u.wide = true) (ws : List FpuWrite)
    (r : RegisterIndex) :
    (u.writeAll ws).readDouble r =
      (ws.filter (·.target = r)).foldl FpuWrite.replace (u.readDouble r) := by
  induction ws generalizing u with
  | nil => rfl
  | cons w ws ih =>
    have hrest := ih ((wide_apply u w).trans h)
    rw [readDouble_apply_of_wide h] at hrest
    refine hrest.trans ?_
    by_cases hw : w.target = r
    · rw [if_pos hw, List.filter_cons, if_pos (decide_eq_true hw), List.foldl_cons]
    · rw [if_neg hw, List.filter_cons, if_neg (by simpa using hw)]

/-- A word is the lower half of its register. -/
theorem readWord_of_wide {u : Fpu} (h : u.wide = true) (r : RegisterIndex) :
    u.readWord r = lowWord (u.readDouble r) := by
  rw [readWord, holdsLowHalf, readDouble, h]
  rfl

/-! ## Views -/

/-- The views of two units with the same registers, in the same mode, are the same. -/
theorem readWord_congr {u v : Fpu} (hregisters : u.registers = v.registers)
    (hmode : u.wide = v.wide) (r : RegisterIndex) : u.readWord r = v.readWord r := by
  rw [readWord_eq, readWord_eq, hmode]
  simp only [half, hregisters]

/-- So it is with doubles. -/
theorem readDouble_congr {u v : Fpu} (hregisters : u.registers = v.registers)
    (hmode : u.wide = v.wide) (r : RegisterIndex) : u.readDouble r = v.readDouble r := by
  rw [readDouble, readDouble, hregisters, hmode]

/-- The same write to the same registers leaves the same. -/
theorem registers_apply_congr {u v : Fpu} (hregisters : u.registers = v.registers)
    (hmode : u.wide = v.wide) (w : FpuWrite) : (u.apply w).registers = (v.apply w).registers := by
  cases w with
  | word r x =>
    rw [apply, apply, writeWord_eq, writeWord_eq, hmode]
    simp only [setHalf, put, hregisters]
  | double r x => simp only [apply, writeDouble, put, hregisters, hmode]

/-- So do the same writes. -/
theorem registers_writeAll_congr {u v : Fpu} (hregisters : u.registers = v.registers)
    (hmode : u.wide = v.wide) (ws : List FpuWrite) :
    (u.writeAll ws).registers = (v.writeAll ws).registers := by
  induction ws generalizing u v with
  | nil => exact hregisters
  | cons w ws ih =>
    exact ih (registers_apply_congr hregisters hmode w)
      ((wide_apply u w).trans (hmode.trans (wide_apply v w).symm))

/-- What the two views show after some writes, in either mode. -/
structure Views (u : Fpu) (ws : List FpuWrite) : Prop where
  /-- Words hold what was written to them last. -/
  narrowWord : u.wide = false → ∀ r,
    (u.writeAll ws).readWord r =
      (lastTo r (ws.flatMap FpuWrite.words)).getD (u.readWord r)
  narrowDouble : u.wide = false → ∀ r,
    (u.writeAll ws).readDouble r =
      joined ((u.writeAll ws).readWord (oddOf r)) ((u.writeAll ws).readWord (evenOf r))
  narrowOdd : u.wide = false → ∀ r, r.val % 2 = 1 →
    (u.writeAll ws).registers.get r = u.registers.get r
  /-- A register is what the writes to it have made of it. -/
  wideDouble : u.wide = true → ∀ r,
    (u.writeAll ws).readDouble r =
      (ws.filter (·.target = r)).foldl FpuWrite.replace (u.readDouble r)
  wideWord : u.wide = true → ∀ r,
    (u.writeAll ws).readWord r = lowWord ((u.writeAll ws).readDouble r)

/-- Both views are as they should be, after any writes. -/
theorem views (u : Fpu) (ws : List FpuWrite) : Views u ws where
  narrowWord h r := by rw [writeAll_of_narrow h, readWord_writeWords]
  narrowDouble h r := readDouble_of_narrow ((wide_writeAll u ws).trans h) r
  narrowOdd h r hr := get_writeAll_of_odd h hr ws
  wideDouble h r := readDouble_writeAll_of_wide h ws r
  wideWord h r := readWord_of_wide ((wide_writeAll u ws).trans h) r

end Fpu

end Console64
