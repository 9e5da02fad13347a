import Console64.Fpu.Basic
import Mathlib.Tactic.IntervalCases

/-!
# Traps of the floating-point unit

Whatever an operation computes, it records its causes first.  If one of them traps, nothing else
has changed, so that the operation can be done again.  Otherwise the causes are added to the sticky
flags, and only what the operation is to write is written.

## Key results

- `FloatFormat.compute_fits`, `FloatFormat.round_fits`: operations have no causes but those that
  the control word has room for
- `Fpu.complete_atomic`: any causes and any write
- `Fpu.execute_atomic`: every computational instruction
- `Fpu.flags_executeAll`: flags are sticky
-/

namespace Console64

/-! ## The fields of the control word -/

namespace ControlWord

/-- The sticky flags. -/
def flags (word : UInt32) : UInt32 := (word >>> 2) &&& 0x1F

/-- The exceptions that are enabled. -/
def enables (word : UInt32) : UInt32 := (word >>> 7) &&& 0x1F

/-- The field of sticky flags. -/
def flagField : UInt32 := 0x0000007C

/-- The word has room for these causes. -/
def Fits (cause : UInt32) : Prop := cause &&& 0x3F = cause

instance (cause : UInt32) : Decidable (Fits cause) := inferInstanceAs (Decidable (_ = _))

/-- Words that agree outside of some bits agree in the fields that have none of them. -/
theorem field_congr {a b bits : UInt32} (h : a &&& ~~~bits = b &&& ~~~bits) {shift mask : UInt32}
    (hshift : shift < 32) (hmask : (mask <<< shift) &&& bits = 0) :
    (a >>> shift) &&& mask = (b >>> shift) &&& mask := by
  have hmod : shift.toNat % 32 = shift.toNat :=
    Nat.mod_eq_of_lt (UInt32.lt_iff_toNat_lt.mp hshift)
  apply UInt32.toBitVec_inj.mp
  apply BitVec.eq_of_getLsbD_eq
  intro i hi
  -- Bit `i` of the field is this one of the word
  have hfield (w : UInt32) : ((w >>> shift) &&& mask).toBitVec.getLsbD i =
      (w.toBitVec.getLsbD (shift.toNat + i) && mask.toBitVec.getLsbD i) := by
    simp [hmod]
  have hfree := congrArg (fun w : UInt32 => w.toBitVec.getLsbD (shift.toNat + i)) hmask
  rw [hfield, hfield]
  -- A mask may reach past the word, where both are zero
  by_cases hinside : shift.toNat + i < 32
  · cases hm : mask.toBitVec.getLsbD i with
    | false => simp
    | true =>
      have hout : bits.toBitVec.getLsbD (shift.toNat + i) = false := by
        simpa [hmod, hinside, hm] using hfree
      have hkept (w : UInt32) : (w &&& ~~~bits).toBitVec.getLsbD (shift.toNat + i) =
          w.toBitVec.getLsbD (shift.toNat + i) := by
        rw [UInt32.toBitVec_and, UInt32.toBitVec_not, BitVec.getLsbD_and, BitVec.getLsbD_not, hout]
        simp [hinside]
      rw [← hkept a, h, hkept b]
  · have hpast (w : UInt32) : w.toBitVec.getLsbD (shift.toNat + i) = false :=
      BitVec.getLsbD_of_ge _ _ (Nat.not_lt.mp hinside)
    rw [hpast, hpast]

/-- What lies outside of two changes lies outside of the first, and of the second. -/
theorem outside_or (w x y : UInt32) : w &&& ~~~(x ||| y) = w &&& ~~~x &&& ~~~y := by
  apply UInt32.toBitVec_inj.mp
  simp [BitVec.not_or, BitVec.and_assoc]

/-- Changes one after the other, outside of which nothing has changed. -/
theorem outside_trans {a b c x y : UInt32} (h₁ : a &&& ~~~x = b &&& ~~~x)
    (h₂ : b &&& ~~~y = c &&& ~~~y) : a &&& ~~~(x ||| y) = c &&& ~~~(x ||| y) := by
  calc a &&& ~~~(x ||| y)
      = a &&& ~~~x &&& ~~~y := outside_or a x y
    _ = b &&& ~~~y &&& ~~~x := by
      rw [h₁, UInt32.and_assoc, UInt32.and_comm (~~~x), UInt32.and_assoc]
    _ = c &&& ~~~y &&& ~~~x := by rw [h₂]
    _ = c &&& ~~~(x ||| y) := by rw [← outside_or, UInt32.or_comm]

/-- Flags and enables do not depend on the causes recorded. -/
theorem flags_enables_congr {a b : UInt32} (h : a &&& ~~~causeField = b &&& ~~~causeField) :
    flags a = flags b ∧ enables a = enables b :=
  ⟨field_congr h (by decide) (by decide), field_congr h (by decide) (by decide)⟩

/-- The causes that trap are those that are enabled, and the one of operations left to software. -/
theorem traps_iff {word cause : UInt32} :
    cause &&& trapping word ≠ 0 ↔ cause &&& unimplemented ≠ 0 ∨ cause &&& enables word ≠ 0 := by
  have hsplit : cause &&& trapping word =
      (cause &&& unimplemented) ||| (cause &&& enables word) := by
    apply UInt32.toBitVec_inj.mp
    simp only [trapping, enables, UInt32.toBitVec_and, UInt32.toBitVec_or,
      BitVec.and_or_distrib_left]
    rw [BitVec.or_comm]
  rw [hsplit, Ne, UInt32.or_eq_zero_iff]
  tauto

section
variable {cause : UInt32} (h : Fits cause)
include h

/-- Causes that are left to no software all have a flag. -/
theorem Fits.and_flags (hdone : cause &&& unimplemented = 0) : cause &&& 0x1F = cause := by
  have hsplit : cause &&& 0x3F = (cause &&& 0x1F) ||| (cause &&& unimplemented) := by
    have hmask : (0x3F : UInt32) = 0x1F ||| unimplemented := by decide
    apply UInt32.toBitVec_inj.mp
    simp only [hmask, UInt32.toBitVec_and, UInt32.toBitVec_or, BitVec.and_or_distrib_left]
  rw [hdone, UInt32.or_zero] at hsplit
  exact hsplit.symm.trans h

/-- Causes that fit are in their field once they are recorded. -/
theorem causes_withCauses (word : UInt32) : causes (withCauses word cause) = cause := by
  rw [← h]
  apply UInt32.toBitVec_inj.mp
  ext i hi
  simp only [causes, withCauses, causeField]
  -- Bit by bit; where the field is, the mask lets the cause through
  interval_cases i <;> simp

/-- Causes are recorded in their field and nowhere else. -/
theorem withCauses_outside (word : UInt32) :
    withCauses word cause &&& ~~~causeField = word &&& ~~~causeField := by
  rw [← h]
  apply UInt32.toBitVec_inj.mp
  ext i hi
  simp only [withCauses, causeField]
  -- Bit by bit; outside of the field nothing is set
  interval_cases i <;> simp

end

/-- The flags of the causes are added to those that are set. -/
theorem flags_withFlags (word cause : UInt32) :
    flags (withFlags word cause) = flags word ||| (cause &&& 0x1F) := by
  apply UInt32.toBitVec_inj.mp
  ext i hi
  simp only [flags, withFlags]
  interval_cases i <;> simp

/-- Flags are added in their field and nowhere else. -/
theorem withFlags_outside (word cause : UInt32) :
    withFlags word cause &&& ~~~flagField = word &&& ~~~flagField := by
  apply UInt32.toBitVec_inj.mp
  ext i hi
  simp only [withFlags, flagField]
  interval_cases i <;> simp

/-- The other two fields lie outside of the flags. -/
theorem causes_enables_withFlags (word cause : UInt32) :
    causes (withFlags word cause) = causes word ∧ enables (withFlags word cause) = enables word :=
  ⟨field_congr (withFlags_outside word cause) (by decide) (by decide),
    field_congr (withFlags_outside word cause) (by decide) (by decide)⟩

/-- Causes that do not trap: they are recorded, and their flags added. -/
theorem withFlags_withCauses {cause : UInt32} (hfits : Fits cause)
    (hdone : cause &&& unimplemented = 0) (word : UInt32) :
    causes (withFlags (withCauses word cause) cause) = cause ∧
      enables (withFlags (withCauses word cause) cause) = enables word ∧
      flags (withFlags (withCauses word cause) cause) = flags word ||| cause ∧
      withFlags (withCauses word cause) cause &&& ~~~(flagField ||| causeField) =
        word &&& ~~~(flagField ||| causeField) := by
  obtain ⟨hcauses, henables⟩ := causes_enables_withFlags (withCauses word cause) cause
  obtain ⟨hflags, hkept⟩ := flags_enables_congr (withCauses_outside hfits word)
  refine ⟨?_, ?_, ?_, ?_⟩
  · rw [hcauses, causes_withCauses hfits]
  · rw [henables, hkept]
  · rw [flags_withFlags, hflags, hfits.and_flags hdone]
  · exact outside_trans (withFlags_outside _ cause) (withCauses_outside hfits word)

/-- A comparison sets or clears one bit. -/
theorem withCondition_outside (word : UInt32) (on : Bool) :
    withCondition word on &&& ~~~conditionBit = word &&& ~~~conditionBit := by
  apply UInt32.toBitVec_inj.mp
  ext i hi
  cases on with
  | false => simp [withCondition]
  | true =>
    -- The bit is set whether or not it was before
    cases hbit : conditionBit.toBitVec[i] <;> simp [withCondition, hbit]

end ControlWord

/-! ## Causes of operations -/

namespace FloatFormat

open ControlWord

/-- Arithmetic has the causes of IEEE 754 only. -/
theorem compute_fits (f : FloatFormat) (op : FloatOperation) (mode : RoundingMode) (a b : UInt64) :
    Fits (f.compute op mode a b).2 := by
  unfold compute
  dsimp only
  -- Each case of the operation has its causes written out
  repeat' split
  all_goals
    dsimp only
    decide

/-- Rounding is inexact, overflows or underflows, or it is none of these. -/
theorem round_fits (f : FloatFormat) (mode : RoundingMode) (negative : Bool) (x : Dyadic) :
    Fits (f.round mode negative x).2 := by
  unfold round
  dsimp only
  repeat' split
  all_goals
    dsimp only
    decide

/-- A conversion between formats rounds, unless the number is special. -/
theorem convert_fits (f source : FloatFormat) (mode : RoundingMode) (bits : UInt64) :
    Fits (f.convert source mode bits).2 := by
  have hinvalid : Fits invalid := by decide
  have hnone : Fits 0 := by decide
  unfold convert
  dsimp only
  split
  · exact hinvalid
  · split
    · exact hnone
    · exact round_fits f mode _ _

end FloatFormat

/-! ## Destinations -/

/-- Where the result of an operation goes. -/
inductive Destination where
  | word
  | double
  | condition
  deriving DecidableEq, Repr

/-- The bits of the control word that a result changes. -/
def Destination.controlBits : Destination → UInt32
  | .condition => ControlWord.conditionBit
  | _ => 0

/-- Where numbers of a format go. -/
def FloatFormat.destination : FloatFormat → Destination
  | .single => .word
  | .double => .double

/-- Where the result of a computational instruction goes. -/
def Instruction.destination (i : Instruction) : Destination :=
  if 0x30 ≤ i.funct then .condition
  else if i.funct < 0x08 then if i.fmt = 16 then .word else .double
  else if i.funct ∈ [0x0C, 0x0D, 0x0E, 0x0F, 0x20, 0x24] then .word
  else .double

namespace Fpu

open ControlWord

/-- The bits of register `r` that a result written to register `fd` takes. -/
def viewBits (u : Fpu) (d : Destination) (fd r : RegisterIndex) : UInt64 :=
  match d with
  | .word =>
    if u.holdsLowHalf fd then if r = fd then 0x00000000FFFFFFFF else 0
    else if r = evenOf fd then 0xFFFFFFFF00000000 else 0
  | .double => if r = (if u.wide then fd else evenOf fd) then 0xFFFFFFFFFFFFFFFF else 0
  | .condition => 0

/-- Nothing has changed but what a result written to register `fd` takes. -/
structure Confined (d : Destination) (fd : RegisterIndex) (u u' : Fpu) : Prop where
  wide : u'.wide = u.wide
  control : u'.control &&& ~~~d.controlBits = u.control &&& ~~~d.controlBits
  registers : ∀ r, u'.registers.get r &&& ~~~u.viewBits d fd r =
    u.registers.get r &&& ~~~u.viewBits d fd r

/-- Nothing has changed at all. -/
theorem Confined.refl (d : Destination) (fd : RegisterIndex) (u : Fpu) : Confined d fd u u :=
  ⟨rfl, rfl, fun _ => rfl⟩

/-- The operation has trapped: its causes are recorded, and nothing else has changed. -/
structure Trapped (u u' : Fpu) : Prop where
  registers : u'.registers = u.registers
  wide : u'.wide = u.wide
  control : u'.control &&& ~~~causeField = u.control &&& ~~~causeField
  /-- Software is to carry the operation out, or has asked to be told. -/
  reason : causes u'.control &&& ControlWord.unimplemented ≠ 0 ∨
    causes u'.control &&& enables u'.control ≠ 0

/-- The operation is done: flags have been added, and the result written. -/
structure Completed (d : Destination) (fd : RegisterIndex) (u u' : Fpu) : Prop where
  implemented : causes u'.control &&& ControlWord.unimplemented = 0
  disabled : causes u'.control &&& enables u'.control = 0
  flags : flags u'.control = flags u.control ||| causes u'.control
  wide : u'.wide = u.wide
  control : u'.control &&& ~~~(causeField ||| flagField ||| d.controlBits) =
    u.control &&& ~~~(causeField ||| flagField ||| d.controlBits)
  registers : ∀ r, u'.registers.get r &&& ~~~u.viewBits d fd r =
    u.registers.get r &&& ~~~u.viewBits d fd r

/-- The operation has been done, or not at all. -/
structure Atomic (d : Destination) (fd : RegisterIndex) (u : Fpu) (out : Fpu × Bool) : Prop where
  trapped : out.2 = true → Trapped u out.1
  completed : out.2 = false → Completed d fd u out.1

/-! ## Writes -/

section
variable (u : Fpu) (fd : RegisterIndex)

/-- A word goes to one half of a register, and leaves the other half. -/
theorem writeWord_confined (v : UInt32) : Confined .word fd u (u.writeWord fd v) := by
  -- Each half of a register can be replaced, and the other one stays
  have hlow (x : UInt64) :
      ((x &&& 0xFFFFFFFF00000000) ||| v.toUInt64) &&& ~~~0x00000000FFFFFFFF =
        x &&& ~~~0x00000000FFFFFFFF := by
    apply UInt64.toBitVec_inj.mp
    ext k hk
    interval_cases k <;> simp
  have hhigh (x : UInt64) :
      ((x &&& 0xFFFFFFFF) ||| (v.toUInt64 <<< (32 : UInt64))) &&& ~~~0xFFFFFFFF00000000 =
        x &&& ~~~0xFFFFFFFF00000000 := by
    apply UInt64.toBitVec_inj.mp
    ext k hk
    interval_cases k <;> simp
  -- The low half of the register itself, or the high half of its even neighbour
  by_cases h : u.holdsLowHalf fd
  · refine ⟨by simp [writeWord, h, put], by simp [writeWord, h, put], fun r => ?_⟩
    by_cases hr : r = fd
    · subst hr
      simpa [writeWord, h, put, viewBits] using hlow _
    · simp [writeWord, h, put, viewBits, hr, Ne.symm hr]
  · refine ⟨by simp [writeWord, h, put], by simp [writeWord, h, put], fun r => ?_⟩
    by_cases hr : r = evenOf fd
    · subst hr
      simpa [writeWord, h, put, viewBits] using hhigh _
    · simp [writeWord, h, put, viewBits, hr, Ne.symm hr]

/-- A double goes to a whole register. -/
theorem writeDouble_confined (v : UInt64) : Confined .double fd u (u.writeDouble fd v) := by
  refine ⟨rfl, rfl, fun r => ?_⟩
  -- The register that is written is masked out, the others are the same
  by_cases hr : r = if u.wide then fd else evenOf fd
  · have hnone : ~~~(0xFFFFFFFFFFFFFFFF : UInt64) = 0 := by decide
    simp only [viewBits, if_pos hr, hnone, UInt64.and_zero]
  · simp [writeDouble, put, viewBits, hr, Ne.symm hr]

/-- Numbers go where their format has them. -/
theorem writeFloat_confined (f : FloatFormat) (v : UInt64) :
    Confined f.destination fd u (u.writeFloat f fd v) := by
  cases f with
  | single => exact writeWord_confined u fd v.toUInt32
  | double => exact writeDouble_confined u fd v

/-- The result of a comparison goes to the condition bit. -/
theorem withCondition_confined (on : Bool) :
    Confined .condition fd u { u with control := withCondition u.control on } :=
  ⟨rfl, withCondition_outside u.control on, fun _ => rfl⟩

end

/-! ## Steps of an operation -/

section
variable {d : Destination} {fd : RegisterIndex}

/-- No result reaches the causes, the flags and the enables. -/
theorem Confined.fields {v w : Fpu} (h : Confined d fd v w) :
    causes w.control = causes v.control ∧
      ControlWord.flags w.control = ControlWord.flags v.control ∧
      enables w.control = enables v.control :=
  ⟨field_congr h.control (by decide) (by cases d <;> decide),
    field_congr h.control (by decide) (by cases d <;> decide),
    field_congr h.control (by decide) (by cases d <;> decide)⟩

/-- Whatever its causes and its result, an operation is atomic. -/
theorem complete_atomic (u : Fpu) {cause : UInt32} (hfits : Fits cause) {write : Fpu → Fpu}
    (hwrite : ∀ v : Fpu, Confined d fd v (write v)) : Atomic d fd u (u.complete cause write) := by
  -- What traps is decided on the word with the causes, whose enables are the old ones
  have henables := (flags_enables_congr (withCauses_outside hfits u.control)).2
  by_cases htrap : cause &&& trapping (withCauses u.control cause) ≠ 0
  · have hout : u.complete cause write =
        ({ u with control := withCauses u.control cause }, true) := by
      simp [complete, commit, htrap]
    rw [hout]
    refine ⟨fun _ => ⟨rfl, rfl, withCauses_outside hfits u.control, ?_⟩, nofun⟩
    rw [causes_withCauses hfits]
    exact traps_iff.mp htrap
  · have hquiet : cause &&& ControlWord.unimplemented = 0 ∧ cause &&& enables u.control = 0 := by
      rw [traps_iff, henables] at htrap
      tauto
    -- The write comes after the flags, and leaves the fields that tell of traps as they are
    obtain ⟨v, hv⟩ : ∃ v : Fpu, v =
      { u with control := withFlags (withCauses u.control cause) cause } := ⟨_, rfl⟩
    have hout : u.complete cause write = (write v, false) := by
      simp [complete, commit, htrap, hv]
    have hw := hwrite v
    obtain ⟨hwcauses, hwflags, hwenables⟩ := hw.fields
    have hcontrol : v.control = withFlags (withCauses u.control cause) cause := by rw [hv]
    obtain ⟨hvcauses, hvenables, hvflags, hvoutside⟩ :=
      withFlags_withCauses hfits hquiet.1 u.control
    rw [← hcontrol] at hvcauses hvenables hvflags hvoutside
    rw [hout]
    refine ⟨nofun, fun _ => ?_⟩
    constructor
    case implemented => rw [hwcauses, hvcauses, hquiet.1]
    case disabled => rw [hwcauses, hvcauses, hwenables, hvenables, hquiet.2]
    case flags => rw [hwflags, hvflags, hwcauses, hvcauses]
    case wide => rw [hw.wide, hv]
    case control =>
      have hall := outside_trans hw.control hvoutside
      have hbits : d.controlBits ||| (flagField ||| causeField) =
          causeField ||| flagField ||| d.controlBits := by
        cases d <;> decide
      rwa [hbits] at hall
    case registers =>
      intro r
      have hview : v.viewBits d fd r = u.viewBits d fd r := by
        rw [hv]
        rfl
      have hr := hw.registers r
      rw [hview] at hr
      rw [hr, hv]

variable (u : Fpu)

/-- An operation left to software always traps. -/
theorem unimplemented_atomic : Atomic d fd u u.unimplemented :=
  complete_atomic u (by decide) (Confined.refl d fd)

variable (i : Instruction) (f : FloatFormat)

/-- Arithmetic is atomic. -/
theorem arithmetic_atomic (op : FloatOperation) :
    Atomic f.destination i.fd u (u.arithmetic i f op) :=
  complete_atomic u (f.compute_fits op _ _ _) (fun v => writeFloat_confined v i.fd f _)

/-- So are moves and changes of sign, where only a number that is none has a cause. -/
theorem signOperation_atomic : Atomic f.destination i.fd u (u.signOperation i f) := by
  have hfits : Fits (if i.funct ≠ 6 && f.isNaN (u.readFloat f i.fs) then invalid else 0) := by
    split <;> decide
  exact complete_atomic u hfits (fun v => writeFloat_confined v i.fd f _)

/-- Where integers go. -/
def integerDestination (long : Bool) : Destination := if long then .double else .word

/-- So are conversions to integers, where large numbers are left to software. -/
theorem toInteger_atomic (mode : RoundingMode) (long : Bool) :
    Atomic (integerDestination long) i.fd u (u.toInteger i f mode long) := by
  unfold toInteger
  dsimp only
  split
  · exact unimplemented_atomic u
  · split
    · exact unimplemented_atomic u
    · refine complete_atomic u (by split <;> decide) (fun v => ?_)
      cases long
      · exact writeWord_confined v i.fd _
      · exact writeDouble_confined v i.fd _

/-- So are those to floating-point numbers, from either format and from integers. -/
theorem toFloat_atomic : Atomic f.destination i.fd u (u.toFloat i f) := by
  unfold toFloat
  dsimp only
  refine complete_atomic u ?_ (fun v => writeFloat_confined v i.fd f _)
  -- An integer is rounded like a result; a number is converted
  split
  · exact f.round_fits _ _ _
  · split
    · exact f.round_fits _ _ _
    · exact f.convert_fits _ _ _

/-- So are comparisons. -/
theorem compare_atomic : Atomic .condition i.fd u (u.compare i f) := by
  unfold compare
  exact complete_atomic u (by split <;> decide) (fun v => withCondition_confined v i.fd _)

end

/-! ## Instructions -/

section
variable (u : Fpu) (i : Instruction)

/-- A conversion to single precision goes where its function code says. -/
theorem toSingle_atomic (h : i.funct = 0x20) :
    Atomic i.destination i.fd u (u.toFloat i .single) := by
  have hdest : i.destination = FloatFormat.single.destination := by
    simp [Instruction.destination, h, FloatFormat.destination]
  exact hdest ▸ toFloat_atomic u i .single

/-- So does one to double precision. -/
theorem toDouble_atomic (h : i.funct = 0x21) :
    Atomic i.destination i.fd u (u.toFloat i .double) := by
  have hdest : i.destination = FloatFormat.double.destination := by
    simp [Instruction.destination, h, FloatFormat.destination]
  exact hdest ▸ toFloat_atomic u i .double

/-- So it is with all operations on numbers, by their function codes. -/
theorem executeFloat_atomic {f : FloatFormat}
    (hf : floatFormat? i.fmt = some f) : Atomic i.destination i.fd u (u.executeFloat i f) := by
  have hformat : (if i.fmt = 16 then Destination.word else .double) = f.destination := by
    unfold floatFormat? at hf
    grind [FloatFormat.destination]
  have harith (h : i.funct < 0x08) : i.destination = f.destination := by
    have hlow : ¬ 0x30 ≤ i.funct := by grind
    simp only [Instruction.destination, if_neg hlow, if_pos h, hformat]
  simp only [executeFloat]
  -- The function code tells the operation, and with the format where its result goes
  split
  case h_1 h | h_2 h | h_3 h | h_4 h | h_5 h =>
    rw [harith (by rw [h]; decide)]
    exact arithmetic_atomic u i f _
  case h_6 h | h_7 h | h_8 h =>
    rw [harith (by rw [h]; decide)]
    exact signOperation_atomic u i f
  case h_9 h | h_10 h | h_11 h | h_12 h | h_20 h =>
    have hdest : i.destination = integerDestination true := by
      simp [Instruction.destination, h, integerDestination]
    exact hdest ▸ toInteger_atomic u i f _ true
  case h_13 h | h_14 h | h_15 h | h_16 h | h_19 h =>
    have hdest : i.destination = integerDestination false := by
      simp [Instruction.destination, h, integerDestination]
    exact hdest ▸ toInteger_atomic u i f _ false
  case h_17 h =>
    split
    · exact unimplemented_atomic u
    · exact toSingle_atomic u i h
  case h_18 h =>
    split
    · exact unimplemented_atomic u
    · exact toDouble_atomic u i h
  case h_21 =>
    split
    · have hdest : i.destination = .condition := by simp [Instruction.destination, *]
      exact hdest ▸ compare_atomic u i f
    · exact unimplemented_atomic u

/-- Integers can be converted to either format and nothing else. -/
theorem executeInteger_atomic : Atomic i.destination i.fd u (u.executeInteger i) := by
  simp only [executeInteger]
  split
  case h_1 h => exact toSingle_atomic u i h
  case h_2 h => exact toDouble_atomic u i h
  case h_3 => exact unimplemented_atomic u

/-- The format decides between the two kinds of operation; others are left to software. -/
theorem atomic_execute : Atomic i.destination i.fd u (u.execute i) := by
  unfold execute
  split
  case h_1 hf => exact executeFloat_atomic u i hf
  case h_2 =>
    split
    · exact executeInteger_atomic u i
    · exact unimplemented_atomic u

/-- An instruction takes no flag back, whether or not it traps. -/
theorem flags_execute :
    ∃ added, ControlWord.flags (u.execute i).1.control = ControlWord.flags u.control ||| added := by
  cases htrap : (u.execute i).2 with
  | true =>
    have h := ((atomic_execute u i).trapped htrap).control
    exact ⟨0, by rw [(flags_enables_congr h).1, UInt32.or_zero]⟩
  | false => exact ⟨_, ((atomic_execute u i).completed htrap).flags⟩

/-- Flags are sticky: a run of computational instructions only adds to them. -/
theorem flags_executeAll (program : List Instruction) :
    ∃ added, ControlWord.flags (program.foldl (fun u i => (u.execute i).1) u).control =
      ControlWord.flags u.control ||| added := by
  -- Induction on the program, from whatever state the first instruction leaves
  induction program generalizing u with
  | nil => exact ⟨0, by simp⟩
  | cons i program ih =>
    obtain ⟨first, hfirst⟩ := flags_execute u i
    obtain ⟨rest, hrest⟩ := ih (u.execute i).1
    exact ⟨first ||| rest, by rw [List.foldl_cons, hrest, hfirst, UInt32.or_assoc]⟩

/-- Traps are atomic and flags accumulate, whatever the computational instruction.  One that traps
has recorded its causes, one of which is enabled or left to software, and changed nothing else.  Any
other has added its causes to the flags and changed its destination: rounding mode, enables and the
flush mode are what they were. -/
theorem execute_atomic :
    ((u.execute i).2 = true → Trapped u (u.execute i).1) ∧
      ((u.execute i).2 = false → Completed i.destination i.fd u (u.execute i).1) :=
  ⟨(atomic_execute u i).trapped, (atomic_execute u i).completed⟩

end

/-- A unit of narrow registers, none of which holds a number. -/
def noNumbers (control : UInt32) : Fpu :=
  { registers := Vector.replicate 32 0x7FFFFFFF7FFFFFFF, control }

/-- The absolute value of no number (`abs.s f1, f0`) traps if invalid operations are enabled, and
else goes to the upper half of the first pair. -/
theorem execute_atomic_abs :
    ((noNumbers 0x00000F83).execute ⟨0x46000045⟩).2 = true ∧
      Trapped (noNumbers 0x00000F83) ((noNumbers 0x00000F83).execute ⟨0x46000045⟩).1 ∧
      ((noNumbers 0x00000783).execute ⟨0x46000045⟩).2 = false ∧
      Completed .word 1 (noNumbers 0x00000783) ((noNumbers 0x00000783).execute ⟨0x46000045⟩).1 := by
  have htraps : ((noNumbers 0x00000F83).execute ⟨0x46000045⟩).2 = true := by decide
  have hdone : ((noNumbers 0x00000783).execute ⟨0x46000045⟩).2 = false := by decide
  exact ⟨htraps, (execute_atomic _ _).1 htraps, hdone, (execute_atomic _ _).2 hdone⟩

end Fpu

end Console64
