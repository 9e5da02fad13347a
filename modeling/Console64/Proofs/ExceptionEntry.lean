import Console64.Proofs.CoprocessorState
import Mathlib.Tactic.IntervalCases

/-!
# Which exception is taken, and how exceptions nest

An instruction may run into several conditions, and of these one is taken.  While it is
handled, further ones may be taken on top of it; the address to return to is kept once, by
the outermost.  This file says which condition that is, for any number of them, what taking
it leaves, and what any number of further exceptions leave of that.

## Key results

- `Condition.precedes_iff`: the order in which conditions are taken
- `Cop0.pending_recordAll`: the first condition of the highest priority stays noted
- `Cop0.isSome_pendingLine`: some line is asserted and let through
- `Cop0.taken_service` / `Cop0.interrupted_service`: what taking a condition or an interrupt
  leaves
- `Cop0.Resting.after`: with nothing noted and interrupts disabled, nothing is taken
- `Cop0.ReturnsTo.after`: nested exceptions keep the return address
- `Cop0.exception_entry`: all of it together
-/

namespace Console64

/-! ## Selection -/

namespace Condition

/-- No entry translates the address, whatever the addressing is. -/
def Refill : Condition → Prop
  | .tlbRefill _ _ | .xtlbRefill _ _ => True
  | .reset | .cacheError | .address _ _ | .coprocessorUnusable _ | .general _ => False

/-- What is neither a reset, nor a refill, nor a cache error. -/
def Ordinary : Condition → Prop
  | .address _ _ | .coprocessorUnusable _ | .general _ => True
  | .reset | .cacheError | .tlbRefill _ _ | .xtlbRefill _ _ => False

/-- Which condition is taken before which other one: a reset before all others, then a refill,
then a cache error, then the rest. -/
inductive Precedes : Condition → Condition → Prop where
  | reset {k : Condition} (h : k ≠ .reset) : Precedes .reset k
  | refill_cacheError {k : Condition} (h : k.Refill) : Precedes k .cacheError
  | refill_ordinary {k k' : Condition} (h : k.Refill) (h' : k'.Ordinary) : Precedes k k'
  | cacheError_ordinary {k : Condition} (h : k.Ordinary) : Precedes .cacheError k

/-- Refills have the second highest of the four priorities, -/
theorem priority_of_refill {k : Condition} (h : k.Refill) : k.priority = 2 := by
  cases k <;> first | rfl | exact h.elim

/-- and what is ordinary has the lowest. -/
theorem priority_of_ordinary {k : Condition} (h : k.Ordinary) : k.priority = 0 := by
  cases k <;> first | rfl | exact h.elim

/-- The priorities are numbers that say the same. -/
theorem precedes_iff {k k' : Condition} : k.Precedes k' ↔ k'.priority < k.priority := by
  constructor
  case mp =>
    -- The constructors of the order, and for each the two numbers
    intro h
    cases h with
    | reset h => cases k' <;> simp [priority] at h ⊢
    | refill_cacheError h =>
      rw [priority_of_refill h]
      exact Nat.one_lt_two
    | refill_ordinary h h' =>
      rw [priority_of_refill h, priority_of_ordinary h']
      exact Nat.two_pos
    | cacheError_ordinary h =>
      rw [priority_of_ordinary h]
      exact Nat.one_pos
  case mpr =>
    -- The other way round a condition of each of the four kinds, and those of lower kinds
    intro h
    cases k with
    | reset => exact .reset fun heq => Nat.lt_irrefl _ (heq ▸ h)
    | tlbRefill | xtlbRefill =>
      cases k' with
      | cacheError => exact .refill_cacheError trivial
      | address | coprocessorUnusable | general => exact .refill_ordinary trivial trivial
      | reset | tlbRefill | xtlbRefill => simp [priority] at h
    | cacheError =>
      cases k' with
      | address | coprocessorUnusable | general => exact .cacheError_ordinary trivial
      | reset | tlbRefill | xtlbRefill | cacheError => simp [priority] at h
    | address | coprocessorUnusable | general => exact absurd h (Nat.not_lt_zero _)

/-- `k` is the first of those conditions before which no other one is taken. -/
def Foremost (ks : List Condition) (k : Condition) : Prop :=
  ∃ earlier later, ks = earlier ++ k :: later ∧
    (∀ k' ∈ earlier, k.Precedes k') ∧ ∀ k' ∈ later, ¬k'.Precedes k

end Condition

/-- A further condition is the foremost one if its priority is higher, and only then. -/
theorem Condition.Foremost.append_singleton {ks : List Condition} {p : Condition}
    (h : Foremost ks p) (k : Condition) :
    Foremost (ks ++ [k]) (if k.priority ≤ p.priority then p else k) := by
  obtain ⟨earlier, later, rfl, hearlier, hlater⟩ := h
  simp only [Foremost, precedes_iff, Nat.not_lt] at hearlier hlater ⊢
  split
  case isTrue hle =>
    -- The one noted so far is before the new one or level with it, and stays
    refine ⟨earlier, later ++ [k], by simp, hearlier, fun k' hk' => ?_⟩
    rcases List.mem_append.mp hk' with hk' | hk'
    · exact hlater k' hk'
    · exact List.mem_singleton.mp hk' ▸ hle
  case isFalse hle =>
    -- The new one is before all that have been seen
    have hlt : p.priority < k.priority := Nat.lt_of_not_le hle
    refine ⟨earlier ++ p :: later, [], rfl, fun k' hk' => ?_, fun _ h => nomatch h⟩
    rcases List.mem_append.mp hk' with hk' | hk'
    · exact Nat.lt_trans (hearlier k' hk') hlt
    · rcases List.mem_cons.mp hk' with rfl | hk'
      · exact hlt
      · exact Nat.lt_of_le_of_lt (hlater k' hk') hlt

namespace Cop0

/-- Conditions noted one after the other. -/
def recordAll (c : Cop0) (ks : List Condition) : Cop0 := ks.foldl recordCondition c

/-- A condition replaces the one that is noted if its priority is higher. -/
private theorem pending_recordCondition_some {c : Cop0} {p : Condition}
    (h : c.pending = some p) (k : Condition) :
    (c.recordCondition k).pending = some (if k.priority ≤ p.priority then p else k) := by
  simp only [recordCondition, h, Option.any_some, decide_eq_true_eq]
  split
  · exact h
  · rfl

/-- From a foremost condition on, the foremost one stays noted. -/
private theorem pending_recordAll_some {c : Cop0} {p : Condition} (h : c.pending = some p)
    {seen : List Condition} (hseen : Condition.Foremost seen p) (ks : List Condition) :
    ∃ k, (c.recordAll ks).pending = some k ∧ Condition.Foremost (seen ++ ks) k := by
  induction ks generalizing c p seen with
  | nil => exact ⟨p, h, by rwa [List.append_nil]⟩
  | cons k ks ih =>
    have hstep := ih (pending_recordCondition_some h k) (hseen.append_singleton k)
    rwa [List.append_assoc] at hstep

/-- The first condition of the highest priority stays noted. -/
theorem pending_recordAll {c : Cop0} (h : c.pending = none) {ks : List Condition}
    (hks : ks ≠ []) : ∃ k, (c.recordAll ks).pending = some k ∧ Condition.Foremost ks k := by
  cases ks with
  | nil => exact absurd rfl hks
  | cons k ks =>
    have hfirst : Condition.Foremost [k] k :=
      ⟨[], [], rfl, fun _ h => (nomatch h), fun _ h => nomatch h⟩
    exact pending_recordAll_some (pending_recordCondition h k) hfirst ks

/-- Noting conditions leaves the status alone. -/
theorem statusState_recordAll (c : Cop0) (ks : List Condition) :
    (c.recordAll ks).statusState = c.statusState := by
  induction ks generalizing c with
  | nil => rfl
  | cons k ks ih => exact (ih (c.recordCondition k)).trans (statusState_recordCondition c k)

/-! ## Interrupts -/

/-- Line `line` is asserted and let through. -/
def Asserted (c : Cop0) (line : Nat) : Prop :=
  c.cause.ip.toNat.testBit line = true ∧ c.status.im.toNat.testBit line = true

/-- An interrupt may be taken: interrupts are enabled, no exception or error is being
handled, and a line is asserted and let through or the timer is waiting. -/
structure Interruptible (c : Cop0) : Prop where
  enabled : c.status.ie = true
  exl : c.status.exl = false
  erl : c.status.erl = false
  waiting : (∃ line < 8, c.Asserted line) ∨ c.timerPending = true

/-- A line is found pending if some line is asserted and let through. -/
theorem isSome_pendingLine (c : Cop0) :
    c.pendingLine.isSome = true ↔ ∃ line < 8, c.Asserted line := by
  -- A line is asserted if its bit is set in the mask and in what is pending
  have hline : ∀ line < 8,
      (((c.cause.ip &&& c.status.im) >>> UInt8.ofNat line) &&& 1 = 1 ↔ c.Asserted line) := by
    intro line hlt
    have hmod : line % 2 ^ 8 % 8 = line := by omega
    rw [Asserted, ← Bool.and_eq_true, ← Nat.testBit_and, ← UInt8.toNat_inj, UInt8.toNat_and,
      UInt8.toNat_shiftRight, UInt8.toNat_and, UInt8.toNat_ofNat', hmod]
    show ((_ >>> line) &&& 1 = 1) ↔ _
    rw [Nat.and_one_is_mod, Nat.testBit_eq_decide_div_mod_eq, Nat.shiftRight_eq_div_pow,
      decide_eq_true_eq]
  simp only [pendingLine, List.find?_isSome, List.mem_range, decide_eq_true_eq]
  exact exists_congr fun line => and_congr_right fun hlt => hline line hlt

/-! ## The cause on entry -/

/-- The delay slot bit of a cause word. -/
private theorem delaySlotBit_eq (w : UInt64) : testBit w.toUInt32 31 = w.toBitVec.getLsbD 31 := by
  show testBit w.toUInt32 (UInt32.ofNat 31) = _
  rw [testBit_eq_getLsbD _ (by decide)]
  simp

/-- Exception codes have five bits. -/
private theorem getLsbD_number (code : ExceptionCode) {i : Nat} (h : 5 ≤ i) :
    code.number.toBitVec.getLsbD i = false := by
  have hlt : code.number.toNat < 2 ^ 5 := by cases code <;> decide
  exact Nat.testBit_lt_two_pow (Nat.lt_of_lt_of_le hlt (Nat.pow_le_pow_right (by decide) h))

/-- Of the cause word before, the delay slot bit is replaced unless an exception is being
handled already. -/
private theorem getLsbD_slotWord (c : Cop0) (site : ExceptionSite) {i : Nat} (hi : i < 32) :
    (if c.status.exl then c.get causeWord
      else if site.delaySlot then c.get causeWord ||| bdBit
      else c.get causeWord &&& ~~~bdBit).toBitVec.getLsbD i =
    if i = 31 ∧ c.status.exl = false then site.delaySlot
    else (c.get causeWord).toBitVec.getLsbD i := by
  -- While an exception is handled the bit stays; otherwise it is set or cleared as the site says
  have hbd : bdBit.toBitVec.getLsbD i = decide (31 = i) := @Nat.testBit_two_pow 31 i
  cases c.status.exl with
  | true => simp
  | false =>
    have h64 : i < 64 := Nat.lt_trans hi (by decide)
    simp only [apply_ite UInt64.toBitVec, apply_ite (BitVec.getLsbD · i), UInt64.toBitVec_or,
      UInt64.toBitVec_and, UInt64.toBitVec_not, BitVec.getLsbD_or, BitVec.getLsbD_and,
      BitVec.getLsbD_not, hbd, h64]
    by_cases h31 : i = 31
    · subst h31
      cases site.delaySlot <;> simp
    · simp [h31, Ne.symm h31]

/-- What is put into the cause word on entry, bit by bit: the code and the coprocessor, and
the delay slot bit unless an exception is being handled already. -/
private theorem getLsbD_enteredCause_fields (c : Cop0) (site : ExceptionSite)
    (code : ExceptionCode) (unit : UInt8) :
    let old := (c.get causeWord).toBitVec
    let word := (c.enteredCause site code unit).toBitVec
    (∀ i < 5, word.getLsbD (2 + i) = code.number.toBitVec.getLsbD i) ∧
      (∀ i < 8, word.getLsbD (8 + i) = old.getLsbD (8 + i)) ∧
      (∀ i < 2, word.getLsbD (28 + i) = unit.toBitVec.getLsbD i) ∧
      word.getLsbD 31 = if c.status.exl then old.getLsbD 31 else site.delaySlot := by
  have hwidth := @getLsbD_number code
  have hslot := @getLsbD_slotWord c site
  simp only [enteredCause]
  -- What is between the fields of the word is what `getLsbD_slotWord` says it is
  generalize (if c.status.exl then c.get causeWord else _) = w at *
  refine ⟨fun i hi => ?_, fun i hi => ?_, fun i hi => ?_, ?_⟩
  · interval_cases i <;> simp
  · rw [← (hslot (i := 8 + i) (by omega)).trans (if_neg (by omega))]
    interval_cases i <;> simp [-BitVec.getLsbD_eq_getElem, hwidth]
  · interval_cases i <;> simp
  · have h31 := hslot (i := 31) (by decide)
    cases hexl : c.status.exl <;> simp [hexl] at h31 <;> simp [h31]

/-- The same, read back from the cause word. -/
private theorem decode_enteredCause (c : Cop0) (site : ExceptionSite) (code : ExceptionCode)
    (unit : UInt8) :
    CauseFlags.decode (c.enteredCause site code unit).toUInt32 =
      { code := code.number
        ip := (CauseFlags.decode (c.get causeWord).toUInt32).ip
        ce := unit &&& 3
        bd := if c.status.exl then (CauseFlags.decode (c.get causeWord).toUInt32).bd
          else site.delaySlot } := by
  obtain ⟨hcode, hip, hunit, hbd⟩ := getLsbD_enteredCause_fields c site code unit
  have hwidth := @getLsbD_number code
  simp only [CauseFlags.decode, CauseFlags.mk.injEq, delaySlotBit_eq]
  generalize c.enteredCause site code unit = word at *
  refine ⟨?_, ?_, ?_, hbd⟩ <;> refine UInt8.eq_of_toBitVec_eq (BitVec.eq_of_getLsbD_eq ?_) <;>
    -- Each field is read off bit by bit; the code has no bits past its five, and the unit loses its
    -- own
    intro i hi
  · by_cases h5 : i < 5
    · have hfield := hcode i h5
      interval_cases i <;> simpa using hfield
    · rw [hwidth (Nat.le_of_not_lt h5)]
      interval_cases i <;> simp
  · have hfield := hip i hi
    interval_cases i <;> simpa using hfield
  · by_cases h2 : i < 2
    · have hfield := hunit i h2
      interval_cases i <;> simpa using hfield
    · interval_cases i <;> simp

/-! ## What is left on entry -/

/-- `c'` has entered an exception from `c`.  It is kept where to return to and whether that
is a branch, unless that is kept already. -/
structure ExceptionEntry (c : Cop0) (site : ExceptionSite) (code : ExceptionCode) (unit : UInt8)
    (c' : Cop0) : Prop where
  statusWord : c'.get statusWord = low32 (c.get statusWord ||| exlBit)
  exl : c'.status.exl = true
  cause : c'.cause = .decode (c'.get causeWord).toUInt32
  code : c'.cause.code = code.number
  unit : c'.cause.ce = unit &&& 3
  lines : c'.cause.ip = (CauseFlags.decode (c.get causeWord).toUInt32).ip
  epc : c'.get epc = if c.status.exl then c.get epc else site.returnAddress
  delaySlot : c'.cause.bd =
    if c.status.exl then (CauseFlags.decode (c.get causeWord).toUInt32).bd else site.delaySlot
  others : ∀ r, r ≠ Cop0.statusWord → r ≠ causeWord → r ≠ Cop0.epc → c'.get r = c.get r

/-- Bits that are set are there to be read. -/
private theorem testBit_low32_or {w m : UInt64} {n : Nat} (hn : n < 32)
    (hm : m.toBitVec.getLsbD n = true) :
    testBit (low32 (w ||| m)).toUInt32 (UInt32.ofNat n) = true := by
  rw [testBit_eq_getLsbD _ hn, toUInt32_low32]
  simp only [UInt64.toBitVec_toUInt32, BitVec.getLsbD_setWidth, UInt64.toBitVec_or,
    BitVec.getLsbD_or, hm, Bool.or_true, decide_eq_true hn, Bool.and_true]

/-- Entering an exception does that. -/
private theorem exceptionEntry_enter (c : Cop0) (site : ExceptionSite) (code : ExceptionCode)
    (unit : UInt8) : c.ExceptionEntry site code unit (c.enter site code unit) := by
  have hword := congrArg Prod.fst (c.enter_status site code unit)
  -- The return address is saved first; cause and status are other registers
  have hview := congrArg Prod.snd (c.enter_status site code unit)
  have hsave : ∀ r, r ≠ Cop0.epc → (c.saveReturn site).get r = c.get r := by
    intro r hr
    simp only [saveReturn]
    split
    · rfl
    · exact c.get_put_of_ne (Ne.symm hr) _
  have hget : ∀ r, r ≠ Cop0.statusWord → r ≠ causeWord →
      (c.enter site code unit).get r = (c.saveReturn site).get r := fun r hstatus hcause =>
    (get_put_of_ne _ (Ne.symm hstatus) _).trans (get_put_of_ne _ (Ne.symm hcause) _)
  -- Of the cause word the view shows the fields that were put in
  have hcause : (c.enter site code unit).cause =
      .decode (c.enteredCause site code unit).toUInt32 := rfl
  have hentered : (c.enter site code unit).get causeWord =
      low32 (c.enteredCause site code unit) :=
    (get_put_of_ne _ (by decide) _).trans (get_put_self _ causeWord _)
  have hfields := c.decode_enteredCause site code unit
  refine ⟨hword, ?_, ?_, ?_, ?_, ?_, ?_, ?_, fun r hstatus hcause hepc => ?_⟩
  · show (c.enter site code unit).statusState.2.exl = true
    rw [hview, ← toUInt32_low32]
    exact testBit_low32_or (n := 1) (by decide) (by decide)
  · rw [hcause, hentered, toUInt32_low32]
  · rw [hcause, hfields]
  · rw [hcause, hfields]
  · rw [hcause, hfields]
  · rw [hget _ (by decide) (by decide), saveReturn]
    split
    · rfl
    · exact c.get_put_self _ _
  · rw [hcause, hfields]
  · rw [hget r hstatus hcause, hsave r hepc]

/-- `c'` has entered an error from `c`.  Errors have a return address of their own, and leave
the cause alone. -/
structure ErrorEntry (c : Cop0) (returnTo bits : UInt64) (c' : Cop0) : Prop where
  statusWord : c'.get statusWord = low32 (c.get statusWord ||| bits)
  erl : c'.status.erl = true
  errorEpc : c'.get errorEpc = returnTo
  cause : c'.cause = c.cause
  others : ∀ r, r ≠ Cop0.statusWord → r ≠ Cop0.errorEpc → c'.get r = c.get r

/-- Entering an error does that. -/
private theorem errorEntry_setStatus (c : Cop0) (returnTo bits : UInt64)
    (hbits : bits.toBitVec.getLsbD 2 = true) :
    c.ErrorEntry returnTo bits
      ((c.put errorEpc returnTo).setStatus (c.get statusWord ||| bits)) := by
  refine ⟨get_put_self _ statusWord _, ?_, ?_, rfl, fun r hstatus herror => ?_⟩
  · show testBit _ (UInt32.ofNat 2) = true
    rw [← toUInt32_low32]
    exact testBit_low32_or (by decide) hbits
  · exact (get_put_of_ne _ (by decide) _).trans (get_put_self c errorEpc _)
  · exact (get_put_of_ne _ (Ne.symm hstatus) _).trans (c.get_put_of_ne (Ne.symm herror) _)

end Cop0

/-- Where the handler of a condition is, by two bits of the status. -/
def Condition.handler (k : Condition) (bev exl : Bool) : UInt64 :=
  let base : UInt64 := if bev then 0xFFFFFFFFBFC00200 else 0xFFFFFFFF80000000
  match k with
  | .reset => 0xFFFFFFFFBFC00000
  | .cacheError => (if bev then 0xFFFFFFFFBFC00200 else 0xFFFFFFFFA0000000) + 0x100
  | .tlbRefill _ _ => base + if exl then 0x180 else 0
  | .xtlbRefill _ _ => base + if exl then 0x180 else 0x080
  | .address _ _ | .coprocessorUnusable _ | .general _ => base + 0x180

namespace Cop0

/-- What taking a condition leaves, and where it leads. -/
def Taken (c : Cop0) (k : Condition) (site : ExceptionSite) (target : UInt64) (c' : Cop0) : Prop :=
  target = k.handler c.status.bev c.status.exl ∧
    match k with
    | .reset => c.ErrorEntry site.pc (erlBit ||| bevBit) c'
    | .cacheError => c.ErrorEntry site.returnAddress erlBit c'
    | .coprocessorUnusable unit => c.ExceptionEntry site .coprocessorUnusable unit c'
    | k => c.ExceptionEntry site k.code 0 c'

/-- What is noted, and whether the timer waits, does not count on entry. -/
private theorem ExceptionEntry.of_awaiting {c c' : Cop0} {site : ExceptionSite}
    {code : ExceptionCode} {unit : UInt8} {pending : Option Condition} {timerPending : Bool}
    (h : (c.awaiting pending timerPending).ExceptionEntry site code unit c') :
    c.ExceptionEntry site code unit c' :=
  ⟨h.statusWord, h.exl, h.cause, h.code, h.unit, h.lines, h.epc, h.delaySlot, h.others⟩

/-- Nor does it on entry into an error. -/
private theorem ErrorEntry.of_awaiting {c c' : Cop0} {returnTo bits : UInt64}
    {pending : Option Condition} {timerPending : Bool}
    (h : (c.awaiting pending timerPending).ErrorEntry returnTo bits c') :
    c.ErrorEntry returnTo bits c' :=
  ⟨h.statusWord, h.erl, h.errorEpc, h.cause, h.others⟩

/-- A condition that is noted is taken: it is no longer noted, and the kind of it says what is
entered. -/
theorem taken_service {c : Cop0} {k : Condition} (h : c.pending = some k)
    (site : ExceptionSite) :
    ∃ target c', c.service site = (some target, c') ∧ c.Taken k site target c' := by
  -- The condition is forgotten first, and then its kind decides
  let cleared : Cop0 := c.awaiting none c.timerPending
  have hservice : c.service site =
      (some (cleared.serviceCondition site k).1, (cleared.serviceCondition site k).2) := by
    simp only [service, h]
    rfl
  refine ⟨_, _, hservice, ?_⟩
  have henter := exceptionEntry_enter cleared site
  cases k with
  | reset =>
    have hreset := cleared.errorEntry_setStatus site.pc (erlBit ||| bevBit) (by decide)
    rw [← UInt64.or_assoc] at hreset
    exact ⟨rfl, hreset.of_awaiting⟩
  | cacheError =>
    have hcache := cleared.errorEntry_setStatus site.returnAddress erlBit (by decide)
    exact ⟨rfl, hcache.of_awaiting⟩
  | tlbRefill store a => exact ⟨rfl, (henter (.tlb store) 0).of_awaiting⟩
  | xtlbRefill store a => exact ⟨rfl, (henter (.tlb store) 0).of_awaiting⟩
  | address code a => exact ⟨rfl, (henter code 0).of_awaiting⟩
  | general code => exact ⟨rfl, (henter code 0).of_awaiting⟩
  | coprocessorUnusable unit => exact ⟨rfl, (henter .coprocessorUnusable unit).of_awaiting⟩

/-- What taking an interrupt leaves, and where it leads.  The timer waits on unless it is what
is taken. -/
structure Interrupted (c : Cop0) (site : ExceptionSite) (target : UInt64) (c' : Cop0) : Prop where
  handler : target = (Condition.general .interrupt).handler c.status.bev false
  entry : c.ExceptionEntry site .interrupt 0 c'
  timer : c'.timerPending = (c.timerPending && c.pendingLine.isSome)

/-- Entering an exception does not concern the timer. -/
private theorem timerPending_enter (c : Cop0) (site : ExceptionSite) (code : ExceptionCode)
    (unit : UInt8) : (c.enter site code unit).timerPending = c.timerPending := by
  simp only [enter, saveReturn]
  split <;> rfl

/-- An interrupt is taken, for a line if one is pending, and else for the timer, which then waits no
more. -/
theorem interrupted_service {c : Cop0} (hclear : c.pending = none) (h : c.Interruptible)
    (site : ExceptionSite) :
    ∃ target c', c.service site = (some target, c') ∧ c.Interrupted site target c' := by
  have henabled : c.interruptsEnabled = true := by
    simp only [interruptsEnabled, h.enabled, h.exl, h.erl]
    rfl
  -- With nothing noted only an interrupt is left, and a line is asked before the timer
  simp only [service, hclear, serviceInterrupt, henabled, Bool.not_true, Bool.false_eq_true,
    if_false]
  by_cases hline : c.pendingLine.isSome = true
  · rw [if_pos hline]
    refine ⟨_, _, rfl, rfl, exceptionEntry_enter c site _ _, ?_⟩
    rw [timerPending_enter, hline, Bool.and_true]
  · have htimer : c.timerPending = true :=
      h.waiting.resolve_left fun hlines => hline (c.isSome_pendingLine.mpr hlines)
    rw [if_neg hline, if_pos htimer]
    refine ⟨_, _, rfl, rfl, ?_, ?_⟩
    · exact (exceptionEntry_enter (c.awaiting none false) site _ _).of_awaiting
    · rw [timerPending_enter, Bool.eq_false_iff.mpr hline, Bool.and_false]

/-- With nothing noted and no interrupt to take there is nothing to do. -/
theorem idle_service {c : Cop0} (hclear : c.pending = none) (h : ¬ c.Interruptible)
    (site : ExceptionSite) : c.service site = (none, c) := by
  simp only [service, hclear, serviceInterrupt]
  cases henabled : c.interruptsEnabled with
  | false => rfl
  | true =>
    -- Interrupts are enabled, so it is that nothing waits
    have hbits : c.status.ie = true ∧ c.status.exl = false ∧ c.status.erl = false := by
      simpa [interruptsEnabled, and_assoc] using henabled
    have hnone : ∀ hwaiting, False :=
      fun hwaiting => h ⟨hbits.1, hbits.2.1, hbits.2.2, hwaiting⟩
    have hline : ¬ c.pendingLine.isSome = true :=
      fun hline => hnone (.inl (c.isSome_pendingLine.mp hline))
    have htimer : ¬ c.timerPending = true := fun htimer => hnone (.inr htimer)
    simp only [Bool.not_true, Bool.false_eq_true, if_false, if_neg hline, if_neg htimer]

/-! ## After something is taken -/

/-- Nothing is noted and interrupts are not enabled. -/
structure Resting (c : Cop0) : Prop where
  pending : c.pending = none
  disabled : c.interruptsEnabled = false

/-- The operation notes nothing, does not write the status and is not a return. -/
def Operation.KeepsResting : Operation → Prop
  | .write r _ => r ≠ statusWord
  | .record _ | .leave => False
  | _ => True

/-- The three bits that let an interrupt be taken enable interrupts. -/
theorem Interruptible.interruptsEnabled {c : Cop0} (h : c.Interruptible) :
    c.interruptsEnabled = true := by
  simp only [Cop0.interruptsEnabled, h.enabled, h.exl, h.erl]
  rfl

/-- Nothing is taken then. -/
theorem Resting.service {c : Cop0} (h : c.Resting) (site : ExceptionSite) :
    c.service site = (none, c) :=
  idle_service h.pending
    (fun hwaiting => Bool.noConfusion (h.disabled.symm.trans hwaiting.interruptsEnabled)) site

/-- What has been taken was an exception or an error, and each of them disables interrupts. -/
theorem resting_service {c c' : Cop0} {site : ExceptionSite} {target : UInt64}
    (h : c.service site = (some target, c')) : c'.Resting := by
  have hpending := c.pending_service site
  rw [h] at hpending
  refine ⟨hpending, ?_⟩
  have hexl : c'.status.exl = true → c'.interruptsEnabled = false := by
    intro hexl
    simp only [interruptsEnabled, hexl, Bool.not_true, Bool.and_false, Bool.false_and]
  have herl : c'.status.erl = true → c'.interruptsEnabled = false := by
    intro herl
    simp only [interruptsEnabled, herl, Bool.not_true, Bool.and_false]
  -- What was taken is either the condition that was noted or an interrupt
  cases hnoted : c.pending with
  | some k =>
    obtain ⟨target', c'', hservice, -, htaken⟩ := taken_service hnoted site
    cases h.symm.trans hservice
    cases k with
    | reset | cacheError => exact herl htaken.erl
    | tlbRefill | xtlbRefill | address | coprocessorUnusable | general => exact hexl htaken.exl
  | none =>
    by_cases hinterruptible : c.Interruptible
    · obtain ⟨target', c'', hservice, hinterrupted⟩ :=
        interrupted_service hnoted hinterruptible site
      cases h.symm.trans hservice
      exact hexl hinterrupted.entry.exl
    · exact nomatch h.symm.trans (idle_service hnoted hinterruptible site)

/-- It depends on what is noted and on the status alone. -/
private theorem Resting.of_eq {c c' : Cop0} (h : c.Resting) (hpending : c'.pending = c.pending)
    (hstatus : c'.status = c.status) : c'.Resting :=
  ⟨hpending.trans h.pending, by rw [interruptsEnabled, hstatus]; exact h.disabled⟩

/-- All but a few operations keep it. -/
private theorem Resting.next {c : Cop0} (h : c.Resting) {op : Operation} (hop : op.KeepsResting) :
    (c.next op).Resting := by
  -- Only a write of Status, which may not clear the two bits, reaches what it is about
  cases op with
  | write r v =>
    obtain ⟨hpending, hstatus⟩ := c.write_keeps r v
    exact h.of_eq hpending (congrArg Prod.snd (hstatus hop))
  | load | loadCause | routeTimer | stepRandom => exact h.of_eq rfl rfl
  | record | leave => exact hop.elim
  | driveLine line level =>
    simp only [Cop0.next, driveLine]
    repeat' split
    all_goals exact h.of_eq rfl rfl
  | tick =>
    simp only [Cop0.next, tick, timerExpired]
    repeat' split
    all_goals exact h.of_eq rfl rfl
  | service site =>
    show (c.service site).2.Resting
    rw [h.service site]
    exact h

/-- So do any number of them. -/
theorem Resting.after {c : Cop0} (h : c.Resting) {ops : List Operation}
    (hops : ∀ op ∈ ops, op.KeepsResting) : (c.after ops).Resting := by
  induction ops generalizing c with
  | nil => exact h
  | cons op ops ih =>
    obtain ⟨hop, hops⟩ := List.forall_mem_cons.mp hops
    exact ih (h.next hop) hops

/-! ## Nested exceptions -/

/-- The program will return to `a`, which is a branch with its delay slot or is not. -/
structure ReturnsTo (c : Cop0) (a : UInt64) (delaySlot : Bool) : Prop where
  epc : c.get epc = a
  word : testBit (c.get causeWord).toUInt32 31 = delaySlot
  view : c.cause.bd = delaySlot

/-- The operation does not write the return address and does not load the cause word, where
hardware keeps the delay slot bit.  There are eight interrupt lines. -/
def Operation.KeepsReturn : Operation → Prop
  | .write r _ | .load r _ _ => r ≠ epc
  | .loadCause _ => False
  | .driveLine line _ => line < 8
  | _ => True

namespace ReturnsTo

variable {c : Cop0} {a : UInt64} {delaySlot : Bool}

/-- What changes neither of the two registers nor the view of the cause leaves the return
address. -/
private theorem of_eq (h : c.ReturnsTo a delaySlot) {c' : Cop0}
    (hepc : c'.get Cop0.epc = c.get Cop0.epc)
    (hword : c'.get causeWord = c.get causeWord) (hcause : c'.cause = c.cause) :
    c'.ReturnsTo a delaySlot :=
  ⟨hepc.trans h.epc, hword ▸ h.word, hcause ▸ h.view⟩

/-- Another register may be written, -/
private theorem put (h : c.ReturnsTo a delaySlot) {r : RegisterIndex} (hepc : r ≠ Cop0.epc)
    (hcause : r ≠ causeWord) (v : UInt64) : (c.put r v).ReturnsTo a delaySlot :=
  h.of_eq (c.get_put_of_ne hepc v) (c.get_put_of_ne hcause v) rfl

/-- A cause word with the same delay slot bit. -/
private theorem setCause (h : c.ReturnsTo a delaySlot) {word : UInt64}
    (hbit : word.toBitVec.getLsbD 31 = (c.get causeWord).toBitVec.getLsbD 31) :
    (c.setCause word).ReturnsTo a delaySlot := by
  have hslot : testBit word.toUInt32 31 = delaySlot := by
    rw [delaySlotBit_eq, hbit, ← delaySlotBit_eq, h.word]
  refine ⟨(c.get_put_of_ne (by decide) _).trans h.epc, ?_, hslot⟩
  rw [show (c.setCause word).get causeWord = low32 word from c.get_put_self causeWord _,
    toUInt32_low32, hslot]

/-- Setting and clearing other bits of the cause word. -/
private theorem setCause_or (h : c.ReturnsTo a delaySlot) {m : UInt64}
    (hm : m.toBitVec.getLsbD 31 = false) :
    (c.setCause (c.get causeWord ||| m)).ReturnsTo a delaySlot :=
  h.setCause (by rw [UInt64.toBitVec_or, BitVec.getLsbD_or, hm, Bool.or_false])

/-- and likewise clearing them. -/
private theorem setCause_and_not (h : c.ReturnsTo a delaySlot) {m : UInt64}
    (hm : m.toBitVec.getLsbD 31 = false) :
    (c.setCause (c.get causeWord &&& ~~~m)).ReturnsTo a delaySlot :=
  h.setCause (by simp [-BitVec.getLsbD_eq_getElem, hm])

/-- A write to any register but the return address itself; the cause word takes its software bits
only. -/
private theorem write (h : c.ReturnsTo a delaySlot) {r : RegisterIndex} (hr : r ≠ Cop0.epc)
    (v : UInt64) : (c.write r v).ReturnsTo a delaySlot := by
  have hput := @h.put
  simp only [Cop0.write]
  split
  case h_2 =>
    -- Writing the compare register clears the timer bit in the cause
    have hset := (h.put (r := compare) (by decide) (by decide) (low32 v)).setCause_and_not
      (m := timerBit) (by decide)
    exact hset.of_eq rfl rfl rfl
  case h_3 => exact (h.put (r := statusWord) (by decide) (by decide) (low32 v)).of_eq rfl rfl rfl
  case h_4 => exact h.setCause (by simp [-BitVec.getLsbD_eq_getElem, softwareBits])
  case h_5 => exact (h.put (by decide) (by decide) _).put (by decide) (by decide) _
  case h_8 | h_9 | h_10 => exact h
  case h_13 hcause _ _ _ _ _ _ _ _ => exact h.put hr hcause v
  all_goals exact h.put (by decide) (by decide) _

/-- The lines are bits 8 to 15 of the cause word. -/
private theorem driveLine (h : c.ReturnsTo a delaySlot) {line : UInt64} (hline : line < 8)
    (level : Bool) : (c.driveLine line level).ReturnsTo a delaySlot := by
  -- The bits of the lines are below that of the delay slot
  have hbit : ((1 : UInt64) <<< (8 + line)).toBitVec.getLsbD 31 = false := by
    have hlines : ∀ n < 8, ((1 : UInt64) <<< (8 + UInt64.ofNat n)).toBitVec.getLsbD 31 = false := by
      decide
    have := hlines line.toNat (UInt64.lt_iff_toNat_lt.mp hline)
    rwa [UInt64.ofNat_toNat] at this
  have hchange : ∀ {new old}, (c.setCause new).ReturnsTo a delaySlot →
      (if new = old then c else c.setCause new).ReturnsTo a delaySlot := by
    intro new old hset
    split
    · exact h
    · exact hset
  cases level with
  | true => exact hchange (h.setCause_or hbit)
  | false => exact hchange (h.setCause_and_not hbit)

/-- A cycle changes the counter, and perhaps a bit of the cause that is not the delay slot bit. -/
private theorem tick (h : c.ReturnsTo a delaySlot) : c.tick.ReturnsTo a delaySlot := by
  have hhalf : ({ c with halfCycle := !c.halfCycle } : Cop0).ReturnsTo a delaySlot :=
    h.of_eq rfl rfl rfl
  -- Neither Count nor the timer bit is where the return address is kept
  have hcount := hhalf.put (r := count) (by decide) (by decide) (low32 (c.get count + 1))
  simp only [Cop0.tick]
  split
  · exact hhalf
  · split
    · simp only [timerExpired]
      split
      · exact hcount.setCause_or (m := timerBit) (by decide)
      · exact hcount.of_eq rfl rfl rfl
    · exact hcount

/-- To note a condition changes neither register. -/
private theorem recordCondition (h : c.ReturnsTo a delaySlot) (k : Condition) :
    (c.recordCondition k).ReturnsTo a delaySlot := by
  obtain ⟨registers, pending, heq⟩ := c.recordCondition_eq k
  refine h.of_eq (c.get_recordCondition k (by decide)) (c.get_recordCondition k (by decide)) ?_
  rw [heq]

/-- An error keeps the return address of exceptions. -/
private theorem of_error (h : c.ReturnsTo a delaySlot) {returnTo bits : UInt64} {c' : Cop0}
    (herror : c.ErrorEntry returnTo bits c') : c'.ReturnsTo a delaySlot :=
  h.of_eq (herror.others _ (by decide) (by decide)) (herror.others _ (by decide) (by decide))
    herror.cause

/-- So does an exception on top of another. -/
private theorem of_nested (h : c.ReturnsTo a delaySlot) (hexl : c.status.exl = true)
    {site : ExceptionSite} {code : ExceptionCode} {unit : UInt8} {c' : Cop0}
    (hentry : c.ExceptionEntry site code unit c') : c'.ReturnsTo a delaySlot := by
  have hepc := hentry.epc
  have hslot := hentry.delaySlot
  rw [if_pos hexl] at hepc hslot
  have hview : c'.cause.bd = delaySlot := hslot.trans h.word
  exact ⟨hepc.trans h.epc, (congrArg CauseFlags.bd hentry.cause).symm.trans hview, hview⟩

end ReturnsTo

/-- An exception on top of nothing sets it. -/
private theorem ExceptionEntry.returnsTo {c c' : Cop0} {site : ExceptionSite}
    {code : ExceptionCode} {unit : UInt8} (h : c.ExceptionEntry site code unit c')
    (hexl : c.status.exl = false) : c'.ReturnsTo site.returnAddress site.delaySlot := by
  have hepc := h.epc
  have hslot := h.delaySlot
  rw [hexl] at hepc hslot
  exact ⟨hepc, (congrArg CauseFlags.bd h.cause).symm.trans hslot, hslot⟩

/-- Whatever is taken on top of nothing sets it, unless it is an error. -/
theorem returnsTo_service {c c' : Cop0} {site : ExceptionSite} {target : UInt64}
    (h : c.service site = (some target, c')) (hexl : c.status.exl = false)
    (hsync : ∀ k, c.pending = some k → k.Synchronous) :
    c'.ReturnsTo site.returnAddress site.delaySlot := by
  -- What was taken is a condition or an interrupt, and both set the return address
  cases hnoted : c.pending with
  | some k =>
    obtain ⟨target', c'', hservice, -, htaken⟩ := taken_service hnoted site
    cases h.symm.trans hservice
    have hkind := hsync k hnoted
    cases k with
    | reset | cacheError => exact hkind.elim
    | tlbRefill | xtlbRefill | address | coprocessorUnusable | general =>
      exact htaken.returnsTo hexl
  | none =>
    by_cases hinterruptible : c.Interruptible
    · obtain ⟨target', c'', hservice, hinterrupted⟩ :=
        interrupted_service hnoted hinterruptible site
      cases h.symm.trans hservice
      exact hinterrupted.entry.returnsTo hexl
    · exact nomatch h.symm.trans (idle_service hnoted hinterruptible site)

/-- While an exception is being handled, all but a few operations keep the return address. -/
private theorem ReturnsTo.next {c : Cop0} {a : UInt64} {delaySlot : Bool}
    (h : c.ReturnsTo a delaySlot) (hexl : c.status.exl = true) {op : Operation}
    (hop : op.KeepsReturn) : (c.next op).ReturnsTo a delaySlot := by
  cases op with
  | write r v => exact h.write hop v
  | load r v hr =>
    refine h.put hop ?_ v
    rintro rfl
    exact hr (by decide)
  | loadCause => exact hop.elim
  | record k => exact h.recordCondition k
  | driveLine line level => exact h.driveLine hop level
  | routeTimer toLine7 => exact h.of_eq rfl rfl rfl
  | tick => exact h.tick
  | stepRandom => exact h.put (by decide) (by decide) _
  | leave =>
    have hset : ∀ word, (c.setStatus word).ReturnsTo a delaySlot := fun word =>
      (h.put (r := statusWord) (by decide) (by decide) (low32 word)).of_eq rfl rfl rfl
    simp only [Cop0.next, leave]
    split <;> exact hset _
  | service site =>
    show (c.service site).2.ReturnsTo a delaySlot
    -- Exceptions nest, errors have a return address of their own, and interrupts are masked
    cases hnoted : c.pending with
    | some k =>
      obtain ⟨target, c', hservice, -, htaken⟩ := taken_service hnoted site
      rw [hservice]
      cases k with
      | reset | cacheError => exact h.of_error htaken
      | tlbRefill | xtlbRefill | address | coprocessorUnusable | general =>
        exact h.of_nested hexl htaken
    | none =>
      have hmasked : ¬ c.Interruptible := fun hinterruptible =>
        Bool.noConfusion (hexl.symm.trans hinterruptible.exl)
      rw [idle_service hnoted hmasked site]
      exact h

/-- So do any number of them, exceptions among them, while that stays so. -/
theorem ReturnsTo.after {c : Cop0} {a : UInt64} {delaySlot : Bool} (h : c.ReturnsTo a delaySlot)
    {ops : List Operation} (hops : ∀ op ∈ ops, op.KeepsReturn)
    (hexl : ∀ before, before <+: ops → (c.after before).status.exl = true) :
    (c.after ops).ReturnsTo a delaySlot := by
  induction ops generalizing c with
  | nil => exact h
  | cons op ops ih =>
    obtain ⟨hop, hops⟩ := List.forall_mem_cons.mp hops
    have hnext := h.next (hexl [] (List.nil_prefix)) hop
    exact ih hnext hops fun before hbefore =>
      hexl (op :: before) ((List.prefix_cons_inj op).mpr hbefore)

/-- A refill on top of an exception goes to the handler for the others. -/
theorem service_nested_refill {c : Cop0} (hexl : c.status.exl = true) {store : Bool} {a : UInt64}
    (h : c.pending = some (.tlbRefill store a) ∨ c.pending = some (.xtlbRefill store a))
    (site : ExceptionSite) : (c.service site).1 = some (c.vectorBase + 0x180) := by
  rcases h with h | h
  all_goals
    obtain ⟨target, c', hservice, htarget, -⟩ := taken_service h site
    rw [hservice, htarget, Condition.handler, hexl]
    rfl

/-! ## All of it -/

/-- What happens at a site once the conditions `ks` have been noted. -/
structure EntryLaw (c : Cop0) (ks : List Condition) (site : ExceptionSite) : Prop where
  /-- If there are any, the first of the highest priority is taken: a reset, else a refill, else a
  cache error, else one of the rest. -/
  condition : ks ≠ [] → ∃ k target c', Condition.Foremost ks k ∧
    (c.recordAll ks).service site = (some target, c') ∧ (c.recordAll ks).Taken k site target c'
  /-- If there are none, an interrupt is, if there is one to be taken. -/
  interrupt : ks = [] → c.Interruptible → ∃ target c',
    c.service site = (some target, c') ∧ c.Interrupted site target c'
  nothing : ks = [] → ¬ c.Interruptible → (c.service site).1 = none
  /-- When nothing is taken, nothing changes. -/
  unchanged : ((c.recordAll ks).service site).1 = none → ((c.recordAll ks).service site).2 = c
  /-- Once something is taken, nothing more is, until a condition is noted, the status is
  written or the program returns. -/
  resting : ∀ target c', (c.recordAll ks).service site = (some target, c') →
    c'.pending = none ∧ c'.interruptsEnabled = false ∧
      ∀ ops, (∀ op ∈ ops, op.KeepsResting) → ∀ site', ((c'.after ops).service site').1 = none
  /-- An exception on top of nothing keeps where it was taken. -/
  outermost : ∀ target c', (c.recordAll ks).service site = (some target, c') →
    c.status.exl = false → (∀ k, Condition.Foremost ks k → k.Synchronous) →
    c'.ReturnsTo site.returnAddress site.delaySlot
  /-- Whatever is taken from there on, while an exception is being handled all along, leaves
  that alone, and a refill goes to the handler for the other exceptions. -/
  nested : ∀ target c', (c.recordAll ks).service site = (some target, c') →
    ∀ ops, (∀ op ∈ ops, op.KeepsReturn) →
    (∀ before, before <+: ops → (c'.after before).status.exl = true) →
    (∀ a delaySlot, c'.ReturnsTo a delaySlot → (c'.after ops).ReturnsTo a delaySlot) ∧
    ∀ store a, (c'.after ops).pending = some (.tlbRefill store a) ∨
        (c'.after ops).pending = some (.xtlbRefill store a) →
      ∀ site', ((c'.after ops).service site').1 = some ((c'.after ops).vectorBase + 0x180)

/-- Of any conditions the first of the highest priority is taken, and an interrupt only if
there are none and one may be taken; if nothing is taken, nothing changes.  After that
nothing is taken until there is a new reason, and exceptions on top of the one that was
taken keep its return address, however many they are. -/
theorem exception_entry {c : Cop0} (hclear : c.pending = none) (ks : List Condition)
    (site : ExceptionSite) : c.EntryLaw ks site := by
  have hstatus : (c.recordAll ks).status = c.status :=
    congrArg Prod.snd (c.statusState_recordAll ks)
  refine ⟨fun hks => ?_, fun _ hwaiting => interrupted_service hclear hwaiting site,
    fun _ hidle => ?_, fun hnone => ?_, fun target c' hservice => ?_,
    fun target c' hservice hexl hsync => ?_, fun target c' hservice ops hops hexl =>
      ⟨fun a slot h => h.after hops hexl, fun store a h site' => ?_⟩⟩
  · obtain ⟨k, hpending, hforemost⟩ := pending_recordAll hclear hks
    obtain ⟨target, c', hservice, htaken⟩ := taken_service hpending site
    exact ⟨k, target, c', hforemost, hservice, htaken⟩
  · rw [idle_service hclear hidle site]
  · -- Nothing was taken, so nothing can have been noted
    cases ks with
    | nil => exact service_eq_none (c := c) (Prod.ext hnone rfl)
    | cons k ks =>
      obtain ⟨k', hpending, -⟩ := pending_recordAll hclear (List.cons_ne_nil k ks)
      exact nomatch hpending.symm.trans (pending_of_service_none (Prod.ext hnone rfl))
  · have hresting := resting_service hservice
    refine ⟨hresting.pending, hresting.disabled, fun ops hops site' => ?_⟩
    rw [(hresting.after hops).service site']
  · -- The condition that was taken is the foremost one, and that is synchronous
    refine returnsTo_service hservice (hstatus ▸ hexl) fun k hnoted => ?_
    cases ks with
    | nil => exact nomatch hclear.symm.trans hnoted
    | cons k' ks =>
      obtain ⟨k'', hpending, hforemost⟩ := pending_recordAll hclear (List.cons_ne_nil k' ks)
      cases hnoted.symm.trans hpending
      exact hsync k hforemost
  · exact service_nested_refill (hexl ops (List.prefix_refl ops)) h site'

/-- Four conditions from power-on: the first of the two refills is taken, not the overflow
that was noted before it. -/
theorem exception_entry_refill :
    let ks := [.general .overflow, .tlbRefill true 0x1000, .cacheError, .xtlbRefill false 0x2000]
    (initial.recordAll ks).pending = some (.tlbRefill true 0x1000) ∧
      initial.EntryLaw ks ⟨0xFFFFFFFF80001004, true⟩ :=
  ⟨by decide, exception_entry rfl _ _⟩

end Cop0

end Console64
