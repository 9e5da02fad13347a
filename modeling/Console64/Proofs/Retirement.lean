import Console64.Proofs.InstructionEffect

/-!
# How an instruction ends

When an instruction retires, the counters move on and what was noted is taken, or else
an interrupt.  This file says what that does to the CPU: all that the two kinds of
exception have in common is that they are entered (`Cop0.enter`) and go on at one of the
vectors.

## Key results

- `Cpu.retire_true` / `Cpu.retire_false`: the CPU after an instruction, without an
  exception and with one
- `Cop0.service_entered`: taking something is entering an exception
- `Cop0.enter_status` / `Cop0.enter_get`: what entering leaves in the registers
-/

namespace Console64

/-- Bit `n` of a word, as a Boolean. -/
theorem testBit_eq_getLsbD (w : UInt32) {n : Nat} (h : n < 32) :
    testBit w (UInt32.ofNat n) = w.toBitVec.getLsbD n := by
  have hn : (UInt32.ofNat n).toNat % 32 = n := by
    rw [UInt32.toNat_ofNat']
    omega
  rw [Bool.eq_iff_iff, testBit, decide_eq_true_eq, ← UInt32.toNat_inj, UInt32.toNat_and,
    UInt32.toNat_shiftRight, hn]
  show (w.toNat >>> n) &&& 1 = 1 ↔ w.toNat.testBit n = true
  rw [Nat.and_one_is_mod, Nat.testBit_eq_decide_div_mod_eq, Nat.shiftRight_eq_div_pow,
    decide_eq_true_eq]

namespace Cop0

/-! ## The counters -/

/-- The coprocessor once a cycle has passed and the replacement index has moved. -/
def ticked (c : Cop0) : Cop0 := c.tick.stepRandom

/-- The registers that change by themselves. -/
def movingRegisters : List RegisterIndex := [random, count, causeWord]

/-- Only the cause changes, -/
private theorem get_setCause (c : Cop0) (word : UInt64) (r : RegisterIndex) :
    (c.setCause word).get r = if causeWord = r then low32 word else c.get r :=
  get_put c causeWord r (low32 word)

/-- and in a cycle the counter too. -/
private theorem get_tick (c : Cop0) {r : RegisterIndex} (hcount : r ≠ count)
    (hcause : r ≠ causeWord) : c.tick.get r = c.get r := by
  simp only [tick]
  split
  · rfl
  · split
    · simp only [timerExpired]
      split
      · rw [get_setCause, if_neg (Ne.symm hcause), get_put, if_neg (Ne.symm hcount)]
        rfl
      · exact (get_put _ count r _).trans (if_neg (Ne.symm hcount))
    · exact (get_put _ count r _).trans (if_neg (Ne.symm hcount))

/-- The other registers stay as they are. -/
theorem get_ticked (c : Cop0) {r : RegisterIndex} (h : r ∉ movingRegisters) :
    c.ticked.get r = c.get r := by
  simp only [movingRegisters, List.mem_cons, List.not_mem_nil, or_false, not_or] at h
  obtain ⟨hrandom, hcount, hcause⟩ := h
  rw [ticked, stepRandom, get_put, if_neg (Ne.symm hrandom), get_tick c hcount hcause]

/-- Of the cause word only the timer bit may have changed. -/
theorem cause_ticked (c : Cop0) :
    c.ticked.get causeWord = c.get causeWord ∨
      c.ticked.get causeWord = low32 (c.get causeWord ||| timerBit) := by
  -- Random moves at every instruction, and Count before the comparison; neither is Cause
  have hrandom : c.ticked.get causeWord = c.tick.get causeWord :=
    (get_put c.tick random causeWord _).trans (if_neg (by decide))
  have hcount : ∀ c : Cop0, ∀ now, (c.put count now).get causeWord = c.get causeWord :=
    fun c now => (get_put c count causeWord now).trans (if_neg (by decide))
  rw [hrandom]
  simp only [tick]
  split
  · exact .inl rfl
  · split
    · simp only [timerExpired]
      split
      · right
        rw [get_setCause, if_pos rfl, hcount]
        rfl
      · exact .inl (hcount _ _)
    · exact .inl (hcount _ _)

/-- A cycle notes nothing and leaves the status alone. -/
theorem ticked_keeps (c : Cop0) :
    c.ticked.pending = c.pending ∧ c.ticked.statusState = c.statusState := by
  have hword := c.get_ticked (r := statusWord) (by decide)
  have hkept : c.ticked.pending = c.pending ∧ c.ticked.status = c.status := by
    simp only [ticked, stepRandom, tick, timerExpired]
    repeat' split
    all_goals exact ⟨rfl, rfl⟩
  exact ⟨hkept.1, Prod.ext hword hkept.2⟩

/-! ## Entering an exception -/

/-- Where handlers are, for all exceptions that come from an instruction or a device. -/
def vectors (c : Cop0) : List UInt64 := [c.vectorBase, c.vectorBase + 0x80, c.vectorBase + 0x180]

/-- The coprocessor with other things to be taken. -/
def awaiting (c : Cop0) (pending : Option Condition) (timerPending : Bool) : Cop0 :=
  { c with pending, timerPending }

/-- The coprocessor has entered an exception at a site. -/
def Entered (c : Cop0) (site : ExceptionSite) (c' : Cop0) : Prop :=
  ∃ timerPending code unit, c' = (c.awaiting none timerPending).enter site code unit

/-- Taking an interrupt is entering an exception. -/
theorem serviceInterrupt_entered {c c' : Cop0} {site : ExceptionSite} {target : UInt64}
    (hclear : c.pending = none) (h : c.serviceInterrupt site = (some target, c')) :
    target = c.vectorBase + 0x180 ∧
      ∃ timerPending, c' = (c.awaiting none timerPending).enter site .interrupt 0 := by
  -- Forgetting nothing is not a change, which unifies the two interrupts
  have hsame : c = c.awaiting none c.timerPending := by
    rw [awaiting, ← hclear]
  simp only [serviceInterrupt] at h
  split at h
  case isTrue => cases h
  case isFalse =>
    split at h
    case isTrue =>
      simp only [Prod.mk.injEq, Option.some.injEq] at h
      obtain ⟨rfl, rfl⟩ := h
      exact ⟨rfl, c.timerPending, by rw [← hsame]⟩
    case isFalse =>
      split at h
      case isTrue =>
        simp only [Prod.mk.injEq, Option.some.injEq] at h
        obtain ⟨rfl, rfl⟩ := h
        exact ⟨rfl, false, by rw [awaiting, ← hclear]⟩
      case isFalse => cases h

/-- So is taking what an instruction has noted. -/
private theorem serviceCondition_entered (c : Cop0) (site : ExceptionSite) {k : Condition}
    (h : k.Synchronous) :
    (c.serviceCondition site k).1 ∈ c.vectors ∧
      ∃ code unit, (c.serviceCondition site k).2 = c.enter site code unit := by
  have hbase : c.vectorBase + 0 = c.vectorBase := by simp
  cases k with
  | reset | cacheError => exact h.elim
  | tlbRefill store a | xtlbRefill store a =>
    simp only [serviceCondition, vectors]
    refine ⟨?_, _, _, rfl⟩
    split <;> simp
  | address code a | coprocessorUnusable unit | general code =>
    exact ⟨by simp [serviceCondition, vectors], _, _, rfl⟩

/-- Whatever is taken at the end of an instruction, an exception is entered, and execution
goes on at one of the vectors. -/
theorem service_entered {c c' : Cop0} {site : ExceptionSite} {target : UInt64}
    (hsync : ∀ k, c.pending = some k → k.Synchronous)
    (h : c.service site = (some target, c')) : target ∈ c.vectors ∧ c.Entered site c' := by
  simp only [service] at h
  -- A condition that is noted comes before any interrupt
  cases hpending : c.pending with
  | some k =>
    simp only [hpending, Prod.mk.injEq, Option.some.injEq] at h
    obtain ⟨rfl, rfl⟩ := h
    obtain ⟨hvector, code, unit, heq⟩ :=
      serviceCondition_entered { c with pending := none } site (hsync k hpending)
    exact ⟨hvector, c.timerPending, code, unit, heq⟩
  | none =>
    simp only [hpending] at h
    obtain ⟨rfl, timerPending, rfl⟩ := serviceInterrupt_entered hpending h
    exact ⟨by simp [vectors], timerPending, _, _, rfl⟩

/-- What has been noted is always taken. -/
theorem pending_of_service_none {c c' : Cop0} {site : ExceptionSite}
    (h : c.service site = (none, c')) : c.pending = none := by
  simp only [service] at h
  cases hpending : c.pending with
  | none => rfl
  | some k =>
    simp only [hpending] at h
    cases h

/-- Entering an exception notes nothing. -/
private theorem pending_enter (c : Cop0) (site : ExceptionSite) (code : ExceptionCode)
    (unit : UInt8) : (c.enter site code unit).pending = c.pending := by
  simp only [enter, saveReturn]
  split <;> rfl

/-- Taking what was noted, or an interrupt, leaves nothing noted. -/
theorem pending_service (c : Cop0) (site : ExceptionSite) :
    (c.service site).2.pending = none := by
  simp only [service]
  split
  case h_1 k _ =>
    cases k with
    | reset | cacheError => rfl
    | tlbRefill | xtlbRefill | address | coprocessorUnusable | general =>
      exact pending_enter _ _ _ _
  case h_2 hnone =>
    simp only [serviceInterrupt]
    repeat' split
    · exact hnone
    · exact (pending_enter _ _ _ _).trans hnone
    · exact (pending_enter _ _ _ _).trans hnone
    · exact hnone

/-! ## What entering leaves -/

/-- The status on entry: handling an exception. -/
theorem enter_status (c : Cop0) (site : ExceptionSite) (code : ExceptionCode) (unit : UInt8) :
    (c.enter site code unit).statusState =
      (low32 (c.get statusWord ||| exlBit), .decode (c.get statusWord ||| exlBit).toUInt32) := by
  have hword : ((c.saveReturn site).setCause (c.enteredCause site code unit)).get statusWord =
      c.get statusWord := by
    rw [get_setCause, if_neg (by decide), saveReturn]
    split
    · rfl
    · exact (get_put c epc statusWord _).trans (if_neg (by decide))
  simp only [enter, hword, statusState, setStatus]
  exact Prod.ext ((get_put _ statusWord statusWord _).trans (if_pos rfl)) rfl

/-- The cause and the address to return to on entry, when no exception was being handled. -/
theorem enter_get {c : Cop0} (site : ExceptionSite) (code : ExceptionCode) (unit : UInt8)
    (hexl : c.status.exl = false) :
    (c.enter site code unit).get epc = site.returnAddress ∧
      (c.enter site code unit).get causeWord = low32 (c.enteredCause site code unit) ∧
      (c.enter site code unit).cause = .decode (c.enteredCause site code unit).toUInt32 := by
  have hsave : c.saveReturn site = c.put epc site.returnAddress := by
    rw [saveReturn, hexl]
    rfl
  simp only [enter, setStatus, hsave]
  refine ⟨?_, ?_, rfl⟩
  · refine (get_put _ statusWord epc _).trans ((if_neg (by decide)).trans ?_)
    rw [get_setCause, if_neg (by decide), get_put, if_pos rfl]
  · refine (get_put _ statusWord causeWord _).trans ((if_neg (by decide)).trans ?_)
    rw [get_setCause, if_pos rfl]

end Cop0

/-! ## Retirement -/

namespace Cpu

/-- The CPU at the end of an instruction, before anything is taken. -/
def ended (c : Cpu) : Cpu :=
  let c := c.setGpr 0 0
  { c with cop0 := c.cop0.ticked }.traceCurrent

/-- Register 0 holds zero then, and the others hold what they did. -/
theorem reg_ended (c : Cpu) (r : RegisterIndex) :
    c.ended.reg r = if 0 = r then 0 else c.reg r := c.reg_setGpr 0 r 0

/-- Without an exception, the counters have moved. -/
theorem retire_true {c c' : Cpu} (h : c.retire = (c', true)) :
    c.cop0.pending = none ∧ c' = c.ended := by
  simp only [retire, serviceExceptions] at h
  split at h
  case h_1 => cases h
  case h_2 cop0 hservice =>
    cases h
    have hnone : c.cop0.ticked.pending = none := Cop0.pending_of_service_none hservice
    refine ⟨c.cop0.ticked_keeps.1 ▸ hnone, ?_⟩
    rw [Cop0.service_eq_none hservice]
    rfl

/-- With one, execution goes on where taking it says. -/
theorem retire_false {c c' : Cpu} (h : c.retire = (c', false)) :
    ∃ target cop0, c.ended.cop0.service c.ended.exceptionSite = (some target, cop0) ∧
      c' = ({ c.ended with cop0 }.followStatus.jumpTo target) := by
  simp only [retire, serviceExceptions] at h
  split at h
  case h_1 target cop0 hservice =>
    cases h
    exact ⟨target, cop0, hservice, rfl⟩
  case h_2 => cases h

end Cpu

end Console64
