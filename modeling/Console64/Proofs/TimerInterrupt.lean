import Console64.Proofs.CoprocessorState
import Mathlib.Algebra.Group.Nat.Defs

/-!
# The timer

The counter moves on every second cycle, and the timer expires whenever it comes to the
compare value.  The two are equal for two cycles only, so that this has been so is kept: in
the cause word, or in a line of its own.  However counter and compare value are placed around
the end of the 32-bit range, the timer misses no expiry and makes none up.

## Key results

- `Cop0.Counted`: what so many steps of the counter leave
- `Cop0.Counted.trans`: steps of the counter add up
- `Cop0.counted_after`: cycles as steps of the counter
- `Cop0.timer_exact`: when the counter has come to the compare value, and what shows it
-/

namespace Console64

/-! ## The timer line in the cause word -/

/-- Bits that a mask does not show may be set without its seeing them. -/
private theorem or_and_of_disjoint {v u m : UInt32} (h : u &&& m = 0) :
    (v ||| u) &&& m = v &&& m := by
  have hbits := congrArg UInt32.toBitVec h
  rw [UInt32.toBitVec_and] at hbits
  apply UInt32.eq_of_toBitVec_eq
  rw [UInt32.toBitVec_and, UInt32.toBitVec_or, BitVec.and_or_distrib_right, hbits]
  exact BitVec.or_zero

/-- The timer is the last of the interrupt lines, and no other part of the cause. -/
theorem CauseFlags.decode_timer (w : UInt32) :
    decode (w ||| 0x8000) = { decode w with ip := (decode w).ip ||| 0x80 } := by
  simp only [decode, testBit, UInt32.shiftRight_or, UInt32.toUInt8_or]
  rw [or_and_of_disjoint (by decide), or_and_of_disjoint (by decide),
    or_and_of_disjoint (by decide)]
  rfl

namespace Cop0

/-- The low word of bits joined is that of either, joined, -/
private theorem low32_or (v w : UInt64) : low32 (v ||| w) = low32 v ||| low32 w := by
  apply UInt64.eq_of_toBitVec_eq
  simp only [low32, UInt64.toBitVec_and, UInt64.toBitVec_or, BitVec.and_or_distrib_right]

/-- and as a number it is what 32 bits can hold. -/
private theorem toNat_low32 (w : UInt64) : (low32 w).toNat = w.toNat % 2 ^ 32 :=
  Nat.and_two_pow_sub_one_eq_mod w.toNat 32

/-! ## What the timer works with -/

namespace Operation

/-- A cycle passes. -/
def isTick : Operation → Bool
  | tick => true
  | _ => false

/-- Nothing is written and nothing taken: a cycle passes, the replacement index moves, or a
condition is noted. -/
def isIdle : Operation → Bool
  | tick | stepRandom | record _ => true
  | _ => false

end Operation

/-- The steps that the counter makes in so many cycles. -/
def countSteps (c : Cop0) (cycles : Nat) : Nat := (cycles + if c.halfCycle then 1 else 0) / 2

/-- One of the next `k` steps of the counter comes to the compare value. -/
def Meets (c : Cop0) (k : Nat) : Prop :=
  ∃ j, 1 ≤ j ∧ j ≤ k ∧ ((c.get count).toNat + j) % 2 ^ 32 = (c.get compare).toNat

/-- The counter and the compare value hold 32 bits. -/
def TimerNarrow (c : Cop0) : Prop :=
  c.get count < 0x100000000 ∧ c.get compare < 0x100000000

/-- What shows that the timer has expired: the cause, or a line of its own. -/
def signals (c : Cop0) : UInt64 × CauseFlags × Bool := (c.get causeWord, c.cause, c.timerPending)

/-- `c'` is `c` after `k` steps of the counter. -/
structure Counted (c : Cop0) (k : Nat) (c' : Cop0) : Prop where
  count : (c'.get count).toNat = ((c.get count).toNat + k) % 2 ^ 32
  compare : c'.get compare = c.get compare
  route : c'.timerOnLine7 = c.timerOnLine7
  met : c.Meets k → c'.signals = c.timerExpired.signals
  unmet : ¬c.Meets k → c'.signals = c.signals

/-- What the expiring timer shows, by its route, -/
theorem signals_timerExpired (c : Cop0) : c.timerExpired.signals =
    if c.timerOnLine7 then
      (low32 (c.get causeWord ||| timerBit),
        .decode (c.get causeWord ||| timerBit).toUInt32, c.timerPending)
    else (c.get causeWord, c.cause, true) := by
  simp only [timerExpired]
  split
  · exact congrArg (·, _, _) (get_put_self c causeWord _)
  · rfl

/-- which it leaves alone, -/
theorem route_timerExpired (c : Cop0) : c.timerExpired.timerOnLine7 = c.timerOnLine7 := by
  rw [timerExpired]
  split <;> rfl

/-- and so it does with registers other than the cause. -/
theorem get_timerExpired (c : Cop0) {r : RegisterIndex} (h : r ≠ causeWord) :
    c.timerExpired.get r = c.get r := by
  rw [timerExpired]
  split
  · exact get_put_of_ne _ (Ne.symm h) _
  · rfl

/-- What expiring leaves depends on what was there before and on the route. -/
private theorem signals_timerExpired_congr {c c' : Cop0} (h : c'.signals = c.signals)
    (hroute : c'.timerOnLine7 = c.timerOnLine7) :
    c'.timerExpired.signals = c.timerExpired.signals := by
  simp only [signals, Prod.mk.injEq] at h
  simp only [signals_timerExpired, h, hroute]

/-- Once it has expired, expiring again adds nothing. -/
private theorem signals_timerExpired_twice (c : Cop0) :
    c.timerExpired.timerExpired.signals = c.timerExpired.signals := by
  have hfirst := signals_timerExpired c
  rw [signals_timerExpired c.timerExpired, route_timerExpired, hfirst]
  split
  case isTrue hline =>
    simp only [signals, if_pos hline, Prod.mk.injEq] at hfirst
    obtain ⟨hword, -, hpending⟩ := hfirst
    -- The bit is in the word already
    have hkept : low32 (c.timerExpired.get causeWord ||| timerBit) =
        low32 (c.get causeWord ||| timerBit) := by
      rw [hword, low32_or, low32_low32, ← low32_or, UInt64.or_assoc, UInt64.or_self]
    rw [hkept, hpending, ← toUInt32_low32 (_ ||| _), hkept, toUInt32_low32]
  case isFalse hline =>
    simp only [signals, if_neg hline, Prod.mk.injEq] at hfirst
    rw [hfirst.1, hfirst.2.1]

/-! ## Steps of the counter -/

section
variable {c c' c'' : Cop0} {k l : Nat}

/-- The counter is below 2^32, -/
theorem TimerNarrow.count_lt (h : c.TimerNarrow) : (c.get count).toNat < 2 ^ 32 :=
  UInt64.lt_iff_toNat_lt.mp h.1

/-- and the compare value too. -/
theorem TimerNarrow.compare_lt (h : c.TimerNarrow) : (c.get compare).toNat < 2 ^ 32 :=
  UInt64.lt_iff_toNat_lt.mp h.2

/-- No step, no match. -/
theorem not_meets_zero (c : Cop0) : ¬c.Meets 0 := by
  rintro ⟨j, hpos, hle, -⟩
  omega

/-- Nothing that the timer works with has changed. -/
theorem Counted.of_same (h : c.TimerNarrow) (hcount : c'.get Cop0.count = c.get Cop0.count)
    (hcompare : c'.get Cop0.compare = c.get Cop0.compare)
    (hroute : c'.timerOnLine7 = c.timerOnLine7) (hsignals : c'.signals = c.signals) :
    c.Counted 0 c' where
  count := by rw [hcount, Nat.add_zero, Nat.mod_eq_of_lt h.count_lt]
  compare := hcompare
  route := hroute
  met hmet := absurd hmet c.not_meets_zero
  unmet _ := hsignals

/-- The counter never comes to more than 32 bits, and the compare value is not touched. -/
theorem Counted.narrow (h : c.Counted k c') (hnarrow : c.TimerNarrow) : c'.TimerNarrow := by
  refine ⟨?_, h.compare ▸ hnarrow.2⟩
  rw [UInt64.lt_iff_toNat_lt, h.count]
  exact Nat.mod_lt _ (by decide)

/-- The counter meets the compare value in the first steps or in the later ones. -/
theorem Counted.meets_add (h : c.Counted k c') : c.Meets (k + l) ↔ c.Meets k ∨ c'.Meets l := by
  have hlater : ∀ j, ((c'.get Cop0.count).toNat + j) % 2 ^ 32 =
      ((c.get Cop0.count).toNat + (k + j)) % 2 ^ 32 := by
    intro j
    rw [h.count]
    omega
  simp only [Meets, hlater, h.compare]
  -- The counter meets the compare value in the first part or in the second
  constructor
  · rintro ⟨j, hpos, hle, hmeet⟩
    rcases Nat.lt_or_ge k j with hsecond | hfirst
    · refine .inr ⟨j - k, by omega, by omega, ?_⟩
      rwa [Nat.add_sub_cancel' (Nat.le_of_lt hsecond)]
    · exact .inl ⟨j, hpos, hfirst, hmeet⟩
  · rintro (⟨j, hpos, hle, hmeet⟩ | ⟨j, hpos, hle, hmeet⟩)
    · exact ⟨j, hpos, by omega, hmeet⟩
    · exact ⟨k + j, by omega, by omega, hmeet⟩

/-- Steps of the counter add up.  A step that does not come to the compare value leaves what
has been kept, and one that does finds it kept already or keeps it. -/
theorem Counted.trans (h : c.Counted k c') (h' : c'.Counted l c'') : c.Counted (k + l) c'' where
  count := by
    rw [h'.count, h.count]
    omega
  compare := h'.compare.trans h.compare
  route := h'.route.trans h.route
  met hmet := by
    -- The match may be in the first steps, in the later ones or in both
    by_cases hsecond : c'.Meets l
    · rw [h'.met hsecond]
      by_cases hfirst : c.Meets k
      · have hroute := h.route.trans c.route_timerExpired.symm
        rw [signals_timerExpired_congr (h.met hfirst) hroute, signals_timerExpired_twice]
      · exact signals_timerExpired_congr (h.unmet hfirst) h.route
    · rw [h'.unmet hsecond]
      exact h.met ((h.meets_add.mp hmet).resolve_right hsecond)
  unmet hunmet := by
    rw [h.meets_add, not_or] at hunmet
    rw [h'.unmet hunmet.2, h.unmet hunmet.1]

/-- The coprocessor once the counter has moved on, before it is compared. -/
def countedUp (c : Cop0) : Cop0 :=
  { c with halfCycle := false }.put Cop0.count (low32 (c.get Cop0.count + 1))

/-- Only the counter has changed, -/
theorem get_countedUp (c : Cop0) {r : RegisterIndex} (h : r ≠ Cop0.count) :
    c.countedUp.get r = c.get r := get_put_of_ne _ (Ne.symm h) _

/-- by one, around 2^32. -/
theorem toNat_count_countedUp (c : Cop0) :
    (c.countedUp.get Cop0.count).toNat = ((c.get Cop0.count).toNat + 1) % 2 ^ 32 := by
  have hcount : c.countedUp.get Cop0.count = low32 (c.get Cop0.count + 1) := get_put_self _ _ _
  have hstep : (c.get Cop0.count + 1).toNat = ((c.get Cop0.count).toNat + 1) % 2 ^ 64 :=
    UInt64.toNat_add _ _
  rw [hcount, toNat_low32, hstep]
  omega

/-- The second half of a step. -/
theorem tick_of_halfCycle (hhalf : c.halfCycle = true) :
    c.tick = if c.countedUp.get Cop0.count = low32 (c.get Cop0.compare) then
      c.countedUp.timerExpired else c.countedUp := by
  have hcount : c.countedUp.get Cop0.count = low32 (c.get Cop0.count + 1) := get_put_self _ _ _
  rw [hcount, ← c.get_countedUp (r := Cop0.compare) (by decide)]
  simp only [tick, hhalf, Bool.not_true, Bool.false_eq_true, ↓reduceIte]
  rfl

/-- One step of the counter comes to the compare value if they are equal after it. -/
theorem TimerNarrow.meets_one (h : c.TimerNarrow) :
    c.countedUp.get Cop0.count = low32 (c.get Cop0.compare) ↔ c.Meets 1 := by
  rw [← UInt64.toNat_inj, toNat_count_countedUp, toNat_low32, Nat.mod_eq_of_lt h.compare_lt]
  constructor
  · exact fun hmeet => ⟨1, by omega, by omega, hmeet⟩
  · rintro ⟨j, hpos, hle, hmeet⟩
    rwa [show j = 1 by omega] at hmeet

/-- So a second half is one step of the counter, whether or not it comes to the compare value. -/
private theorem counted_step (h : c.TimerNarrow) (hhalf : c.halfCycle = true) :
    c.Counted 1 c.tick := by
  have hsignals : c.countedUp.signals = c.signals :=
    congrArg (·, _, _) (c.get_countedUp (r := causeWord) (by decide))
  rw [tick_of_halfCycle hhalf]
  split
  case isTrue hmeet =>
    exact
      { count := by rw [get_timerExpired _ (by decide), toNat_count_countedUp]
        compare := (get_timerExpired _ (by decide)).trans (c.get_countedUp (by decide))
        route := c.countedUp.route_timerExpired
        met := fun _ => signals_timerExpired_congr hsignals rfl
        unmet := fun hunmet => absurd (h.meets_one.mp hmeet) hunmet }
  case isFalse hmeet =>
    exact
      { count := c.toNat_count_countedUp
        compare := c.get_countedUp (by decide)
        route := rfl
        met := fun hmet => absurd (h.meets_one.mpr hmet) hmeet
        unmet := fun _ => hsignals }

/-- A cycle is the first or the second half of a step. -/
theorem counted_tick (h : c.TimerNarrow) : c.Counted (c.countSteps 1) c.tick := by
  cases hhalf : c.halfCycle with
  | false =>
    have htick : c.tick = { c with halfCycle := true } := by
      simp only [tick, hhalf, Bool.not_false, ↓reduceIte]
    rw [htick, countSteps, hhalf]
    exact .of_same h rfl rfl rfl rfl
  | true =>
    rw [countSteps, hhalf]
    exact counted_step h hhalf

/-- Cycles take turns. -/
theorem halfCycle_tick (c : Cop0) : c.tick.halfCycle = !c.halfCycle := by
  simp only [tick, timerExpired]
  repeat' split
  all_goals rfl

/-- Of what may happen meanwhile, only a cycle moves the counter. -/
theorem counted_of_isIdle (h : c.TimerNarrow) {op : Operation} (hop : op.isIdle = true)
    (htick : op.isTick = false) :
    c.Counted 0 (c.next op) ∧ (c.next op).halfCycle = c.halfCycle := by
  cases op with
  | tick => cases htick
  -- These write other registers than the counter, the compare value and the cause
  | stepRandom =>
    have hget : ∀ r, r ≠ random → c.stepRandom.get r = c.get r :=
      fun r hr => get_put_of_ne _ (Ne.symm hr) _
    exact ⟨.of_same h (hget _ (by decide)) (hget _ (by decide)) rfl
      (congrArg (·, _, _) (hget causeWord (by decide))), rfl⟩
  | record k =>
    have hget : ∀ r, r ∉ faultRegisters → (c.recordCondition k).get r = c.get r :=
      fun r hr => c.get_recordCondition k hr
    obtain ⟨registers, pending, heq⟩ := c.recordCondition_eq k
    have hsignals : (c.recordCondition k).signals = c.signals := by
      rw [signals, hget causeWord (by decide), heq]
      rfl
    exact ⟨.of_same h (hget _ (by decide)) (hget _ (by decide)) (by rw [next, heq]) hsignals,
      by rw [next, heq]⟩
  | write | load | loadCause | driveLine | routeTimer | service | leave => cases hop

/-- Cycles as steps of the counter: one for every two of them. -/
theorem counted_after {ops : List Operation} (h : c.TimerNarrow)
    (hidle : ∀ op ∈ ops, op.isIdle = true) :
    c.Counted (c.countSteps (ops.countP (·.isTick))) (c.after ops) := by
  induction ops generalizing c with
  | nil =>
    have hsteps : c.countSteps 0 = 0 := by
      simp only [countSteps]
      split <;> rfl
    rw [List.countP_nil, hsteps]
    exact .of_same h rfl rfl rfl rfl
  | cons op ops ih =>
    have hrest : ∀ op ∈ ops, op.isIdle = true := fun op hop => hidle op (.tail _ hop)
    cases htick : op.isTick with
    | false =>
      obtain ⟨hsame, hhalf⟩ := counted_of_isIdle h (hidle op (.head _)) htick
      have hafter := hsame.trans (ih (hsame.narrow h) hrest)
      rw [List.countP_cons_of_neg (ne_true_of_eq_false htick)]
      rwa [Nat.zero_add, countSteps, hhalf, ← countSteps] at hafter
    | true =>
      cases op with
      | tick =>
        have hstep := counted_tick h
        have hafter := hstep.trans (ih (hstep.narrow h) hrest)
        rw [List.countP_cons_of_pos htick]
        -- A half step and the cycles that follow it make as many steps as all of them
        have hsteps : c.countSteps (ops.countP (·.isTick) + 1) =
            c.countSteps 1 + c.tick.countSteps (ops.countP (·.isTick)) := by
          simp only [countSteps, halfCycle_tick]
          cases c.halfCycle with
          | false => simp
          | true => simp; omega
        rw [hsteps]
        exact hafter
      | _ => cases htick

end

/-! ## What shows it -/

/-- The timer is routed to interrupt line 7: the line is set, in the word and in its view,
where it was before or the timer has `expired`, and nothing else of the two has changed. -/
structure ShownOnLine7 (c c' : Cop0) (expired : Prop) : Prop where
  word : c'.get causeWord &&& timerBit ≠ 0 ↔ c.get causeWord &&& timerBit ≠ 0 ∨ expired
  others : low32 (c'.get causeWord) &&& ~~~timerBit = low32 (c.get causeWord) &&& ~~~timerBit
  view : c'.cause.ip &&& 0x80 ≠ 0 ↔ c.cause.ip &&& 0x80 ≠ 0 ∨ expired
  /-- As long as the view is that of the word. -/
  otherViews : c.cause = .decode (c.get causeWord).toUInt32 →
    { c'.cause with ip := c'.cause.ip ||| 0x80 } = { c.cause with ip := c.cause.ip ||| 0x80 }
  once : c'.timerPending = c.timerPending

/-- The timer is not routed to a line: a condition of its own is set where it was before or
the timer has `expired`, and the cause has not changed. -/
structure ShownOnce (c c' : Cop0) (expired : Prop) : Prop where
  once : c'.timerPending = true ↔ c.timerPending = true ∨ expired
  word : c'.get causeWord = c.get causeWord
  view : c'.cause = c.cause

/-- Of the word with the timer bit set the bit is seen to be set, -/
private theorem or_timerBit_and (w : UInt64) : low32 (w ||| timerBit) &&& timerBit = timerBit := by
  have hnarrow : low32 timerBit = timerBit := by decide
  apply UInt64.eq_of_toBitVec_eq
  rw [low32_or, hnarrow, UInt64.toBitVec_and, UInt64.toBitVec_or, BitVec.and_or_distrib_right,
    BitVec.and_self]
  grind

/-- and the others as they were. -/
private theorem or_timerBit_and_not (w : UInt64) :
    low32 (low32 (w ||| timerBit)) &&& ~~~timerBit = low32 w &&& ~~~timerBit := by
  have hnarrow : low32 timerBit = timerBit := by decide
  apply UInt64.eq_of_toBitVec_eq
  simp only [low32_low32, low32_or, hnarrow, UInt64.toBitVec_and, UInt64.toBitVec_or,
    UInt64.toBitVec_not, BitVec.and_or_distrib_right]
  simp

/-- So it is with the line in the view. -/
private theorem or_line_and (v : UInt8) : (v ||| 0x80) &&& 0x80 = 0x80 := by
  apply UInt8.eq_of_toBitVec_eq
  rw [UInt8.toBitVec_and, UInt8.toBitVec_or, BitVec.and_or_distrib_right, BitVec.and_self]
  grind

section
variable {c c' : Cop0} {k : Nat}

/-- With the timer on line 7 a match sets the line, and no match changes nothing. -/
theorem Counted.shownOnLine7 (h : c.Counted k c') (hroute : c.timerOnLine7 = true) :
    c.ShownOnLine7 c' (c.Meets k) := by
  by_cases hmet : c.Meets k
  case pos =>
    have hsignals := h.met hmet
    rw [signals_timerExpired, if_pos hroute] at hsignals
    simp only [signals, Prod.mk.injEq] at hsignals
    obtain ⟨hword, hview, honce⟩ := hsignals
    have hline : c'.cause = { CauseFlags.decode (c.get causeWord).toUInt32 with
        ip := (CauseFlags.decode (c.get causeWord).toUInt32).ip ||| 0x80 } := by
      -- The view is read off the word, where the timer is the last of the lines
      rw [hview, UInt64.toUInt32_or]
      exact CauseFlags.decode_timer _
    refine ⟨iff_of_true ?_ (.inr hmet), ?_, iff_of_true ?_ (.inr hmet), fun hsync => ?_, honce⟩
    · rw [hword, or_timerBit_and]
      decide
    · rw [hword, or_timerBit_and_not]
    · rw [hline, or_line_and]
      decide
    · rw [hline, hsync, UInt8.or_assoc, UInt8.or_self]
  case neg =>
    have hsignals := h.unmet hmet
    simp only [signals, Prod.mk.injEq] at hsignals
    obtain ⟨hword, hview, honce⟩ := hsignals
    exact ⟨by rw [hword, or_iff_left hmet], by rw [hword], by rw [hview, or_iff_left hmet],
      fun _ => by rw [hview], honce⟩

/-- Without, a match sets the condition of the timer instead. -/
theorem Counted.shownOnce (h : c.Counted k c') (hroute : c.timerOnLine7 = false) :
    c.ShownOnce c' (c.Meets k) := by
  have hexpired := signals_timerExpired c
  rw [if_neg (ne_true_of_eq_false hroute)] at hexpired
  by_cases hmet : c.Meets k
  case pos =>
    have hsignals := h.met hmet
    rw [hexpired] at hsignals
    simp only [signals, Prod.mk.injEq] at hsignals
    exact ⟨iff_of_true hsignals.2.2 (.inr hmet), hsignals.1, hsignals.2.1⟩
  case neg =>
    have hsignals := h.unmet hmet
    simp only [signals, Prod.mk.injEq] at hsignals
    exact ⟨by rw [hsignals.2.2, or_iff_left hmet], hsignals.1, hsignals.2.1⟩

end

/-- The timer never misses and never fires early.  While nothing is written and nothing
taken, the counter moves on by one for every two cycles, modulo 2^32, and what shows the
expiry of the timer is set exactly if it was set before or one of these steps has come to
the compare value: with the timer routed to interrupt line 7 its bit of the cause, and of the
cause no other; otherwise the condition that is taken once, and the cause stays as it was. -/
theorem timer_exact {c : Cop0} (hcount : c.get count < 0x100000000)
    (hcompare : c.get compare < 0x100000000) {ops : List Operation}
    (hidle : ∀ op ∈ ops, op.isIdle = true) :
    let k := c.countSteps (ops.countP (·.isTick))
    ((c.after ops).get count).toNat = ((c.get count).toNat + k) % 2 ^ 32 ∧
      (c.timerOnLine7 = true → c.ShownOnLine7 (c.after ops) (c.Meets k)) ∧
      (c.timerOnLine7 = false → c.ShownOnce (c.after ops) (c.Meets k)) :=
  have h := counted_after ⟨hcount, hcompare⟩ hidle
  ⟨h.count, h.shownOnLine7, h.shownOnce⟩

/-- A counter three steps before a compare value that lies past the end of its range. -/
def wrapping : Cop0 := (initial.write count 0xFFFFFFFE).write compare 1

/-- What happens to it in six cycles, in the second of which a breakpoint is noted. -/
def sixCycles : List Operation :=
  [.tick, .stepRandom, .record (.general .breakpoint)] ++ List.replicate 5 .tick

/-- The third step of the counter takes it to the compare value. -/
theorem timer_exact_wrapping :
    ((wrapping.after sixCycles).get count).toNat = 1 ∧
      wrapping.get causeWord &&& timerBit = 0 ∧
      (wrapping.after sixCycles).get causeWord &&& timerBit ≠ 0 ∧
      (wrapping.after sixCycles).cause.ip &&& 0x80 ≠ 0 := by
  have hmet : wrapping.Meets 3 := ⟨3, by decide, by decide, by decide⟩
  have hidle : ∀ op ∈ sixCycles, op.isIdle = true := by decide
  obtain ⟨hcount, hshown, -⟩ := timer_exact (c := wrapping) (by decide) (by decide) hidle
  exact ⟨hcount, by decide, (hshown rfl).word.mpr (.inr hmet), (hshown rfl).view.mpr (.inr hmet)⟩

end Cop0

end Console64
