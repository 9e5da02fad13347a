import Console64.Proofs.Retirement

/-!
# The state of the system control coprocessor

The status and cause words are kept twice, in the registers and decoded, and the
replacement index moves between a limit that programs set and the last entry.  Everything
that is done to the coprocessor is one of a few operations, and each of them keeps the
views like the words, the narrow registers narrow and the index in its range.

## Key results

- `Cop0.Operation`: what is done to the coprocessor, by instructions and from outside
- `Cop0.Consistent`: the invariant
- `Cop0.consistent_after`: it holds after any operations from power-on
- `Cop0.Consistent.hardwareKept_write`: what a program's write leaves of the registers that
  hardware owns
- `Cop0.views_agree`: the views are those of the words at all times
-/

namespace Console64

namespace Cop0

/-! ## Operations -/

/-- The registers that are only changed together with something else, or not to all
values. -/
def guardedRegisters : List RegisterIndex :=
  [random, wired, count, compare, statusWord, causeWord]

/-- What is done to the coprocessor. -/
inductive Operation where
  /-- A program's write to a register. -/
  | write (r : RegisterIndex) (v : UInt64)
  /-- A register is loaded as it is, by an instruction for the TLB, a linked load or the
  boot ROM. -/
  | load (r : RegisterIndex) (v : UInt64) (h : r ∉ guardedRegisters)
  /-- The cause word is loaded, with the bits that hardware owns. -/
  | loadCause (word : UInt64)
  | record (k : Condition)
  | driveLine (line : UInt64) (level : Bool)
  | routeTimer (toLine7 : Bool)
  | tick
  | stepRandom
  | service (site : ExceptionSite)
  | leave

/-- The coprocessor after an operation. -/
def next (c : Cop0) : Operation → Cop0
  | .write r v => c.write r v
  | .load r v _ => c.put r v
  | .loadCause word => c.setCause word
  | .record k => c.recordCondition k
  | .driveLine line level => c.driveLine line level
  | .routeTimer toLine7 => { c with timerOnLine7 := toLine7 }
  | .tick => c.tick
  | .stepRandom => c.stepRandom
  | .service site => (c.service site).2
  | .leave => c.leave.2

/-- The coprocessor after one operation after the other. -/
def after (c : Cop0) (ops : List Operation) : Cop0 := ops.foldl next c

/-- Operations in two parts. -/
@[simp] theorem after_append (c : Cop0) (ops ops' : List Operation) :
    c.after (ops ++ ops') = (c.after ops).after ops' := List.foldl_append

/-! ## Single registers -/

/-- A register that is written has the value. -/
theorem get_put_self (c : Cop0) (r : RegisterIndex) (v : UInt64) : (c.put r v).get r = v :=
  (get_put c r r v).trans (if_pos rfl)

/-- The others have what they had. -/
theorem get_put_of_ne (c : Cop0) {r s : RegisterIndex} (h : r ≠ s) (v : UInt64) :
    (c.put r v).get s = c.get s := (get_put c r s v).trans (if_neg h)

/-! ## The invariant -/

/-- The registers that hold 32 bits. -/
def narrowRegisters : List RegisterIndex := [statusWord, causeWord, count, compare]

/-- The views are those of the words, and the registers hold what they can hold. -/
structure Consistent (c : Cop0) : Prop where
  status : c.status = .decode (c.get statusWord).toUInt32
  cause : c.cause = .decode (c.get causeWord).toUInt32
  narrow : ∀ r ∈ narrowRegisters, low32 (c.get r) = c.get r
  /-- The replacement index is not below the limit. -/
  limited : c.get wired &&& 0x1F ≤ c.get random
  bounded : c.get random ≤ 31

/-- To keep 32 bits twice is to keep them once. -/
theorem low32_low32 (w : UInt64) : low32 (low32 w) = low32 w := by
  simp only [low32, UInt64.and_assoc, UInt64.and_self]

/-- The word is in the bits that are kept. -/
theorem toUInt32_low32 (w : UInt64) : (low32 w).toUInt32 = w.toUInt32 := by
  rw [low32, UInt64.toUInt32_and]
  exact UInt32.and_neg_one

/-- They are not more than 32. -/
theorem low32_lt (w : UInt64) : low32 w < 0x100000000 := by
  rw [UInt64.lt_iff_toNat_lt, low32, UInt64.toNat_and]
  exact Nat.and_lt_two_pow _ (by decide : 0xFFFFFFFF < 2 ^ 32)

/-- The number of an entry is at most 31. -/
theorem entryNumber_le (w : UInt64) : w &&& 0x1F ≤ 31 := by
  rw [UInt64.le_iff_toNat_le, UInt64.toNat_and]
  exact Nat.and_le_right

/-- At power-on the views are those of the words. -/
theorem consistent_initial : initial.Consistent where
  status := by decide
  cause := by decide
  narrow := by decide
  limited := by decide
  bounded := by decide

/-! ## Each operation keeps it -/

namespace Consistent

variable {c : Cop0}

/-- What is not in the words, the views and the registers does not count. -/
theorem of_eq {c' : Cop0} (h : c.Consistent) (hregisters : c'.registers = c.registers)
    (hstatus : c'.status = c.status) (hcause : c'.cause = c.cause) : c'.Consistent := by
  have hget : c'.get = c.get := by
    funext r
    rw [get, hregisters, get]
  exact ⟨hstatus ▸ hget ▸ h.status, hcause ▸ hget ▸ h.cause, hget ▸ h.narrow, hget ▸ h.limited,
    hget ▸ h.bounded⟩

/-- One register changes, and its view with it if it has one. -/
theorem change (h : c.Consistent) {c' : Cop0} {r : RegisterIndex} {v : UInt64}
    (hget : ∀ s, c'.get s = if r = s then v else c.get s)
    (hnarrow : r ∈ narrowRegisters → low32 v = v) (hindex : r ≠ wired ∧ r ≠ random)
    (hstatus : c'.status = if r = statusWord then .decode v.toUInt32 else c.status)
    (hcause : c'.cause = if r = causeWord then .decode v.toUInt32 else c.cause) :
    c'.Consistent := by
  refine ⟨?_, ?_, fun s hs => ?_, ?_, ?_⟩
  -- The two views first: the register is theirs, or they stay as they are
  · rw [hstatus, hget]
    split
    · rfl
    · exact h.status
  · rw [hcause, hget]
    split
    · rfl
    · exact h.cause
  · rw [hget]
    split
    case isTrue hr => exact hnarrow (hr ▸ hs)
    case isFalse => exact h.narrow s hs
  -- It is neither the limit nor the index
  · rw [hget, hget, if_neg hindex.1, if_neg hindex.2]
    exact h.limited
  · rw [hget, if_neg hindex.2]
    exact h.bounded

/-- A register that is not guarded may hold anything. -/
theorem put (h : c.Consistent) {r : RegisterIndex} (hr : r ∉ guardedRegisters) (v : UInt64) :
    (c.put r v).Consistent := by
  simp only [guardedRegisters, List.mem_cons, List.not_mem_nil, or_false, not_or] at hr
  obtain ⟨hrandom, hwired, hcount, hcompare, hstatus, hcause⟩ := hr
  refine h.change (get_put c r · v) (fun hmem => ?_) ⟨hwired, hrandom⟩ (if_neg hstatus).symm
    (if_neg hcause).symm
  simp [narrowRegisters, hstatus, hcause, hcount, hcompare] at hmem

/-- The counter and what it is compared with may hold any 32 bits. -/
theorem put_timer (h : c.Consistent) {r : RegisterIndex} (hr : r = count ∨ r = compare)
    (v : UInt64) : (c.put r (low32 v)).Consistent := by
  rcases hr with rfl | rfl <;>
    exact h.change (get_put c _ · (low32 v)) (fun _ => low32_low32 v) (by decide) rfl rfl

/-- The status word is written along with its view. -/
theorem setStatus (h : c.Consistent) (word : UInt64) : (c.setStatus word).Consistent :=
  h.change (get_put c statusWord · (low32 word)) (fun _ => low32_low32 word) (by decide)
    (by rw [if_pos rfl, toUInt32_low32]; rfl) rfl

/-- So is the cause word. -/
theorem setCause (h : c.Consistent) (word : UInt64) : (c.setCause word).Consistent :=
  h.change (get_put c causeWord · (low32 word)) (fun _ => low32_low32 word) (by decide) rfl
    (by rw [if_pos rfl, toUInt32_low32]; rfl)

/-- The limit and the replacement index change, and the index stays in its range. -/
theorem reindex (h : c.Consistent) {c' : Cop0}
    (hget : ∀ s, s ≠ wired → s ≠ random → c'.get s = c.get s)
    (hstatus : c'.status = c.status) (hcause : c'.cause = c.cause)
    (hlimited : c'.get wired &&& 0x1F ≤ c'.get random) (hbounded : c'.get random ≤ 31) :
    c'.Consistent := by
  refine ⟨?_, ?_, fun s hs => ?_, hlimited, hbounded⟩
  · rw [hstatus, hget statusWord (by decide) (by decide)]
    exact h.status
  · rw [hcause, hget causeWord (by decide) (by decide)]
    exact h.cause
  · rw [hget s (by revert s; decide) (by revert s; decide)]
    exact h.narrow s hs

/-- A program's write.  The limit may end up above the old index, so the index starts anew. -/
theorem write (h : c.Consistent) (r : RegisterIndex) (v : UInt64) : (c.write r v).Consistent := by
  simp only [Cop0.write]
  split
  case h_1 => exact h.put_timer (.inl rfl) v
  case h_2 => exact ((h.put_timer (.inr rfl) v).setCause _).of_eq rfl rfl rfl
  case h_3 => exact h.setStatus v
  case h_4 => exact h.setCause _
  -- The limit is written, and the index starts at the last entry
  case h_5 =>
    refine h.reindex (fun s hs hs' => ?_) rfl rfl ?_ ?_
    · rw [get_put_of_ne _ (Ne.symm hs'), get_put_of_ne _ (Ne.symm hs)]
    · rw [get_put_self]
      exact entryNumber_le _
    · rw [get_put_self]
      exact UInt64.le_refl 31
  case h_6 | h_7 | h_11 | h_12 => exact h.put (by decide) _
  case h_8 | h_9 | h_10 => exact h
  case h_13 hcount hcompare hstatus hcause hwired _ _ hrandom _ _ _ _ =>
    refine h.put ?_ v
    simp only [guardedRegisters, List.mem_cons, List.not_mem_nil, or_false, not_or]
    exact ⟨hrandom, hwired, hcount, hcompare, hstatus, hcause⟩

/-- The four registers for the address at fault may hold anything. -/
theorem recordFault (h : c.Consistent) (a : UInt64) : (c.recordFault a).Consistent := by
  simp only [Cop0.recordFault]
  exact (((h.put (by decide) _).put (by decide) _).put (by decide) _).put (by decide) _

/-- A condition may come with an address at fault. -/
theorem recordCondition (h : c.Consistent) (k : Condition) : (c.recordCondition k).Consistent := by
  simp only [Cop0.recordCondition]
  split
  · exact h
  · cases k.faultAddress with
    | none => exact h.of_eq rfl rfl rfl
    | some a => exact (h.recordFault a).of_eq rfl rfl rfl

/-- An interrupt line is a bit of the cause word, which is written if it changes. -/
theorem driveLine (h : c.Consistent) (line : UInt64) (level : Bool) :
    (c.driveLine line level).Consistent := by
  have hchange : ∀ old new, (if new = old then c else c.setCause new).Consistent := by
    intro old new
    split
    · exact h
    · exact h.setCause new
  exact hchange _ _

/-- The counter moves at every other tick, and at the compare value it sets off the timer. -/
theorem tick (h : c.Consistent) : c.tick.Consistent := by
  have hhalf : ({ c with halfCycle := !c.halfCycle } : Cop0).Consistent := h.of_eq rfl rfl rfl
  -- Only every second tick counts, and only one that meets the compare value raises the line
  have hcount := hhalf.put_timer (.inl rfl) (c.get count + 1)
  simp only [Cop0.tick]
  split
  · exact hhalf
  · split
    · simp only [timerExpired]
      split
      · exact hcount.setCause _
      · exact hcount.of_eq rfl rfl rfl
    · exact hcount

/-- The index moves down as long as it is above the limit. -/
theorem stepRandom (h : c.Consistent) : c.stepRandom.Consistent := by
  have hrandom : c.stepRandom.get random =
      if c.get random &&& 0x1F ≤ c.get wired &&& 0x1F then 31 else (c.get random &&& 0x1F) - 1 :=
    c.get_put_self random _
  have hlimit := entryNumber_le (c.get wired)
  have hnow := entryNumber_le (c.get random)
  refine h.reindex (fun s _ hs => c.get_put_of_ne (Ne.symm hs) _) rfl rfl ?_ ?_
  · rw [hrandom, Cop0.stepRandom, get_put_of_ne _ (by decide)]
    grind
  · rw [hrandom]
    grind

/-- To enter a handler is to save where to return to, and to write both words. -/
theorem enter (h : c.Consistent) (site : ExceptionSite) (code : ExceptionCode) (unit : UInt8) :
    (c.enter site code unit).Consistent := by
  have hsave : (c.saveReturn site).Consistent := by
    simp only [saveReturn]
    split
    · exact h
    · exact h.put (by decide) _
  exact (hsave.setCause _).setStatus _

/-- An interrupt that is taken enters its handler. -/
theorem serviceInterrupt (h : c.Consistent) (site : ExceptionSite) :
    (c.serviceInterrupt site).2.Consistent := by
  have htaken : ({ c with timerPending := false } : Cop0).Consistent := h.of_eq rfl rfl rfl
  simp only [Cop0.serviceInterrupt]
  repeat' split
  · exact h
  · exact h.enter site _ _
  · exact htaken.enter site _ _
  · exact h

/-- Reset and cache errors save the address in a register of their own, the others enter a
handler. -/
theorem serviceCondition (h : c.Consistent) (site : ExceptionSite) (k : Condition) :
    (c.serviceCondition site k).2.Consistent := by
  have herror : ∀ v, (c.put errorEpc v).Consistent := h.put (by decide)
  cases k with
  | reset | cacheError => exact (herror _).setStatus _
  | tlbRefill | xtlbRefill | coprocessorUnusable | address | general => exact h.enter site _ _

/-- What is noted is taken first, then an interrupt. -/
theorem service (h : c.Consistent) (site : ExceptionSite) : (c.service site).2.Consistent := by
  have htaken : ({ c with pending := none } : Cop0).Consistent := h.of_eq rfl rfl rfl
  simp only [Cop0.service]
  split
  · exact htaken.serviceCondition site _
  · exact h.serviceInterrupt site

/-- The return from a handler writes the status. -/
theorem leave (h : c.Consistent) : c.leave.2.Consistent := by
  simp only [Cop0.leave]
  split <;> exact h.setStatus _

/-- Every operation keeps the invariant. -/
theorem next (h : c.Consistent) (op : Operation) : (c.next op).Consistent := by
  cases op with
  | write r v => exact h.write r v
  | load r v hr => exact h.put hr v
  | loadCause word => exact h.setCause word
  | record k => exact h.recordCondition k
  | driveLine line level => exact h.driveLine line level
  | routeTimer toLine7 => exact h.of_eq rfl rfl rfl
  | tick => exact h.tick
  | stepRandom => exact h.stepRandom
  | service site => exact h.service site
  | leave => exact h.leave

/-- So do all of them, one after the other. -/
theorem after (h : c.Consistent) (ops : List Operation) : (c.after ops).Consistent := by
  induction ops generalizing c with
  | nil => exact h
  | cons op ops ih => exact ih (h.next op)

end Consistent

/-- After any operations from power-on the views are those of the words. -/
theorem consistent_after (ops : List Operation) : (initial.after ops).Consistent :=
  consistent_initial.after ops

/-! ## What programs can write -/

/-- Bits of a 32-bit word are 32 bits. -/
private theorem low32_and {w : UInt64} (h : low32 w = w) (m : UInt64) :
    low32 (w &&& m) = w &&& m := by
  rw [low32, UInt64.and_assoc, UInt64.and_comm m, ← UInt64.and_assoc]
  exact congrArg (· &&& m) h

/-- Replacing bits of a 32-bit word leaves 32 bits. -/
private theorem low32_replace {old m : UInt64} (hold : low32 old = old) (hm : low32 m = m)
    (v : UInt64) : low32 ((old &&& ~~~m) ||| (v &&& m)) = (old &&& ~~~m) ||| (v &&& m) := by
  have hkept := low32_and hold (~~~m)
  have hnew := low32_and hm v
  rw [UInt64.and_comm m] at hnew
  simp only [low32, ← UInt64.toBitVec_inj, UInt64.toBitVec_and] at hkept hnew
  simp only [low32, ← UInt64.toBitVec_inj, UInt64.toBitVec_and, UInt64.toBitVec_or,
    BitVec.and_or_distrib_right]
  rw [hkept, hnew]

/-- A field of which hardware owns `m` keeps it. -/
private theorem keepHardware_and {field m : UInt64} (hfield : m &&& field = m)
    (hlow : m &&& 0xF = 0) (old new : UInt64) :
    keepHardware field old new &&& m = old &&& m := by
  apply UInt64.eq_of_toBitVec_eq
  apply BitVec.eq_of_getLsbD_eq
  intro k hk
  -- In each bit that hardware owns, the mask of the field is set and no low bit is
  have hfield := congrArg (fun w : UInt64 => w.toBitVec.getLsbD k) hfield
  have hlow := congrArg (fun w : UInt64 => w.toBitVec.getLsbD k) hlow
  simp only [UInt64.toBitVec_and, BitVec.getLsbD_and, UInt64.toBitVec_zero, BitVec.getLsbD_zero]
    at hfield hlow
  simp only [keepHardware, UInt64.toBitVec_and, UInt64.toBitVec_or, UInt64.toBitVec_not,
    BitVec.getLsbD_and, BitVec.getLsbD_or, BitVec.getLsbD_not, hk, decide_true, Bool.true_and]
  grind

/-- Writing one register leaves the others alone, but for the two that a write moves along. -/
private theorem get_write {c : Cop0} {r s : RegisterIndex} (v : UInt64) (hne : r ≠ s)
    (hcause : r = compare → s ≠ causeWord) (hrandom : r = wired → s ≠ random) :
    (c.write r v).get s = c.get s := by
  have hput : ∀ {c : Cop0} {t : RegisterIndex} v, s ≠ t → (c.put t v).get s = c.get s :=
    fun v ht => get_put_of_ne _ (Ne.symm ht) v
  -- Writes to the compare value move the cause along, those to the limit the index
  simp only [write]
  split
  case h_2 => exact (hput _ (hcause rfl)).trans (hput _ (Ne.symm hne))
  case h_5 => exact (hput _ (hrandom rfl)).trans (hput _ (Ne.symm hne))
  case h_8 | h_9 | h_10 => rfl
  all_goals exact hput _ (Ne.symm hne)

/-- What writes to a register itself leave of it, every write leaves. -/
private theorem part_write (part : UInt64 → UInt64) {c : Cop0} {s : RegisterIndex} {v : UInt64}
    (hs : s ≠ causeWord ∧ s ≠ random) (hown : part ((c.write s v).get s) = part (c.get s))
    (r : RegisterIndex) : part ((c.write r v).get s) = part (c.get s) := by
  by_cases hr : r = s
  · rw [hr, hown]
  · rw [get_write v hr (fun _ => hs.1) fun _ => hs.2]

/-- What a program's write leaves of what hardware owns: of the cause word all but the bits
for software, or the timer bit when the compare value is written, of the two context
registers the fields for the address at fault, and three whole registers. -/
structure HardwareKept (c : Cop0) (r : RegisterIndex) (v : UInt64) (c' : Cop0) : Prop where
  cause : c'.get causeWord =
    if r = causeWord then (c.get causeWord &&& ~~~softwareBits) ||| (v &&& softwareBits)
    else if r = compare then c.get causeWord &&& ~~~timerBit
    else c.get causeWord
  context : c'.get context &&& 0x007FFFF0 = c.get context &&& 0x007FFFF0
  extendedContext :
    c'.get extendedContext &&& 0x1FFFFFFF0 = c.get extendedContext &&& 0x1FFFFFFF0
  badAddress : c'.get badAddress = c.get badAddress
  processorId : c'.get processorId = c.get processorId
  random : c'.get random = if r = wired then 31 else c.get random

/-- A program's write leaves what hardware owns, register by register. -/
theorem Consistent.hardwareKept_write {c : Cop0} (h : c.Consistent) (r : RegisterIndex)
    (v : UInt64) : c.HardwareKept r v (c.write r v) := by
  have hword := h.narrow causeWord (by decide)
  have hset : ∀ (c : Cop0) word, low32 word = word → (c.setCause word).get causeWord = word :=
    fun c _ hnarrow => (c.get_put_self causeWord _).trans hnarrow
  refine ⟨?_, ?_, ?_, ?_, ?_, ?_⟩
  -- The cause word itself, the compare value, or another register
  · split
    case isTrue hr =>
      subst hr
      exact hset _ _ (low32_replace hword (by decide) v)
    case isFalse hr =>
      split
      case isTrue hcompare =>
        subst hcompare
        have hkept : (c.put Cop0.compare (low32 v)).get causeWord = c.get causeWord :=
          c.get_put_of_ne (by decide) _
        refine (hset _ _ ?_).trans (congrArg (· &&& _) hkept)
        rw [hkept]
        exact low32_and hword _
      case isFalse hcompare =>
        exact get_write v hr (fun h => absurd h hcompare) fun _ => by decide
  -- The two context registers keep a field each
  · refine part_write (· &&& 0x007FFFF0) (by decide) ?_ r
    have hown : (c.write Cop0.context v).get Cop0.context =
        keepHardware contextField (c.get Cop0.context) v := c.get_put_self _ _
    rw [hown]
    exact keepHardware_and (by decide) (by decide) _ v
  · refine part_write (· &&& 0x1FFFFFFF0) (by decide) ?_ r
    have hown : (c.write Cop0.extendedContext v).get Cop0.extendedContext =
        keepHardware extendedContextField (c.get Cop0.extendedContext) v := c.get_put_self _ _
    rw [hown]
    exact keepHardware_and (by decide) (by decide) _ v
  -- Of the registers that programs cannot write, only the index has an exception
  · exact part_write id (by decide) rfl r
  · exact part_write id (by decide) rfl r
  · split
    case isTrue hr =>
      subst hr
      exact get_put_self _ Cop0.random _
    case isFalse hr =>
      by_cases hrandom : r = Cop0.random
      · subst hrandom
        rfl
      · exact get_write v hrandom (fun _ => by decide) fun h => absurd h hr

/-- Whatever is done to the coprocessor after power-on, the views of the status and cause
words are those of the words, and the two words, the counter and the compare value are below
2^32.  A program's write changes nothing that hardware owns: of the cause word only the two
bits for software, or the timer bit, which a write to the compare value clears, not the
fields for the address at fault in the context registers, neither the address itself nor the
processor number, and the replacement index only to 31, with the limit. -/
theorem views_agree (ops : List Operation) :
    (initial.after ops).status = .decode ((initial.after ops).get statusWord).toUInt32 ∧
    (initial.after ops).cause = .decode ((initial.after ops).get causeWord).toUInt32 ∧
    (∀ r ∈ [statusWord, causeWord, count, compare], (initial.after ops).get r < 0x100000000) ∧
    ∀ r v, (initial.after ops).HardwareKept r v ((initial.after ops).write r v) := by
  have h := consistent_after ops
  refine ⟨h.status, h.cause, fun r hr => ?_, h.hardwareKept_write⟩
  rw [← h.narrow r hr]
  exact low32_lt _

end Cop0

end Console64
