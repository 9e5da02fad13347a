import Console64.Proofs.CacheProtocol
import Console64.Proofs.History

/-!
# Records of failed compilation

Where no block can start, the cache records the address and does not try again.  The record is
dropped when the byte at that address is reported as changed.  But whether a block can start
depends on a whole word, and for a branch on the word in its delay slot as well, and a report
of any other of these bytes leaves the record where it is.

## Key results

- `Block.refusal_congr`: the words that tell whether a block can start
- `CodeState.isFailed_after_iff`: a record stands from the request that failed until its
  address is reported
- `CodeState.record_exact`: it is right for as long as nothing is reported of the bytes that the
  failure was about
- `CodeState.outlived_of_slot`: a record that is not
-/

namespace Console64

/-- Words of code by their addresses, as far as they can be read. -/
abbrev CodeWords := UInt32 → Option UInt32

/-- Reading has no effect. -/
def CodeWords.read (words : CodeWords) (a : UInt32) : Id (Option UInt32) := words a

/-! ## Why no block can start -/

namespace Block

variable {words words' : CodeWords} {start : UInt32} {maxInstructions : Nat}

/-- Why no block can start at an address, if none can. -/
def refusal (words : CodeWords) (start : UInt32) (maxInstructions : Nat) : Option CompileError :=
  match (pieceAt words.read start (max maxInstructions 1)).run with
  | .error e => some e
  | .ok _ => none

/-- Compiling fails for that reason, whatever the virtual address. -/
theorem compile_eq_error_iff {entry : UInt64} {e : CompileError} :
    (compile words.read ⟨start, entry, maxInstructions⟩).run = .error e ↔
      refusal words start maxInstructions = some e := by
  simp only [compile, refusal]
  rcases h : (pieceAt words.read start (max maxInstructions 1)).run with e' | d | d | ⟨d, slot⟩ <;>
    rw [bind_of_run h]
  · show Except.error e' = Except.error e ↔ some e' = some e
    simp only [Except.error.injEq, Option.some.injEq]
  -- The rest of a block may end early, but it does not fail
  all_goals
    constructor
    · intro hok
      cases hok
    · intro hnone
      cases hnone

/-- How many bytes from the start on tell whether a block can start there: the delay slot
counts if there is room for it. -/
def examined (words : CodeWords) (start : UInt32) (maxInstructions : Nat) : Nat :=
  match words start with
  | none => 4
  | some word =>
    if (Op.decode word).isControlFlow && !startsPage (start + 4) && 1 < maxInstructions then 8
    else 4

/-- One word is examined, or two. -/
theorem examined_bounds (words : CodeWords) (start : UInt32) (maxInstructions : Nat) :
    4 ≤ examined words start maxInstructions ∧ examined words start maxInstructions ≤ 8 := by
  unfold examined
  split
  · omega
  · split <;> omega

/-- Other words do not matter. -/
theorem refusal_congr (hfirst : words' start = words start)
    (hslot : examined words start maxInstructions = 8 → words' (start + 4) = words (start + 4)) :
    refusal words' start maxInstructions = refusal words start maxInstructions := by
  suffices h : (pieceAt words'.read start (max maxInstructions 1)).run =
      (pieceAt words.read start (max maxInstructions 1)).run by
    simp only [refusal, h]
  cases hword : words start with
  | none =>
    rw [pieceAt, pieceAt, bind_of_run (show (words.read start).run = none from hword),
      bind_of_run (show (words'.read start).run = none from hfirst.trans hword)]
  | some word =>
    rw [pieceAt, pieceAt, bind_of_run (show (words.read start).run = some word from hword),
      bind_of_run (show (words'.read start).run = some word from hfirst.trans hword)]
    dsimp only
    split
    case isFalse => rfl
    case isTrue hbranch =>
      split
      case isTrue => rfl
      case isFalse hroom =>
        -- Only here the slot is read
        have hexamined : examined words start maxInstructions = 8 := by
          simp only [Bool.or_eq_true, decide_eq_true_eq, not_or, Bool.not_eq_true] at hroom
          have hmany : 1 < maxInstructions := by omega
          simp only [examined, hword, hbranch, hroom.1, hmany, Bool.not_false, Bool.and_self,
            decide_true, ↓reduceIte]
        have hsame : slotAt words'.read (start + 4) = slotAt words.read (start + 4) := by
          simp only [slotAt, CodeWords.read, hslot hexamined]
        rw [hsame]

end Block

/-! ## Records in the cache -/

namespace BlockCache

/-- A report drops the records of the addresses in it. -/
theorem isFailed_invalidate_eq (c : BlockCache) (r : ByteRange) (a : UInt32) :
    (c.invalidate r).isFailed a = (c.isFailed a && !(changedRange r).contains a.toNat) := by
  simp only [invalidate]
  split
  case isTrue hzero =>
    -- A report of nothing drops nothing
    have hout : (changedRange r).contains a.toNat = false := by
      rw [Bool.eq_false_iff, ne_eq, ByteRange.contains_iff]
      simp only [changedRange]
      omega
    rw [hout, Bool.not_false, Bool.and_true]
  case isFalse =>
    rw [Bool.eq_iff_iff, Bool.and_eq_true]
    show a ∈ c.failed.filter _ ↔ a ∈ c.failed ∧ _
    simp only [Std.HashSet.mem_filter, Std.HashSet.get_eq, exists_prop]

/-- A request records a failure when it answers that there was one. -/
theorem isFailed_ensure (c : BlockCache) (words : CodeWords) (start a : UInt32) (entry : UInt64) :
    (c.ensure start entry words.read).run.2.isFailed a = true ↔
      c.isFailed a = true ∨
        start = a ∧ (c.ensure start entry words.read).run.1 = .compileFailed := by
  -- A hit records nothing
  have hhit : ∀ b, (c.noteHit b).isFailed a = true ↔
      c.isFailed a = true ∨ start = a ∧ EnsureResult.cacheHit = .compileFailed := by
    intro b
    show c.isFailed a = true ↔ _
    simp only [reduceCtorEq, and_false, or_false]
  rw [ensure]
  split
  · exact hhit false
  · split
    · exact hhit true
    case isFalse huntried =>
      cases h : (Block.compile words.read ⟨start, entry, c.maxInstructions⟩).run with
      | error e =>
        rw [bind_of_run h]
        show (c.failed.insert start).contains a = true ↔
          c.failed.contains a = true ∨ start = a ∧ EnsureResult.compileFailed = .compileFailed
        simp only [Std.HashSet.contains_insert, Bool.or_eq_true, beq_iff_eq, and_true, or_comm]
      | ok b =>
        -- A block that was compiled had no record to be dropped
        rw [bind_of_run h]
        show (c.failed.erase start).contains a = true ↔
          c.failed.contains a = true ∨ start = a ∧ EnsureResult.compiled = .compileFailed
        simp only [Std.HashSet.contains_erase, Bool.and_eq_true, Bool.not_eq_true',
          beq_eq_false_iff_ne, reduceCtorEq, and_false, or_false]
        refine ⟨fun hkept => hkept.2, fun hbefore => ⟨?_, hbefore⟩⟩
        rintro rfl
        exact huntried hbefore

/-- What a request that fails was refused for. -/
theorem refusal_of_compileFailed {c : BlockCache} {words : CodeWords} {start : UInt32}
    {entry : UInt64} (h : (c.ensure start entry words.read).run.1 = .compileFailed) :
    ∃ e, Block.refusal words start c.maxInstructions = some e := by
  rw [ensure] at h
  split at h
  · cases h
  · split at h
    · cases h
    · cases hrun : (Block.compile words.read ⟨start, entry, c.maxInstructions⟩).run with
      | error e => exact ⟨e, Block.compile_eq_error_iff.mp hrun⟩
      | ok b =>
        rw [bind_of_run hrun] at h
        cases h

/-- A first request fails if no block can start. -/
theorem ensure_eq_compileFailed {c : BlockCache} {words : CodeWords} {start : UInt32}
    {entry : UInt64} {e : CompileError} (hblock : c.lookup start = none)
    (huntried : c.isFailed start = false)
    (h : Block.refusal words start c.maxInstructions = some e) :
    (c.ensure start entry words.read).run.1 = .compileFailed := by
  have hrun : (Block.compile words.read ⟨start, entry, c.maxInstructions⟩).run = .error e :=
    Block.compile_eq_error_iff.mpr h
  rw [ensure, hblock, huntried]
  simp only [Option.isSome_none, Bool.false_eq_true, ↓reduceIte]
  rw [bind_of_run hrun]
  rfl

end BlockCache

/-! ## Histories -/

/-- What may happen to a cache and to the words that it compiles from. -/
inductive CodeEvent where
  /-- A block is asked for. -/
  | request (start : UInt32) (entry : UInt64)
  /-- The words change, and the bytes from `start` on are reported. -/
  | change (words : CodeWords) (start length : UInt32)

namespace CodeEvent

/-- The byte at `a` is among those that are reported. -/
def Reports (a : UInt32) : CodeEvent → Prop
  | request _ _ => False
  | change _ start length => ByteRange.contains ⟨start.toNat, length.toNat⟩ a.toNat = true

/-- The report reaches the record of `a`.  The last address of all is never reached. -/
def Drops (a : UInt32) : CodeEvent → Prop
  | request _ _ => False
  | change _ start length =>
    (BlockCache.changedRange ⟨start.toNat, length.toNat⟩).contains a.toNat = true

/-- Every word that changes has a byte that is reported. -/
def Honest (words : CodeWords) : CodeEvent → Prop
  | request _ _ => True
  | e@(change words' _ _) =>
    ∀ a, words' a ≠ words a → ∃ i < 4, e.Reports (a + UInt32.ofNat i)

end CodeEvent

/-- A cache, and the words that it compiles from. -/
structure CodeState where
  cache : BlockCache
  words : CodeWords

namespace CodeState

open CodeEvent

/-- Nothing has been compiled. -/
def initial (maxInstructions : Nat) (words : CodeWords) : CodeState :=
  ⟨.empty maxInstructions, words⟩

/-- One event happens. -/
def next (g : CodeState) : CodeEvent → CodeState
  | .request start entry => { g with cache := (g.cache.ensure start entry g.words.read).run.2 }
  | .change words start length => ⟨g.cache.invalidate ⟨start.toNat, length.toNat⟩, words⟩

/-- Several events happen. -/
def after (g : CodeState) (es : List CodeEvent) : CodeState := es.foldl next g

/-- In each event the words change only where it is reported. -/
def Honest (g : CodeState) : List CodeEvent → Prop
  | [] => True
  | e :: es => e.Honest g.words ∧ (g.next e).Honest es

/-- A request at `a` fails, and is recorded. -/
def Fails (g : CodeState) (a : UInt32) : CodeEvent → Prop
  | .request start entry =>
    start = a ∧ (g.cache.ensure start entry g.words.read).run.1 = .compileFailed
  | .change .. => False

/-- Compiling at `a` fails, whatever the virtual address. -/
def Refuses (g : CodeState) (a : UInt32) (e : CompileError) : Prop :=
  ∀ entry, (Block.compile g.words.read ⟨a, entry, g.cache.maxInstructions⟩).run = .error e

variable {g : CodeState} {a : UInt32}

/-- One history goes on where another has ended, -/
theorem after_append (g : CodeState) (es es' : List CodeEvent) :
    g.after (es ++ es') = (g.after es).after es' := List.foldl_append

/-- and both parts of an honest one are honest. -/
theorem Honest.append {es es' : List CodeEvent} (h : g.Honest (es ++ es')) :
    g.Honest es ∧ (g.after es).Honest es' := by
  induction es generalizing g with
  | nil => exact ⟨trivial, h⟩
  | cons e es ih =>
    obtain ⟨hfirst, hrest⟩ := h
    obtain ⟨hes, hes'⟩ := ih hrest
    exact ⟨⟨hfirst, hes⟩, hes'⟩

/-- The room for a block is settled once. -/
theorem maxInstructions_after (g : CodeState) (es : List CodeEvent) :
    (g.after es).cache.maxInstructions = g.cache.maxInstructions := by
  induction es generalizing g with
  | nil => rfl
  | cons e es ih =>
    refine (ih (g.next e)).trans ?_
    -- A request may compile, and a change may drop, but neither touches the limit
    cases e with
    | request start entry =>
      show (g.cache.ensure start entry g.words.read).run.2.maxInstructions = _
      rw [BlockCache.ensure]
      split
      · rfl
      · split
        · rfl
        · rcases h : (Block.compile g.words.read ⟨start, entry, g.cache.maxInstructions⟩).run <;>
            rw [bind_of_run h] <;> rfl
    | change words start length =>
      show (g.cache.invalidate _).maxInstructions = _
      simp only [BlockCache.invalidate]
      split <;> rfl

/-- After one event more, a record is new, or is there still. -/
theorem isFailed_next (g : CodeState) (e : CodeEvent) (a : UInt32) :
    (g.next e).cache.isFailed a = true ↔
      g.Fails a e ∨ g.cache.isFailed a = true ∧ ¬e.Drops a := by
  cases e with
  | request start entry =>
    show (g.cache.ensure start entry g.words.read).run.2.isFailed a = true ↔
      (start = a ∧ _) ∨ _ ∧ ¬False
    rw [BlockCache.isFailed_ensure, not_false_eq_true, and_true, or_comm]
  | change words start length =>
    show (g.cache.invalidate _).isFailed a = true ↔ False ∨ _ ∧ ¬_ = true
    rw [BlockCache.isFailed_invalidate_eq, Bool.and_eq_true, Bool.not_eq_true', false_or,
      Bool.not_eq_true]

/-- A record stands from a request that failed until a report that reaches it. -/
theorem isFailed_after_iff (maxInstructions : Nat) (words : CodeWords) (es : List CodeEvent)
    (a : UInt32) :
    ((initial maxInstructions words).after es).cache.isFailed a = true ↔
      ∃ before e rest, es = before ++ e :: rest ∧
        ((initial maxInstructions words).after before).Fails a e ∧ ∀ e' ∈ rest, ¬e'.Drops a := by
  show _ ↔ Since (fun before e => ((initial maxInstructions words).after before).Fails a e)
    (fun e => e.Drops a) es
  -- Induction on the events, the last one first
  induction es using List.reverseRecOn with
  | nil =>
    simp only [not_since_nil, iff_false]
    intro h
    exact nomatch (BlockCache.isFailed_empty maxInstructions a).symm.trans h
  | append_singleton es last ih =>
    rw [after_append, since_append_singleton]
    show (next _ last).cache.isFailed a = true ↔ _
    rw [isFailed_next, ih]

/-! ## What becomes of a failure -/

/-- A word stays as it is while none of its bytes is reported. -/
theorem words_after {es : List CodeEvent} (h : g.Honest es) {b : UInt32}
    (hquiet : ∀ e ∈ es, ∀ i < 4, ¬e.Reports (b + UInt32.ofNat i)) :
    (g.after es).words b = g.words b := by
  induction es generalizing g with
  | nil => rfl
  | cons e es ih =>
    obtain ⟨hhonest, hrest⟩ := h
    -- A word that has changed has been reported at one of its bytes
    have hfirst : (g.next e).words b = g.words b := by
      cases e with
      | request => rfl
      | change words start length =>
        refine Decidable.byContradiction fun hne => ?_
        obtain ⟨i, hi, hreports⟩ := hhonest b hne
        exact hquiet _ List.mem_cons_self i hi hreports
    exact (ih hrest fun e' he' => hquiet e' (List.mem_cons_of_mem _ he')).trans hfirst

/-- What is refused depends on the words, and not on the address of entry. -/
theorem refuses_iff {error : CompileError} :
    g.Refuses a error ↔ Block.refusal g.words a g.cache.maxInstructions = some error :=
  ⟨fun h => Block.compile_eq_error_iff.mp (h 0), fun h _ => Block.compile_eq_error_iff.mpr h⟩

/-- A failure stays what it is while none of the bytes is reported that it is about. -/
theorem refuses_after {es : List CodeEvent} (h : g.Honest es) {error : CompileError}
    (hrefuses : g.Refuses a error)
    (hquiet : ∀ e ∈ es, ∀ i < Block.examined g.words a g.cache.maxInstructions,
      ¬e.Reports (a + UInt32.ofNat i)) : (g.after es).Refuses a error := by
  have hleast := (Block.examined_bounds g.words a g.cache.maxInstructions).1
  have hfirst : (g.after es).words a = g.words a :=
    words_after h fun e he i hi => hquiet e he i (by omega)
  rw [refuses_iff] at hrefuses ⊢
  rw [maxInstructions_after, ← hrefuses]
  refine Block.refusal_congr hfirst fun hslot => words_after h fun e he i hi => ?_
  -- The bytes of the slot are the last four
  have hplace : a + 4 + UInt32.ofNat i = a + UInt32.ofNat (4 + i) := by
    rw [UInt32.ofNat_add, UInt32.add_assoc]
    rfl
  rw [hplace]
  exact hquiet e he (4 + i) (by omega)

/-- A request that fails has a reason. -/
theorem Fails.refuses {e : CodeEvent} (h : g.Fails a e) : ∃ error, g.Refuses a error := by
  cases e with
  | change => exact h.elim
  | request start entry =>
    obtain ⟨rfl, hanswer⟩ := h
    obtain ⟨error, hrefusal⟩ := BlockCache.refusal_of_compileFailed hanswer
    exact ⟨error, refuses_iff.mpr hrefusal⟩

/-- It reports nothing. -/
theorem Fails.not_reports {e : CodeEvent} (h : g.Fails a e) (b : UInt32) : ¬e.Reports b := by
  cases e with
  | change => exact h.elim
  | request => exact id

/-- In every history in which changes are reported, and for every address:
* it is recorded exactly if a request there failed and no report has reached it since;
* since such a request, compiling there fails for the reason it had, for as long as no report
  has one of the bytes that the failure was about;
* hence a record is right, if each report of one of the eight bytes from there on reaches it. -/
theorem record_exact (maxInstructions : Nat) (words : CodeWords) {es : List CodeEvent}
    (h : (initial maxInstructions words).Honest es) (a : UInt32) :
    (((initial maxInstructions words).after es).cache.isFailed a = true ↔
      ∃ before e rest, es = before ++ e :: rest ∧
        ((initial maxInstructions words).after before).Fails a e ∧ ∀ e' ∈ rest, ¬e'.Drops a) ∧
    (∀ before e rest, es = before ++ e :: rest →
      ((initial maxInstructions words).after before).Fails a e →
      ∃ error, ((initial maxInstructions words).after before).Refuses a error ∧
        ((∀ e' ∈ rest, ∀ i < Block.examined ((initial maxInstructions words).after before).words a
            maxInstructions, ¬e'.Reports (a + UInt32.ofNat i)) →
          ((initial maxInstructions words).after es).Refuses a error)) ∧
    ((∀ e ∈ es, ∀ i < 8, e.Reports (a + UInt32.ofNat i) → e.Drops a) →
      ((initial maxInstructions words).after es).cache.isFailed a = true →
      ∃ error, ((initial maxInstructions words).after es).Refuses a error) := by
  have hstands := isFailed_after_iff maxInstructions words es a
  have hkept : ∀ before e rest, es = before ++ e :: rest →
      ((initial maxInstructions words).after before).Fails a e →
      ∃ error, ((initial maxInstructions words).after before).Refuses a error ∧
        ((∀ e' ∈ rest, ∀ i < Block.examined ((initial maxInstructions words).after before).words a
            maxInstructions, ¬e'.Reports (a + UInt32.ofNat i)) →
          ((initial maxInstructions words).after es).Refuses a error) := by
    rintro before e rest rfl hfails
    obtain ⟨error, hrefuses⟩ := hfails.refuses
    refine ⟨error, hrefuses, fun hquiet => ?_⟩
    rw [after_append]
    refine refuses_after h.append.2 hrefuses ?_
    rw [maxInstructions_after]
    intro e' he' i hi
    rcases List.mem_cons.mp he' with rfl | hrest
    · exact hfails.not_reports _
    · exact hquiet e' hrest i hi
  refine ⟨hstands, hkept, fun hreach hrecorded => ?_⟩
  obtain ⟨before, e, rest, rfl, hfails, hrest⟩ := hstands.mp hrecorded
  obtain ⟨error, -, hstill⟩ := hkept before e rest rfl hfails
  refine ⟨error, hstill fun e' he' i hi hreports => hrest e' he' ?_⟩
  -- At most eight bytes count
  have hmost := (Block.examined_bounds ((initial maxInstructions words).after before).words a
    maxInstructions).2
  exact hreach e' (by simp [he']) i (by omega) hreports

/-! ## A record that outlives its cause -/

/-- A branch with this word in its delay slot. -/
def branching (slot : UInt32) : CodeWords := fun a =>
  if a = 0x1000 then some 0x10000002 else if a = 0x1004 then some slot else none

/-- A block is asked for at a branch with a jump in its delay slot.  Then the slot is cleared, and
its four bytes are reported. -/
def cleared : List CodeEvent :=
  [.request 0x1000 0xFFFFFFFF80001000, .change (branching 0) 0x1004 4]

/-- A change of the slot is reported by its bytes. -/
private theorem honest_slot (slot slot' : UInt32) :
    (CodeEvent.change (branching slot') 0x1004 4).Honest (branching slot) := by
  intro a hne
  by_cases hslot : a = 0x1004
  · rw [hslot]
    refine ⟨0, by omega, ?_⟩
    show ByteRange.contains ⟨0x1004, 4⟩ 0x1004 = true
    decide
  · -- All other words are the same
    refine absurd ?_ hne
    simp only [branching, if_neg hslot]

/-- The request at the branch fails, for what is in its delay slot. -/
private theorem fails_branching :
    (initial 64 (branching 0x08000000)).Fails 0x1000 (.request 0x1000 0xFFFFFFFF80001000) ∧
      (initial 64 (branching 0x08000000)).Refuses 0x1000 (.unsuitableDelaySlot 0x1004) := by
  have hrefusal : Block.refusal (branching 0x08000000) 0x1000 64 =
      some (.unsuitableDelaySlot 0x1004) := rfl
  exact ⟨⟨rfl, BlockCache.ensure_eq_compileFailed (BlockCache.lookup_empty 64 _)
    (BlockCache.isFailed_empty 64 _) hrefusal⟩, refuses_iff.mpr hrefusal⟩

/-- The request at such a branch, and then a change of the word behind the slot. -/
def spared : List CodeEvent :=
  [.request 0x1000 0xFFFFFFFF80001000,
    .change (fun a => if a = 0x1008 then some 0 else branching 0x08000000 a) 0x1008 4]

/-- The failure is recorded then, and it is one. -/
theorem record_exact_spared :
    (initial 64 (branching 0x08000000)).Honest spared ∧
      (∀ e ∈ spared, ∀ i < 8, e.Reports (0x1000 + UInt32.ofNat i) → e.Drops 0x1000) ∧
      ((initial 64 (branching 0x08000000)).after spared).cache.isFailed 0x1000 = true ∧
      ∃ error, ((initial 64 (branching 0x08000000)).after spared).Refuses 0x1000 error := by
  have hhonest : (initial 64 (branching 0x08000000)).Honest spared := by
    refine ⟨trivial, fun a hne => ?_, trivial⟩
    by_cases hother : a = 0x1008
    · rw [hother]
      refine ⟨0, by omega, ?_⟩
      show ByteRange.contains ⟨0x1008, 4⟩ 0x1008 = true
      decide
    · exact absurd (if_neg hother) hne
  have hreach : ∀ e ∈ spared, ∀ i < 8, e.Reports (0x1000 + UInt32.ofNat i) → e.Drops 0x1000 := by
    intro e he i hi hreports
    -- None of the eight bytes is reported
    have hapart : ∀ i < 8,
        ¬ByteRange.contains ⟨0x1008, 4⟩ (0x1000 + UInt32.ofNat i).toNat = true := by decide
    obtain rfl | rfl : e = _ ∨ e = _ := by simpa only [spared, List.mem_cons,
      List.not_mem_nil, or_false] using he
    · exact hreports.elim
    · exact absurd hreports (hapart i hi)
  have hexact := record_exact 64 (branching 0x08000000) hhonest 0x1000
  have hrecorded := hexact.1.mpr ⟨[], _, _, rfl, fails_branching.1, fun e he => by
    rw [List.mem_singleton.mp he]
    show ¬(BlockCache.changedRange ⟨0x1008, 4⟩).contains 0x1000 = true
    decide⟩
  exact ⟨hhonest, hreach, hrecorded, hexact.2.2 hreach hrecorded⟩

/-- The address of the branch is still recorded then, although a block can start there. -/
theorem outlived_of_slot :
    (initial 64 (branching 0x08000000)).Honest cleared ∧
      ((initial 64 (branching 0x08000000)).after cleared).cache.isFailed 0x1000 = true ∧
      ∃ b, (Block.compile ((initial 64 (branching 0x08000000)).after cleared).words.read
        ⟨0x1000, 0xFFFFFFFF80001000, 64⟩).run = .ok b := by
  refine ⟨⟨trivial, honest_slot _ _, trivial⟩, ?_, _, rfl⟩
  refine (isFailed_after_iff _ _ _ _).mpr ⟨[], _, _, rfl, fails_branching.1, ?_⟩
  intro e he
  rw [List.mem_singleton.mp he]
  show ¬(BlockCache.changedRange ⟨0x1004, 4⟩).contains 0x1000 = true
  decide

end CodeState

end Console64
