import Console64.Proofs.CacheCoherence
import Mathlib.Logic.Relation

/-!
# The block cache over changing memory

The cache by itself, without a machine: blocks are compiled from a source of words, the
source changes, and whoever changed it reports the bytes before a block is asked for again.
No address is treated specially; all that is asked of the source is that nothing can be
read in the upper part of the address space, where a block could run past its end.

## Key results

- `Block.compile_words`: a compiled block consists of the words of its source
- `CodeHistory.Sound`: a block in the cache is current, except where a change has not been
  reported
- `CodeHistory.cache_exact`: with every change reported the cache agrees with the source, and
  a report drops a block exactly if it shares a byte with it
-/

namespace Console64

/-! ## Compiling from a source of words -/

/-- Words of code by their addresses, as far as they can be read, which is only below the
upper part of the address space. -/
structure CodeSource where
  word : UInt32 → Option UInt32
  low : ∀ {a w}, word a = some w → a.toNat < 0x20000000

namespace CodeSource

/-- Reading has no effect. -/
def read (s : CodeSource) (a : UInt32) : Id (Option UInt32) := s.word a

/-- Words of a source lie at places that do not wrap around. -/
theorem toNat_place {s : CodeSource} {a : UInt32} {code : List DecodedWord}
    (h : WordsAt s.word a code) {i : Nat} (hi : i < code.length) :
    (a + UInt32.ofNat (4 * i)).toNat = a.toNat + 4 * i ∧ a.toNat + 4 * i < 0x20000000 := by
  -- Induction on the place: the word before it is in the lower part
  induction i with
  | zero =>
    have hlow := s.low (h 0 hi)
    rw [show a + UInt32.ofNat (4 * 0) = a from UInt32.add_zero a] at hlow ⊢
    exact ⟨rfl, hlow⟩
  | succ i ih =>
    obtain ⟨-, hbefore⟩ := ih (Nat.lt_of_succ_lt hi)
    have hlow := s.low (h (i + 1) hi)
    simp only [UInt32.toNat_add, UInt32.toNat_ofNat'] at hlow ⊢
    omega

end CodeSource

/-- What comes after work without effects. -/
theorem bind_of_run {α β : Type} {x : Id α} {a : α} (h : x.run = a) (f : α → Id β) :
    x >>= f = f a := by
  subst h
  rfl

/-- The instructions of a piece. -/
def Piece.code : Piece → List DecodedWord
  | .plain d | .last d => [d]
  | .branch d slot => [d, slot]

namespace Block

variable (s : CodeSource)

/-- A delay slot is a word of the source, -/
private theorem slotAt_words {a : UInt32} {slot : DecodedWord}
    (h : (slotAt s.read a).run = .ok slot) : s.word a = some slot.word := by
  cases hword : s.word a with
  | none =>
    rw [slotAt, bind_of_run (show (s.read a).run = _ from hword)] at h
    cases h
  | some word =>
    rw [slotAt, bind_of_run (show (s.read a).run = _ from hword)] at h
    dsimp only at h
    split at h
    · cases h
    · cases h
      rfl

/-- a piece consists of its words, -/
private theorem pieceAt_words {a : UInt32} {room : Nat} {p : Piece}
    (h : (pieceAt s.read a room).run = .ok p) : WordsAt s.word a p.code := by
  cases hword : s.word a with
  | none =>
    rw [pieceAt, bind_of_run (show (s.read a).run = _ from hword)] at h
    cases h
  | some word =>
    rw [pieceAt, bind_of_run (show (s.read a).run = _ from hword)] at h
    dsimp only at h
    -- A branch has its delay slot with it; any other word is alone
    split at h
    · split at h
      · cases h
      · -- The delay slot was read from the place after the branch
        cases hslot : (slotAt s.read (a + 4)).run with
        | error e =>
          rw [bind_of_run hslot] at h
          cases h
        | ok slot =>
          rw [bind_of_run hslot] at h
          cases h
          exact wordsAt_cons.mpr ⟨hword, wordsAt_cons.mpr ⟨slotAt_words s hslot, wordsAt_nil _ _⟩⟩
    · split at h <;>
      · cases h
        exact wordsAt_cons.mpr ⟨hword, wordsAt_nil _ _⟩

/-- and so does what follows the first piece. -/
private theorem bodyAfter_words (a : UInt32) (v : UInt64) (room : Nat) :
    WordsAt s.word a (bodyAfter s.read a v room).run.code := by
  induction room generalizing a v with
  | zero => exact wordsAt_nil _ _
  | succ room ih =>
    rw [bodyAfter]
    split
    · exact wordsAt_nil _ _
    -- A block is as long as its pieces, and each piece is one word or a branch with its slot
    · rcases hpiece : (pieceAt s.read a (room + 1)).run with e | d | d | ⟨d, slot⟩ <;>
        rw [bind_of_run hpiece]
      · exact wordsAt_nil _ _
      · exact wordsAt_cons.mpr ⟨(wordsAt_cons.mp (pieceAt_words s hpiece)).1, ih (a + 4) (v + 4)⟩
      · exact pieceAt_words s hpiece
      · exact pieceAt_words s hpiece

/-- A compiled block starts where it was asked for, and consists of words of the source. -/
theorem compile_words {start : UInt32} {entry : UInt64} {maxInstructions : Nat} {b : Block}
    (h : (compile s.read ⟨start, entry, maxInstructions⟩).run = .ok b) :
    b.start = start ∧ b.code ≠ [] ∧ WordsAt s.word start b.code := by
  simp only [compile] at h
  rcases hpiece : (pieceAt s.read start (max maxInstructions 1)).run with e | d | d | ⟨d, slot⟩ <;>
    rw [bind_of_run hpiece] at h <;> cases h
  · exact ⟨rfl, List.cons_ne_nil _ _, wordsAt_cons.mpr
      ⟨(wordsAt_cons.mp (pieceAt_words s hpiece)).1, bodyAfter_words s _ _ _⟩⟩
  · exact ⟨rfl, List.cons_ne_nil _ _, pieceAt_words s hpiece⟩
  · exact ⟨rfl, List.cons_ne_nil _ _, pieceAt_words s hpiece⟩

end Block

/-- A request for a block leaves the blocks that are there, and adds at most the one that
is compiled for it. -/
theorem BlockCache.lookup_ensure {c : BlockCache} {s : CodeSource} {start k : UInt32}
    {entry : UInt64} {b : Block}
    (h : (c.ensure start entry s.read).run.2.lookup k = some b) :
    c.lookup k = some b ∨
      start = k ∧ (Block.compile s.read ⟨start, entry, c.maxInstructions⟩).run = .ok b := by
  -- Only a request for an address with neither a block nor a failure compiles anything
  rw [ensure] at h
  split at h
  · exact .inl h
  · split at h
    · exact .inl h
    · cases hcompiled : (Block.compile s.read ⟨start, entry, c.maxInstructions⟩).run with
      | error e =>
        rw [bind_of_run hcompiled] at h
        exact .inl h
      | ok new =>
        rw [bind_of_run hcompiled] at h
        replace h : (c.record start (.ok new)).2.lookup k = some b := h
        rw [lookup_record_ok] at h
        split at h
        case isTrue heq => exact .inr ⟨heq, congrArg _ (Option.some.inj h)⟩
        case isFalse => exact .inl h

/-- A block that is not there is compiled, unless that failed before. -/
theorem BlockCache.ensure_of_compiled {c : BlockCache} {s : CodeSource} {start : UInt32}
    {entry : UInt64} {b : Block} (hnone : c.lookup start = none)
    (hfailed : c.isFailed start = false)
    (hcompiled : (Block.compile s.read ⟨start, entry, c.maxInstructions⟩).run = .ok b) :
    (c.ensure start entry s.read).run = c.record start (.ok b) := by
  rw [ensure, hnone, hfailed, bind_of_run hcompiled]
  rfl

/-! ## Blocks and reports -/

namespace Block

/-- A block of the lower part of the address space that ends where its words do. -/
structure Compact (b : Block) : Prop where
  nonempty : 0 < b.size
  stop_eq : b.stop.toNat = b.start.toNat + 4 * b.size
  low : b.stop.toNat < 0x20000004

/-- The words of a source do not reach the end of the address space. -/
theorem Compact.of_words {s : CodeSource} {b : Block} (hne : b.code ≠ [])
    (h : WordsAt s.word b.start b.code) : b.Compact := by
  have hpos : 0 < b.size := List.length_pos_iff.mpr hne
  have hlast : b.start.toNat + 4 * (b.size - 1) < 0x20000000 :=
    (s.toNat_place h (Nat.sub_lt hpos Nat.one_pos)).2
  have hstop : b.stop.toNat = b.start.toNat + 4 * b.size := by
    simp only [stop, UInt32.toNat_add, UInt32.toNat_ofNat']
    omega
  exact ⟨hpos, hstop, by omega⟩

/-- A byte of the block lies in the range. -/
def Meets (b : Block) (r : ByteRange) : Prop :=
  ∃ x, b.start.toNat ≤ x ∧ x < b.stop.toNat ∧ r.contains x = true

/-- What a report drops: the blocks with a byte in it, even if it reaches past the end of
the address space. -/
theorem Compact.overlaps_iff {b : Block} (h : b.Compact) {r : ByteRange} (hr : 0 < r.length) :
    b.overlaps (BlockCache.changedRange r) = true ↔ b.Meets r := by
  obtain ⟨hpos, hstop, hlow⟩ := h
  simp only [overlaps, Meets, ByteRange.contains_iff, Bool.and_eq_true, decide_eq_true_eq]
  simp only [BlockCache.changedRange, ByteRange.stop]
  constructor
  · rintro ⟨hstart, hend⟩
    exact ⟨max b.start.toNat r.start, by omega, by omega, by omega, by omega⟩
  · rintro ⟨x, hstart, hend, hlo, hhi⟩
    omega

/-- A report drops the blocks that it meets. -/
theorem Compact.lookup_invalidate_of_meets {c : BlockCache} {k : UInt32} {b : Block}
    (h : b.Compact) (hb : c.lookup k = some b) {r : ByteRange} (hr : 0 < r.length)
    (hmeets : b.Meets r) : (c.invalidate r).lookup k = none := by
  rw [Option.eq_none_iff_forall_ne_some]
  intro b' hb'
  obtain ⟨hbefore, hkept⟩ := (c.lookup_invalidate r k b').mp hb'
  cases hb.symm.trans hbefore
  rcases hkept with hzero | hapart
  · omega
  · exact Bool.noConfusion (((h.overlaps_iff hr).mpr hmeets).symm.trans hapart)

/-- It leaves the others as they are. -/
theorem Compact.lookup_invalidate_of_not_meets {c : BlockCache} {k : UInt32} {b : Block}
    (h : b.Compact) (hb : c.lookup k = some b) {r : ByteRange} (hr : 0 < r.length)
    (hmeets : ¬b.Meets r) : (c.invalidate r).lookup k = some b := by
  rw [← h.overlaps_iff hr, Bool.not_eq_true] at hmeets
  exact (c.lookup_invalidate r k b).mpr ⟨hb, .inr hmeets⟩

end Block

/-! ## Histories -/

/-- A cache, the source that it compiles from, and the bytes that have changed and have not
been reported since. -/
structure CodeHistory where
  cache : BlockCache
  source : CodeSource
  unreported : Nat → Prop

namespace CodeHistory

/-- Nothing is compiled, and nothing has changed. -/
def initial (maxInstructions : Nat) (source : CodeSource) : CodeHistory :=
  ⟨.empty maxInstructions, source, fun _ => False⟩

/-- Every change has been reported. -/
def Settled (g : CodeHistory) : Prop := ∀ x, ¬g.unreported x

/-- A block is asked for. -/
def ensure (g : CodeHistory) (start : UInt32) (entry : UInt64) : CodeHistory :=
  { g with cache := (g.cache.ensure start entry g.source.read).run.2 }

/-- Bytes are reported. -/
def invalidate (g : CodeHistory) (r : ByteRange) : CodeHistory :=
  { g with
    cache := g.cache.invalidate r
    unreported := fun x => g.unreported x ∧ r.contains x = false }

/-- All blocks are dropped. -/
def flush (g : CodeHistory) : CodeHistory := { g with cache := g.cache.flush }

/-- Bytes of the source change. -/
def change (g : CodeHistory) (source : CodeSource) (r : ByteRange) : CodeHistory :=
  { g with
    source
    unreported := fun x => g.unreported x ∨ r.contains x = true }

/-- What may happen next: a block is asked for only after every change was reported, and a
word that changes has one of the bytes that are said to. -/
inductive Step : CodeHistory → CodeHistory → Prop where
  | ensure {g : CodeHistory} (h : g.Settled) (start : UInt32) (entry : UInt64) :
    Step g (g.ensure start entry)
  | invalidate {g : CodeHistory} (start length : UInt32) :
    Step g (g.invalidate ⟨start.toNat, length.toNat⟩)
  | flush {g : CodeHistory} : Step g g.flush
  | change {g : CodeHistory} (source : CodeSource) (r : ByteRange)
    (h : ∀ a : UInt32, source.word a ≠ g.source.word a →
      ∃ x, r.contains x = true ∧ a.toNat ≤ x ∧ x < a.toNat + 4) :
    Step g (g.change source r)

/-- Every block is kept under its start, ends where its words do, and each of its words is
the one of the source or holds an unreported byte. -/
structure Sound (g : CodeHistory) : Prop where
  start_eq : ∀ {k b}, g.cache.lookup k = some b → b.start = k
  compact : ∀ {k b}, g.cache.lookup k = some b → b.Compact
  current : ∀ {k b}, g.cache.lookup k = some b → ∀ i (h : i < b.code.length),
    g.source.word (k + UInt32.ofNat (4 * i)) = some b.code[i].word ∨
      ∃ x, g.unreported x ∧ k.toNat + 4 * i ≤ x ∧ x < k.toNat + 4 * i + 4

/-- A history without blocks is sound. -/
theorem sound_of_empty {g : CodeHistory} (h : ∀ k, g.cache.lookup k = none) : g.Sound where
  start_eq hb := nomatch (h _).symm.trans hb
  compact hb := nomatch (h _).symm.trans hb
  current hb := nomatch (h _).symm.trans hb

/-- So is a new one, -/
theorem sound_initial (maxInstructions : Nat) (source : CodeSource) :
    (initial maxInstructions source).Sound :=
  sound_of_empty (BlockCache.lookup_empty maxInstructions)

/-- and one that has been flushed. -/
theorem sound_flush (g : CodeHistory) : g.flush.Sound :=
  sound_of_empty fun k => by
    simp only [flush, BlockCache.flush, BlockCache.lookup_keep, Option.filter_eq_none_iff,
      Bool.false_eq_true, not_false_eq_true, implies_true]

namespace Sound

variable {g g' : CodeHistory}

/-- A new block is compiled from the words as they are. -/
theorem ensure (h : g.Sound) (start : UInt32) (entry : UInt64) :
    (g.ensure start entry).Sound where
  start_eq hb := by
    rcases BlockCache.lookup_ensure hb with hb | ⟨rfl, hcompiled⟩
    · exact h.start_eq hb
    · exact (Block.compile_words _ hcompiled).1
  compact hb := by
    rcases BlockCache.lookup_ensure hb with hb | ⟨rfl, hcompiled⟩
    · exact h.compact hb
    · obtain ⟨rfl, hne, hwords⟩ := Block.compile_words _ hcompiled
      exact .of_words hne hwords
  current hb i hi := by
    rcases BlockCache.lookup_ensure hb with hb | ⟨rfl, hcompiled⟩
    · exact h.current hb i hi
    · exact .inl ((Block.compile_words _ hcompiled).2.2 i hi)

/-- A byte of one of its words is a byte of the block. -/
theorem meets (h : g.Sound) {k : UInt32} {b : Block} (hb : g.cache.lookup k = some b) {i x : Nat}
    (hi : i < b.code.length) (hlow : k.toNat + 4 * i ≤ x) (hhigh : x < k.toNat + 4 * i + 4)
    {r : ByteRange} (hr : r.contains x = true) : b.Meets r := by
  have hstop := (h.compact hb).stop_eq
  rw [h.start_eq hb, Block.size] at hstop
  exact ⟨x, by rw [h.start_eq hb]; omega, by omega, hr⟩

/-- A block that outlives a report has no byte in it. -/
theorem invalidate (h : g.Sound) (r : ByteRange) : (g.invalidate r).Sound where
  start_eq hb := h.start_eq ((BlockCache.lookup_invalidate _ _ _ _).mp hb).1
  compact hb := h.compact ((BlockCache.lookup_invalidate _ _ _ _).mp hb).1
  current hb i hi := by
    obtain ⟨hbefore, hkept⟩ := (BlockCache.lookup_invalidate _ _ _ _).mp hb
    -- A word that holds was there before; one with a change of its own may not meet the report
    rcases h.current hbefore i hi with hword | ⟨x, hx, hlow, hhigh⟩
    · exact .inl hword
    · refine .inr ⟨x, ⟨hx, ?_⟩, hlow, hhigh⟩
      rw [Bool.eq_false_iff]
      intro hin
      have hpos : 0 < r.length := by
        rw [ByteRange.contains_iff] at hin
        omega
      have hoverlaps := ((h.compact hbefore).overlaps_iff hpos).mpr
        (h.meets hbefore hi hlow hhigh hin)
      rcases hkept with hzero | hapart
      · omega
      · exact Bool.noConfusion (hoverlaps.symm.trans hapart)

/-- A word that changes holds an unreported byte from then on. -/
theorem change (h : g.Sound) {source : CodeSource} {r : ByteRange}
    (hchange : ∀ a : UInt32, source.word a ≠ g.source.word a →
      ∃ x, r.contains x = true ∧ a.toNat ≤ x ∧ x < a.toNat + 4) :
    (g.change source r).Sound where
  start_eq := h.start_eq
  compact := h.compact
  current := by
    intro k b hb i hi
    rcases h.current hb i hi with hword | ⟨x, hx, hlow, hhigh⟩
    · by_cases hsame : source.word (k + UInt32.ofNat (4 * i)) =
          g.source.word (k + UInt32.ofNat (4 * i))
      · exact .inl (hsame.trans hword)
      · obtain ⟨x, hx, hlow, hhigh⟩ := hchange _ hsame
        -- The block does not wrap around, and so the byte is counted from its start
        have hplace : (k + UInt32.ofNat (4 * i)).toNat = k.toNat + 4 * i := by
          have hcompact := h.compact hb
          have hstop := hcompact.stop_eq
          have hend := hcompact.low
          rw [h.start_eq hb, Block.size] at hstop
          simp only [UInt32.toNat_add, UInt32.toNat_ofNat']
          omega
        rw [hplace] at hlow hhigh
        exact .inr ⟨x, .inr hx, hlow, hhigh⟩
    · exact .inr ⟨x, .inl hx, hlow, hhigh⟩

/-- Whatever may happen keeps the history sound. -/
theorem step (h : g.Sound) (hstep : Step g g') : g'.Sound := by
  cases hstep with
  | ensure _ start entry => exact h.ensure start entry
  | invalidate start length => exact h.invalidate _
  | flush => exact sound_flush g
  | change source r hchange => exact h.change hchange

/-- So does any number of such steps. -/
theorem steps (h : g.Sound) (hsteps : Relation.ReflTransGen Step g g') : g'.Sound := by
  induction hsteps with
  | refl => exact h
  | tail _ hstep ih => exact ih.step hstep

end Sound

/-- In every history of the cache: once all changes have been reported, a block is found at
its start, ends after its last word and consists of the words of the source as they are.
And at any time, a report drops exactly the blocks with a byte in it and leaves the others
as they are. -/
theorem cache_exact (maxInstructions : Nat) (source : CodeSource) {g : CodeHistory}
    (h : Relation.ReflTransGen Step (initial maxInstructions source) g) {k : UInt32} {b : Block}
    (hb : g.cache.lookup k = some b) :
    (g.Settled → b.start = k ∧ b.stop.toNat = k.toNat + 4 * b.size ∧
      ∀ i (h : i < b.code.length),
        g.source.word (k + UInt32.ofNat (4 * i)) = some b.code[i].word) ∧
    ∀ start length : UInt32, 0 < length →
      ((g.cache.invalidate ⟨start.toNat, length.toNat⟩).lookup k = none ↔
        b.Meets ⟨start.toNat, length.toNat⟩) ∧
      (¬b.Meets ⟨start.toNat, length.toNat⟩ →
        (g.cache.invalidate ⟨start.toNat, length.toNat⟩).lookup k = some b) := by
  have hsound := (sound_initial maxInstructions source).steps h
  constructor
  · intro hsettled
    -- With nothing left to report each word is current
    refine ⟨hsound.start_eq hb, ?_, fun i hi => ?_⟩
    · rw [(hsound.compact hb).stop_eq, hsound.start_eq hb]
    · rcases hsound.current hb i hi with hword | ⟨x, hx, -⟩
      · exact hword
      · exact absurd hx (hsettled x)
  · intro start length hlength
    -- A report drops a block that it meets, and keeps one that it does not
    have hkeep := (hsound.compact hb).lookup_invalidate_of_not_meets hb
      (r := ⟨start.toNat, length.toNat⟩) hlength
    refine ⟨⟨fun hnone => ?_, (hsound.compact hb).lookup_invalidate_of_meets hb hlength⟩, hkeep⟩
    refine Classical.byContradiction fun hapart => ?_
    cases hnone.symm.trans (hkeep hapart)

/-- A change that is reported as it was made leaves nothing unreported. -/
theorem settled_invalidate {g : CodeHistory} (h : g.Settled) (source : CodeSource)
    (r : ByteRange) : ((g.change source r).invalidate r).Settled := by
  rintro x ⟨hbefore | hin, hout⟩
  · exact h x hbefore
  · exact Bool.noConfusion (hin.symm.trans hout)

/-! ## A word that is changed -/

/-- A return with this word in its delay slot. -/
def returning (slot : UInt32) : CodeSource where
  word a := if a = 0x1000 then some 0x03E00008 else if a = 0x1004 then some slot else none
  low := by
    intro a w h
    split at h
    case isTrue ha => rw [ha]; decide
    case isFalse =>
      split at h
      case isTrue ha => rw [ha]; decide
      case isFalse => exact nomatch h

/-- Both words make a block. -/
private theorem compile_returning {slot : UInt32} (h : slot = 0 ∨ slot = 1) :
    ∃ b, (Block.compile (returning slot).read ⟨0x1000, 0xFFFFFFFF80001000, 64⟩).run = .ok b ∧
      b.stop = 0x1008 ∧ b.code.map (·.word) = [0x03E00008, slot] := by
  rcases h with rfl | rfl <;> exact ⟨_, rfl, rfl, rfl⟩

/-- The block has been compiled, and the last byte of the second word has changed, and has
been reported. -/
def reported : CodeHistory :=
  (((initial 64 (returning 0)).ensure 0x1000 0xFFFFFFFF80001000).change (returning 1)
    ⟨0x1007, 1⟩).invalidate ⟨0x1007, 1⟩

/-- After that the block is asked for again. -/
def rewritten : CodeHistory := reported.ensure 0x1000 0xFFFFFFFF80001000

/-- All changes of that history have been reported. -/
theorem settled_reported : reported.Settled :=
  settled_invalidate (fun _ h => h) (returning 1) ⟨0x1007, 1⟩

/-- It has come about as histories do. -/
theorem rewritten_steps : Relation.ReflTransGen Step (initial 64 (returning 0)) rewritten := by
  have hfirst : Step (initial 64 (returning 0)) _ :=
    .ensure (fun _ h => h) 0x1000 0xFFFFFFFF80001000
  have hchange : Step _ (((initial 64 (returning 0)).ensure 0x1000 0xFFFFFFFF80001000).change
      (returning 1) ⟨0x1007, 1⟩) := .change (returning 1) ⟨0x1007, 1⟩ fun a ha => by
    -- Only the second word differs
    have hplace : a = 0x1004 := by
      refine Decidable.byContradiction fun hne => ha ?_
      simp only [ensure, initial, returning, if_neg hne]
    rw [hplace]
    exact ⟨0x1007, rfl, by decide, by decide⟩
  have hreport : Step _ reported := .invalidate 0x1007 1
  exact (((Relation.ReflTransGen.single hfirst).tail hchange).tail hreport).tail
    (.ensure settled_reported 0x1000 0xFFFFFFFF80001000)

/-- The block that is there now was compiled from the words as they are. -/
theorem lookup_rewritten :
    ∃ b, rewritten.cache.lookup 0x1000 = some b ∧ b.code.map (·.word) = [0x03E00008, 1] := by
  obtain ⟨old, holdCompiled, hstop, -⟩ := compile_returning (.inl rfl)
  obtain ⟨new, hnewCompiled, -, hwords⟩ := compile_returning (.inr rfl)
  -- The first request finds an empty cache
  have hempty : (BlockCache.empty 64).isFailed 0x1000 = false := BlockCache.isFailed_empty 64 _
  have hfirst : reported.cache =
      ((BlockCache.empty 64).record 0x1000 (.ok old)).2.invalidate ⟨0x1007, 1⟩ :=
    congrArg (fun result => result.2.invalidate ⟨0x1007, 1⟩)
      (BlockCache.ensure_of_compiled (BlockCache.lookup_empty 64 _) hempty holdCompiled)
  -- The report drops its block, which is then compiled once more
  have hdropped : reported.cache.lookup 0x1000 = none := by
    obtain ⟨hstart, hne, hcode⟩ := Block.compile_words _ holdCompiled
    have hcompact : old.Compact := .of_words hne (hstart ▸ hcode)
    rw [hfirst]
    refine hcompact.lookup_invalidate_of_meets ?_ Nat.one_pos ⟨0x1007, ?_, ?_, rfl⟩
    · rw [BlockCache.lookup_record_ok, if_pos rfl]
    · rw [hstart]
      decide
    · rw [hstop]
      decide
  have huntried : reported.cache.isFailed 0x1000 = false := by
    rw [hfirst]
    exact BlockCache.isFailed_invalidate (BlockCache.isFailed_record_ok hempty _ _) _
  have hroom : reported.cache.maxInstructions = 64 := by
    rw [hfirst]
    rfl
  have hlast : rewritten.cache = (reported.cache.record 0x1000 (.ok new)).2 :=
    congrArg Prod.snd (BlockCache.ensure_of_compiled hdropped huntried (hroom.symm ▸ hnewCompiled))
  refine ⟨new, ?_, hwords⟩
  rw [hlast, BlockCache.lookup_record_ok, if_pos rfl]

/-- The block ends with its second word, and holds both as they are now; a report of its last byte
drops it, and one of the byte after it does not. -/
theorem cache_exact_of_rewritten :
    ∃ b, rewritten.cache.lookup 0x1000 = some b ∧ b.code.map (·.word) = [0x03E00008, 1] ∧
      b.stop.toNat = 0x1008 ∧
      (∀ i (h : i < b.code.length),
        (returning 1).word (0x1000 + UInt32.ofNat (4 * i)) = some b.code[i].word) ∧
      (rewritten.cache.invalidate ⟨0x1007, 4⟩).lookup 0x1000 = none ∧
      (rewritten.cache.invalidate ⟨0x1008, 4⟩).lookup 0x1000 = some b := by
  obtain ⟨b, hb, hcode⟩ := lookup_rewritten
  obtain ⟨hcurrent, hdrop⟩ := cache_exact 64 (returning 0) rewritten_steps hb
  obtain ⟨hstart, hend, hwords⟩ := hcurrent settled_reported
  have hsize : b.code.length = 2 := by
    rw [← List.length_map, hcode]
    rfl
  have hstop : b.stop.toNat = 0x1008 := by
    rw [hend, Block.size, hsize]
    rfl
  refine ⟨b, hb, hcode, hstop, hwords, ?_, ?_⟩
  · refine (hdrop 0x1007 4 (by decide)).1.mpr ⟨0x1007, ?_, ?_, rfl⟩
    · rw [hstart]
      decide
    · rw [hstop]
      decide
  · refine (hdrop 0x1008 4 (by decide)).2 ?_
    rintro ⟨x, -, hx, hin⟩
    rw [ByteRange.contains_iff] at hin
    rw [hstop] at hx
    exact absurd hin.1 (Nat.not_le.mpr hx)

end CodeHistory

end Console64
