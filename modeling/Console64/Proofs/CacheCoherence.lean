import Console64.Proofs.CompiledBlock

/-!
# The block cache and the write log

A cached block of code memory is either fresh or will be dropped: some byte of it lies
in a range that is still to be applied.  Such a range is in the write log, or is held by
whoever took it from there.  This file proves that tracked changes of memory keep the
cache coherent in this sense, and that applying a range settles it.

## Key results

- `BlockCache.Coherent.of_tracked`: tracked changes keep the cache coherent
- `BlockCache.Coherent.of_take`: so does taking the log, whose ranges are held from then on
- `BlockCache.Coherent.invalidateAll`: ranges that have been applied need not be held
-/

namespace Console64

/-! ## Looking up blocks -/

namespace BlockCache

/-- A new cache has no blocks. -/
theorem lookup_empty (maxInstructions : Nat) (k : UInt32) :
    (empty maxInstructions).lookup k = none := by
  simp only [empty, lookup, Std.HashMap.getElem?_empty]

/-- A block that is recorded is found under its address, -/
theorem lookup_record_ok (c : BlockCache) (start k : UInt32) (b : Block) :
    (c.record start (.ok b)).2.lookup k = if start = k then some b else c.lookup k := by
  simp only [record, lookup, Std.HashMap.getElem?_insert, beq_iff_eq]

/-- and of what was there is found what is kept. -/
theorem lookup_keep (c : BlockCache) (block : Block → Bool) (failure : UInt32 → Bool)
    (k : UInt32) : (c.keep block failure).lookup k = (c.lookup k).filter block := by
  simp only [keep, lookup, Std.HashMap.getElem?_filter']

/-- What an applied change leaves in the cache. -/
theorem lookup_invalidate (c : BlockCache) (r : ByteRange) (k : UInt32) (b : Block) :
    (c.invalidate r).lookup k = some b ↔
      c.lookup k = some b ∧ (r.length = 0 ∨ b.overlaps (changedRange r) = false) := by
  simp only [invalidate]
  split
  case isTrue h => simp only [h, true_or, and_true]
  case isFalse h =>
    simp only [lookup_keep, Option.filter_eq_some_iff, h, false_or, Bool.not_eq_true']

/-- It knows of no failures either. -/
theorem isFailed_empty (maxInstructions : Nat) (k : UInt32) :
    (empty maxInstructions).isFailed k = false := Std.HashSet.contains_empty

/-- A block that has been compiled is not known to fail, and nothing else is that was not. -/
theorem isFailed_record_ok {c : BlockCache} {k : UInt32} (h : c.isFailed k = false)
    (start : UInt32) (b : Block) : (c.record start (.ok b)).2.isFailed k = false := by
  show (c.failed.erase start).contains k = false
  rw [Std.HashSet.contains_erase, show c.failed.contains k = false from h, Bool.and_false]

/-- An applied change adds no failure. -/
theorem isFailed_invalidate {c : BlockCache} {k : UInt32} (h : c.isFailed k = false)
    (r : ByteRange) : (c.invalidate r).isFailed k = false := by
  simp only [invalidate]
  split
  · exact h
  · rw [Bool.eq_false_iff]
    intro hkept
    exact Bool.noConfusion (h.symm.trans (Std.HashSet.contains_of_contains_filter hkept))

end BlockCache

namespace Recompiler

/-- The recompiler applies a change to its cache. -/
theorem cache_invalidate (r : Recompiler) (change : ByteRange) :
    (r.invalidate change).cache = r.cache.invalidate change := by
  simp only [invalidate]
  split
  case isTrue h => simp only [BlockCache.invalidate, if_pos h]
  case isFalse => rfl

/-- What several applied changes leave in the cache. -/
theorem lookup_invalidateAll (r : Recompiler) (changes : List ByteRange) (k : UInt32)
    (b : Block) :
    (r.invalidateAll changes).cache.lookup k = some b ↔
      r.cache.lookup k = some b ∧
        ∀ w ∈ changes, w.length = 0 ∨ b.overlaps (BlockCache.changedRange w) = false := by
  induction changes generalizing r with
  | nil =>
    show r.cache.lookup k = some b ↔ _
    simp only [List.not_mem_nil, false_implies, implies_true, and_true]
  | cons w rest ih =>
    show ((r.invalidate w).invalidateAll rest).cache.lookup k = some b ↔ _
    rw [ih, cache_invalidate, BlockCache.lookup_invalidate]
    simp only [List.forall_mem_cons, and_assoc]

end Recompiler

/-! ## Blocks and ranges -/

namespace Block

/-- A byte of the block lies in one of the ranges. -/
def Touched (b : Block) (ranges : List ByteRange) : Prop :=
  ∃ a, b.start.toNat ≤ a ∧ a < b.start.toNat + 4 * b.code.length ∧ ByteRange.Covered ranges a

/-- More bytes in the ranges, more blocks with a byte in them. -/
theorem Touched.mono {b : Block} {ranges ranges' : List ByteRange} (h : b.Touched ranges)
    (hsub : ∀ a, ByteRange.Covered ranges a → ByteRange.Covered ranges' a) : b.Touched ranges' := by
  obtain ⟨a, hstart, hstop, hcovered⟩ := h
  exact ⟨a, hstart, hstop, hsub a hcovered⟩

/-- A block that outlives a change has no byte in its range. -/
theorem Placed.not_contains {b : Block} (h : b.Placed) {w : ByteRange}
    (hkept : w.length = 0 ∨ b.overlaps (BlockCache.changedRange w) = false) {a : Nat}
    (hstart : b.start.toNat ≤ a) (hstop : a < b.start.toNat + 4 * b.code.length) :
    ¬w.contains a = true := by
  intro hw
  have hin := hw
  rw [ByteRange.contains_iff] at hin
  rcases hkept with hzero | hapart
  · omega
  · -- Code memory ends long before the address space, so the range is not cut short here
    obtain ⟨hend, hlimit⟩ := h.stop_eq
    have hchanged : (BlockCache.changedRange w).contains a = true := by
      rw [ByteRange.contains_iff]
      simp only [BlockCache.changedRange]
      omega
    rw [h.overlaps_of_contains hchanged hstart hstop] at hapart
    exact nomatch hapart

/-- A fresh block stays fresh, or a byte of it enters the log. -/
theorem Fresh.of_tracked {b : Block} (hplaced : b.Placed) {s t : Bus}
    (htracked : Bus.Tracked s t) (hwatch : s.writes.watching = true) (h : b.Fresh s) :
    b.Fresh t ∨ b.Touched t.writes.ranges.toList := by
  -- The log is clear of the whole block, or it covers a byte of it
  by_cases hclear : ∀ a, b.start.toNat ≤ a → a < b.start.toNat + 4 * b.code.length →
      ¬t.writes.Covers a
  · exact .inl (HoldsCode.of_tracked htracked hwatch hplaced.straight hplaced.aligned
      hplaced.inCode hclear h)
  · simp only [Classical.not_forall, Classical.not_not] at hclear
    obtain ⟨a, hstart, hstop, hcovers⟩ := hclear
    exact .inr ⟨a, hstart, hstop, hcovers⟩

/-- Freshness does not depend on the log. -/
theorem fresh_devices (b : Block) (bus : Bus) : b.Fresh bus.devices ↔ b.Fresh bus := by
  simp only [fresh_iff, Bus.wordAt_devices]

end Block

/-! ## Coherence -/

/-- The cache fits the memory behind `bus`: every block is found at its start and is not
empty, and those of code memory are placed well and either fresh or touched by a range
that is still to be applied, in the log or among those `held`. -/
structure BlockCache.Coherent (c : BlockCache) (held : List ByteRange) (bus : Bus) : Prop where
  watching : bus.writes.watching = true
  keyed : ∀ {k b}, c.lookup k = some b →
    b.start = k ∧ b.code ≠ [] ∧ ∃ owner, Region.resolve k = .ok owner
  placed : ∀ {k b}, c.lookup k = some b → inCodeMemory k = true → b.Placed
  current : ∀ {k b}, c.lookup k = some b → inCodeMemory k = true →
    b.Fresh bus ∨ b.Touched (held ++ bus.writes.ranges.toList)

/-- A byte is in one list of ranges or in the other. -/
theorem ByteRange.covered_append {l l' : List ByteRange} {a : Nat} :
    Covered (l ++ l') a ↔ Covered l a ∨ Covered l' a := by
  simp only [Covered, List.mem_append, or_and_right, exists_or]

namespace BlockCache.Coherent

variable {c : BlockCache} {held : List ByteRange} {s t : Bus}

/-- An empty cache fits any memory that is watched. -/
theorem empty (maxInstructions : Nat) (hwatch : s.writes.watching = true) :
    (BlockCache.empty maxInstructions).Coherent held s := by
  have hnone : ∀ k b, ¬(BlockCache.empty maxInstructions).lookup k = some b := fun k b h =>
    nomatch (lookup_empty maxInstructions k).symm.trans h
  exact
    { watching := hwatch
      keyed := fun h => absurd h (hnone _ _)
      placed := fun h => absurd h (hnone _ _)
      current := fun h => absurd h (hnone _ _) }

/-- Coherence is about the blocks alone, not about what is counted of them. -/
theorem congr {c' : BlockCache} (h : c.Coherent held s)
    (hsub : ∀ {k b}, c'.lookup k = some b → c.lookup k = some b) : c'.Coherent held s where
  watching := h.watching
  keyed hb := h.keyed (hsub hb)
  placed hb := h.placed (hsub hb)
  current hb := h.current (hsub hb)

/-- Tracked changes keep the cache coherent. -/
theorem of_tracked (h : c.Coherent held s) (htracked : Bus.Tracked s t) : c.Coherent held t where
  watching := htracked.watching.trans h.watching
  keyed := h.keyed
  placed := h.placed
  current hb hcode := by
    -- What was touched stays touched, since the log only grows
    rcases h.current hb hcode with hfresh | htouched
    · rcases hfresh.of_tracked (h.placed hb hcode) htracked h.watching with hfresh | htouched
      · exact .inl hfresh
      · exact .inr (htouched.mono fun a ha => ByteRange.covered_append.mpr (.inr ha))
    · refine .inr (htouched.mono fun a ha => ?_)
      rcases ByteRange.covered_append.mp ha with hheld | hlog
      · exact ByteRange.covered_append.mpr (.inl hheld)
      · exact ByteRange.covered_append.mpr (.inr (htracked.covers hlog))

/-- Whoever takes the log holds its ranges. -/
theorem of_take (h : c.Coherent held s) : c.Coherent (held ++ s.takeWrites.1) s.takeWrites.2 where
  watching := h.watching
  keyed := h.keyed
  placed := h.placed
  current hb hcode := by
    rcases h.current hb hcode with hfresh | htouched
    · exact .inl ((Block.fresh_devices _ s.takeWrites.2).mp ((Block.fresh_devices _ s).mpr hfresh))
    · exact .inr (htouched.mono fun a ha => ByteRange.covered_append.mpr (.inl ha))

/-- Ranges that have been applied need not be held any longer. -/
theorem invalidateAll {r : Recompiler} {ws : List ByteRange}
    (h : r.cache.Coherent (held ++ ws) s) : (r.invalidateAll ws).cache.Coherent held s where
  watching := h.watching
  keyed hb := h.keyed ((r.lookup_invalidateAll ws _ _).mp hb).1
  placed hb := h.placed ((r.lookup_invalidateAll ws _ _).mp hb).1
  current hb hcode := by
    obtain ⟨hbefore, hkept⟩ := (r.lookup_invalidateAll ws _ _).mp hb
    rcases h.current hbefore hcode with hfresh | ⟨a, hstart, hstop, hcovered⟩
    · exact .inl hfresh
    · refine .inr ⟨a, hstart, hstop, ?_⟩
      rw [ByteRange.covered_append, ByteRange.covered_append] at hcovered
      rcases hcovered with (hheld | ⟨w, hw, ha⟩) | hlog
      · exact ByteRange.covered_append.mpr (.inl hheld)
      · -- The block outlived the change, so it has no byte in its range
        exact absurd ha ((h.placed hbefore hcode).not_contains (hkept w hw) hstart hstop)
      · exact ByteRange.covered_append.mpr (.inr hlog)

/-- With nothing held and nothing in the log, every block of code memory is fresh. -/
theorem fresh (h : c.Coherent [] s) (hclean : s.writes.ranges = #[]) {k : UInt32} {b : Block}
    (hb : c.lookup k = some b) (hcode : inCodeMemory k = true) : b.Fresh s := by
  rcases h.current hb hcode with hfresh | ⟨a, _, _, w, hw, _⟩
  · exact hfresh
  · rw [hclean] at hw
    exact nomatch hw

/-- A block that has just been compiled may enter the cache. -/
theorem record_ok (h : c.Coherent held s) {start : UInt32} {b : Block} (hstart : b.start = start)
    (hne : b.code ≠ []) (hmapped : ∃ owner, Region.resolve start = .ok owner)
    (hcompiled : inCodeMemory start = true → b.Placed ∧ b.Fresh s) :
    (c.record start (.ok b)).2.Coherent held s where
  -- Under its own address the new block is found, and under any other one an old block
  watching := h.watching
  keyed hb := by
    rw [lookup_record_ok] at hb
    split at hb
    case isTrue heq =>
      cases hb
      exact heq ▸ ⟨hstart, hne, hmapped⟩
    case isFalse => exact h.keyed hb
  placed hb hcode := by
    rw [lookup_record_ok] at hb
    split at hb
    case isTrue heq =>
      cases hb
      exact (hcompiled (heq ▸ hcode)).1
    case isFalse => exact h.placed hb hcode
  current hb hcode := by
    rw [lookup_record_ok] at hb
    split at hb
    case isTrue heq =>
      cases hb
      exact .inl (hcompiled (heq ▸ hcode)).2
    case isFalse => exact h.current hb hcode

end BlockCache.Coherent

end Console64
