import Console64.Proofs.FirstVisit

/-!
# Writes lost by failing calls

The instructions of a block take their writes out of the log, and the run hands them over
when it ends.  A run that ends in a fault hands nothing over, so what its instructions have
taken is applied nowhere.  This file states what a run of calls, failing ones among them,
leaves at the boundary after each call, and that such losses are all that stands between it
and a cache whose stale blocks are bound to be dropped.

## Key results

- `Recompiler.settled_iff`: after any calls, the stale blocks are bound to be dropped
  exactly if this holds of the blocks touched by what was lost
- `Recompiler.losing_not_settled`: a failing call that leaves a stale block for good
-/

namespace Console64

/-! ## Bytes written -/

/-- Every byte of main memory that the log of `start` covers or that has changed since lies
in a range taken from the log since, or in the log. -/
structure Bus.Accounted (start : Bus) (taken : List ByteRange) (bus : Bus) : Prop where
  watching : bus.writes.watching = true
  covered : ∀ {a}, start.writes.Covers a ∨ bus.rdram.byteAt a ≠ start.rdram.byteAt a →
    ByteRange.Covered taken a ∨ bus.writes.Covers a

namespace Bus.Accounted

variable {start bus : Bus} {taken taken' : List ByteRange}

/-- Nothing has been stored yet. -/
theorem refl (hwatch : start.writes.watching = true) : Accounted start [] start where
  watching := hwatch
  covered h := by
    rcases h with hcovers | hne
    · exact .inr hcovers
    · exact absurd rfl hne

/-- More ranges taken account for no less. -/
theorem mono (h : Accounted start taken bus) (hsub : ∀ w ∈ taken, w ∈ taken') :
    Accounted start taken' bus where
  watching := h.watching
  covered ha := by
    rcases h.covered ha with ⟨w, hw, hcontains⟩ | hcovers
    · exact .inl ⟨w, hsub w hw, hcontains⟩
    · exact .inr hcovers

/-- Tracked changes are covered by the log, and what is taken from there is held. -/
theorem ledger (start : Bus) : Ledger (Accounted start) where
  tracked := by
    intro taken s t h htracked
    refine ⟨htracked.watching.trans h.watching, fun {a} ha => ?_⟩
    -- The byte has changed just now, or was accounted for before
    by_cases hstep : t.rdram.byteAt a = s.rdram.byteAt a
    · rw [hstep] at ha
      exact (h.covered ha).imp_right htracked.covers
    · exact .inr (htracked.changed h.watching hstep)
  take := by
    intro taken s h
    refine ⟨h.watching, fun {a} ha => .inl ?_⟩
    exact ByteRange.covered_append.mpr (h.covered ha)

end Bus.Accounted

namespace Recompiler

/-! ## Runs of calls -/

/-- Calls with any budgets lead from the one state to the other, whether they succeed or
fail.  The first list holds the ranges that they have applied to the cache, the second one
those that they have lost. -/
inductive Runs : List ByteRange → List ByteRange → RunState → RunState → Prop
  | none (s : RunState) : Runs [] [] s s
  | call {done missed : List ByteRange} {s s' : RunState} (h : Runs done missed s s')
    (budget : Nat) : Runs (done ++ delivered budget s') (missed ++ dropped budget s') s
      (stateOf (executeWithin budget s'))

/-- What every part of a call preserves is preserved by all calls. -/
theorem Runs.holds {holds : List ByteRange → List ByteRange → RunState → Prop}
    (hacc : Accounting holds) {done missed : List ByteRange} {s s' : RunState}
    (h : Runs done missed s s') (hstart : holds [] [] s) : holds done missed s' := by
  induction h with
  | none => exact hstart
  | call h budget ih => exact hacc.executeWithin budget (ih hstart)

/-- What was in the log at an earlier boundary, or has been written since, has been applied
or lost since, or is in the log. -/
theorem Runs.accounted {done missed : List ByteRange} {s s' : RunState}
    (h : Runs done missed s s') (hwatch : s.2.bus.writes.watching = true) {a : Nat}
    (ha : s.2.bus.writes.Covers a ∨ s'.2.bus.rdram.byteAt a ≠ s.2.bus.rdram.byteAt a) :
    ByteRange.Covered done a ∨ ByteRange.Covered missed a ∨ s'.2.bus.writes.Covers a := by
  have hacc := accounting_of_ledger (Bus.Accounted.ledger s.2.bus) fun hperm hknown =>
    hknown.mono fun w hw => (hperm w).mp hw
  have haccounted := h.holds hacc (Bus.Accounted.refl hwatch)
  rcases haccounted.covered ha with htaken | hlog
  · exact (ByteRange.covered_append.mp htaken).imp_right .inl
  · exact .inr (.inr hlog)

/-- The cache is coherent at every boundary, if what has been lost is held. -/
theorem Runs.coherent {settings : RecompilerSettings} {m : Machine} {done missed : List ByteRange}
    {s : RunState} (h : Runs done missed (ofSettings settings, m) s)
    (hwatch : m.bus.writes.watching = true) : s.1.cache.Coherent missed s.2.bus :=
  h.holds accounting_coherent (coherent_ofSettings settings hwatch)

/-! ## Settled caches -/

/-- Every stale block of code memory is touched by a recorded write, so that it will be
dropped. -/
def Settled (s : RunState) : Prop :=
  ∀ k b, s.1.cache.lookup k = some b → inCodeMemory k = true →
    b.Fresh s.2.bus ∨ b.Touched s.2.bus.writes.ranges.toList

/-- It is enough to look at the blocks that are touched by what is held. -/
private theorem settled_of_held {s : RunState} {held : List ByteRange}
    (hc : s.1.cache.Coherent held s.2.bus)
    (h : ∀ k b, s.1.cache.lookup k = some b → inCodeMemory k = true → b.Touched held →
      b.Fresh s.2.bus ∨ b.Touched s.2.bus.writes.ranges.toList) : Settled s := by
  intro k b hb hcode
  -- Coherence settles all blocks that are not touched by what is held
  rcases hc.current hb hcode with hfresh | ⟨a, hstart, hstop, hcovered⟩
  · exact .inl hfresh
  · rcases ByteRange.covered_append.mp hcovered with hheld | hlog
    · exact h k b hb hcode ⟨a, hstart, hstop, hheld⟩
    · exact .inr ⟨a, hstart, hstop, hlog⟩

/-- From a settled cache no stale block of code memory is entered: it has been dropped. -/
private theorem Settled.fresh {s : RunState} (h : Settled s) {held : List ByteRange}
    (hc : s.1.cache.Coherent held s.2.bus) {budget : Nat} {entry : Block × RunState}
    (hmem : entry ∈ blockRuns budget s) (hcode : inCodeMemory entry.1.start = true) :
    entry.1.Fresh entry.2.2.bus := by
  -- A settled cache is coherent with nothing held
  have hc' : s.1.cache.Coherent [] s.2.bus :=
    { watching := hc.watching
      keyed := hc.keyed
      placed := hc.placed
      current := fun hb hcode => h _ _ hb hcode }
  exact (entered_of_mem_blockRuns hc' budget entry hmem).fresh hcode

/-- With nothing in the log, a stale block of code memory is not going to be dropped. -/
private theorem not_settled_of_stale {s : RunState} {k : UInt32} {b : Block}
    (hb : s.1.cache.lookup k = some b) (hcode : inCodeMemory k = true)
    (hstale : ¬b.Fresh s.2.bus) (hclean : s.2.bus.writes.ranges = #[]) : ¬Settled s := by
  intro hsettled
  rcases hsettled k b hb hcode with hfresh | ⟨a, -, -, w, hw, -⟩
  · exact hstale hfresh
  · rw [hclean] at hw
    exact nomatch hw

/-- After any calls, failing ones among them:
* what was in the log at an earlier boundary, or has been written since, has been applied,
  or has been lost, or is in the log;
* the stale blocks are bound to be dropped exactly if this holds of the blocks touched by
  what has been lost;
* in that case the next call enters no stale block of code memory;
* and that call loses nothing, if it succeeds. -/
theorem settled_iff (settings : RecompilerSettings) {m : Machine}
    (hwatch : m.bus.writes.watching = true) {done missed : List ByteRange} {s : RunState}
    (h : Runs done missed (ofSettings settings, m) s) :
    (∀ done' missed' u, Runs done' missed' u s → u.2.bus.writes.watching = true →
      ∀ a, u.2.bus.writes.Covers a ∨ s.2.bus.rdram.byteAt a ≠ u.2.bus.rdram.byteAt a →
        ByteRange.Covered done' a ∨ ByteRange.Covered missed' a ∨ s.2.bus.writes.Covers a) ∧
    (Settled s ↔
      ∀ k b, s.1.cache.lookup k = some b → inCodeMemory k = true → b.Touched missed →
        b.Fresh s.2.bus ∨ b.Touched s.2.bus.writes.ranges.toList) ∧
    (Settled s → ∀ budget, ∀ entry ∈ blockRuns budget s,
      inCodeMemory entry.1.start = true → entry.1.Fresh entry.2.2.bus) ∧
    (∀ budget n s', executeWithin budget s = .ok n s' → dropped budget s = []) := by
  have hc := h.coherent hwatch
  refine ⟨?_, ?_, ?_, ?_⟩
  · intro done' missed' u hruns hwatch' a ha
    exact hruns.accounted hwatch' ha
  -- A block that was not touched is held to by the cache already
  · exact ⟨fun hs k b hb hcode _ => hs k b hb hcode, settled_of_held hc⟩
  · intro hs budget entry hmem hcode
    exact hs.fresh hc hmem hcode
  · intro budget n s' hcall
    exact (executeWithin_ok hc hcall).2.2

/-! ## A loss -/

/-- A machine at a block of three instructions that jumps to the start of memory.  The block
there writes over the first block, and then loads from where nothing is mapped. -/
def losing : Machine :=
  .loaded 0xFFFFFFFF80000100
    [(8, 0x2409002A), (12, 0xFFFFFFFF80000000), (13, 0xFFFFFFFFA5000000)]
    [(.rdram, 0x000, 0xAD880100), (.rdram, 0x004, 0x8DAA0000), (.rdram, 0x008, 0x08000040),
      (.rdram, 0x100, 0x24090001), (.rdram, 0x104, 0x08000000)]

/-- The first call runs the block at `0x100`, and the second one fails in the block at the
start of memory.  Then the first block is stale, and nothing is in the log. -/
private theorem losing_run :
    ∃ s₁ e s₂ b, executeWithin 0 (ofSettings .eager, losing) = .ok 3 s₁ ∧
      executeWithin 0 s₁ = .error e s₂ ∧ s₂.1.cache.lookup 0x100 = some b ∧
      ¬b.Fresh s₂.2.bus ∧ s₂.2.bus.writes.ranges = #[] := by
  have hcheck : (losing.firstBlock 16).any (fun b =>
      b.start == 0x100 && b.code.map (·.word) == [0x24090001, 0x08000000, 0] &&
      b.finishes losing fun run m₁ =>
        run.exit == .jumped 3 && run.writes == [] && m₁.bus.writes.ranges == #[] &&
        (m₁.firstBlock 16).any fun b' => b'.start == 0 && b'.faults m₁ fun m₂ =>
          m₂.bus.wordAt 0x100 == some 0x2409002A && m₂.bus.writes.ranges == #[]) = true := by
    decide +kernel
  simp only [Option.any_eq_true, Bool.and_eq_true, Block.finishes_iff, Block.faults_iff,
    beq_iff_eq] at hcheck
  obtain ⟨b, hb, ⟨hstart, hwords⟩, ⟨exit, writes⟩, m₁, hrun, ⟨⟨rfl, rfl⟩, hclean⟩, b', hb',
    hstart', e, m₂, hrun', hword, hclean'⟩ := hcheck
  -- The first call
  have hcall := executeWithin_eager rfl rfl hb (by rw [hstart]; rfl) hrun 0
  have hc : (ofSettings .eager).cache.Coherent [] losing.bus := coherent_ofSettings .eager rfl
  have hc₁ := (executeWithin_ok hc hcall).1
  -- The second call
  let r₁ := ((ofSettings .eager).withBlock b).noteRun ⟨.jumped 3, []⟩
  have hlookup : ∀ k, r₁.cache.lookup k = if b.start = k then some b else none := by
    intro k
    rw [← lookup_ofSettings .eager k]
    exact lookup_withBlock (ofSettings .eager) b k
  have hvisit' : FirstVisit r₁ m₁ b' := by
    refine .of_firstBlock hclean hb' (by rw [hstart']; rfl) ?_ ?_ (Nat.le_refl 1)
    · rw [hlookup, hstart, hstart']
      rfl
    · exact isFailed_withBlock (isFailed_ofSettings .eager b'.start) b
  have hcall' := hvisit'.executeWithin hc₁ rfl 0
  simp only [hrun'] at hcall'
  refine ⟨_, e, _, b, hcall, hcall', ?_, ?_, hclean'⟩
  · rw [lookup_withBlock, hlookup, hstart, hstart']
    rfl
  · rw [← hstart] at hword
    exact Block.not_fresh_of_head hwords hword (by decide)

/-- A failing call may leave a stale block that nothing drops. -/
theorem losing_not_settled :
    ∃ s₁ e s₂, executeWithin 0 (ofSettings .eager, losing) = .ok 3 s₁ ∧
      executeWithin 0 s₁ = .error e s₂ ∧ ¬Settled s₂ := by
  obtain ⟨s₁, e, s₂, b, hcall, hcall', hlookup, hstale, hclean⟩ := losing_run
  exact ⟨s₁, e, s₂, hcall, hcall', not_settled_of_stale hlookup (by decide) hstale hclean⟩

/-- What that call has lost touches a block that is still there. -/
theorem losing_touched :
    ∃ done missed s k b, Runs done missed (ofSettings .eager, losing) s ∧
      s.1.cache.lookup k = some b ∧ b.Touched missed ∧ ¬b.Fresh s.2.bus := by
  obtain ⟨s₁, e, s₂, b, hcall, hcall', hlookup, hstale, hclean⟩ := losing_run
  have hruns := Runs.call (Runs.call (Runs.none (ofSettings .eager, losing)) 0) 0
  rw [hcall, stateOf_ok, hcall', stateOf_error] at hruns
  have hiff := (settled_iff .eager rfl hruns).2.1
  -- Otherwise the cache would be settled
  apply Classical.byContradiction
  intro hnone
  refine not_settled_of_stale hlookup (by decide) hstale hclean (hiff.mpr ?_)
  intro k b' hb' hcode htouched
  apply Classical.byContradiction
  intro hstale'
  exact hnone ⟨_, _, s₂, k, b', hruns, hb', htouched, fun hfresh => hstale' (.inl hfresh)⟩

end Recompiler

end Console64
