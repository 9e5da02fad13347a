import Console64.Proofs.FirstVisit

/-!
# Blocks outside code memory

The log covers main memory alone.  So a block that was compiled from anywhere else stays in
the cache for good, whatever is written over it, and runs as it was compiled.  This file
traces every block that a call runs to the call that compiled it: in code memory it has been
compiled from the words that are there now, elsewhere from those that were there then.

## Key results

- `Recompiler.Calls.origin`: every cached block was compiled by an earlier call
- `Recompiler.Calls.lookup_kept`: a block outside code memory stays in the cache
- `Recompiler.fresh_iff_unchanged`: such a block is stale when the words have changed since
- `Recompiler.looping_stale`: a stale block that is run
-/

namespace Console64

/-! ## Blocks that stay -/

/-- All ranges, those taken and those in the log, lie in main memory. -/
def Bus.Confined (taken : List ByteRange) (bus : Bus) : Prop :=
  (∀ w ∈ taken, w.stop ≤ Region.rdram.size) ∧
    ∀ w ∈ bus.writes.ranges.toList, w.stop ≤ Region.rdram.size

/-- Tracked changes keep it, and so does taking the log. -/
theorem Bus.ledger_confined : Ledger Bus.Confined where
  tracked h htracked := ⟨h.1, htracked.inside h.2⟩
  take h := ⟨List.forall_mem_append.mpr h, fun _ hw => nomatch hw⟩

namespace Recompiler

/-- A block past main memory outlives the changes of main memory. -/
private theorem lookup_of_confined {r : Recompiler} {changes : List ByteRange} {k : UInt32}
    {b : Block} (h : r.cache.lookup k = some b) (hstart : Region.rdram.size ≤ b.start.toNat)
    (hchanges : ∀ w ∈ changes, w.stop ≤ Region.rdram.size) :
    (r.invalidateAll changes).cache.lookup k = some b := by
  refine (r.lookup_invalidateAll changes k b).mpr ⟨h, fun w hw => .inr ?_⟩
  have hstop := hchanges w hw
  simp only [ByteRange.stop] at hstop
  -- The changes end before the block starts
  have hapart : ¬b.start.toNat < (BlockCache.changedRange w).stop := by
    simp only [BlockCache.changedRange, ByteRange.stop]
    omega
  simp only [Block.overlaps, hapart, decide_false, Bool.and_false]

/-- Every part of a call keeps such a block. -/
private theorem accounting_kept {k : UInt32} {b : Block}
    (hstart : Region.rdram.size ≤ b.start.toNat) :
    Accounting fun _ _ s => s.1.cache.lookup k = some b ∧ Bus.Confined [] s.2.bus where
  prepare := by
    intro _ _ s ⟨hb, hconfined⟩
    obtain ⟨r, m⟩ := s
    obtain ⟨result, s₁, hprepare, hprepared⟩ := prepare_run r m
    obtain ⟨-, hrdram, hcart, hlog⟩ := hprepared.peeks
    rw [hprepare, stateOf_ok]
    have hkept : (applied r m).cache.lookup k = some b := lookup_of_confined hb hstart hconfined.2
    refine ⟨?_, fun w hw => (nomatch hw), fun w hw => ?_⟩
    · cases hprepared with
      | interpret reason r₁ hcache =>
        rw [hcache]
        exact hkept
      | cached => exact hkept
      | failed _ _ hlookup =>
        rw [hlookup]
        exact hkept
      | @compiled start b' r₁ m₁ hentry hmissing hcompile hcache =>
        -- A block is compiled only where there is none
        have hne : start ≠ k := by
          rintro rfl
          rw [hmissing] at hkept
          exact nomatch hkept
        rw [hcache, BlockCache.lookup_record_ok, if_neg hne]
        exact hkept
    · rw [hlog] at hw
      exact nomatch hw
  interpret := by
    intro _ _ s reason ⟨hb, hconfined⟩
    rw [interpretOne_run]
    cases hstep : Machine.step s.2 with
    | ok u m' =>
      exact ⟨hb, Bus.ledger_confined.tracked hconfined (Machine.step_respects.change_ok hstep)⟩
    | error e m' =>
      exact ⟨hb, Bus.ledger_confined.tracked hconfined (Machine.step_respects.change_error hstep)⟩
  block := by
    intro _ _ s b' ⟨hb, hconfined⟩
    obtain ⟨r, m⟩ := s
    have hrun := Bus.ledger_confined.run b' hconfined
    rw [runBlock_run]
    cases hb' : b'.run m with
    | ok run m' =>
      rw [hb', List.nil_append, ← (Block.run_ok hb').1] at hrun
      exact ⟨lookup_of_confined hb hstart hrun.1, fun w hw => (nomatch hw), hrun.2⟩
    | error e m' =>
      rw [hb'] at hrun
      exact ⟨hb, fun w hw => (nomatch hw), hrun.2⟩
  chain := fun h => h

/-! ## Where a block comes from -/

/-- The call made in the state `s` compiles `b`, since no block is there. -/
structure Compiles (s : RunState) (b : Block) : Prop where
  entry : entryPoint s.2.cpu = some b.start
  missing : (applied s.1 s.2).cache.lookup b.start = none
  compiles : ∃ m₁, Block.compile readCode
    ⟨b.start, s.2.cpu.pc, (applied s.1 s.2).cache.maxInstructions⟩ (drained s.2) = .ok (.ok b) m₁

/-- What is compiled holds the words that are there, where a fetch has no side effects. -/
theorem Compiles.fresh {s : RunState} {b : Block} (h : Compiles s b)
    (hquiet : quiet b.start = true) : b.Fresh s.2.bus := by
  obtain ⟨m₁, hcompile⟩ := h.compiles
  obtain ⟨_, hrun, hb⟩ := Block.compile_run s.2.cpu.pc (applied s.1 s.2).cache.maxInstructions
    (drained s.2) (entryPoint_eq_some h.entry).2.2.2 hquiet
  rw [hcompile] at hrun
  cases hrun
  obtain ⟨-, -, -, hfresh⟩ := hb b rfl
  exact (b.fresh_devices s.2.bus).mp ((b.fresh_devices (drained s.2).bus).mpr hfresh)

/-- A block that is cached after preparing was there before, or has been compiled. -/
private theorem Prepared.lookup {r : Recompiler} {m : Machine} {result : Except Fallback UInt32}
    {s : RunState} (h : Prepared r m result s) {k : UInt32} {b : Block}
    (hb : s.1.cache.lookup k = some b) :
    r.cache.lookup k = some b ∨ Compiles (r, m) b ∧ b.start = k := by
  have hbefore : (applied r m).cache.lookup k = some b → r.cache.lookup k = some b :=
    fun happlied => ((r.lookup_invalidateAll m.bus.takeWrites.1 k b).mp happlied).1
  -- Preparing only drops blocks, but for the one it may compile
  cases h with
  | interpret reason r₁ hcache => exact .inl (hbefore (hcache ▸ hb))
  | cached => exact .inl (hbefore hb)
  | failed _ _ hlookup => exact .inl (hbefore (hlookup k ▸ hb))
  | @compiled start b' r₁ m₁ hentry hmissing hcompile hcache =>
    rw [hcache, BlockCache.lookup_record_ok] at hb
    split at hb
    case isTrue heq =>
      cases hb
      obtain ⟨rfl, -⟩ := Block.compile_start hcompile
      exact .inr ⟨⟨hentry, hmissing, m₁, hcompile⟩, heq⟩
    case isFalse => exact .inl (hbefore hb)

/-- After preparing, no block enters the cache. -/
private theorem running_lookup (c : BlockCache) :
    Running fun _ _ s => ∀ k b, s.1.cache.lookup k = some b → c.lookup k = some b where
  -- Interpreting leaves the cache, and a block that has run only drops what it wrote over
  interpret := by
    intro _ _ s reason h
    rw [interpretOne_run]
    cases Machine.step s.2 with
    | ok u m' => exact h
    | error e m' => exact h
  block := by
    intro _ _ s b' h
    obtain ⟨r, m⟩ := s
    rw [runBlock_run]
    cases b'.run m with
    | ok run m' =>
      exact fun k b hb => h k b ((Recompiler.lookup_invalidateAll _ run.writes k b).mp hb).1
    | error e m' => exact h
  chain := fun h => h

/-- A block that is cached where a call enters a block was there after preparing. -/
private theorem lookup_of_mem_blockRuns {budget : Nat} {s s₁ : RunState}
    {result : Except Fallback UInt32} (hprepare : prepare s = .ok result s₁)
    {entry : Block × RunState} (hmem : entry ∈ blockRuns budget s) {k : UInt32} {b : Block}
    (hb : entry.2.1.cache.lookup k = some b) : s₁.1.cache.lookup k = some b := by
  obtain ⟨-, hentries⟩ := @Running.executeWithin _ (running_lookup s₁.1.cache) [] [] s s₁ result
    budget hprepare fun k b hb => hb
  obtain ⟨_, hsub⟩ := hentries entry hmem
  exact hsub k b hb

/-- Every cached block was compiled by an earlier call, if the cache was empty at first. -/
theorem Calls.origin {total : Nat} {s₀ s : RunState} (h : Calls total s₀ s)
    (hempty : ∀ k, s₀.1.cache.lookup k = .none) {k : UInt32} {b : Block}
    (hb : s.1.cache.lookup k = some b) :
    ∃ before since u, Calls before s₀ u ∧ Calls since u s ∧ Compiles u b := by
  induction h with
  | none =>
    rw [hempty] at hb
    exact nomatch hb
  | @call total budget n s₀ s' s h hcall ih =>
    obtain ⟨result, s₁, hprepare, hprepared⟩ := prepare_run s'.1 s'.2
    obtain ⟨hafter, -⟩ := @Running.executeWithin _ (running_lookup s₁.1.cache) [] [] s' s₁ result
      budget hprepare fun k b hb => hb
    rw [hcall] at hafter
    -- The block was there before this call, or this call has compiled it
    rcases hprepared.lookup (hafter k b hb) with hbefore | ⟨hcompiles, -⟩
    · obtain ⟨before, since, u, hu, hs', hcompiles⟩ := ih hempty hbefore
      exact ⟨before, since + n, u, hu, .call hs' hcall, hcompiles⟩
    · exact ⟨total, 0 + n, s', h, .call (.none s') hcall, hcompiles⟩

/-- So was every block that a call runs, if not by that call itself. -/
private theorem origin_of_mem_blockRuns {total budget : Nat} {s₀ s : RunState}
    (h : Calls total s₀ s) (hempty : ∀ k, s₀.1.cache.lookup k = .none) {b : Block} {t : RunState}
    (hmem : (b, t) ∈ blockRuns budget s) (hb : t.1.cache.lookup b.start = some b) :
    ∃ before since u, Calls before s₀ u ∧ Calls since u s ∧ Compiles u b := by
  obtain ⟨result, s₁, hprepare, hprepared⟩ := prepare_run s.1 s.2
  rcases hprepared.lookup (lookup_of_mem_blockRuns hprepare hmem hb) with hbefore | ⟨hcompiles, -⟩
  · exact h.origin hempty hbefore
  · exact ⟨total, 0, s, h, .none s, hcompiles⟩

/-! ## Where it stays -/

/-- A cached block past main memory stays in the cache. -/
theorem Calls.lookup_kept {total : Nat} {s s' : RunState} (h : Calls total s s') {k : UInt32}
    {b : Block} (hb : s.1.cache.lookup k = some b) (hstart : Region.rdram.size ≤ b.start.toNat)
    (hconfined : Bus.Confined [] s.2.bus) : s'.1.cache.lookup k = some b := by
  have hkept : s'.1.cache.lookup k = some b ∧ Bus.Confined [] s'.2.bus := by
    induction h with
    | none => exact ⟨hb, hconfined⟩
    | @call total budget n s s' s'' h hcall ih =>
      have hafter := @Accounting.executeWithin _ (accounting_kept hstart) [] [] s' budget
        (ih hb hconfined)
      rw [hcall] at hafter
      exact hafter
  exact hkept.1

/-- So does one that a call runs. -/
private theorem kept_of_mem_blockRuns {budget n : Nat} {s s₁ : RunState} {b : Block} {t : RunState}
    (hmem : (b, t) ∈ blockRuns budget s) (hb : t.1.cache.lookup b.start = some b)
    (hstart : Region.rdram.size ≤ b.start.toNat) (hcall : executeWithin budget s = .ok n s₁)
    {after : Nat} {s' : RunState} (h : Calls after s₁ s') :
    s'.1.cache.lookup b.start = some b := by
  obtain ⟨result, s₂, hprepare, hprepared⟩ := prepare_run s.1 s.2
  obtain ⟨-, -, -, hlog⟩ := hprepared.peeks
  have hconfined : Bus.Confined [] s₂.2.bus := by
    refine ⟨fun w hw => (nomatch hw), fun w hw => ?_⟩
    rw [hlog] at hw
    exact nomatch hw
  obtain ⟨hafter, -⟩ := @Running.executeWithin _ (accounting_kept hstart).toRunning [] [] s s₂
    result budget hprepare ⟨lookup_of_mem_blockRuns hprepare hmem hb, hconfined⟩
  rw [hcall] at hafter
  exact h.lookup_kept hafter.1 hstart hafter.2

/-- A block that a call runs, after calls that succeeded, is fresh in code memory.  One from
elsewhere was compiled by an earlier call or by this one; it is fresh exactly if the words
have not changed since then, where a fetch has no side effects; and it is never dropped. -/
theorem fresh_iff_unchanged (settings : RecompilerSettings) {m : Machine}
    (hwatch : m.bus.writes.watching = true) {total : Nat} {s : RunState}
    (h : Calls total (ofSettings settings, m) s) {budget : Nat} {b : Block} {t : RunState}
    (hmem : (b, t) ∈ blockRuns budget s) :
    (inCodeMemory b.start = true → b.Fresh t.2.bus) ∧
    (inCodeMemory b.start = false →
      (∃ before since u, Calls before (ofSettings settings, m) u ∧ Calls since u s ∧
        Compiles u b ∧ (quiet b.start = true → (b.Fresh t.2.bus ↔
          ∀ i < b.code.length, t.2.bus.wordAt (b.start + UInt32.ofNat (4 * i)) =
            u.2.bus.wordAt (b.start + UInt32.ofNat (4 * i))))) ∧
      ∀ n s₁ after s', executeWithin budget s = .ok n s₁ → Calls after s₁ s' →
        s'.1.cache.lookup b.start = some b) := by
  have hc : s.1.cache.Coherent [] s.2.bus := h.coherent (coherent_ofSettings settings hwatch)
  have hentered := entered_of_mem_blockRuns hc budget (b, t) hmem
  refine ⟨hentered.fresh, fun hcode => ⟨?_, fun n s₁ after s' hcall hafter => ?_⟩⟩
  · obtain ⟨before, since, u, hu, hs, hcompiles⟩ :=
      origin_of_mem_blockRuns h (lookup_ofSettings settings) hmem hentered.lookup
    refine ⟨before, since, u, hu, hs, hcompiles, fun hquiet => ?_⟩
    -- The block holds the words of the time when it was compiled
    have hthen := (b.fresh_iff u.2.bus).mp (hcompiles.fresh hquiet)
    rw [b.fresh_iff]
    refine forall₂_congr fun i hi => ?_
    rw [hthen i hi]
  · -- Outside code memory means past main memory
    refine kept_of_mem_blockRuns hmem hentered.lookup ?_ hcall hafter
    simp only [inCodeMemory, Bool.or_eq_false_iff, Region.contains, Bool.and_eq_false_iff,
      decide_eq_false_iff_not] at hcode
    simp only [Region.stop, Region.base, Region.size] at hcode ⊢
    omega

/-! ## A stale block -/

/-- A machine at a loop in the memory of the signal processor.  The delay slot of its
branch writes over its first instruction. -/
def looping : Machine :=
  .loaded 0xFFFFFFFFA4000000 [(8, 0x2409002A), (12, 0xFFFFFFFFA4000000)]
    [(.sp, 0, 0x24090001), (.sp, 4, 0x1000FFFE), (.sp, 8, 0xAD880000)]

/-- The first call runs the loop once, and the second one runs it again as it was. -/
private theorem looping_run :
    ∃ s₁ s₂ b, executeWithin 0 (ofSettings .eager, looping) = .ok 3 s₁ ∧
      executeWithin 0 s₁ = .ok 3 s₂ ∧ (b, s₁) ∈ blockRuns 0 s₁ ∧ b.start = 0x04000000 ∧
      ¬b.Fresh s₁.2.bus := by
  have hcheck : (looping.firstBlock 16).any (fun b =>
      b.start == 0x04000000 && b.code.map (·.word) == [0x24090001, 0x1000FFFE, 0xAD880000] &&
      b.finishes looping fun run m₁ =>
        run.exit == .jumped 3 && run.writes == [] && m₁.bus.writes.ranges == #[] &&
        m₁.bus.wordAt 0x04000000 == some 0x2409002A && entryPoint m₁.cpu == some 0x04000000 &&
        b.finishes m₁ fun run' _ => run'.exit == .jumped 3) = true := by
    decide +kernel
  simp only [Option.any_eq_true, Bool.and_eq_true, Block.finishes_iff, beq_iff_eq] at hcheck
  obtain ⟨b, hb, ⟨hstart, hwords⟩, ⟨exit, writes⟩, m₁, hrun, ⟨⟨⟨⟨rfl, rfl⟩, hclean⟩, hword⟩,
    hentry⟩, run', m₂, hrun', hexit⟩ := hcheck
  rw [← hstart] at hentry hword
  -- The first call
  have hcall := executeWithin_eager rfl rfl hb (by rw [hstart]; rfl) hrun 0
  have hc : (ofSettings .eager).cache.Coherent [] looping.bus := coherent_ofSettings .eager rfl
  have hc₁ := (executeWithin_ok hc hcall).1
  -- The second call
  let r₁ := ((ofSettings .eager).withBlock b).noteRun ⟨.jumped 3, []⟩
  have hlookup : r₁.cache.lookup b.start = some b := by
    show ((ofSettings .eager).withBlock b).cache.lookup b.start = some b
    rw [lookup_withBlock, if_pos rfl]
  obtain ⟨hcall', hruns⟩ := executeWithin_unchained (prepare_of_cached hclean hentry hlookup)
    ⟨hc₁, hclean, hentry, hlookup⟩ rfl 0
  simp only [hrun', hexit] at hcall'
  refine ⟨_, _, b, hcall, hcall', ?_, hstart, ?_⟩
  · exact hruns ▸ List.mem_singleton_self _
  · exact Block.not_fresh_of_head hwords hword (by decide)

/-- Two calls succeed, and the second one runs a stale block. -/
theorem looping_stale :
    ∃ s₁ s₂ b, executeWithin 0 (ofSettings .eager, looping) = .ok 3 s₁ ∧
      executeWithin 0 s₁ = .ok 3 s₂ ∧ (b, s₁) ∈ blockRuns 0 s₁ ∧ ¬b.Fresh s₁.2.bus := by
  obtain ⟨s₁, s₂, b, hcall, hcall', hmem, -, hstale⟩ := looping_run
  exact ⟨s₁, s₂, b, hcall, hcall', hmem, hstale⟩

/-- A word of that block has changed since the call that compiled it. -/
theorem looping_changed :
    ∃ total s u b, Calls total (ofSettings .eager, looping) s ∧
      Compiles u b ∧ ∃ i < b.code.length, s.2.bus.wordAt (b.start + UInt32.ofNat (4 * i)) ≠
        u.2.bus.wordAt (b.start + UInt32.ofNat (4 * i)) := by
  obtain ⟨s₁, s₂, b, hcall, hcall', hmem, hstart, hstale⟩ := looping_run
  -- One call is enough: the block it runs is stale, and elsewhere that means a change
  have hcalls : Calls _ (ofSettings .eager, looping) s₁ := .call (.none _) hcall
  have hcode : inCodeMemory b.start = false := by
    rw [hstart]
    rfl
  have hquiet : quiet b.start = true := by
    rw [hstart]
    rfl
  obtain ⟨-, helsewhere⟩ := fresh_iff_unchanged .eager rfl hcalls hmem
  obtain ⟨⟨before, since, u, hu, hs, hcompiles, hiff⟩, -⟩ := helsewhere hcode
  rw [hiff hquiet] at hstale
  simp only [Classical.not_forall] at hstale
  obtain ⟨i, hi, hchanged⟩ := hstale
  exact ⟨_, s₁, u, b, hcalls, hcompiles, i, hi, hchanged⟩

end Recompiler

end Console64
