import Console64.Proofs.CacheCoherence
import Console64.Proofs.CallTrace

/-!
# Coherence along a run

The cache stays coherent through all parts of a call, if what failing blocks have lost counts
as still to be applied.  Wherever a block is entered the log is empty; so a block of code
memory is fresh there, if nothing has been lost before.

## Key results

- `Recompiler.accounting_coherent`: every part of a call keeps the cache coherent
- `Recompiler.entered_of_mem_blockRuns`: every block that a call runs is entered with a
  coherent cache and an empty log
- `Recompiler.executeWithin_ok`: a call that succeeds loses nothing and retires something
- `Recompiler.Calls.coherent`: so calls that succeed keep the cache coherent
-/

namespace Console64

/-- Coherence knows of the ranges that were taken, as long as they are held. -/
theorem BlockCache.ledger_coherent (c : BlockCache) :
    Ledger fun held bus => c.Coherent held bus where
  tracked h htracked := h.of_tracked htracked
  take h := h.of_take

namespace Recompiler

variable {r : Recompiler} {m : Machine} {held : List ByteRange}

/-! ## Preparing -/

/-- Taking the log and applying it keeps the cache coherent. -/
theorem coherent_applied (hc : r.cache.Coherent held m.bus) :
    (applied r m).cache.Coherent held (drained m).bus :=
  hc.of_take.invalidateAll

/-- A state in which a block is entered: the cache is coherent, nothing is in the log,
and the cached block is the one at the next instruction. -/
structure Entered (held : List ByteRange) (b : Block) (s : RunState) : Prop where
  coherent : s.1.cache.Coherent held s.2.bus
  clean : s.2.bus.writes.ranges = #[]
  entry : entryPoint s.2.cpu = some b.start
  lookup : s.1.cache.lookup b.start = some b

/-- A block that is entered with nothing held is fresh, if it lies in code memory. -/
theorem Entered.fresh {b : Block} {s : RunState} (h : Entered [] b s)
    (hcode : inCodeMemory b.start = true) : b.Fresh s.2.bus :=
  h.coherent.fresh h.clean h.lookup hcode

/-- It has an instruction at least. -/
theorem Entered.nonempty {b : Block} {s : RunState} (h : Entered held b s) : b.code ≠ [] :=
  (h.coherent.keyed h.lookup).2.1

/-- After preparing the cache is coherent and the log is empty, and a block that is to be
entered is there. -/
theorem Prepared.coherent {result : Except Fallback UInt32} {s : RunState}
    (h : Prepared r m result s) (hc : r.cache.Coherent held m.bus) :
    s.1.cache.Coherent held s.2.bus ∧ s.2.bus.writes.ranges = #[] ∧
      ∀ start, result = .ok start → ∃ b, b.start = start ∧ Entered held b s := by
  obtain ⟨hcpu, hrdram, hcart, hlog⟩ := h.peeks
  have hclean : s.2.bus.writes.ranges = #[] := by
    rw [hlog]
    rfl
  have happlied := (coherent_applied hc).of_tracked (.of_eq hrdram hcart hlog)
  cases h with
  | interpret reason r₁ hcache =>
    exact ⟨happlied.congr fun hb => hcache ▸ hb, hclean, fun start h => nomatch h⟩
  | @cached start b hentry hlookup =>
    refine ⟨happlied, hclean, fun start' h => ?_⟩
    cases h
    have hstart := (happlied.keyed hlookup).1
    exact ⟨b, hstart, happlied, hclean, hstart ▸ hentry, hstart ▸ hlookup⟩
  | @failed start e r₁ m₁ hentry hcompile hlookup =>
    exact ⟨happlied.congr fun hb => hlookup _ ▸ hb, hclean, fun start h => nomatch h⟩
  | @compiled start b r₁ m₁ hentry hmissing hcompile hcache =>
    obtain ⟨hstart, hne, hmapped⟩ := Block.compile_start hcompile
    -- In code memory the block holds the words that are there
    have hfresh : inCodeMemory start = true → b.Placed ∧ b.Fresh m₁.bus := by
      intro hcode
      have halign := (entryPoint_eq_some hentry).2.2.2
      obtain ⟨_, hrun, hb⟩ := Block.compile_run m.cpu.pc (applied r m).cache.maxInstructions
        (drained m) halign (quiet_of_inCodeMemory hcode)
      rw [hcompile] at hrun
      cases hrun
      obtain ⟨rfl, hne, hstraight, hfresh⟩ := hb b rfl
      exact ⟨⟨halign, hcode, hne, hstraight⟩, hfresh⟩
    have hcoherent : r₁.cache.Coherent held m₁.bus :=
      (happlied.record_ok hstart hne hmapped hfresh).congr fun hb => hcache ▸ hb
    refine ⟨hcoherent, hclean, fun start' h => ?_⟩
    cases h
    refine ⟨b, hstart, hcoherent, hclean, ?_, ?_⟩
    · show entryPoint m₁.cpu = _
      rw [hcpu, hstart]
      exact hentry
    · show r₁.cache.lookup b.start = _
      rw [hcache, BlockCache.lookup_record_ok, hstart, if_pos rfl]

/-! ## Parts of a call -/

/-- After a run its writes have been applied. -/
private theorem coherent_noteRun {run : BlockRun}
    (hc : r.cache.Coherent (held ++ run.writes) m.bus) :
    (r.noteRun run).cache.Coherent held m.bus := by
  have hcounted : ({ r with cache := r.cache.noteRun run.exit } : Recompiler).cache.Coherent
      (held ++ run.writes) m.bus := hc.congr id
  exact hcounted.invalidateAll

/-- Every part of a call keeps the cache coherent, if what has been lost is held. -/
theorem accounting_coherent :
    Accounting fun _ missed s => s.1.cache.Coherent missed s.2.bus where
  prepare := by
    intro _ missed s hc
    obtain ⟨result, s₁, hprepare, hprepared⟩ := prepare_run s.1 s.2
    rw [hprepare]
    exact (hprepared.coherent hc).1
  interpret := by
    intro _ missed s reason hc
    rw [interpretOne_run]
    cases hstep : Machine.step s.2 with
    | ok u m' => exact hc.of_tracked (Machine.step_respects.change_ok hstep)
    | error e m' => exact hc.of_tracked (Machine.step_respects.change_error hstep)
  block := by
    intro _ missed s b hc
    obtain ⟨r, m⟩ := s
    have hrun := (BlockCache.ledger_coherent r.cache).run b hc
    rw [runBlock_run]
    simp only [lost]
    -- A run that succeeds applies what it took, one that fails holds it for good
    cases hb : b.run m with
    | ok run m' =>
      rw [hb, ← (Block.run_ok hb).1] at hrun
      rw [List.append_nil]
      exact coherent_noteRun hrun
    | error e m' =>
      rw [hb] at hrun
      exact hrun
  chain := fun hc => hc

/-! ## Chains -/

/-- What one block of a chain leaves when it succeeds. -/
theorem runBlock_ok {b : Block} {s s' : RunState} {exit : BlockExit}
    (h : Entered held b s) (hrun : runBlock b s = .ok exit s') :
    s'.1.cache.Coherent held s'.2.bus ∧ s'.2.bus.writes.ranges = #[] ∧ 0 < exit.retired ∧
      ∃ run, b.run s.2 = .ok run s'.2 ∧ exit = run.exit := by
  -- The account of a block in general, at a run that gives an exit
  have hblock := @Running.block _ accounting_coherent.toRunning [] held s b h.coherent
  rw [hrun, lost_of_ok hrun, List.append_nil] at hblock
  obtain ⟨r, m⟩ := s
  rw [runBlock_run] at hrun
  cases hb : b.run m with
  | error e m' =>
    simp only [hb] at hrun
    exact nomatch hrun
  | ok run m' =>
    simp only [hb, EStateM.Result.ok.injEq] at hrun
    obtain ⟨rfl, rfl⟩ := hrun
    obtain ⟨hclean, hpos⟩ := (Block.run_ok hb).2 h.nonempty
    exact ⟨hblock, hclean, hpos, run, rfl, rfl⟩

/-- The block that follows is entered like the first. -/
theorem entered_following {budget total : Nat} {exit : BlockExit} {s : RunState}
    {next : Block} (hc : s.1.cache.Coherent held s.2.bus) (hclean : s.2.bus.writes.ranges = #[])
    (h : following budget total exit s = some next) : Entered held next (chained s) := by
  -- The next block is looked up where execution goes on
  have hbind : (entryPoint s.2.cpu).bind s.1.cache.lookup = some next := by
    cases exit with
    | redirected n => exact nomatch h
    | completed n =>
      simp only [following] at h
      split at h
      · exact nomatch h
      · exact h
    | jumped n =>
      simp only [following] at h
      split at h
      · exact nomatch h
      · exact h
  obtain ⟨start, hentry, hlookup⟩ := Option.bind_eq_some_iff.mp hbind
  have hstart := (hc.keyed hlookup).1
  exact ⟨hc, hclean, hstart ▸ hentry, hstart ▸ hlookup⟩

/-- Every block of a chain is entered like the first. -/
theorem entered_of_mem_chainRuns {budget total links : Nat} {b : Block} {s : RunState}
    (h : Entered held b s) :
    ∀ entry ∈ chainRuns budget b total links s, Entered held entry.1 entry.2 := by
  -- Induction on the links left; the end of one block is the entry of the next
  induction links generalizing b total s with
  | zero =>
    intro entry hmem
    rw [List.mem_singleton.mp hmem]
    exact h
  | succ links ih =>
    intro entry hmem
    rcases List.mem_cons.mp hmem with rfl | hmem
    · exact h
    · cases hrun : runBlock b s with
      | error e s' =>
        simp only [hrun] at hmem
        exact nomatch hmem
      | ok exit s' =>
        obtain ⟨hc, hclean, -⟩ := runBlock_ok h hrun
        cases hnext : following budget (total + exit.retired) exit s' with
        | none =>
          simp only [hrun, hnext] at hmem
          exact nomatch hmem
        | some next =>
          simp only [hrun, hnext] at hmem
          exact ih (entered_following hc hclean hnext) entry hmem

/-- A chain that succeeds has retired something and lost nothing. -/
theorem runChain_ok {budget total links n : Nat} {b : Block} {s s' : RunState}
    (h : Entered held b s) (hrun : runChain budget b total links s = .ok n s') :
    total < n ∧ (chainRuns budget b total links s).flatMap lost = [] := by
  -- Induction on the links left; the total grows with every block
  induction links generalizing b total s with
  | zero =>
    rw [runChain] at hrun
    obtain ⟨exit, s₁, hb, hret⟩ := bind_eq_ok hrun
    have hpos := (runBlock_ok h hb).2.2.1
    cases hret
    refine ⟨by omega, ?_⟩
    simp only [chainRuns, List.flatMap_cons, List.flatMap_nil, lost_of_ok hb, List.append_nil]
  | succ links ih =>
    rw [runChain_succ] at hrun
    rw [chainRuns]
    cases hb : runBlock b s with
    | error e s₁ =>
      simp only [hb] at hrun
      cases hrun
    | ok exit s₁ =>
      obtain ⟨hc, hclean, hpos, -⟩ := runBlock_ok h hb
      simp only [hb] at hrun
      simp only [List.flatMap_cons, lost_of_ok hb, List.nil_append]
      cases hnext : following budget (total + exit.retired) exit s₁ with
      | none =>
        simp only [hnext, EStateM.Result.ok.injEq] at hrun
        obtain ⟨rfl, rfl⟩ := hrun
        exact ⟨by omega, rfl⟩
      | some next =>
        simp only [hnext] at hrun
        obtain ⟨hlt, hlost⟩ := ih (entered_following hc hclean hnext) hrun
        exact ⟨by omega, hlost⟩

/-! ## Calls -/

/-- Every block that a call runs is entered with a coherent cache and an empty log. -/
theorem entered_of_mem_blockRuns {s : RunState} (hc : s.1.cache.Coherent held s.2.bus)
    (budget : Nat) : ∀ entry ∈ blockRuns budget s, Entered held entry.1 entry.2 := by
  obtain ⟨r, m⟩ := s
  obtain ⟨result, s₁, hprepare, hprepared⟩ := prepare_run r m
  obtain ⟨-, -, hfound⟩ := hprepared.coherent hc
  simp only [blockRuns, hprepare]
  cases result with
  | error reason => exact fun entry hmem => absurd hmem List.not_mem_nil
  | ok start =>
    obtain ⟨b, rfl, hentered⟩ := hfound start rfl
    simp only [hentered.lookup]
    exact entered_of_mem_chainRuns hentered

/-- A cached chain runs as it is, since it always retires something. -/
theorem runCached_run {budget : Nat} {b : Block} {s : RunState} (h : Entered held b s) :
    runCached budget b.start s = runChain budget b 0 s.1.chainLimit s := by
  have hlookup : asks (·.cache.lookup b.start) s = .ok (some b) s := by
    rw [← h.lookup]
    rfl
  have hlimit : asks (·.chainLimit) s = .ok s.1.chainLimit s := rfl
  rw [runCached, bind_of_ok hlookup]
  dsimp only
  rw [bind_of_ok hlimit]
  cases hrun : runChain budget b 0 s.1.chainLimit s with
  | error e s' => exact bind_of_error hrun
  | ok n s' =>
    -- A chain that is entered runs a block, so that no instruction is made up for
    have hpos := (runChain_ok h hrun).1
    rw [bind_of_ok hrun, if_neg (by omega)]
    rfl

/-- A call that succeeds keeps the cache coherent, retires something and loses nothing. -/
theorem executeWithin_ok {s s' : RunState} {budget n : Nat}
    (hc : s.1.cache.Coherent held s.2.bus) (h : executeWithin budget s = .ok n s') :
    s'.1.cache.Coherent held s'.2.bus ∧ 1 ≤ n ∧ dropped budget s = [] := by
  have hcall := @Accounting.executeWithin _ accounting_coherent [] held s budget hc
  -- What is lost would have to be held, but nothing is
  have hresult : 1 ≤ n ∧ dropped budget s = [] := by
    obtain ⟨r, m⟩ := s
    obtain ⟨result, s₁, hprepare, hprepared⟩ := prepare_run r m
    obtain ⟨-, -, hfound⟩ := hprepared.coherent hc
    rw [executeWithin_eq, bind_of_ok hprepare] at h
    simp only [dropped, blockRuns, hprepare]
    cases result with
    | error reason =>
      simp only [interpretOne_run] at h
      cases hstep : Machine.step s₁.2 with
      | error e m' =>
        simp only [hstep] at h
        cases h
      | ok u m' =>
        simp only [hstep, EStateM.Result.ok.injEq] at h
        exact ⟨Nat.le_of_eq h.1, rfl⟩
    | ok start =>
      obtain ⟨b, rfl, hentered⟩ := hfound start rfl
      simp only [runCached_run hentered] at h
      simp only [hentered.lookup]
      exact runChain_ok hentered h
  rw [h, hresult.2, List.append_nil] at hcall
  exact ⟨hcall, hresult⟩

/-! ## Sequences of calls -/

/-- Calls with any budgets lead from the one state to the other.  They all succeed, and
retire so many instructions together. -/
inductive Calls : Nat → RunState → RunState → Prop
  | none (s : RunState) : Calls 0 s s
  | call {total budget n : Nat} {s s' s'' : RunState} (h : Calls total s s')
    (hcall : executeWithin budget s' = .ok n s'') : Calls (total + n) s s''

/-- Nothing has been compiled yet, so there is nothing to be out of date. -/
theorem coherent_ofSettings (settings : RecompilerSettings) {m : Machine}
    (hwatch : m.bus.writes.watching = true) :
    (ofSettings settings).cache.Coherent held m.bus :=
  .empty _ hwatch

/-- Calls that succeed keep the cache coherent. -/
theorem Calls.coherent {total : Nat} {s s' : RunState} (h : Calls total s s')
    (hc : s.1.cache.Coherent held s.2.bus) : s'.1.cache.Coherent held s'.2.bus := by
  induction h with
  | none => exact hc
  | call _ hcall ih => exact (executeWithin_ok (ih hc) hcall).1

end Recompiler

end Console64
