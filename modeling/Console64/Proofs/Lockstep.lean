import Console64.Proofs.FirstVisit

/-!
# The recompiler in step with the interpreter

As long as instructions are fetched from main memory or the cartridge, a call of the
recompiler leaves the machine where the interpreter would be after as many steps, the
write log aside; and it fails where the interpreter fails.

The block that is run was compiled from the words that are there now, by coherence.  Its
instructions are those the interpreter fetches: they follow each other in one page, which
one translation serves, and the run ends as soon as one of them may have changed the
mapping, the flow of control or the block itself.

## Key results

- `Block.run_lockstep`: a run of a fresh block is so many steps of the interpreter
- `Recompiler.executeWithin_lockstep`: so is a call, after any calls before it
-/

namespace Console64

namespace Machine

/-! ## Steps of the interpreter -/

/-- Several steps of the interpreter. -/
def steps : Nat → MachineM Unit
  | 0 => pure ()
  | n + 1 => step >>= fun _ => steps n

/-- So many steps lead from the one machine to the other, the write log aside. -/
def StepsTo (n : Nat) (m m' : Machine) : Prop :=
  ∃ t, steps n m = .ok () t ∧ SameUpToLog m' t

/-- After some steps the interpreter fails in this way and leaves this machine, the write
log aside. -/
def FailsWith (e : BusError) (m m' : Machine) : Prop :=
  ∃ n t u, steps n m = .ok () t ∧ step t = .error e u ∧ SameUpToLog m' u

/-- Steps of the interpreter do not look at the log. -/
theorem steps_respects (n : Nat) : frame.Respects (steps n) := by
  induction n with
  | zero => exact Frame.respects_pure _
  | succ n ih => exact Frame.respects_bind step_respects fun _ => ih

/-- Steps after steps. -/
theorem steps_add {a : Nat} {m t : Machine} (h : steps a m = .ok () t) (b : Nat) :
    steps (a + b) m = steps b t := by
  induction a generalizing m with
  | zero =>
    cases h
    rw [Nat.zero_add]
  | succ a ih =>
    obtain ⟨_, u, hstep, hrest⟩ := bind_eq_ok h
    rw [Nat.succ_add, steps, bind_of_ok hstep]
    exact ih hrest

/-- No steps lead nowhere else, -/
theorem StepsTo.refl {m m' : Machine} (h : SameUpToLog m m') : StepsTo 0 m m' :=
  ⟨m, rfl, h.symm⟩

/-- the log at the end does not matter, -/
theorem StepsTo.same {n : Nat} {m t t' : Machine} (h : StepsTo n m t) (hs : SameUpToLog t t') :
    StepsTo n m t' := by
  obtain ⟨u, hsteps, hsame⟩ := h
  exact ⟨u, hsteps, hs.symm.trans hsame⟩

/-- steps lead on from where others have led, -/
theorem StepsTo.trans {a b : Nat} {m t u : Machine} (h : StepsTo a m t) (h' : StepsTo b t u) :
    StepsTo (a + b) m u := by
  obtain ⟨t', hsteps, hsame⟩ := h
  obtain ⟨u', hsteps', hsame'⟩ := h'
  -- The steps of the second run are made again where the first one ends
  obtain ⟨v, hv, hvsame⟩ := (steps_respects b).same_ok hsame hsteps'
  exact ⟨v, (steps_add hsteps b).trans hv, hsame'.trans hvsame⟩

/-- and fail where steps after them fail. -/
theorem StepsTo.fails {n : Nat} {e : BusError} {m t u : Machine} (h : StepsTo n m t)
    (h' : FailsWith e t u) : FailsWith e m u := by
  obtain ⟨t', hsteps, hsame⟩ := h
  obtain ⟨k, v, w, hk, hfail, hw⟩ := h'
  obtain ⟨v', hv', hvsame⟩ := (steps_respects k).same_ok hsame hk
  obtain ⟨w', hw', hwsame⟩ := step_respects.same_error hvsame hfail
  exact ⟨n + k, v', w', (steps_add hsteps k).trans hv', hw', hw.trans hwsame⟩

/-! ## Where instructions are fetched from -/

/-- If the next fetch gets as far as a physical address, it is in code memory, or nowhere. -/
def FetchesCode (m : Machine) : Prop :=
  ∀ p, m.cpu.pc.toNat % 4 = 0 → m.cpu.resolve m.cpu.pc .fetch = .ok p →
    inCodeMemory p = true ∨ ∃ e, Region.resolve p = .error e

/-- The next so many instructions of the interpreter are fetched so. -/
def StaysInCode (n : Nat) (m : Machine) : Prop :=
  ∀ k < n, ∀ t, steps k m = .ok () t → t.FetchesCode

instance (m : Machine) : Decidable m.FetchesCode :=
  decidable_of_iff
    (m.cpu.pc.toNat % 4 = 0 →
      (match m.cpu.resolve m.cpu.pc .fetch with
        | .ok p => inCodeMemory p || !(Region.resolve p).toBool
        | .error _ => true) = true) <| by
    refine ⟨fun h p halign hp => ?_, fun h halign => ?_⟩
    · have hcheck := h halign
      rw [hp] at hcheck
      cases hres : Region.resolve p with
      | ok owner =>
        simp only [hres, Except.toBool, Bool.not_true, Bool.or_false] at hcheck
        exact .inl hcheck
      | error e => exact .inr ⟨e, rfl⟩
    · cases hp : m.cpu.resolve m.cpu.pc .fetch with
      | error e => rfl
      | ok p =>
        rcases h p halign hp with hcode | ⟨e, he⟩
        · simp only [hcode, Bool.true_or]
        · simp only [he, Except.toBool, Bool.not_false, Bool.or_true]

instance (n : Nat) (m : Machine) : Decidable (StaysInCode n m) :=
  decidable_of_iff
    (∀ k < n, (match steps k m with
      | .ok _ t => decide t.FetchesCode
      | .error _ _ => true) = true) <| by
    refine forall₂_congr fun k _ => ⟨fun h t ht => ?_, fun h => ?_⟩
    · rw [ht] at h
      exact of_decide_eq_true h
    · cases ht : steps k m with
      | ok u t => exact decide_eq_true (h t ht)
      | error e t => rfl

/-- The first of the instructions is fetched so. -/
theorem StaysInCode.first {n : Nat} {m : Machine} (h : StaysInCode n m) (hn : 0 < n) :
    m.FetchesCode :=
  h 0 hn m rfl

/-- What is left of it after some steps. -/
theorem StaysInCode.after {a b : Nat} {m t : Machine} (h : StaysInCode (a + b) m)
    (hsteps : StepsTo a m t) : StaysInCode b t := by
  obtain ⟨t', hsteps, hsame⟩ := hsteps
  intro k hk u hu
  obtain ⟨u', hu', husame⟩ := (steps_respects k).same_ok hsame hu
  have hcode := h (a + k) (by omega) u' ((steps_add hsteps k).trans hu')
  simp only [FetchesCode, ← husame.1] at hcode
  exact hcode

/-! ## One instruction -/

/-- A step carries out the word that is there. -/
theorem step_of_word {m : Machine} {p word : UInt32} (halign : m.cpu.pc.toNat % 4 = 0)
    (hresolve : m.cpu.resolve m.cpu.pc .fetch = .ok p) (hp : p.toNat % 4 = 0)
    (hcode : inCodeMemory p = true) (hword : m.bus.wordAt p = some word) :
    step m = (carryOut word m.cpu.pc >>= fun _ => pure ()) m := by
  -- The fetch gives the word of memory, as the segment and the bus let it
  have hread := Bus.readWord_of_inCodeMemory hp hcode m.bus
  rw [Bus.wordAt_of_inCodeMemory hp hcode, Option.some.injEq] at hword
  rw [hword] at hread
  have htranslate : m.cpu.translateAligned m.cpu.pc 4 .fetch = (some p, m.cpu) := by
    have hmod : m.cpu.pc % UInt64.ofNat 4 = 0 := by
      apply UInt64.toNat_inj.mp
      rw [UInt64.toNat_mod]
      exact halign
    simp only [Cpu.translateAligned, Cpu.translate, hmod, hresolve, ↓reduceIte]
  have hcpu : onCpu (·.translateAligned m.cpu.pc 4 .fetch) m = .ok (some p) m := by
    simp only [onCpu, htranslate]
  have hbus : onBus (Bus.readWord p) m = .ok word m := by
    simp only [onBus, hread]
  apply step_of_fetch
  rw [fetch, bind_of_ok hcpu]
  exact bind_of_ok hbus

end Machine

namespace Block

open Machine

/-- An instruction of a block is a step, if its word is there. -/
private theorem runInstruction_lockstep {b : Block} {d : DecodedWord} {m : Machine} {p : UInt32}
    (halign : m.cpu.pc.toNat % 4 = 0) (hresolve : m.cpu.resolve m.cpu.pc .fetch = .ok p)
    (hp : p.toNat % 4 = 0) (hcode : inCodeMemory p = true)
    (hword : m.bus.wordAt p = some d.word) :
    (∀ answer m', b.runInstruction d m.cpu.pc m = .ok answer m' → StepsTo 1 m m') ∧
    (∀ e m', b.runInstruction d m.cpu.pc m = .error e m' → FailsWith e m m') := by
  have hstep := step_of_word halign hresolve hp hcode hword
  constructor
  · rintro ⟨intact, more⟩ m' h
    obtain ⟨onPath, m₁, hcarry, -, -, rfl⟩ := runInstruction_ok h
    rw [bind_of_ok hcarry] at hstep
    exact ⟨m₁, bind_of_ok hstep, rfl, rfl⟩
  · intro e m' h
    rw [bind_of_error (runInstruction_error h)] at hstep
    exact ⟨0, m, m', rfl, hstep, .refl m'⟩

/-! ## One run of a block -/

/-- The machine is about to run the last words `code` of the block, which lie at `p`. -/
structure At (b : Block) (m : Machine) (p : UInt32) (code : List DecodedWord) : Prop where
  watching : m.bus.writes.watching = true
  pcAligned : m.cpu.pc.toNat % 4 = 0
  resolve : m.cpu.resolve m.cpu.pc .fetch = .ok p
  aligned : p.toNat % 4 = 0
  inCode : inCodeMemory p = true
  straight : Straight p code
  holds : HoldsCode m.bus p code
  start_le : b.start.toNat ≤ p.toNat
  le_stop : p.toNat + 4 * code.length ≤ b.start.toNat + 4 * b.code.length

/-- After an instruction that neither leaves the straight path nor writes over the block,
the machine is at the next one. -/
private theorem At.next {b : Block} (hplaced : b.Placed) {m m' : Machine} {p : UInt32}
    {d d' : DecodedWord} {rest : List DecodedWord} {more : List ByteRange}
    (h : b.At m p (d :: d' :: rest)) (hrun : b.runInstruction d m.cpu.pc m = .ok (true, more) m')
    (hpc : m'.cpu.pc = m.cpu.pc + 4) : b.At m' (p + 4) (d' :: rest) := by
  obtain ⟨hop, hpage, hstraight⟩ := h.straight
  obtain ⟨hadd, hinside⟩ := toNat_add_four_of_not_startsPage h.aligned hpage
  obtain ⟨halign, hcode⟩ := inCodeMemory_add_four h.aligned h.inCode hpage
  obtain ⟨onPath, m₁, hcarry, hintact, rfl, rfl⟩ := runInstruction_ok hrun
  obtain ⟨rfl, hapart⟩ : onPath = true ∧ m₁.bus.takeWrites.1.any b.overlaps = false := by
    have := hintact.symm
    simpa only [Bool.and_eq_true, Bool.not_eq_true'] using this
  have htracked := (carryOut_respects d.word m.cpu.pc).change_ok hcarry
  -- The page of the program counter ends with that of the block
  have hoffset := Cpu.resolve_offset h.resolve
  have hpcPage : InsidePage m.cpu.pc := by
    simp only [InsidePage]
    omega
  have hpcNext := toNat_add_four hpcPage
  have hmapping := Cpu.resolve_congr (mapping_carryOut hop hcarry)
  have hle := h.le_stop
  simp only [List.length_cons] at hle
  -- A write to a word ahead would have ended the run
  have hclear : ∀ x, (p + 4).toNat ≤ x → x < (p + 4).toNat + 4 * (d' :: rest).length →
      ¬m₁.bus.writes.Covers x := by
    rintro x hx hx' ⟨w, hw, hcontains⟩
    simp only [List.length_cons] at hx'
    have hstart := h.start_le
    have hoverlap := hplaced.overlaps_of_contains hcontains (by omega) (by omega)
    rw [List.any_eq_false] at hapart
    exact hapart w hw hoverlap
  have hholds : HoldsCode m₁.bus (p + 4) (d' :: rest) :=
    h.holds.2.of_tracked htracked h.watching hstraight halign hcode hclear
  have hstart := h.start_le
  exact
    { watching := htracked.watching.trans h.watching
      pcAligned := by
        rw [hpc]
        have := h.pcAligned
        omega
      resolve := by
        rw [hpc, hmapping]
        exact Cpu.resolve_add_four h.resolve hpcPage
      aligned := halign
      inCode := hcode
      straight := hstraight
      holds := by
        rw [holdsCode_iff] at hholds ⊢
        intro i hi
        rw [← hholds i hi, ← Bus.wordAt_devices, ← Bus.wordAt_devices m₁.bus]
        rfl
      start_le := by omega
      le_stop := by
        simp only [List.length_cons]
        omega }

/-- The words of a block are carried out in step with the interpreter, to the end of the
run or to a fault. -/
private theorem runFrom_lockstep {b : Block} (hplaced : b.Placed) {code : List DecodedWord} :
    ∀ {m : Machine} {p : UInt32} (_ : b.At m p code) (_ : code ≠ []) (retired : Nat)
      (writes : List ByteRange),
      (∀ run m', b.runFrom m.cpu.pc retired writes code m = .ok run m' →
        ∃ k, run.exit.retired = retired + k ∧ StepsTo k m m') ∧
      (∀ e m', b.runFrom m.cpu.pc retired writes code m = .error e m' → FailsWith e m m') := by
  -- Induction on the words left, carried by `At`
  induction code with
  | nil => exact fun _ hne => absurd rfl hne
  | cons d rest ih =>
    intro m p h _ retired writes
    obtain ⟨hok, herror⟩ :=
      runInstruction_lockstep h.pcAligned h.resolve h.aligned h.inCode h.holds.1
    rw [runFrom_cons]
    cases hd : b.runInstruction d m.cpu.pc m with
    | error e m₁ =>
      refine ⟨fun run m' hrun => (nomatch hrun), fun e' m' hrun => ?_⟩
      cases hrun
      exact herror e m₁ hd
    | ok answer m₁ =>
      obtain ⟨intact, more⟩ := answer
      have hstep := hok _ _ hd
      dsimp only
      by_cases hend : endsAfter m.cpu.pc intact rest m₁ = true
      · rw [if_pos hend]
        refine ⟨fun run m' hrun => ?_, fun e m' hrun => nomatch hrun⟩
        cases hrun
        exact ⟨1, b.retired_exitAfter intact rest _, hstep⟩
      · rw [if_neg hend]
        rw [Bool.not_eq_true, endsAfter_eq_false] at hend
        obtain ⟨rfl, hrest, hpc⟩ := hend
        match rest, hrest with
        | d' :: rest, _ =>
          obtain ⟨hok', herror'⟩ := ih (h.next hplaced hd hpc) (List.cons_ne_nil d' rest)
            (retired + 1) (writes ++ more)
          rw [hpc] at hok' herror'
          refine ⟨fun run m' hrun => ?_, fun e m' hrun => hstep.fails (herror' e m' hrun)⟩
          obtain ⟨k, hk, hsteps⟩ := hok' run m' hrun
          exact ⟨1 + k, by omega, hstep.trans hsteps⟩

/-- A run of a fresh block, entered at its start, is as many steps of the interpreter as it
retires; and it fails where the interpreter does. -/
theorem run_lockstep {b : Block} {m : Machine} (hplaced : b.Placed) (hfresh : b.Fresh m.bus)
    (hwatch : m.bus.writes.watching = true) (halign : m.cpu.pc.toNat % 4 = 0)
    (hresolve : m.cpu.resolve m.cpu.pc .fetch = .ok b.start) :
    (∀ run m', b.run m = .ok run m' → StepsTo run.exit.retired m m') ∧
    (∀ e m', b.run m = .error e m' → FailsWith e m m') := by
  -- At its start the whole block is still to be run
  have hat : b.At m b.start b.code :=
    { watching := hwatch
      pcAligned := halign
      resolve := hresolve
      aligned := hplaced.aligned
      inCode := hplaced.inCode
      straight := hplaced.straight
      holds := hfresh
      start_le := Nat.le_refl _
      le_stop := Nat.le_refl _ }
  obtain ⟨hok, herror⟩ := runFrom_lockstep hplaced hat hplaced.nonempty 0 []
  refine ⟨fun run m' hrun => ?_, herror⟩
  obtain ⟨k, hk, hsteps⟩ := hok run m' hrun
  rw [hk, Nat.zero_add]
  exact hsteps

end Block

namespace Recompiler

open Machine

/-! ## One chain -/

/-- A block that is run where the interpreter would fetch from code memory was compiled
from there, and still agrees with it. -/
private theorem Entered.inCode {b : Block} {s : RunState} (h : Entered [] b s)
    (hfetch : s.2.FetchesCode) : b.Placed ∧ b.Fresh s.2.bus := by
  obtain ⟨-, halign, hresolve, -⟩ := entryPoint_eq_some h.entry
  obtain ⟨-, -, owner, howner⟩ := h.coherent.keyed h.lookup
  -- A cached block starts where something is mapped
  rcases hfetch b.start halign hresolve with hcode | ⟨e, herror⟩
  · exact ⟨h.coherent.placed h.lookup hcode, h.fresh hcode⟩
  · rw [howner] at herror
    exact nomatch herror

/-- One block of a chain is as many steps as its exit tells. -/
private theorem runBlock_lockstep {b : Block} {s : RunState} (h : Entered [] b s)
    (hfetch : s.2.FetchesCode) :
    (∀ exit s', runBlock b s = .ok exit s' → StepsTo exit.retired s.2 s'.2) ∧
    (∀ e s', runBlock b s = .error e s' → FailsWith e s.2 s'.2) := by
  obtain ⟨-, halign, hresolve, -⟩ := entryPoint_eq_some h.entry
  obtain ⟨hplaced, hfresh⟩ := h.inCode hfetch
  obtain ⟨hok, herror⟩ :=
    Block.run_lockstep hplaced hfresh h.coherent.watching halign hresolve
  constructor
  · intro exit s' hrun
    obtain ⟨-, -, -, run, hrun', rfl⟩ := runBlock_ok h hrun
    exact hok run s'.2 hrun'
  · intro e s' hrun
    exact herror e s'.2 (runBlock_error hrun).2

/-- A chain that succeeds is as many steps as it adds to the total. -/
private theorem runChain_lockstep_ok {budget total links n : Nat} {b : Block} {s s' : RunState}
    (h : Entered [] b s) (hrun : runChain budget b total links s = .ok n s')
    (hstays : StaysInCode (n - total) s.2) : StepsTo (n - total) s.2 s'.2 := by
  -- Induction on the links left; the rest of the chain takes the rest of the steps
  induction links generalizing b total s with
  | zero =>
    have hlt := (runChain_ok h hrun).1
    have hblock := (runBlock_lockstep h (hstays.first (by omega))).1
    rw [runChain] at hrun
    obtain ⟨exit, s₁, hb, hret⟩ := bind_eq_ok hrun
    cases hret
    rw [Nat.add_sub_cancel_left]
    exact hblock exit _ hb
  | succ links ih =>
    have hlt := (runChain_ok h hrun).1
    have hblock := (runBlock_lockstep h (hstays.first (by omega))).1
    rw [runChain_succ] at hrun
    cases hb : runBlock b s with
    | error e s₁ =>
      simp only [hb] at hrun
      cases hrun
    | ok exit s₁ =>
      have hsteps := hblock exit s₁ hb
      obtain ⟨hc, hclean, -⟩ := runBlock_ok h hb
      cases hnext : following budget (total + exit.retired) exit s₁ with
      | none =>
        simp only [hb, hnext, EStateM.Result.ok.injEq] at hrun
        obtain ⟨rfl, rfl⟩ := hrun
        rw [Nat.add_sub_cancel_left]
        exact hsteps
      | some next =>
        simp only [hb, hnext] at hrun
        have hentered := entered_following hc hclean hnext
        have hlt' := (runChain_ok hentered hrun).1
        have hsplit : n - total = exit.retired + (n - (total + exit.retired)) := by omega
        rw [hsplit] at hstays ⊢
        have hrest := ih hentered hrun (hstays.after hsteps)
        exact hsteps.trans hrest

/-- A chain fails where the interpreter fails. -/
private theorem runChain_lockstep_error {budget total links : Nat} {b : Block} {s s' : RunState}
    {e : BusError} (h : Entered [] b s) (hrun : runChain budget b total links s = .error e s')
    (hstays : ∀ n, StaysInCode n s.2) : FailsWith e s.2 s'.2 := by
  have hblock := runBlock_lockstep h ((hstays 1).first Nat.one_pos)
  -- Induction on the links left; only the last block of the chain has failed
  induction links generalizing b total s with
  | zero =>
    rw [runChain] at hrun
    rcases bind_eq_error hrun with hb | ⟨exit, s₁, -, hret⟩
    · exact hblock.2 e s' hb
    · cases hret
  | succ links ih =>
    rw [runChain_succ] at hrun
    cases hb : runBlock b s with
    | error e' s₁ =>
      simp only [hb, EStateM.Result.error.injEq] at hrun
      obtain ⟨rfl, rfl⟩ := hrun
      exact hblock.2 e' s₁ hb
    | ok exit s₁ =>
      have hsteps := hblock.1 exit s₁ hb
      obtain ⟨hc, hclean, -⟩ := runBlock_ok h hb
      cases hnext : following budget (total + exit.retired) exit s₁ with
      | none =>
        simp only [hb, hnext] at hrun
        cases hrun
      | some next =>
        simp only [hb, hnext] at hrun
        have hentered := entered_following hc hclean hnext
        have hstays' : ∀ n, StaysInCode n (chained s₁).2 := fun n => (hstays _).after hsteps
        have hblock' := runBlock_lockstep hentered ((hstays' 1).first Nat.one_pos)
        have hrest := ih hentered hrun hstays' hblock'
        exact hsteps.fails hrest

/-! ## One call -/

/-- Preparing changes nothing but the log where the interpreter would fetch from code
memory: compiling only looks there. -/
private theorem Prepared.same {r : Recompiler} {m : Machine} {result : Except Fallback UInt32}
    {s : RunState} (h : Prepared r m result s) (hfetch : m.FetchesCode) : SameUpToLog m s.2 := by
  have hcompile : ∀ {start : UInt32} {result : Except CompileError Block} {m₁ : Machine},
      entryPoint m.cpu = some start →
      Block.compile readCode ⟨start, m.cpu.pc, (applied r m).cache.maxInstructions⟩ (drained m) =
        .ok result m₁ → m₁ = drained m := by
    intro start result m₁ hentry hrun
    obtain ⟨-, halign, hresolve, hstart⟩ := entryPoint_eq_some hentry
    -- Compiling starts at the word that the interpreter would fetch
    have hquiet : quiet start = true := by
      rcases hfetch start halign hresolve with hcode | ⟨e, hunmapped⟩
      · exact quiet_of_inCodeMemory hcode
      · exact quiet_of_unmapped hunmapped
    obtain ⟨_, hrun', -⟩ := Block.compile_run m.cpu.pc (applied r m).cache.maxInstructions
      (drained m) hstart hquiet
    rw [hrun] at hrun'
    cases hrun'
    rfl
  cases h with
  | interpret => exact ⟨rfl, rfl⟩
  | cached => exact ⟨rfl, rfl⟩
  | failed hentry hrun =>
    rw [hcompile hentry hrun]
    exact ⟨rfl, rfl⟩
  | compiled hentry _ hrun =>
    rw [hcompile hentry hrun]
    exact ⟨rfl, rfl⟩

/-- A call that succeeds is as many steps as it retires. -/
private theorem lockstep_ok {s s' : RunState} {budget n : Nat}
    (hc : s.1.cache.Coherent [] s.2.bus) (h : executeWithin budget s = .ok n s')
    (hstays : StaysInCode n s.2) : StepsTo n s.2 s'.2 := by
  have hpos := (executeWithin_ok hc h).2.1
  obtain ⟨r, m⟩ := s
  obtain ⟨result, s₁, hprepare, hprepared⟩ := prepare_run r m
  obtain ⟨-, -, hfound⟩ := hprepared.coherent hc
  -- Preparing counts as no step
  have hsame : StepsTo 0 m s₁.2 := .refl (hprepared.same (hstays.first hpos))
  rw [← Nat.zero_add n] at hstays ⊢
  have hstays₁ := hstays.after hsame
  rw [executeWithin_eq, bind_of_ok hprepare] at h
  cases result with
  | error reason =>
    simp only [interpretOne_run] at h
    cases hstep : Machine.step s₁.2 with
    | error e m' =>
      simp only [hstep] at h
      exact nomatch h
    | ok u m' =>
      simp only [hstep, EStateM.Result.ok.injEq] at h
      obtain ⟨rfl, rfl⟩ := h
      exact hsame.trans ⟨m', bind_of_ok hstep, .refl m'⟩
  | ok start =>
    obtain ⟨b, rfl, hentered⟩ := hfound start rfl
    simp only [runCached_run hentered] at h
    exact hsame.trans (runChain_lockstep_ok hentered h hstays₁)

/-- A call fails where the interpreter fails. -/
private theorem lockstep_error {s s' : RunState} {budget : Nat} {e : BusError}
    (hc : s.1.cache.Coherent [] s.2.bus) (h : executeWithin budget s = .error e s')
    (hstays : ∀ n, StaysInCode n s.2) : FailsWith e s.2 s'.2 := by
  obtain ⟨r, m⟩ := s
  obtain ⟨result, s₁, hprepare, hprepared⟩ := prepare_run r m
  obtain ⟨-, -, hfound⟩ := hprepared.coherent hc
  -- Preparing compiles, which the interpreter does not; the machine is the same
  have hsame : StepsTo 0 m s₁.2 := .refl (hprepared.same ((hstays 1).first Nat.one_pos))
  rw [executeWithin_eq, bind_of_ok hprepare] at h
  cases result with
  | error reason =>
    simp only [interpretOne_run] at h
    cases hstep : Machine.step s₁.2 with
    | ok u m' =>
      simp only [hstep] at h
      exact nomatch h
    | error e' m' =>
      simp only [hstep, EStateM.Result.error.injEq] at h
      obtain ⟨rfl, rfl⟩ := h
      exact hsame.fails ⟨0, s₁.2, m', rfl, hstep, .refl m'⟩
  | ok start =>
    obtain ⟨b, rfl, hentered⟩ := hfound start rfl
    simp only [runCached_run hentered] at h
    exact hsame.fails (runChain_lockstep_error hentered h fun n => (hstays _).after hsame)

/-! ## Sequences of calls -/

/-- Calls that succeed are together as many steps as they retire. -/
private theorem Calls.stepsTo {total : Nat} {s s' : RunState} (h : Calls total s s')
    (hc : s.1.cache.Coherent [] s.2.bus) (hstays : StaysInCode total s.2) :
    StepsTo total s.2 s'.2 := by
  induction h with
  | none s => exact .refl (.refl s.2)
  | call h hcall ih =>
    have hbefore := ih hc fun k hk => hstays k (by omega)
    exact hbefore.trans (lockstep_ok (h.coherent hc) hcall (hstays.after hbefore))

/-- A recompiler that starts fresh, on a machine whose writes are recorded, does what the
interpreter does.  Calls that succeeded, with any budgets, leave the machine as so many steps
from the start would, and the next call either adds as many steps as it retires, at least
one, or fails where the interpreter would: as long as instructions are fetched from code
memory. -/
theorem executeWithin_lockstep (settings : RecompilerSettings) {m : Machine}
    (hwatch : m.bus.writes.watching = true) {total : Nat} {s : RunState}
    (h : Calls total (ofSettings settings, m) s) (budget : Nat) :
    (StaysInCode total m → StepsTo total m s.2) ∧
    match executeWithin budget s with
    | .ok n s' => 1 ≤ n ∧ (StaysInCode n s.2 → StepsTo n s.2 s'.2)
    | .error e s' => (∀ n, StaysInCode n s.2) → FailsWith e s.2 s'.2 := by
  have hstart : (ofSettings settings).cache.Coherent [] m.bus := coherent_ofSettings settings hwatch
  have hc := h.coherent hstart
  refine ⟨h.stepsTo hstart, ?_⟩
  cases hcall : executeWithin budget s with
  | ok n s' => exact ⟨(executeWithin_ok hc hcall).2.1, lockstep_ok hc hcall⟩
  | error e s' => exact lockstep_error hc hcall

/-- A machine at a block that counts to one and jumps to the start of memory. -/
def jumping : Machine :=
  .loaded 0xFFFFFFFF80000100 [] [(.rdram, 0x100, 0x24090001), (.rdram, 0x104, 0x08000000)]

/-- The first call runs this block, the jump and its delay slot included: three steps. -/
theorem lockstep_of_jumping :
    ∃ s, Calls 3 (ofSettings .eager, jumping) s ∧ StaysInCode 3 jumping ∧
      StepsTo 3 jumping s.2 := by
  have hwatch : jumping.bus.writes.watching = true := by decide +kernel
  have hstays : StaysInCode 3 jumping := by decide +kernel
  -- The block is evaluated once: where it starts, how it ends, and that its code is quiet
  have hcheck : (jumping.firstBlock 16).any (fun b =>
      quiet b.start && b.finishes jumping fun run _ => run.exit == .jumped 3) = true := by
    decide +kernel
  simp only [Option.any_eq_true, Bool.and_eq_true, Block.finishes_iff, beq_iff_eq] at hcheck
  obtain ⟨b, hb, hquiet, run, m', hrun, hexit⟩ := hcheck
  have hcall := executeWithin_eager hwatch rfl hb hquiet hrun 0
  rw [hexit] at hcall
  have hcalls : Calls 3 (ofSettings .eager, jumping) _ := .call (.none _) hcall
  exact ⟨_, hcalls, hstays, (executeWithin_lockstep .eager hwatch hcalls 0).1 hstays⟩

end Recompiler

end Console64
