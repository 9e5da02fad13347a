import Console64.Proofs.MachineFrame

/-!
# Runs of a block

What one run of a block does to the write log.  Its instructions take the writes out of the
log, and the run hands them over when it ends; if it ends in a fault, nobody has them any
longer.  `Block.collected` tells in either case what was taken.

## Key results

- `Block.runFrom_cons`: a run goes on after an instruction, or ends there
- `Block.run_ok`: a run that succeeds hands over all that it took
- `Ledger.run`: what is known of the ranges taken from the log is known after a run, for
  all that it took
-/

namespace Console64

namespace Block

/-! ## One instruction -/

/-- An instruction of a block that succeeds was carried out like any other, and its
writes were taken. -/
theorem runInstruction_ok {b : Block} {d : DecodedWord} {pc : UInt64} {m m' : Machine}
    {intact : Bool} {more : List ByteRange} (h : b.runInstruction d pc m = .ok (intact, more) m') :
    ∃ onPath m₁, Machine.carryOut d.word pc m = .ok onPath m₁ ∧
      intact = (onPath && !more.any b.overlaps) ∧ more = m₁.bus.takeWrites.1 ∧
      m' = { m₁ with bus := m₁.bus.takeWrites.2 } := by
  rw [runInstruction_run] at h
  cases hcarry : Machine.carryOut d.word pc m with
  | ok onPath m₁ =>
    simp only [hcarry, EStateM.Result.ok.injEq, Prod.mk.injEq] at h
    obtain ⟨⟨rfl, rfl⟩, rfl⟩ := h
    exact ⟨onPath, m₁, rfl, rfl, rfl, rfl⟩
  | error e m₁ =>
    simp only [hcarry] at h
    exact nomatch h

/-- An instruction of a block fails where the interpreter would. -/
theorem runInstruction_error {b : Block} {d : DecodedWord} {pc : UInt64} {m m' : Machine}
    {e : BusError} (h : b.runInstruction d pc m = .error e m') :
    Machine.carryOut d.word pc m = .error e m' := by
  rw [runInstruction_run] at h
  cases hcarry : Machine.carryOut d.word pc m with
  | ok onPath m₁ =>
    simp only [hcarry] at h
    exact nomatch h
  | error e m₁ =>
    simp only [hcarry, EStateM.Result.error.injEq] at h
    obtain ⟨rfl, rfl⟩ := h
    rfl

/-! ## One run -/

/-- The run ends after the instruction at `pc`, in the machine that it leaves. -/
def endsAfter (pc : UInt64) (intact : Bool) (rest : List DecodedWord) (m : Machine) : Bool :=
  !intact || rest.isEmpty || m.cpu.pc ≠ pc + 4

/-- A run goes on while it is on its path, in one piece and not at its end. -/
theorem endsAfter_eq_false {pc : UInt64} {intact : Bool} {rest : List DecodedWord} {m : Machine} :
    endsAfter pc intact rest m = false ↔ intact = true ∧ rest ≠ [] ∧ m.cpu.pc = pc + 4 := by
  simp only [endsAfter, Bool.or_eq_false_iff, Bool.not_eq_false', decide_eq_false_iff_not, ne_eq,
    Decidable.not_not, List.isEmpty_eq_false_iff, and_assoc]

/-- How the run ends there. -/
def exitAfter (b : Block) (intact : Bool) (rest : List DecodedWord) (retired : Nat) : BlockExit :=
  if intact && rest.isEmpty then b.finalExit retired else .redirected retired

/-- The exit counts the instructions. -/
theorem retired_exitAfter (b : Block) (intact : Bool) (rest : List DecodedWord) (retired : Nat) :
    (b.exitAfter intact rest retired).retired = retired := by
  simp only [exitAfter, finalExit]
  split
  · split <;> rfl
  · rfl

/-- A run goes on after an instruction, or ends there. -/
theorem runFrom_cons (b : Block) (pc : UInt64) (retired : Nat) (writes : List ByteRange)
    (d : DecodedWord) (rest : List DecodedWord) (m : Machine) :
    b.runFrom pc retired writes (d :: rest) m =
      match b.runInstruction d pc m with
      | .error e m' => .error e m'
      | .ok (intact, more) m' =>
        if endsAfter pc intact rest m' then
          .ok ⟨b.exitAfter intact rest (retired + 1), writes ++ more⟩ m'
        else b.runFrom (pc + 4) (retired + 1) (writes ++ more) rest m' := by
  rw [runFrom]
  cases h : b.runInstruction d pc m with
  | error e m' => exact bind_of_error h
  | ok answer m' =>
    obtain ⟨intact, more⟩ := answer
    rw [bind_of_ok h]
    cases intact with
    | false => rfl
    | true =>
      cases rest with
      | nil => rfl
      | cons d' rest =>
        -- On its path and with words left, the run looks where execution goes on
        simp only [endsAfter, exitAfter, Bool.not_true, List.isEmpty_cons, Bool.or_self,
          Bool.false_or, Bool.and_false, Bool.false_eq_true, ↓reduceIte, decide_eq_true_eq]
        have hpc : Machine.withCpu (·.pc) m' = .ok m'.cpu.pc m' := rfl
        rw [bind_of_ok hpc]
        split <;> rfl

/-- The ranges that a run takes out of the log, up to its end or to a fault. -/
def collectedFrom (b : Block) (pc : UInt64) (writes : List ByteRange) :
    List DecodedWord → Machine → List ByteRange
  | [], _ => writes
  | d :: rest, m =>
    match b.runInstruction d pc m with
    | .error _ _ => writes
    | .ok (intact, more) m' =>
      if endsAfter pc intact rest m' then writes ++ more
      else b.collectedFrom (pc + 4) (writes ++ more) rest m'

/-- What a run of the whole block takes out of the log. -/
def collected (b : Block) (m : Machine) : List ByteRange := b.collectedFrom m.cpu.pc [] b.code m

/-- What a run hands over when it succeeds is all that it took. -/
private theorem runFrom_ok {b : Block} {pc : UInt64} {retired : Nat} {writes : List ByteRange}
    {code : List DecodedWord} {m m' : Machine} {run : BlockRun}
    (h : b.runFrom pc retired writes code m = .ok run m') :
    run.writes = b.collectedFrom pc writes code m ∧
      (code ≠ [] → m'.bus.writes.ranges = #[] ∧ retired < run.exit.retired) := by
  -- Induction on the words left, with what has been taken before them
  induction code generalizing pc retired writes m with
  | nil =>
    cases h
    exact ⟨rfl, absurd rfl⟩
  | cons d rest ih =>
    rw [runFrom_cons] at h
    rw [collectedFrom]
    cases hd : b.runInstruction d pc m with
    | error e m₁ =>
      simp only [hd] at h
      exact nomatch h
    | ok answer m₁ =>
      obtain ⟨intact, more⟩ := answer
      simp only [hd] at h ⊢
      by_cases hend : endsAfter pc intact rest m₁ = true
      · rw [if_pos hend] at h ⊢
        simp only [EStateM.Result.ok.injEq] at h
        obtain ⟨rfl, rfl⟩ := h
        obtain ⟨onPath, m₂, -, -, -, rfl⟩ := runInstruction_ok hd
        refine ⟨rfl, fun _ => ⟨rfl, ?_⟩⟩
        rw [retired_exitAfter]
        exact Nat.lt_succ_self retired
      · rw [if_neg hend] at h ⊢
        rw [Bool.not_eq_true, endsAfter_eq_false] at hend
        obtain ⟨hwrites, hrest⟩ := ih h
        obtain ⟨hclean, hlt⟩ := hrest hend.2.1
        exact ⟨hwrites, fun _ => ⟨hclean, by omega⟩⟩

/-- A run that succeeds hands over all that it took; the log is empty then, and at least one
instruction has been retired. -/
theorem run_ok {b : Block} {m m' : Machine} {run : BlockRun} (h : b.run m = .ok run m') :
    run.writes = b.collected m ∧
      (b.code ≠ [] → m'.bus.writes.ranges = #[] ∧ 0 < run.exit.retired) :=
  runFrom_ok h

end Block

/-! ## Ledgers -/

/-- What is `known` of the bus and of the ranges taken from its log so far, whatever tracked
changes are made and whenever the log is taken. -/
structure Ledger (known : List ByteRange → Bus → Prop) : Prop where
  tracked : ∀ {taken s t}, known taken s → Bus.Tracked s t → known taken t
  take : ∀ {taken} {s : Bus}, known taken s → known (taken ++ s.takeWrites.1) s.takeWrites.2

namespace Ledger

variable {known : List ByteRange → Bus → Prop} (hl : Ledger known)
include hl

/-- A run of a block is accounted for, whether it succeeds or fails. -/
private theorem runFrom {b : Block} {pc : UInt64} {retired : Nat} {taken writes : List ByteRange}
    {code : List DecodedWord} {m : Machine} (h : known (taken ++ writes) m.bus) :
    known (taken ++ b.collectedFrom pc writes code m)
      (stateOf (b.runFrom pc retired writes code m)).bus := by
  -- Induction on the words left: each changes memory first, and then gives up the log
  induction code generalizing pc retired writes m with
  | nil => exact h
  | cons d rest ih =>
    rw [Block.runFrom_cons, Block.collectedFrom]
    cases hd : b.runInstruction d pc m with
    | error e m₁ =>
      have hcarry := Block.runInstruction_error hd
      exact hl.tracked h ((Machine.carryOut_respects d.word pc).change_error hcarry)
    | ok answer m₁ =>
      obtain ⟨intact, more⟩ := answer
      obtain ⟨onPath, m₂, hcarry, -, rfl, rfl⟩ := Block.runInstruction_ok hd
      have htracked := (Machine.carryOut_respects d.word pc).change_ok hcarry
      have htaken := hl.take (hl.tracked h htracked)
      rw [List.append_assoc] at htaken
      dsimp only
      split
      · exact htaken
      · exact ih htaken

/-- So it is with the whole block. -/
theorem run (b : Block) {taken : List ByteRange} {m : Machine} (h : known taken m.bus) :
    known (taken ++ b.collected m) (stateOf (b.run m)).bus :=
  hl.runFrom ((List.append_nil taken).symm ▸ h)

end Ledger

end Console64
