import Console64.Proofs.BusUse

/-!
# Where a bus fault leaves an instruction

A fault of the bus ends an instruction in the middle.  It can do so only at the access
that faults, and up to there the instruction has changed nothing of the CPU: what it does
to registers, to the flow of control or to what is noted comes behind its access.  Only
the register mode of the floating-point unit may have been set before.

## Key results

- `Machine.execute_fault`: a bus fault leaves the CPU as the instruction found it
-/

namespace Console64

namespace Machine

/-- Work that never ends in a bus fault. -/
def Total {α : Type} (x : MachineM α) : Prop := ∀ m e m', x m ≠ .error e m'

/-- Work that a bus fault finds with the CPU as it was, but for the floating-point unit. -/
structure FaultsEarly {α : Type} (x : MachineM α) : Prop where
  keeps : ∀ {m e m'}, x m = .error e m' → ∃ fpu, m'.cpu = { m.cpu with fpu }

section
variable {α β : Type}

/-! ## Work that cannot fault -/

/-- An answer is no fault. -/
private theorem total_pure (a : α) : Total (pure a) := fun _ _ _ h => nomatch h

/-- Changes of the CPU do not use the bus. -/
private theorem total_modifyCpu (f : Cpu → Cpu) : Total (modifyCpu f) := fun _ _ _ h => nomatch h

/-- Neither side of the choice may fault. -/
private theorem Total.ite {b : Prop} [Decidable b] {x y : MachineM α} (hx : Total x)
    (hy : Total y) : Total (if b then x else y) := by
  split
  · exact hx
  · exact hy

/-- Where there is no fault, none finds the CPU changed. -/
private theorem Total.faultsEarly {x : MachineM α} (hx : Total x) : FaultsEarly x :=
  ⟨fun h => absurd h (hx _ _ _)⟩

/-! ## Composition -/

/-- What comes behind an access cannot fault. -/
private theorem FaultsEarly.bind {x : MachineM α} {f : α → MachineM β} (hx : FaultsEarly x)
    (hf : ∀ a, Total (f a)) : FaultsEarly (x >>= f) := by
  refine ⟨fun h => ?_⟩
  -- The access faults, or it succeeds and what follows faults
  rcases bind_eq_error h with hfault | ⟨a, m₁, -, hfault⟩
  · exact hx.keeps hfault
  · exact absurd hfault (hf a _ _ _)

/-- What comes before it only looks at the CPU. -/
private theorem FaultsEarly.withCpu {f : Cpu → α} {x : α → MachineM β}
    (hx : ∀ a, FaultsEarly (x a)) : FaultsEarly (withCpu f >>= x) :=
  ⟨fun {m _ _} h => (hx (f m.cpu)).keeps h⟩

/-- Both sides of a choice have to be like that. -/
private theorem FaultsEarly.ite {b : Prop} [Decidable b] {x y : MachineM α}
    (hx : FaultsEarly x) (hy : FaultsEarly y) : FaultsEarly (if b then x else y) := by
  split
  · exact hx
  · exact hy

/-- The bus by itself does not touch the CPU. -/
private theorem FaultsEarly.onBus (x : BusM α) : FaultsEarly (onBus x) :=
  ⟨fun {m _ _} h => ⟨m.cpu.fpu, onBus_cpu_error h⟩⟩

/-- A translation that succeeds leaves the CPU alone. -/
private theorem FaultsEarly.translated {t : Cpu → Option UInt32 × Cpu}
    (ht : ∀ {c p c'}, t c = (some p, c') → c' = c) {x : UInt32 → MachineM α} {y : MachineM α}
    (hx : ∀ p, FaultsEarly (x p)) (hy : Total y) :
    FaultsEarly (onCpu t >>= fun | some p => x p | none => y) := by
  refine ⟨fun {m _ _} h => ?_⟩
  rcases bind_eq_error h with hfault | ⟨physical, m₁, htranslate, hfault⟩
  · exact nomatch hfault
  -- Without a translation there is no access; with one the CPU is still as it was
  · cases physical with
    | none => exact absurd hfault (hy _ _ _)
    | some p =>
      obtain ⟨fpu, hcpu⟩ := (hx p).keeps hfault
      have hkept : m₁.cpu = m.cpu := by
        have hanswer : t m.cpu = (some p, m₁.cpu) := by
          simp only [onCpu, EStateM.Result.ok.injEq] at htranslate
          obtain ⟨hp, rfl⟩ := htranslate
          exact Prod.ext hp rfl
        exact ht hanswer
      exact ⟨fpu, by rw [hcpu, hkept]⟩

end

/-! ## Accesses -/

variable {a : UInt64} {size : Nat}

/-- Only a translation that fails notes something. -/
private theorem translate_keeps {access : Access} {c c' : Cpu} {p : UInt32}
    (h : c.translate a access = (some p, c')) : c' = c := by
  rcases c.translate_cases a access with ⟨p', -, heq⟩ | ⟨k, -, heq⟩
  · rw [heq] at h
    cases h
    rfl
  · rw [heq] at h
    exact nomatch h

/-- So it is where the address has to be aligned. -/
private theorem translateAligned_keeps {access : Access} {c c' : Cpu} {p : UInt32}
    (h : c.translateAligned a size access = (some p, c')) : c' = c := by
  rcases c.translateAligned_cases a size access with ⟨p', -, -, heq⟩ | ⟨k, -, heq⟩
  · rw [heq] at h
    cases h
    rfl
  · rw [heq] at h
    exact nomatch h

/-- A load uses the bus once it has an address, and does nothing more after that. -/
private theorem faultsEarly_load : FaultsEarly (load a size) :=
  .translated translateAligned_keeps (fun _ => (FaultsEarly.onBus _).bind fun _ => total_pure _)
    (total_pure _)

/-- So does a store. -/
private theorem faultsEarly_store (v : UInt64) : FaultsEarly (store a size v) :=
  .translated translateAligned_keeps (fun _ => (FaultsEarly.onBus _).bind fun _ => total_pure _)
    (total_pure _)

/-- So does a store of some bytes of a word. -/
private theorem faultsEarly_storeBytes (bytes : List UInt8) : FaultsEarly (storeBytes a bytes) :=
  .translated translate_keeps (fun _ => (FaultsEarly.onBus _).bind fun _ => total_pure _)
    (total_pure _)

/-- What has been loaded is put to use after the access. -/
private theorem faultsEarly_loading (use : UInt64 → Cpu → Cpu) :
    FaultsEarly (loading a size use) := by
  refine faultsEarly_load.bind fun v => ?_
  cases v with
  | some v => exact total_modifyCpu _
  | none => exact total_pure _

/-! ## Instructions -/

/-- Whether an answer is wanted makes no difference. -/
private theorem faultsEarly_discard {α : Type} {x : MachineM α} (hx : FaultsEarly x) :
    FaultsEarly (discard x) := by
  rw [discard_eq]
  exact hx.bind fun _ => total_pure _

/-- An operation that is refused does not access anything. -/
private theorem faultsEarly_ifWide {x : MachineM Unit} (hx : FaultsEarly x) :
    FaultsEarly (ifWide x) :=
  .withCpu fun _ => hx.ite (total_modifyCpu _).faultsEarly

/-- The unit follows the status before the access. -/
private theorem faultsEarly_ifFpuUsable {x : MachineM Unit} (hx : FaultsEarly x) :
    FaultsEarly (ifFpuUsable x) := by
  have hfollow : FaultsEarly (do modifyCpu (·.followStatus); x) :=
    ⟨fun {m e m'} h => by
      obtain ⟨fpu, hcpu⟩ := hx.keeps (m := { m with cpu := m.cpu.followStatus }) h
      exact ⟨fpu, hcpu⟩⟩
  exact .withCpu fun _ => hfollow.ite (total_modifyCpu _).faultsEarly

section
variable (i : Instruction)

/-- The outcome is written after the store, or without one. -/
private theorem faultsEarly_storeConditional : FaultsEarly (storeConditional i size) := by
  have hdone : ∀ a v, FaultsEarly (do if ← store a size v then modifyCpu (·.setGpr i.rt 1)) :=
    fun a v => (faultsEarly_store v).bind fun _ => (total_modifyCpu _).ite (total_pure _)
  exact .withCpu fun a => .withCpu fun v => .withCpu fun _ =>
    (hdone a v).ite (total_modifyCpu _).faultsEarly

/-- A load reads the address before its access, and writes the register after it. -/
private theorem faultsEarly_loadRegister (extend : UInt64 → UInt64) :
    FaultsEarly (loadRegister i size extend) := .withCpu fun _ => faultsEarly_loading _

/-- The link is noted after the access. -/
private theorem faultsEarly_loadLinked (extend : UInt64 → UInt64) :
    FaultsEarly (loadLinked i size extend) := .withCpu fun _ => faultsEarly_loading _

/-- A store reads the address and the value before its access. -/
private theorem faultsEarly_storeRegister : FaultsEarly (storeRegister i size) :=
  .withCpu fun _ => .withCpu fun v => faultsEarly_discard (faultsEarly_store v)

/-- Words are merged after the access. -/
private theorem faultsEarly_loadPart32 (merge : UInt32 → UInt32 → UInt32 → UInt32) :
    FaultsEarly (loadPart32 i merge) := .withCpu fun _ => faultsEarly_loading _

/-- So are doublewords. -/
private theorem faultsEarly_loadPart64 (merge : UInt64 → UInt64 → UInt64 → UInt64) :
    FaultsEarly (loadPart64 i merge) := .withCpu fun _ => faultsEarly_loading _

/-- The bytes to store are cut out before the access. -/
private theorem faultsEarly_storeLeft : FaultsEarly (storeLeft i size) :=
  .withCpu fun _ => .withCpu fun _ => faultsEarly_discard (faultsEarly_storeBytes _)

/-- So are those of the other end. -/
private theorem faultsEarly_storeRight : FaultsEarly (storeRight i size) :=
  .withCpu fun _ => .withCpu fun _ => faultsEarly_discard (faultsEarly_storeBytes _)

/-- A register of the FPU is written after the access. -/
private theorem faultsEarly_loadFloat (f : FloatFormat) : FaultsEarly (loadFloat i f size) :=
  .withCpu fun _ => faultsEarly_loading _

/-- It is read before it. -/
private theorem faultsEarly_storeFloat (f : FloatFormat) : FaultsEarly (storeFloat i f size) :=
  .withCpu fun _ => .withCpu fun v => faultsEarly_discard (faultsEarly_store v)

/-- So it is with all instructions. -/
private theorem faultsEarly_execute (pc : UInt64) : FaultsEarly (execute i pc) := by
  simp only [execute]
  split
  -- Loads and stores under their guards, in the order in which they are decoded
  case h_1 | h_2 => exact faultsEarly_ifWide (faultsEarly_loadPart64 i _)
  case h_3 | h_4 | h_6 | h_7 | h_8 => exact faultsEarly_loadRegister i _
  case h_5 | h_9 => exact faultsEarly_loadPart32 i _
  case h_10 | h_22 => exact faultsEarly_ifWide (faultsEarly_loadRegister i _)
  case h_11 | h_12 | h_14 => exact faultsEarly_storeRegister i
  case h_13 => exact faultsEarly_storeLeft i
  case h_15 => exact faultsEarly_ifWide (faultsEarly_storeLeft i)
  case h_16 => exact faultsEarly_ifWide (faultsEarly_storeRight i)
  case h_17 => exact faultsEarly_storeRight i
  case h_18 => exact faultsEarly_loadLinked i _
  case h_19 | h_21 => exact faultsEarly_ifFpuUsable (faultsEarly_loadFloat i _)
  case h_20 => exact faultsEarly_ifWide (faultsEarly_loadLinked i _)
  case h_23 => exact faultsEarly_storeConditional i
  case h_24 | h_26 => exact faultsEarly_ifFpuUsable (faultsEarly_storeFloat i _)
  case h_25 => exact faultsEarly_ifWide (faultsEarly_storeConditional i)
  case h_27 => exact faultsEarly_ifWide (faultsEarly_storeRegister i)
  -- What does not access memory cannot fault
  case h_28 => exact (total_modifyCpu _).faultsEarly

end

/-- A bus fault leaves the CPU as the instruction found it, but for the mode of the
floating-point unit. -/
theorem execute_fault {i : Instruction} {pc : UInt64} {m m' : Machine} {e : BusError}
    (h : execute i pc m = .error e m') : ∃ fpu, m'.cpu = { m.cpu with fpu } :=
  (faultsEarly_execute i pc).keeps h

end Machine

end Console64
