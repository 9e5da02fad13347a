import Console64.Proofs.AddressMapping
import Console64.Proofs.DecodeAgreement
import Console64.Proofs.WriteTracking

/-!
# What an instruction may change

Lifts the frame of the bus to the machine.  Every instruction makes tracked changes to
memory and acts alike whatever is in the write log; and unless it belongs to the system
control coprocessor, it keeps the address mapping.

## Key results

- `Machine.step_respects`: a step of the interpreter respects the frame of the machine
- `Machine.execute_steady`: instructions other than those of one opcode keep the mapping
-/

namespace Console64

namespace Machine

/-- Two machines differ in nothing but the write log. -/
def SameUpToLog (m m' : Machine) : Prop := m.cpu = m'.cpu ∧ m.bus.devices = m'.bus.devices

/-- A machine is like itself. -/
theorem SameUpToLog.refl (m : Machine) : SameUpToLog m m := ⟨rfl, rfl⟩

/-- It does not matter which of the two machines comes first. -/
theorem SameUpToLog.symm {m m' : Machine} (h : SameUpToLog m m') : SameUpToLog m' m :=
  ⟨h.1.symm, h.2.symm⟩

/-- Two steps of likeness make one. -/
theorem SameUpToLog.trans {m m' m'' : Machine} (h : SameUpToLog m m') (h' : SameUpToLog m' m'') :
    SameUpToLog m m'' :=
  ⟨h.1.trans h'.1, h.2.trans h'.2⟩

/-- The frame of all work on the machine: it makes tracked changes, and does not look
at the log. -/
def frame : Frame Machine where
  change m m' := Bus.Tracked m.bus m'.bus
  change_refl _ := .of_eq rfl rfl rfl
  change_trans := Bus.Tracked.trans
  same := SameUpToLog

/-- The frame of work that keeps the address mapping. -/
def steadyFrame : Frame Machine where
  change m m' := Bus.Tracked m.bus m'.bus ∧ m'.cpu.mapping = m.cpu.mapping
  change_refl _ := ⟨.of_eq rfl rfl rfl, rfl⟩
  change_trans h h' := ⟨h.1.trans h'.1, h'.2.trans h.2⟩
  same := SameUpToLog

/-- Work that keeps the mapping respects the frame of the machine. -/
theorem respects_of_steady {α : Type} {x : MachineM α} (h : steadyFrame.Respects x) :
    frame.Respects x :=
  h.weaken (fun _ _ hchange => hchange.1) rfl

/-! ## Parts of instructions -/

/-- Work on the bus does not touch the mapping, and is as good as it is on the bus. -/
theorem onBus_steady {α : Type} {x : BusM α} (hx : Bus.frame.Respects x) :
    steadyFrame.Respects (onBus x) := by
  constructor
  · intro m
    -- With or without a fault the bus has changed, and the CPU has not
    have hchange : Bus.Tracked m.bus (stateOf (x m.bus)) := hx.1 m.bus
    simp only [onBus]
    cases h : x m.bus <;> rw [h] at hchange <;> exact ⟨hchange, rfl⟩
  · rintro ⟨cpu, bus⟩ ⟨cpu', bus'⟩ ⟨hcpu, hbus⟩
    have hagree := hx.2 bus bus' hbus
    simp only [onBus]
    -- One run cannot fail where the other one succeeds
    cases h : x bus <;> cases h' : x bus' <;> rw [h, h'] at hagree
    · exact ⟨hagree.1, hcpu, hagree.2⟩
    · exact hagree.elim
    · exact hagree.elim
    · exact ⟨hagree.1, hcpu, hagree.2⟩

/-- A change of the CPU leaves the bus alone. -/
theorem modifyCpu_respects (f : Cpu → Cpu) : frame.Respects (modifyCpu f) :=
  ⟨fun _ => .of_eq rfl rfl rfl, fun _ _ h => ⟨rfl, congrArg f h.1, h.2⟩⟩

/-- It keeps the mapping if the change does. -/
theorem modifyCpu_steady {f : Cpu → Cpu} (hf : ∀ c, (f c).mapping = c.mapping) :
    steadyFrame.Respects (modifyCpu f) :=
  ⟨fun m => ⟨.of_eq rfl rfl rfl, hf m.cpu⟩, fun _ _ h => ⟨rfl, congrArg f h.1, h.2⟩⟩

/-- So it is with a change of the CPU that gives an answer. -/
theorem onCpu_respects {α : Type} (f : Cpu → α × Cpu) : frame.Respects (onCpu f) := by
  -- The answer depends on the CPU, which is the same in both machines
  refine ⟨fun _ => .of_eq rfl rfl rfl, ?_⟩
  rintro ⟨cpu, bus⟩ ⟨_, bus'⟩ ⟨rfl, hbus⟩
  exact ⟨rfl, rfl, hbus⟩

/-- And it keeps the mapping if the change does. -/
theorem onCpu_steady {α : Type} {f : Cpu → α × Cpu} (hf : ∀ c, (f c).2.mapping = c.mapping) :
    steadyFrame.Respects (onCpu f) :=
  ⟨fun m => ⟨.of_eq rfl rfl rfl, hf m.cpu⟩, (onCpu_respects f).2⟩

/-- A look at the CPU changes nothing. -/
theorem withCpu_steady {α : Type} (f : Cpu → α) : steadyFrame.Respects (withCpu f) :=
  ⟨fun m => steadyFrame.change_refl m, fun _ _ h => ⟨congrArg f h.1, h⟩⟩

/-- Every access translates an address first, and goes on only if that succeeds. -/
private theorem translated_steady {α : Type} {find : Cpu → Option UInt32 × Cpu}
    {x : Option UInt32 → MachineM α} (hfind : ∀ c, (find c).2.mapping = c.mapping)
    (hnone : steadyFrame.Respects (x none)) (hsome : ∀ p, steadyFrame.Respects (x (some p))) :
    steadyFrame.Respects (onCpu find >>= x) := by
  refine Frame.respects_bind (onCpu_steady hfind) fun where? => ?_
  cases where? with
  | none => exact hnone
  | some physical => exact hsome physical

/-- A fetch keeps the mapping, whether the address is refused or the word is loaded. -/
theorem fetch_steady (pc : UInt64) : steadyFrame.Respects (fetch pc) := by
  refine translated_steady (fun c => c.mapping_translateAligned ..) (Frame.respects_pure _) ?_
  intro physical
  exact Frame.respects_bind (onBus_steady (Bus.readWord_respects physical)) fun _ =>
    Frame.respects_pure _

/-- So does a load. -/
private theorem load_steady (a : UInt64) (size : Nat) : steadyFrame.Respects (load a size) := by
  refine translated_steady (fun c => c.mapping_translateAligned ..) (Frame.respects_pure _) ?_
  intro physical
  exact Frame.respects_bind (onBus_steady (Bus.readValue_respects physical size)) fun _ =>
    Frame.respects_pure _

/-- So does a store. -/
private theorem store_steady (a : UInt64) (size : Nat) (v : UInt64) :
    steadyFrame.Respects (store a size v) := by
  refine translated_steady (fun c => c.mapping_translateAligned ..) (Frame.respects_pure _) ?_
  intro physical
  exact Frame.respects_bind (onBus_steady (Bus.writeValue_respects physical size v)) fun _ =>
    Frame.respects_pure _

/-- So does a store of some bytes of a word, whose address need not be aligned. -/
private theorem storeBytes_steady (a : UInt64) (bytes : List UInt8) :
    steadyFrame.Respects (storeBytes a bytes) := by
  refine translated_steady (fun c => c.mapping_translate ..) (Frame.respects_pure _) ?_
  intro physical
  exact Frame.respects_bind (onBus_steady (Bus.write_respects physical bytes)) fun _ =>
    Frame.respects_pure _

/-- Where the operation is not allowed, an exception is raised in its place. -/
private theorem ifWide_steady {x : MachineM Unit} (hx : steadyFrame.Respects x) :
    steadyFrame.Respects (ifWide x) := by
  unfold ifWide
  refine Frame.respects_bind (withCpu_steady _) fun wide => ?_
  split
  · exact hx
  · exact modifyCpu_steady fun c => c.mapping_raise _

/-- So it is with the instructions of the FPU. -/
private theorem ifFpuUsable_steady {x : MachineM Unit} (hx : steadyFrame.Respects x) :
    steadyFrame.Respects (ifFpuUsable x) := by
  unfold ifFpuUsable
  refine Frame.respects_bind (withCpu_steady _) fun usable => ?_
  split
  · exact Frame.respects_bind (modifyCpu_steady fun c => c.mapping_followStatus) fun _ => hx
  · exact modifyCpu_steady fun c => c.mapping_recordCondition _

/-- A loaded value is used in the CPU only. -/
private theorem loading_steady (a : UInt64) (size : Nat) {use : UInt64 → Cpu → Cpu}
    (huse : ∀ v c, (use v c).mapping = c.mapping) : steadyFrame.Respects (loading a size use) := by
  unfold loading
  refine Frame.respects_bind (load_steady a size) fun v => ?_
  cases v with
  | none => exact Frame.respects_pure _
  | some v => exact modifyCpu_steady (huse v)

/-- An answer may be thrown away. -/
private theorem discard_steady {α : Type} {x : MachineM α} (hx : steadyFrame.Respects x) :
    steadyFrame.Respects (discard x) :=
  Frame.respects_bind hx fun _ => Frame.respects_pure _

/-! ## Instructions -/

/-- Loads to a general register keep the mapping. -/
private theorem loadRegister_steady (i : Instruction) (size : Nat) (extend : UInt64 → UInt64) :
    steadyFrame.Respects (loadRegister i size extend) :=
  Frame.respects_bind (withCpu_steady _) fun a => loading_steady a size fun _ _ => rfl

/-- So does a linked load, which also notes its address. -/
private theorem loadLinked_steady (i : Instruction) (size : Nat) (extend : UInt64 → UInt64) :
    steadyFrame.Respects (loadLinked i size extend) :=
  Frame.respects_bind (withCpu_steady _) fun a =>
    loading_steady a size fun _ _ => Cpu.mapping_link _ a

/-- Stores of a register keep it. -/
private theorem storeRegister_steady (i : Instruction) (size : Nat) :
    steadyFrame.Respects (storeRegister i size) :=
  Frame.respects_bind (withCpu_steady _) fun a =>
    Frame.respects_bind (withCpu_steady _) fun v => discard_steady (store_steady a size v)

/-- A conditional store is made if the link is still there; its outcome goes to a register. -/
private theorem storeConditional_steady (i : Instruction) (size : Nat) :
    steadyFrame.Respects (storeConditional i size) := by
  unfold storeConditional
  refine Frame.respects_bind (withCpu_steady _) fun a => ?_
  refine Frame.respects_bind (withCpu_steady _) fun v => ?_
  refine Frame.respects_bind (withCpu_steady _) fun linked => ?_
  -- Without the link nothing is stored, and the outcome is zero
  split
  · refine Frame.respects_bind (store_steady a size v) fun done => ?_
    split
    · exact modifyCpu_steady fun _ => rfl
    · exact Frame.respects_pure _
  · exact modifyCpu_steady fun _ => rfl

/-- A load of part of a word is a load of the whole word that is merged. -/
private theorem loadPart32_steady (i : Instruction) (merge : UInt32 → UInt32 → UInt32 → UInt32) :
    steadyFrame.Respects (loadPart32 i merge) :=
  Frame.respects_bind (withCpu_steady _) fun a => loading_steady (a &&& ~~~3) 4 fun _ _ => rfl

/-- So it is with part of a doubleword. -/
private theorem loadPart64_steady (i : Instruction) (merge : UInt64 → UInt64 → UInt64 → UInt64) :
    steadyFrame.Respects (loadPart64 i merge) :=
  Frame.respects_bind (withCpu_steady _) fun a => loading_steady (a &&& ~~~7) 8 fun _ _ => rfl

/-- The bytes up to the end of a word are stored at the address itself. -/
private theorem storeLeft_steady (i : Instruction) (size : Nat) :
    steadyFrame.Respects (storeLeft i size) :=
  Frame.respects_bind (withCpu_steady _) fun a =>
    Frame.respects_bind (withCpu_steady _) fun _ => discard_steady (storeBytes_steady a _)

/-- The bytes from the start of a word are stored from that start on. -/
private theorem storeRight_steady (i : Instruction) (size : Nat) :
    steadyFrame.Respects (storeRight i size) :=
  Frame.respects_bind (withCpu_steady _) fun _ =>
    Frame.respects_bind (withCpu_steady _) fun _ => discard_steady (storeBytes_steady _ _)

/-- Loads to the registers of the FPU keep the mapping. -/
private theorem loadFloat_steady (i : Instruction) (f : FloatFormat) (size : Nat) :
    steadyFrame.Respects (loadFloat i f size) :=
  Frame.respects_bind (withCpu_steady _) fun a => loading_steady a size fun _ _ => rfl

/-- So do stores of these registers. -/
private theorem storeFloat_steady (i : Instruction) (f : FloatFormat) (size : Nat) :
    steadyFrame.Respects (storeFloat i f size) :=
  Frame.respects_bind (withCpu_steady _) fun a =>
    Frame.respects_bind (withCpu_steady _) fun v => discard_steady (store_steady a size v)

/-- Outside the system control coprocessor no instruction changes the mapping. -/
theorem execute_steady {i : Instruction} (pc : UInt64) (h : i.opcode ≠ 0x10) :
    steadyFrame.Respects (execute i pc) := by
  simp only [execute]
  split
  -- The loads and stores with their guards, and last what stays inside the CPU
  case h_1 | h_2 => exact ifWide_steady (loadPart64_steady i _)
  case h_3 | h_4 | h_6 | h_7 | h_8 => exact loadRegister_steady i _ _
  case h_5 | h_9 => exact loadPart32_steady i _
  case h_10 | h_22 => exact ifWide_steady (loadRegister_steady i _ _)
  case h_11 | h_12 | h_14 => exact storeRegister_steady i _
  case h_13 => exact storeLeft_steady i _
  case h_15 => exact ifWide_steady (storeLeft_steady i _)
  case h_16 => exact ifWide_steady (storeRight_steady i _)
  case h_17 => exact storeRight_steady i _
  case h_18 => exact loadLinked_steady i _ _
  case h_19 | h_21 => exact ifFpuUsable_steady (loadFloat_steady i _ _)
  case h_20 => exact ifWide_steady (loadLinked_steady i _ _)
  case h_23 => exact storeConditional_steady i _
  case h_24 | h_26 => exact ifFpuUsable_steady (storeFloat_steady i _ _)
  case h_25 => exact ifWide_steady (storeConditional_steady i _)
  case h_27 => exact ifWide_steady (storeRegister_steady i _)
  case h_28 => exact modifyCpu_steady fun c => c.mapping_perform pc h

/-- Every instruction respects the frame of the machine. -/
theorem execute_respects (i : Instruction) (pc : UInt64) : frame.Respects (execute i pc) := by
  -- Opcode 16 may change the mapping, but it does not use the bus
  by_cases h : i.opcode = 0x10
  · simp only [execute, h]
    exact modifyCpu_respects _
  · exact respects_of_steady (execute_steady pc h)

/-- The end of an instruction is the business of the CPU. -/
theorem retire_respects : frame.Respects retire := onCpu_respects _

/-- Executing a word respects the frame. -/
theorem interpret_respects (word : UInt32) (pc : UInt64) : frame.Respects (interpret word pc) :=
  Frame.respects_bind (modifyCpu_respects _) fun _ => execute_respects _ pc

/-- So does carrying it out, its end included. -/
theorem carryOut_respects (word : UInt32) (pc : UInt64) : frame.Respects (carryOut word pc) :=
  Frame.respects_bind (interpret_respects word pc) fun _ => retire_respects

/-- A step of the interpreter makes tracked changes, whatever is in the log. -/
theorem step_respects : frame.Respects step := by
  unfold step
  refine Frame.respects_bind (respects_of_steady (withCpu_steady _)) fun pc => ?_
  refine Frame.respects_bind (respects_of_steady (fetch_steady pc)) fun word => ?_
  refine Frame.respects_bind (modifyCpu_respects _) fun _ => ?_
  -- Whether or not there was a word to execute, the instruction is retired
  have hretire : frame.Respects (discard retire) :=
    Frame.respects_bind retire_respects fun _ => Frame.respects_pure _
  cases word with
  | none => exact hretire
  | some w => exact Frame.respects_bind (execute_respects ⟨w⟩ pc) fun _ => hretire

/-- An instruction after which execution goes on where it left off kept the mapping,
unless it belongs to the system control coprocessor. -/
theorem mapping_carryOut {word : UInt32} {pc : UInt64} {m m' : Machine}
    (hop : (Instruction.mk word).opcode ≠ 0x10) (h : carryOut word pc m = .ok true m') :
    m'.cpu.mapping = m.cpu.mapping := by
  obtain ⟨_, m₁, hrun, hretire⟩ := bind_eq_ok h
  -- The instruction keeps the mapping, and so does the way it ends
  have hsteady : steadyFrame.Respects (interpret word pc) :=
    Frame.respects_bind (modifyCpu_steady fun c => c.mapping_begin pc word) fun _ =>
      execute_steady pc hop
  have hkept : m₁.cpu.mapping = m.cpu.mapping := (hsteady.change_ok hrun).2
  -- Of the end only the case remains in which execution stays on its path
  simp only [retire, onCpu, EStateM.Result.ok.injEq] at hretire
  obtain ⟨honPath, rfl⟩ := hretire
  rw [← hkept]
  exact Cpu.mapping_retire (Prod.ext rfl honPath)

end Machine

end Console64
