import Console64.Proofs.DeviceSteps
import Console64.Proofs.WriteJournal

/-!
# The steps of a request, one by one

Seen from the devices, the work of the bus is a sequence of device steps, in which what the devices
hold may decide how to go on.  `Script` is this view.  A script is run like the work that it is a
script of, and it also tells the steps that are made on the way, in order.  So what is proved of
every step of a script, and of what comes before it, holds in the middle of a transfer that another
transfer has started, and up to any fault.

## Key results

- `Bus.Script.stateOf_run`: a script leaves the bus that its steps make of it
- `Bus.Script.run_bind`, `Bus.Script.steps_bind`: one script after the other
- `Bus.Script.plain_nestedCopy`: the scripts do the work that the bus does
- `Bus.perform_eq_foldl`: requests come to the steps of their scripts
- `Bus.Wired.perform`: so no request moves a register
-/

namespace Console64

namespace Bus

variable {α β : Type}

/-- Work on the bus, one device step after the other. -/
inductive Script (α : Type) where
  | ended (a : α)
  | failed (e : BusError)
  /-- What the devices hold decides how to go on. -/
  | look (next : Bus → Script α)
  | step (d : DeviceStep) (next : Script α)

namespace Script

/-- Do the work. -/
def run : Script α → BusM α
  | ended a, bus => .ok a bus
  | failed e, bus => .error e bus
  | look next, bus => (next bus).run bus
  | step d next, bus => next.run (d.apply bus)

/-- The steps that are made, whether or not they end in a fault. -/
def steps : Script α → Bus → List DeviceStep
  | ended _, _ => []
  | failed _, _ => []
  | look next, bus => (next bus).steps bus
  | step d next, bus => d :: next.steps (d.apply bus)

/-- The bus that is left is what the steps make of it. -/
theorem stateOf_run (x : Script α) (bus : Bus) :
    stateOf (x.run bus) = (x.steps bus).foldl DeviceStep.apply bus := by
  induction x generalizing bus with
  | ended a => rfl
  | failed e => rfl
  | look next ih => exact ih bus bus
  | step d next ih => exact ih (d.apply bus)

/-- A script leaves the registers in place. -/
theorem wired_run {x : Script α} {bus bus' : Bus} {a : α} (h : x.run bus = .ok a bus')
    (hwired : bus.Wired) : bus'.Wired := by
  have hsteps := x.stateOf_run bus
  rw [h] at hsteps
  change bus' = _ at hsteps
  rw [hsteps]
  exact hwired.steps _

/-! ## Composition -/

/-- One script after the other. -/
def bind : Script α → (α → Script β) → Script β
  | ended a, f => f a
  | failed e, _ => failed e
  | look next, f => look fun bus => (next bus).bind f
  | step d next, f => step d (next.bind f)

instance : Monad Script where
  pure := ended
  bind := bind

/-- To end after a script is to do nothing more. -/
private theorem bind_ended (x : Script α) : x.bind ended = x := by
  induction x with
  | ended a => rfl
  | failed e => rfl
  | look next ih => exact congrArg look (funext ih)
  | step d next ih => exact congrArg (step d) ih

/-- Scripts may be grouped as one likes. -/
private theorem bind_bind {γ : Type} (x : Script α) (f : α → Script β) (g : β → Script γ) :
    (x.bind f).bind g = x.bind fun a => (f a).bind g := by
  induction x with
  | ended a => rfl
  | failed e => rfl
  | look next ih => exact congrArg look (funext ih)
  | step d next ih => exact congrArg (step d) ih

instance : LawfulMonad Script :=
  LawfulMonad.mk' Script bind_ended (fun _ _ => rfl) bind_bind

/-- To end at once is to answer. -/
@[simp] theorem run_pure (a : α) : (pure a : Script α).run = pure a := rfl

/-- One script after the other is one piece of work after the other. -/
@[simp] theorem run_bind (x : Script α) (f : α → Script β) :
    (x >>= f).run = x.run >>= fun a => (f a).run := by
  funext bus
  induction x generalizing bus with
  | ended a => rfl
  | failed e => rfl
  | look next ih => exact ih bus bus
  | step d next ih => exact ih (d.apply bus)

/-- The steps of the first script, and then, if that succeeds, those of the second. -/
theorem steps_bind (x : Script α) (f : α → Script β) (bus : Bus) :
    (x >>= f).steps bus = x.steps bus ++ match x.run bus with
      | .ok a bus' => (f a).steps bus'
      | .error _ _ => [] := by
  induction x generalizing bus with
  | ended a => rfl
  | failed e => rfl
  | look next ih => exact ih bus bus
  | step d next ih => exact congrArg (d :: ·) (ih (d.apply bus))

/-- A choice of scripts is a choice of work. -/
@[simp] theorem run_ite (p : Prop) [Decidable p] (x y : Script α) :
    (if p then x else y).run = if p then x.run else y.run := by
  split <;> rfl

/-- A script for each of several things is work for each of them. -/
theorem run_forM (f : α → Script Unit) :
    ∀ l : List α, (l.forM f).run = l.forM fun a => (f a).run
  | [] => rfl
  | a :: l => by
    show (f a >>= fun _ => l.forM f).run = _
    rw [run_bind, run_forM f l]
    rfl

/-- A fault turned into an answer. -/
def attempt : Script α → Script (Except BusError α)
  | ended a => ended (.ok a)
  | failed e => ended (.error e)
  | look next => look fun bus => (next bus).attempt
  | step d next => step d next.attempt

/-- The work is attempted as the script is. -/
@[simp] theorem run_attempt (x : Script α) : x.attempt.run = Bus.attempt x.run := by
  funext bus
  induction x generalizing bus with
  | ended a => rfl
  | failed e => rfl
  | look next ih => exact ih bus bus
  | step d next ih => exact ih (d.apply bus)

/-- No step is made or left out because of that. -/
@[simp] theorem steps_attempt (x : Script α) (bus : Bus) : x.attempt.steps bus = x.steps bus := by
  induction x generalizing bus with
  | ended a => rfl
  | failed e => rfl
  | look next ih => exact ih bus bus
  | step d next ih => exact congrArg (d :: ·) (ih (d.apply bus))

/-- A fault under another name. -/
def adaptExcept (f : BusError → BusError) : Script α → Script α
  | ended a => ended a
  | failed e => failed (f e)
  | look next => look fun bus => (next bus).adaptExcept f
  | step d next => step d (next.adaptExcept f)

/-- A fault gets its other name in the work too. -/
@[simp] theorem run_adaptExcept (f : BusError → BusError) (x : Script α) :
    (x.adaptExcept f).run = EStateM.adaptExcept f x.run := by
  funext bus
  induction x generalizing bus with
  | ended a => rfl
  | failed e => rfl
  | look next ih => exact ih bus bus
  | step d next ih => exact ih (d.apply bus)

/-- The steps do not depend on the name of a fault. -/
@[simp] theorem steps_adaptExcept (f : BusError → BusError) (x : Script α) (bus : Bus) :
    (x.adaptExcept f).steps bus = x.steps bus := by
  induction x generalizing bus with
  | ended a => rfl
  | failed e => rfl
  | look next ih => exact ih bus bus
  | step d next ih => exact congrArg (d :: ·) (ih (d.apply bus))

/-- A single step. -/
def make (d : DeviceStep) : Script Unit := step d (ended ())

/-- The devices at hand. -/
def view : Script Bus := look ended

/-- A look at the devices is no step. -/
theorem steps_view (f : Bus → Script α) (bus : Bus) :
    (view >>= f).steps bus = (f bus).steps bus := rfl

/-- A load from one device, with its answer. -/
def loadDevice (region : Region) (offset length : Nat) : Script (List UInt8) :=
  look fun bus => step (.load region offset length) (ended (bus.deviceLoad region offset length).1)

/-! ## Loads -/

/-- `Bus.loadRuns` as a script. -/
def loadRuns : List Run → Script (List UInt8)
  | [] => return []
  | r :: rest => do
    let bytes ← loadDevice r.region r.offset r.length
    let others ← loadRuns rest
    return bytes ++ others

/-- The script loads what the bus loads, run by run. -/
theorem run_loadRuns (rs : List Run) (bus : Bus) :
    (loadRuns rs).run bus = .ok (bus.loadRuns rs).1 (bus.loadRuns rs).2 := by
  induction rs generalizing bus with
  | nil => rfl
  | cons r rest ih =>
    -- The first run always succeeds, and so do the others after it
    have hfirst : (loadDevice r.region r.offset r.length).run bus =
      .ok (bus.deviceLoad r.region r.offset r.length).1
        (bus.deviceLoad r.region r.offset r.length).2 := rfl
    rw [loadRuns, run_bind, bind_of_ok hfirst, run_bind, bind_of_ok (ih _)]
    rfl

/-- `Bus.loadSpan` as a script. -/
def loadSpan (transfer : Transfer) (address : UInt32) (length : Nat) : Script (List UInt8) :=
  match route transfer address length with
  | .error e => failed e
  | .ok runs => loadRuns runs

/-- The route decides between a fault and the runs. -/
theorem run_loadSpan (transfer : Transfer) (address : UInt32) (length : Nat) :
    (loadSpan transfer address length).run = Bus.loadSpan transfer address length := by
  funext bus
  unfold loadSpan Bus.loadSpan
  cases route transfer address length with
  | error e => rfl
  | ok rs => exact run_loadRuns rs bus

/-! ## Side effects of stores -/

/-- A block copy as a script. -/
abbrev Copy := UInt32 → UInt32 → Nat → Script Unit

/-- The block copy that it is. -/
def Copy.plain (copy : Copy) : BlockCopy := fun source target length =>
  (copy source target length).run

/-- `Bus.rethrow` as a script. -/
def rethrow : Option BusError → Script Unit
  | some e => failed e
  | none => pure ()

/-- A fault that was kept is passed on. -/
theorem run_rethrow (e : Option BusError) : (rethrow e).run = Bus.rethrow e := by
  cases e <;> rfl

section
variable (copy : Copy)

/-- `Bus.peripheralTransfer` as a script. -/
def peripheralTransfer (toDram : Bool) (register : UInt32) : Script Unit := do
  make .peripheralBegin
  let dram := (← view).pi.dramAddress
  let cartridge := (← view).pi.cartridgeAddress
  let length := PeripheralInterface.transferLength register
  match ← attempt (if toDram then copy cartridge dram length else copy dram cartridge length) with
  | .ok _ => make (.peripheralFinish dram cartridge length)
  | .error e =>
    make .peripheralAbort
    failed e

/-- The script of a PI transfer does its work. -/
theorem run_peripheralTransfer (toDram : Bool) (register : UInt32) :
    (peripheralTransfer copy toDram register).run =
      Bus.peripheralTransfer copy.plain toDram register := by
  rw [peripheralTransfer, run_bind]
  -- The transfer begins, and the two addresses are read
  refine bind_congr fun _ => ?_
  rw [run_bind]
  refine bind_congr fun first => ?_
  rw [run_bind]
  refine bind_congr fun second => ?_
  dsimp only
  rw [run_bind, run_attempt, run_ite]
  -- What the copy has come to decides about its end
  refine bind_congr fun result => ?_
  cases result <;> rfl

/-- `Bus.peripheralStored` as a script. -/
def peripheralStored (slot : Nat) : Script Unit := do
  let value := (← view).pi.registers.stored slot
  match slot with
  | PeripheralInterface.readLengthSlot => peripheralTransfer copy false value
  | PeripheralInterface.writeLengthSlot => peripheralTransfer copy true value
  | PeripheralInterface.statusSlot =>
    make (.peripheralReset value)
    if PeripheralInterface.acknowledges value then make .peripheralAcknowledge
  | _ => pure ()

/-- So does that of a register's side effects. -/
theorem run_peripheralStored (slot : Nat) :
    (peripheralStored copy slot).run = Bus.peripheralStored copy.plain slot := by
  rw [peripheralStored, run_bind]
  refine bind_congr fun bus => ?_
  dsimp only
  split
  · exact run_peripheralTransfer copy false _
  · exact run_peripheralTransfer copy true _
  · rw [run_bind]
    exact bind_congr fun _ => run_ite _ _ _
  · simp only [run_pure]

/-- `Bus.serialTransfer` as a script. -/
def serialTransfer (direction : SerialTransfer) : Script Unit := do
  let dram := (← view).si.dramAddress
  match direction with
  | .pifToDram => copy Pif.ramAddress dram SerialInterface.transferLength
  | .dramToPif => copy dram Pif.ramAddress SerialInterface.transferLength
  make (.serialFinish dram direction)

/-- So does that of an SI transfer. -/
theorem run_serialTransfer (direction : SerialTransfer) :
    (serialTransfer copy direction).run = Bus.serialTransfer copy.plain direction := by
  rw [serialTransfer, run_bind]
  refine bind_congr fun bus => ?_
  dsimp only
  cases direction <;>
  · rw [run_bind]
    rfl

/-- `Bus.serialStored` as a script. -/
def serialStored (slot : Nat) : Script Unit :=
  match slot with
  | SerialInterface.toDramSlot => serialTransfer copy .pifToDram
  | SerialInterface.toPifSlot => serialTransfer copy .dramToPif
  | SerialInterface.statusSlot => make .serialAcknowledge
  | _ => pure ()

/-- And that of the side effects there. -/
theorem run_serialStored (slot : Nat) :
    (serialStored copy slot).run = Bus.serialStored copy.plain slot := by
  unfold serialStored Bus.serialStored
  split
  · exact run_serialTransfer copy .pifToDram
  · exact run_serialTransfer copy .dramToPif
  · rfl
  · simp only [run_pure]

/-- `Bus.copyPieces` as a script. -/
def copyPieces (direction : SignalTransfer) :
    List SignalProcessor.Piece → SignalProcessor.Position →
    Script (SignalProcessor.Position × Option BusError)
  | [], p => return (p, none)
  | piece :: rest, p => do
    let memory := SignalProcessor.memoryBase + piece.memory
    let length := piece.length.toNat
    match ← attempt (match direction with
      | .dramToMemory => copy piece.dram memory length
      | .memoryToDram => copy memory piece.dram length) with
    | .ok _ => copyPieces direction rest piece.next
    | .error e => return (p, some e)

/-- The script copies the same pieces, up to the first that fails. -/
theorem run_copyPieces (direction : SignalTransfer) (pieces : List SignalProcessor.Piece)
    (p : SignalProcessor.Position) :
    (copyPieces copy direction pieces p).run = Bus.copyPieces copy.plain direction pieces p := by
  induction pieces generalizing p with
  | nil => rfl
  | cons piece rest ih =>
    unfold copyPieces Bus.copyPieces
    cases direction <;>
    · rw [run_bind, run_attempt]
      refine bind_congr fun result => ?_
      cases result with
      | ok _ => exact ih piece.next
      | error e => rfl

/-- `Bus.signalTransfer` as a script. -/
def signalTransfer (direction : SignalTransfer) (register : UInt32) : Script Unit := do
  make .signalBegin
  let sp := (← view).sp
  let bank := sp.transferBank
  let (position, fault) ← copyPieces copy direction (sp.pieces register) sp.transferStart
  make (.signalFinish direction bank register position)
  rethrow fault

/-- The script of an SP transfer does its work. -/
theorem run_signalTransfer (direction : SignalTransfer) (register : UInt32) :
    (signalTransfer copy direction register).run =
      Bus.signalTransfer copy.plain direction register := by
  rw [signalTransfer, run_bind]
  refine bind_congr fun _ => ?_
  rw [run_bind]
  refine bind_congr fun bus => ?_
  dsimp only
  rw [run_bind, run_copyPieces]
  refine bind_congr fun (position, fault) => ?_
  dsimp only
  rw [run_bind, run_rethrow]
  rfl

/-- `Bus.signalStored` as a script. -/
def signalStored (slot : Nat) : Script Unit := do
  let value := (← view).sp.registers.stored slot
  match slot with
  | SignalProcessor.readLengthSlot => signalTransfer copy .dramToMemory value
  | SignalProcessor.writeLengthSlot => signalTransfer copy .memoryToDram value
  | SignalProcessor.statusSlot => make (.signalStatus value)
  | SignalProcessor.semaphoreSlot => make .releaseSemaphore
  | _ => pure ()

/-- So does that of the side effects there. -/
theorem run_signalStored (slot : Nat) :
    (signalStored copy slot).run = Bus.signalStored copy.plain slot := by
  rw [signalStored, run_bind]
  refine bind_congr fun bus => ?_
  dsimp only
  split
  · exact run_signalTransfer copy .dramToMemory _
  · exact run_signalTransfer copy .memoryToDram _
  · rfl
  · rfl
  · simp only [run_pure]

/-- `Bus.postStore` as a script. -/
def postStore (region : Region) (offset length : Nat) : Script Unit := do
  match region with
  | .sp =>
    unless offset < SignalProcessor.memoryWindow do
      ((← view).sp.registers.touched offset length).forM (signalStored copy)
  | .mi => make (.settleInterrupts offset length)
  | .vi =>
    if VideoInterface.currentSlot ∈ (← view).vi.registers.touched offset length then
      make .videoAcknowledge
  | .ai =>
    if AudioInterface.statusSlot ∈ (← view).ai.registers.touched offset length then
      make .audioAcknowledge
  | .pi => ((← view).pi.registers.touched offset length).forM (peripheralStored copy)
  | .si => ((← view).si.registers.touched offset length).forM (serialStored copy)
  | .pif => make (.settleCommands offset length)
  | _ => pure ()

/-- What is done for each of the registers that a store touches. -/
private theorem run_touched {f : Bus → List Nat} {g : Nat → Script Unit} {h : Nat → BusM Unit}
    (hg : ∀ slot, (g slot).run = h slot) :
    (view >>= fun bus => (f bus).forM g).run = get >>= fun bus => (f bus).forM h := by
  rw [run_bind]
  refine bind_congr fun bus => ?_
  rw [run_forM]
  exact congrArg _ (funext hg)

/-- The side effects of a store, in whatever region. -/
theorem run_postStore (region : Region) (offset length : Nat) :
    (postStore copy region offset length).run = Bus.postStore copy.plain region offset length := by
  cases region with
  | sp => exact (run_ite _ _ _).trans (congrArg (ite _ _) (run_touched (run_signalStored copy)))
  | vi => exact (run_bind _ _).trans (bind_congr fun bus => run_ite _ _ _)
  | ai => exact (run_bind _ _).trans (bind_congr fun bus => run_ite _ _ _)
  | pi => exact run_touched (run_peripheralStored copy)
  | si => exact run_touched (run_serialStored copy)
  | _ => rfl

/-! ## Stores and copies -/

/-- `Bus.storeRun` as a script. -/
def storeRun (region : Region) (offset : Nat) (data : List UInt8) : Script Unit := do
  make (.store region offset data)
  postStore copy region offset data.length

/-- A store to one device, and what it sets off. -/
theorem run_storeRun (region : Region) (offset : Nat) (data : List UInt8) :
    (storeRun copy region offset data).run = Bus.storeRun copy.plain region offset data := by
  rw [storeRun, run_bind]
  exact bind_congr fun _ => run_postStore copy region offset data.length

/-- `Bus.storeRuns` as a script. -/
def storeRuns : List Run → List UInt8 → Script Unit
  | [], _ => pure ()
  | r :: rest, data => do
    storeRun copy r.region r.offset (data.take r.length)
    storeRuns rest (data.drop r.length)

/-- One run after the other, up to a fault. -/
theorem run_storeRuns (rs : List Run) (data : List UInt8) :
    (storeRuns copy rs data).run = Bus.storeRuns copy.plain rs data := by
  induction rs generalizing data with
  | nil => rfl
  | cons r rest ih =>
    rw [storeRuns, run_bind, run_storeRun]
    exact bind_congr fun _ => ih _

/-- `Bus.storeSpan` as a script. -/
def storeSpan (transfer : Transfer) (address : UInt32) (data : List UInt8) : Script Unit :=
  match route transfer address data.length with
  | .error e => failed e
  | .ok runs => storeRuns copy runs data

/-- Again the route decides. -/
theorem run_storeSpan (transfer : Transfer) (address : UInt32) (data : List UInt8) :
    (storeSpan copy transfer address data).run =
      Bus.storeSpan copy.plain transfer address data := by
  unfold storeSpan Bus.storeSpan
  cases route transfer address data.length with
  | error e => rfl
  | ok rs => exact run_storeRuns copy rs data

/-- `Bus.copyUnits` as a script. -/
def copyUnits (source target : UInt32) (length : Nat) : (units done : Nat) → Script Unit
  | 0, _ => pure ()
  | units + 1, done => do
    let n := min copyUnit (length - done)
    let shift := UInt32.ofNat done
    adaptExcept (BusError.copyAborted done) do
      let bytes ← loadSpan .unaligned (source + shift) n
      storeSpan copy .unaligned (target + shift) bytes
    copyUnits source target length units (done + n)

/-- The script of a block copy moves the units that the copy moves. -/
theorem run_copyUnits (source target : UInt32) (length units done : Nat) :
    (copyUnits copy source target length units done).run =
      Bus.copyUnits copy.plain source target length units done := by
  induction units generalizing done with
  | zero => rfl
  | succ units ih =>
    rw [copyUnits, Bus.copyUnits, run_bind, run_adaptExcept, run_bind, run_loadSpan]
    simp only [run_storeSpan, ih]

/-- `Bus.copyThrough` as a script. -/
def copyThrough : Copy := fun source target length =>
  copyUnits copy source target length ((length + copyUnit - 1) / copyUnit) 0

end

/-- `Bus.nestedCopy` as a script. -/
def nestedCopy : (depth : Nat) → Copy
  | 0 => fun _ _ _ => failed .nestedTooDeep
  | depth + 1 => copyThrough (nestedCopy depth)

/-- However deeply transfers start transfers, the script does the work of the bus. -/
theorem plain_nestedCopy (depth : Nat) : (nestedCopy depth).plain = Bus.nestedCopy depth := by
  induction depth with
  | zero => rfl
  | succ depth ih =>
    funext source target length
    show (copyUnits _ _ _ _ _ _).run = Bus.copyUnits (Bus.nestedCopy depth) _ _ _ _ _
    rw [run_copyUnits, ih]

end Script

/-! ## Requests -/

/-- The steps that a request comes to, up to a fault. -/
def Request.steps : Request → Bus → List DeviceStep
  | load transfer address length => (Script.loadSpan transfer address length).steps
  | store transfer address data =>
    (Script.storeSpan (Script.nestedCopy nestingLimit) transfer address data).steps
  | copy source target length =>
    (Script.copyThrough (Script.nestedCopy nestingLimit) source target length).steps

/-- What a request leaves is what its steps make of the bus. -/
theorem Request.leave_eq_foldl (r : Request) (bus : Bus) :
    r.leave bus = (r.steps bus).foldl DeviceStep.apply bus := by
  cases r with
  | load transfer address length =>
    rw [leave, Bus.load, ← Script.run_loadSpan]
    exact Script.stateOf_run _ bus
  | store transfer address data =>
    rw [leave, Bus.store, ← Script.plain_nestedCopy, ← Script.run_storeSpan]
    exact Script.stateOf_run _ bus
  | copy source target length =>
    -- The script of a copy is that of its units, whichever copy is nested in it
    have hrun : Bus.copyThrough (Bus.nestedCopy nestingLimit) source target length =
        (Script.copyThrough (Script.nestedCopy nestingLimit) source target length).run := by
      rw [Script.copyThrough, Script.run_copyUnits, Script.plain_nestedCopy]
      rfl
    rw [leave, Bus.copy, stateOf_bind_pure, hrun]
    exact Script.stateOf_run _ bus

/-- The steps that requests come to, one request after the other. -/
def trace : List Request → Bus → List DeviceStep
  | [], _ => []
  | r :: rest, bus => r.steps bus ++ trace rest (r.leave bus)

/-- So it is with requests after requests. -/
theorem perform_eq_foldl (rs : List Request) (bus : Bus) :
    perform rs bus = (trace rs bus).foldl DeviceStep.apply bus := by
  induction rs generalizing bus with
  | nil => rfl
  | cons r rest ih =>
    rw [trace, List.foldl_append, ← Request.leave_eq_foldl]
    exact ih _

/-- After any requests the registers are where they were. -/
theorem Wired.perform {bus : Bus} (h : bus.Wired) (rs : List Request) : (perform rs bus).Wired := by
  rw [perform_eq_foldl]
  exact h.steps _

/-- Requests in two parts leave what the second part makes of the first one's bus. -/
theorem perform_append (rs rs' : List Request) (bus : Bus) :
    perform (rs ++ rs') bus = perform rs' (perform rs bus) := by
  induction rs generalizing bus with
  | nil => rfl
  | cons r rest ih => exact ih _

/-- So are the steps those of the first part, and then those of the second. -/
theorem trace_append (rs rs' : List Request) (bus : Bus) :
    trace (rs ++ rs') bus = trace rs bus ++ trace rs' (perform rs bus) := by
  induction rs generalizing bus with
  | nil => rfl
  | cons r rest ih =>
    rw [List.cons_append, trace, trace, ih, List.append_assoc]
    rfl

end Bus

end Console64
