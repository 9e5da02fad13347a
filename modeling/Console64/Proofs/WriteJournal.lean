import Console64.Proofs.FirstVisit
import Console64.Proofs.WriteTracking

/-!
# The log tells what was stored

Which bytes of main memory a store or a copy writes depends on all that it sets off:
transfers between devices, that store into further devices in turn, up to a fault.  So
the work of the bus is done here once more with a journal, in which each store that
reaches main memory is entered where it is made.  It is the same work, and the journal
accounts for all that becomes of main memory and of the log.

## Key results

- `Bus.Journaled`: work on the bus with its journal, and what the journal accounts for
- `Bus.Journaled.plain_nestedCopy`: it is the work that the bus does
- `Bus.Request.accounts_leave`: the stores of a request account for main memory and the log
- `Bus.takeWrites_exact`: the ranges taken from the log hold every byte written since it
  was last taken, are at most as many as the limit, and lie within the hull of the writes
-/

namespace Console64

/-- A store into main memory as the bus makes it. -/
structure MemoryStore where
  offset : Nat
  data : List UInt8

namespace MemoryStore

/-- The bytes that it writes, installed or not. -/
def range (w : MemoryStore) : ByteRange := ⟨w.offset, w.data.length⟩

end MemoryStore

/-- Make several stores, in order. -/
def Rdram.storeAll (m : Rdram) (ws : List MemoryStore) : Rdram :=
  ws.foldl (fun m w => m.store w.offset w.data) m

namespace Bus

/-! ## Work with a journal -/

/-- The stores tell what becomes of main memory and of the log. -/
structure Accounts (ws : List MemoryStore) (s t : Bus) : Prop where
  rdram : t.rdram = s.rdram.storeAll ws
  writes : t.writes = s.writes.noteAll (ws.map (·.range))

/-- Stores of two stretches of work tell what becomes of both. -/
theorem Accounts.trans {ws ws' : List MemoryStore} {s t u : Bus} (h : Accounts ws s t)
    (h' : Accounts ws' t u) : Accounts (ws ++ ws') s u where
  rdram := by
    rw [h'.rdram, h.rdram]
    simp only [Rdram.storeAll, List.foldl_append]
  writes := by
    rw [h'.writes, h.writes]
    simp only [WriteLog.noteAll, List.map_append, List.foldl_append]

/-- Work on the bus, with the stores into main memory that it makes from a given state.
They account for it, whether it succeeds or fails. -/
structure Journaled (α : Type) where
  run : BusM α
  stores : Bus → List MemoryStore
  accounts : ∀ s, Accounts (stores s) s (stateOf (run s))

/-- The work touches neither main memory nor the log. -/
def Quiet {α : Type} (x : BusM α) : Prop := ∀ s, Accounts [] s (stateOf (x s))

namespace Journaled

variable {α β : Type}

/-- Work that makes no store. -/
def quiet (x : BusM α) (h : Quiet x) : Journaled α := ⟨x, fun _ => [], h⟩

/-- The stores of a sequence: those of its first part, and then, if that succeeds, those of
the second. -/
def after (x : Journaled α) (f : α → Journaled β) (s : Bus) : List MemoryStore :=
  x.stores s ++ match x.run s with
    | .ok a t => (f a).stores t
    | .error _ _ => []

/-- One part after the other. -/
def seq (x : Journaled α) (f : α → Journaled β) : Journaled β where
  run := x.run >>= fun a => (f a).run
  stores := x.after f
  accounts s := by
    have hfirst := x.accounts s
    cases h : x.run s with
    | ok a t =>
      rw [h] at hfirst
      simp only [after, h]
      rw [bind_of_ok h]
      exact hfirst.trans ((f a).accounts t)
    | error e t =>
      rw [h] at hfirst
      simp only [after, h, List.append_nil]
      rw [bind_of_error h]
      exact hfirst

instance : Monad Journaled where
  pure a := quiet (pure a) fun _ => ⟨rfl, rfl⟩
  bind := seq

/-- A fault turned into an answer. -/
def attempt (x : Journaled α) : Journaled (Except BusError α) where
  run := Bus.attempt x.run
  stores := x.stores
  accounts s := by
    have h := x.accounts s
    simp only [Bus.attempt]
    cases hrun : x.run s <;> rw [hrun] at h <;> exact h

/-- A fault under another name. -/
def adaptExcept (f : BusError → BusError) (x : Journaled α) : Journaled α where
  run := EStateM.adaptExcept f x.run
  stores := x.stores
  accounts s := by
    have h := x.accounts s
    simp only [EStateM.adaptExcept]
    cases hrun : x.run s <;> rw [hrun] at h <;> exact h

/-- A change of the other devices. -/
def change (f : Bus → Bus) (h : ∀ s, Accounts [] s (f s)) : Journaled Unit :=
  quiet (modify f) h

/-- The devices at hand. -/
def view : Journaled Bus := quiet get fun _ => ⟨rfl, rfl⟩

/-- A store into one device; one into main memory is entered. -/
def storeDevice (region : Region) (offset : Nat) (data : List UInt8) : Journaled Unit where
  run := modify fun bus =>
    (bus.deviceStore region offset data).noteStore region offset data.length
  stores _ :=
    match region with
    | .rdram => [⟨offset, data⟩]
    | _ => []
  accounts s := by cases region <;> exact ⟨rfl, rfl⟩

/-- What loads leave alone, they leave alone. -/
def ofLoad (x : BusM α) (h : loadFrame.Respects x) : Journaled α :=
  quiet x fun s => ⟨(h.1 s).1, (h.1 s).2.2⟩

/-- A fault. -/
def fail (e : BusError) : Journaled α := quiet (throw e) fun _ => ⟨rfl, rfl⟩

/-- What is given back without work is work without stores. -/
@[simp] theorem run_pure (a : α) : (pure a : Journaled α).run = pure a := rfl

/-- The journal does not show in the work: not in one stretch after another, -/
@[simp] theorem run_bind (x : Journaled α) (f : α → Journaled β) :
    (x >>= f).run = x.run >>= fun a => (f a).run := rfl

/-- not in a choice, -/
@[simp] theorem run_ite (p : Prop) [Decidable p] (x y : Journaled α) :
    (if p then x else y).run = if p then x.run else y.run := by
  split <;> rfl

/-- and not in a walk through a list. -/
theorem run_forM (f : α → Journaled Unit) :
    ∀ l : List α, (l.forM f).run = l.forM fun a => (f a).run
  | [] => rfl
  | a :: l => by
    show (f a >>= fun _ => l.forM f).run = _
    rw [run_bind, run_forM f l]
    rfl

/-! ## Side effects of stores -/

/-- A block copy with its journal. -/
abbrev Copy := UInt32 → UInt32 → Nat → Journaled Unit

/-- The block copy that it is. -/
def Copy.plain (copy : Copy) : BlockCopy := fun source target length =>
  (copy source target length).run

section
variable (copy : Copy)

/-- `Bus.peripheralTransfer` with its journal. -/
def peripheralTransfer (toDram : Bool) (register : UInt32) : Journaled Unit := do
  change (fun bus => { bus with pi := bus.pi.begin }) fun _ => ⟨rfl, rfl⟩
  let dram := (← view).pi.dramAddress
  let cartridge := (← view).pi.cartridgeAddress
  let length := PeripheralInterface.transferLength register
  match ← attempt (if toDram then copy cartridge dram length else copy dram cartridge length) with
  | .ok _ =>
    change (fun bus => { bus with pi := bus.pi.finish dram cartridge length }.raise .pi)
      fun _ => ⟨rfl, rfl⟩
  | .error e =>
    change (fun bus => { bus with pi := bus.pi.abort }) fun _ => ⟨rfl, rfl⟩
    fail e

/-- The work of a transfer of the PI is that of the bus, -/
theorem run_peripheralTransfer (toDram : Bool) (register : UInt32) :
    (peripheralTransfer copy toDram register).run =
      Bus.peripheralTransfer copy.plain toDram register := by
  -- Both begin and read the addresses alike; what is copied where decides what comes next
  refine bind_congr fun _ => bind_congr fun first => bind_congr fun second => ?_
  cases toDram <;>
  · refine bind_congr fun result => ?_
    cases result <;> rfl

/-- `Bus.peripheralStored` with its journal. -/
def peripheralStored (slot : Nat) : Journaled Unit := do
  let value := (← view).pi.registers.stored slot
  match slot with
  | PeripheralInterface.readLengthSlot => peripheralTransfer copy false value
  | PeripheralInterface.writeLengthSlot => peripheralTransfer copy true value
  | PeripheralInterface.statusSlot =>
    change (fun bus => { bus with pi := bus.pi.reset value }) fun _ => ⟨rfl, rfl⟩
    if PeripheralInterface.acknowledges value then
      change (fun bus => { bus with pi := bus.pi.acknowledge }.acknowledge .pi)
        fun _ => ⟨rfl, rfl⟩
  | _ => pure ()

/-- and so is what a store into one of its registers starts. -/
theorem run_peripheralStored (slot : Nat) :
    (peripheralStored copy slot).run = Bus.peripheralStored copy.plain slot := by
  refine bind_congr fun bus => ?_
  dsimp only
  split
  · exact run_peripheralTransfer copy false _
  · exact run_peripheralTransfer copy true _
  · exact bind_congr fun _ => run_ite _ _ _
  · simp only [run_pure]

/-- `Bus.serialTransfer` with its journal. -/
def serialTransfer (direction : SerialTransfer) : Journaled Unit := do
  let dram := (← view).si.dramAddress
  match direction with
  | .pifToDram => copy Pif.ramAddress dram SerialInterface.transferLength
  | .dramToPif => copy dram Pif.ramAddress SerialInterface.transferLength
  change (fun bus => { bus with si := bus.si.finish dram direction }.raise .si)
    fun _ => ⟨rfl, rfl⟩

/-- The work of a transfer of the SI is that of the bus, -/
theorem run_serialTransfer (direction : SerialTransfer) :
    (serialTransfer copy direction).run = Bus.serialTransfer copy.plain direction := by
  cases direction <;> rfl

/-- `Bus.serialStored` with its journal. -/
def serialStored (slot : Nat) : Journaled Unit :=
  match slot with
  | SerialInterface.toDramSlot => serialTransfer copy .pifToDram
  | SerialInterface.toPifSlot => serialTransfer copy .dramToPif
  | SerialInterface.statusSlot =>
    change (fun bus => { bus with si := bus.si.acknowledge }.acknowledge .si) fun _ => ⟨rfl, rfl⟩
  | _ => pure ()

/-- and so is what a store into one of its registers starts. -/
theorem run_serialStored (slot : Nat) :
    (serialStored copy slot).run = Bus.serialStored copy.plain slot := by
  unfold serialStored Bus.serialStored
  split
  · exact run_serialTransfer copy .pifToDram
  · exact run_serialTransfer copy .dramToPif
  · rfl
  · simp only [run_pure]

/-- `Bus.copyPieces` with its journal. -/
def copyPieces (direction : SignalTransfer) :
    List SignalProcessor.Piece → SignalProcessor.Position →
    Journaled (SignalProcessor.Position × Option BusError)
  | [], p => return (p, none)
  | piece :: rest, p => do
    let memory := SignalProcessor.memoryBase + piece.memory
    let length := piece.length.toNat
    match ← attempt (match direction with
      | .dramToMemory => copy piece.dram memory length
      | .memoryToDram => copy memory piece.dram length) with
    | .ok _ => copyPieces direction rest piece.next
    | .error e => return (p, some e)

/-- The work of one row of the SP after another is that of the bus: either goes on behind a row that
arrived and stops at one that did not. -/
theorem run_copyPieces (direction : SignalTransfer) (pieces : List SignalProcessor.Piece)
    (p : SignalProcessor.Position) :
    (copyPieces copy direction pieces p).run = Bus.copyPieces copy.plain direction pieces p := by
  induction pieces generalizing p with
  | nil => rfl
  | cons piece rest ih =>
    unfold copyPieces Bus.copyPieces
    cases direction <;>
    · refine bind_congr fun result => ?_
      cases result with
      | ok _ => exact ih piece.next
      | error e => rfl

/-- `Bus.signalTransfer` with its journal. -/
def signalTransfer (direction : SignalTransfer) (register : UInt32) : Journaled Unit := do
  change (fun bus => { bus with sp := bus.sp.begin }) fun _ => ⟨rfl, rfl⟩
  let sp := (← view).sp
  let bank := sp.transferBank
  let (position, fault) ← copyPieces copy direction (sp.pieces register) sp.transferStart
  change (fun bus => { bus with sp := bus.sp.finish direction bank register position })
    fun _ => ⟨rfl, rfl⟩
  match fault with
  | some e => fail e
  | none => pure ()

/-- The work of a transfer of the SP is that of the bus, -/
theorem run_signalTransfer (direction : SignalTransfer) (register : UInt32) :
    (signalTransfer copy direction register).run =
      Bus.signalTransfer copy.plain direction register := by
  refine bind_congr fun _ => bind_congr fun bus => ?_
  dsimp only
  rw [run_bind, run_copyPieces]
  refine bind_congr fun (position, fault) => ?_
  cases fault <;> rfl

/-- `Bus.signalStored` with its journal. -/
def signalStored (slot : Nat) : Journaled Unit := do
  let value := (← view).sp.registers.stored slot
  match slot with
  | SignalProcessor.readLengthSlot => signalTransfer copy .dramToMemory value
  | SignalProcessor.writeLengthSlot => signalTransfer copy .memoryToDram value
  | SignalProcessor.statusSlot =>
    change (fun bus =>
      let (sp, mi) := bus.sp.writeStatus bus.mi value
      { bus with sp, mi }) fun _ => ⟨rfl, rfl⟩
  | SignalProcessor.semaphoreSlot =>
    change (fun bus => { bus with sp := bus.sp.releaseSemaphore }) fun _ => ⟨rfl, rfl⟩
  | _ => pure ()

/-- and so is what a store into one of its registers starts. -/
theorem run_signalStored (slot : Nat) :
    (signalStored copy slot).run = Bus.signalStored copy.plain slot := by
  refine bind_congr fun bus => ?_
  dsimp only
  split
  · exact run_signalTransfer copy .dramToMemory _
  · exact run_signalTransfer copy .memoryToDram _
  · rfl
  · rfl
  · simp only [run_pure]

/-- `Bus.postStore` with its journal. -/
def postStore (region : Region) (offset length : Nat) : Journaled Unit := do
  match region with
  | .sp =>
    unless offset < SignalProcessor.memoryWindow do
      ((← view).sp.registers.touched offset length).forM (signalStored copy)
  | .mi => change (fun bus => { bus with mi := bus.mi.settle offset length }) fun _ => ⟨rfl, rfl⟩
  | .vi =>
    if VideoInterface.currentSlot ∈ (← view).vi.registers.touched offset length then
      change (·.acknowledge .vi) fun _ => ⟨rfl, rfl⟩
  | .ai =>
    if AudioInterface.statusSlot ∈ (← view).ai.registers.touched offset length then
      change (·.acknowledge .ai) fun _ => ⟨rfl, rfl⟩
  | .pi => ((← view).pi.registers.touched offset length).forM (peripheralStored copy)
  | .si => ((← view).si.registers.touched offset length).forM (serialStored copy)
  | .pif =>
    change (fun bus => { bus with pif := bus.pif.settle offset length }) fun _ => ⟨rfl, rfl⟩
  | _ => pure ()

/-- What a store starts on any device is what the bus starts there. -/
theorem run_postStore (region : Region) (offset length : Nat) :
    (postStore copy region offset length).run = Bus.postStore copy.plain region offset length := by
  -- The devices with transfers walk through the words the store touched; the others have no copy to
  -- make
  cases region with
  | sp =>
    refine (run_ite _ _ _).trans (congrArg (ite _ _) ?_)
    refine bind_congr fun bus => ?_
    rw [run_forM]
    exact congrArg _ (funext (run_signalStored copy))
  | vi => exact bind_congr fun bus => run_ite _ _ _
  | ai => exact bind_congr fun bus => run_ite _ _ _
  | pi =>
    refine bind_congr fun bus => ?_
    rw [run_forM]
    exact congrArg _ (funext (run_peripheralStored copy))
  | si =>
    refine bind_congr fun bus => ?_
    rw [run_forM]
    exact congrArg _ (funext (run_serialStored copy))
  | _ => rfl

/-! ## Stores and copies -/

/-- `Bus.storeRun` with its journal. -/
def storeRun (region : Region) (offset : Nat) (data : List UInt8) : Journaled Unit := do
  storeDevice region offset data
  postStore copy region offset data.length

/-- A store into a run, with what it starts, is that of the bus; -/
theorem run_storeRun (region : Region) (offset : Nat) (data : List UInt8) :
    (storeRun copy region offset data).run = Bus.storeRun copy.plain region offset data :=
  bind_congr fun _ => run_postStore copy region offset data.length

/-- `Bus.storeRuns` with its journal. -/
def storeRuns : List Run → List UInt8 → Journaled Unit
  | [], _ => pure ()
  | r :: rest, data => do
    storeRun copy r.region r.offset (data.take r.length)
    storeRuns rest (data.drop r.length)

/-- so is a store into several, -/
theorem run_storeRuns (rs : List Run) (data : List UInt8) :
    (storeRuns copy rs data).run = Bus.storeRuns copy.plain rs data := by
  induction rs generalizing data with
  | nil => rfl
  | cons r rest ih =>
    rw [storeRuns, run_bind, run_storeRun]
    exact bind_congr fun _ => ih _

/-- `Bus.storeSpan` with its journal. -/
def storeSpan (transfer : Transfer) (address : UInt32) (data : List UInt8) : Journaled Unit :=
  match route transfer address data.length with
  | .error e => fail e
  | .ok runs => storeRuns copy runs data

/-- and a store into a span, which may have no runs. -/
theorem run_storeSpan (transfer : Transfer) (address : UInt32) (data : List UInt8) :
    (storeSpan copy transfer address data).run =
      Bus.storeSpan copy.plain transfer address data := by
  unfold storeSpan Bus.storeSpan
  cases route transfer address data.length with
  | error e => rfl
  | ok rs => exact run_storeRuns copy rs data

/-- One unit of a block copy with its journal. -/
def moveUnit (source target : UInt32) (n done : Nat) : Journaled Unit :=
  adaptExcept (BusError.copyAborted done) do
    let bytes ← ofLoad (loadSpan .unaligned source n) (loadSpan_respects _ _ _)
    storeSpan copy .unaligned target bytes

/-- The work of a unit of a copy is that of the bus, -/
theorem run_moveUnit (source target : UInt32) (n done : Nat) :
    (moveUnit copy source target n done).run =
      EStateM.adaptExcept (BusError.copyAborted done)
        (loadSpan .unaligned source n >>= Bus.storeSpan copy.plain .unaligned target) :=
  congrArg (EStateM.adaptExcept _) (bind_congr (run_storeSpan copy .unaligned target))

/-- `Bus.copyUnits` with its journal. -/
def copyUnits (source target : UInt32) (length : Nat) : (units done : Nat) → Journaled Unit
  | 0, _ => pure ()
  | units + 1, done => do
    let n := min copyUnit (length - done)
    let shift := UInt32.ofNat done
    moveUnit copy (source + shift) (target + shift) n done
    copyUnits source target length units (done + n)

/-- and so is that of all units. -/
theorem run_copyUnits (source target : UInt32) (length units done : Nat) :
    (copyUnits copy source target length units done).run =
      Bus.copyUnits copy.plain source target length units done := by
  induction units generalizing done with
  | zero => rfl
  | succ units ih =>
    rw [copyUnits, Bus.copyUnits, run_bind, run_moveUnit]
    exact bind_congr fun _ => ih _

/-- `Bus.copyThrough` with its journal. -/
def copyThrough : Copy := fun source target length =>
  copyUnits copy source target length ((length + copyUnit - 1) / copyUnit) 0

end

/-- `Bus.nestedCopy` with its journal. -/
def nestedCopy : (depth : Nat) → Copy
  | 0 => fun _ _ _ => fail .nestedTooDeep
  | depth + 1 => copyThrough (nestedCopy depth)

/-- However deeply transfers start transfers, the journal does not change the work. -/
theorem plain_nestedCopy (depth : Nat) : (nestedCopy depth).plain = Bus.nestedCopy depth := by
  induction depth with
  | zero => rfl
  | succ depth ih =>
    funext source target length
    show (copyUnits _ _ _ _ _ _).run = Bus.copyUnits (Bus.nestedCopy depth) _ _ _ _ _
    rw [run_copyUnits, ih]

end Journaled

/-! ## Requests -/

/-- What the CPU or the host asks of the bus. -/
inductive Request where
  | load (transfer : Transfer) (address : UInt32) (length : Nat)
  | store (transfer : Transfer) (address : UInt32) (data : List UInt8)
  | copy (source target : UInt32) (length : Nat)

namespace Request

/-- The bus after a request, whether or not it failed. -/
def leave : Request → Bus → Bus
  | load transfer address length, s => stateOf (Bus.load transfer address length s)
  | store transfer address data, s => stateOf (Bus.store transfer address data s)
  | copy source target length, s => stateOf (Bus.copy source target length s)

/-- The stores into main memory that it makes. -/
def stores : Request → Bus → List MemoryStore
  | load _ _ _ => fun _ => []
  | store transfer address data =>
    (Journaled.storeSpan (.nestedCopy nestingLimit) transfer address data).stores
  | copy source target length =>
    (Journaled.copyThrough (.nestedCopy nestingLimit) source target length).stores

/-- The journal of a request accounts for it: one that loads has nothing to note, and the stores of
the others are those of the work that the bus does. -/
theorem accounts_leave (r : Request) (s : Bus) : Accounts (r.stores s) s (r.leave s) := by
  cases r with
  | load transfer address length =>
    have hchange := (loadSpan_respects transfer address length).1 s
    exact ⟨hchange.1, hchange.2.2⟩
  | store transfer address data =>
    have hrun : Bus.store transfer address data =
        (Journaled.storeSpan (.nestedCopy nestingLimit) transfer address data).run := by
      rw [Journaled.run_storeSpan, Journaled.plain_nestedCopy]
      rfl
    rw [leave, hrun]
    exact Journaled.accounts _ s
  | copy source target length =>
    have hrun : Bus.copyThrough (Bus.nestedCopy nestingLimit) source target length =
        (Journaled.copyThrough (.nestedCopy nestingLimit) source target length).run := by
      rw [Journaled.copyThrough, Journaled.run_copyUnits, Journaled.plain_nestedCopy]
      rfl
    rw [leave, Bus.copy, stateOf_bind_pure, hrun]
    exact Journaled.accounts _ s

end Request

/-- The bus after several requests. -/
def perform : List Request → Bus → Bus
  | [], bus => bus
  | r :: rest, bus => perform rest (r.leave bus)

/-- The stores into main memory that they make. -/
def stored : List Request → Bus → List MemoryStore
  | [], _ => []
  | r :: rest, bus => r.stores bus ++ stored rest (r.leave bus)

/-- So do the journals of several, one after the other. -/
theorem accounts_perform (rs : List Request) (bus : Bus) :
    Accounts (stored rs bus) bus (perform rs bus) := by
  induction rs generalizing bus with
  | nil => exact ⟨rfl, rfl⟩
  | cons r rest ih => exact (r.accounts_leave bus).trans (ih _)

/-- One of the stores wrote the byte of main memory. -/
def Wrote (ws : List MemoryStore) (a : Nat) : Prop := ∃ w ∈ ws, w.range.contains a = true

/-- A range begins and ends no further out than the bytes that were written. -/
def Within (ws : List MemoryStore) (r : ByteRange) : Prop :=
  ∃ low high, Wrote ws low ∧ Wrote ws high ∧ low ≤ r.start ∧ r.stop ≤ high + 1

/-- The bytes of a store lie within the writes. -/
theorem within_range {ws : List MemoryStore} {w : MemoryStore} (hw : w ∈ ws)
    (hlength : w.range.length ≠ 0) : Within ws w.range := by
  refine ⟨w.range.start, w.range.stop - 1, ⟨w, hw, ?_⟩, ⟨w, hw, ?_⟩, Nat.le_refl _, ?_⟩ <;>
    simp only [ByteRange.contains_iff, ByteRange.stop] <;> omega

/-- So does the hull of what lies within them. -/
theorem Within.hull {ws : List MemoryStore} {r s : ByteRange} (hr : Within ws r)
    (hs : Within ws s) : Within ws (r.hull s) := by
  obtain ⟨low, high, hlow, hhigh, hstart, hstop⟩ := hr
  obtain ⟨low', high', hlow', hhigh', hstart', hstop'⟩ := hs
  -- Of the two outermost bytes at either end the further one bounds the hull
  have hmin : Wrote ws (min low low') := by
    rcases Nat.le_total low low' with h | h
    · rwa [Nat.min_eq_left h]
    · rwa [Nat.min_eq_right h]
  have hmax : Wrote ws (max high high') := by
    rcases Nat.le_total high high' with h | h
    · rwa [Nat.max_eq_right h]
    · rwa [Nat.max_eq_left h]
  refine ⟨_, _, hmin, hmax, ?_, ?_⟩ <;>
    simp only [ByteRange.hull, ByteRange.stop] at * <;> omega

/-- What the log gives away after any requests, when it was empty and watching before: every
byte that they stored, whether or not they failed, is in one of the ranges.  It holds no more
ranges than its limit, after all stores and on the way, and no range reaches further out than
the stores. -/
theorem takeWrites_exact {bus : Bus} (hwatch : bus.writes.watching = true)
    (hempty : bus.writes.ranges = #[]) (rs : List Request) :
    Accounts (stored rs bus) bus (perform rs bus) ∧
      (∀ a, Wrote (stored rs bus) a → ByteRange.Covered (perform rs bus).takeWrites.1 a) ∧
      (∀ n, (bus.writes.noteAll (((stored rs bus).take n).map (·.range))).ranges.size ≤
        WriteLog.limit) ∧
      (perform rs bus).takeWrites.1.length ≤ WriteLog.limit ∧
      ∀ r ∈ (perform rs bus).takeWrites.1, Within (stored rs bus) r := by
  have hsize (ws : List ByteRange) : (bus.writes.noteAll ws).ranges.size ≤ WriteLog.limit :=
    WriteLog.size_noteAll ws (by rw [hempty]; exact Nat.zero_le _)
  have htaken : (perform rs bus).takeWrites.1 =
      (bus.writes.noteAll ((stored rs bus).map (·.range))).ranges.toList := by
    rw [← (accounts_perform rs bus).writes]
    rfl
  refine ⟨accounts_perform rs bus, ?_, fun n => hsize _, ?_, ?_⟩
  -- A range may be merged or collapsed with others, but never shrinks
  · rintro a ⟨w, hw, ha⟩
    rw [htaken]
    exact WriteLog.covers_noteAll hwatch (.inr ⟨w.range, List.mem_map_of_mem hw, ha⟩)
  · rw [htaken, Array.length_toList]
    exact hsize _
  · rw [htaken]
    -- Whatever the log does to its ranges is taking hulls, and they stay within the writes
    refine WriteLog.forall_noteAll (fun _ _ => Within.hull) (fun r hr => ?_) fun r hr hlength => ?_
    · rw [hempty] at hr
      exact nomatch hr
    · obtain ⟨w, hw, rfl⟩ := List.mem_map.mp hr
      exact within_range hw hlength

/-- The PI is about to copy from the cartridge to this place in main memory. -/
def transferring : Bus :=
  (Machine.loaded 0 [] [(.pi, 0, 0x80), (.pi, 4, 0x10000000)]).bus

/-- A store that is not aligned, the start of the transfer, and a copy that fails after four
bytes, right behind the transfer. -/
def requests : List Request :=
  [.store .unaligned 0x101 [1, 2, 3], .store .aligned 0x0460000C [0, 0, 0, 7],
    .copy 0x1FCFFFFC 0x88 8]

/-- All of them are stored, in units of the copies, and two ranges hold them. -/
theorem takeWrites_exact_of_transfer :
    (stored requests transferring).map (·.range) = [⟨0x101, 3⟩, ⟨0x80, 4⟩, ⟨0x84, 4⟩, ⟨0x88, 4⟩] ∧
      (perform requests transferring).takeWrites.1 = [⟨0x101, 3⟩, ⟨0x80, 12⟩] ∧
      ByteRange.Covered (perform requests transferring).takeWrites.1 0x8B ∧
      ∀ r ∈ (perform requests transferring).takeWrites.1,
        Within (stored requests transferring) r := by
  have hwatch : transferring.writes.watching = true := by decide +kernel
  have hempty : transferring.writes.ranges = #[] := by decide +kernel
  have hexact := takeWrites_exact hwatch hempty requests
  have hstored : (stored requests transferring).map (·.range) =
      [⟨0x101, 3⟩, ⟨0x80, 4⟩, ⟨0x84, 4⟩, ⟨0x88, 4⟩] := by
    decide +kernel
  -- The last byte that the failed copy stored
  have hmem : ⟨0x88, 4⟩ ∈ (stored requests transferring).map (·.range) := by
    rw [hstored]
    decide
  obtain ⟨w, hw, hrange⟩ := List.mem_map.mp hmem
  exact ⟨hstored, by decide +kernel, hexact.2.1 _ ⟨w, hw, by rw [hrange]; rfl⟩,
    hexact.2.2.2.2⟩

end Bus

end Console64
