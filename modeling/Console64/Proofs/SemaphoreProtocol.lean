import Console64.Proofs.BusScript
import Console64.Proofs.SemaphoreSteps

/-!
# Polling the semaphore of the signal processor

Whatever is requested of the bus comes to orderly steps: the loads and stores of clients, as long as
they move no more than a doubleword, and those that transfers make, at any depth and up to any
fault.  So of several clients that poll the semaphore at most one finds it free, until something is
stored there: whichever bytes of it they load, along with which other registers, and whether a
transfer has gone over it.

## Key results

- `Bus.Script.Tidy`: scripts whose steps are orderly, with a lemma for each way to compose them
- `Bus.orderly_trace`: all requests come to orderly steps
- `Bus.signal_protocol`: the status, and who gets the semaphore, while requests are carried out
-/

namespace Console64

namespace Bus

/-! ## Scripts -/

namespace Script

variable {α β : Type}

/-- From a bus with its registers in place, the steps are orderly. -/
def Tidy (x : Script α) : Prop := ∀ bus : Bus, bus.Wired → Orderly (x.steps bus)

/-- A script without steps is orderly, -/
theorem Tidy.pure (a : α) : (Pure.pure a : Script α).Tidy := fun _ _ => .nil

/-- and so is one that fails at once, -/
theorem Tidy.failed (e : BusError) : (Script.failed e : Script α).Tidy := fun _ _ => .nil

/-- or makes one step that neither releases the semaphore nor begins a transfer. -/
theorem Tidy.make {d : DeviceStep} (hshort : d.Short) (hne : d ≠ .releaseSemaphore)
    (hbegin : d ≠ .signalBegin) : (Script.make d).Tidy := fun _ _ => .singleton hshort hne hbegin

/-- What comes second only has to be orderly for answers that the first part gives. -/
theorem Tidy.bind_of {x : Script α} {f : α → Script β} (hx : x.Tidy)
    (hf : ∀ bus a bus', x.run bus = .ok a bus' → (f a).Tidy) : (x >>= f).Tidy := by
  intro bus hwired
  rw [steps_bind]
  refine (hx bus hwired).append ?_
  cases hrun : x.run bus with
  | ok a bus' => exact hf bus a bus' hrun bus' (wired_run hrun hwired)
  | error e bus' => exact .nil

/-- If what comes second is orderly for any answer, all is. -/
theorem Tidy.bind {x : Script α} {f : α → Script β} (hx : x.Tidy) (hf : ∀ a, (f a).Tidy) :
    (x >>= f).Tidy := hx.bind_of fun _ a _ _ => hf a

/-- What is done next may depend on the devices. -/
theorem Tidy.view {f : Bus → Script α} (hf : ∀ bus : Bus, bus.Wired → (f bus).Tidy) :
    (Script.view >>= f).Tidy := fun bus hwired => hf bus hwired bus hwired

/-- A fault that is turned into an answer makes no step, -/
theorem Tidy.attempt {x : Script α} (hx : x.Tidy) : x.attempt.Tidy := by
  intro bus hwired
  rw [steps_attempt]
  exact hx bus hwired

/-- and neither does one that is turned into another. -/
theorem Tidy.adaptExcept {x : Script α} (hx : x.Tidy) (f : BusError → BusError) :
    (x.adaptExcept f).Tidy := by
  intro bus hwired
  rw [steps_adaptExcept]
  exact hx bus hwired

/-- One script after the other is orderly if all are. -/
theorem Tidy.forM {f : Nat → Script Unit} {slots : List Nat} (hf : ∀ slot ∈ slots, (f slot).Tidy) :
    (slots.forM f).Tidy := by
  induction slots with
  | nil => exact .pure ()
  | cons slot rest ih =>
    obtain ⟨hfirst, hrest⟩ := List.forall_mem_cons.mp hf
    exact .bind hfirst fun _ => ih hrest

/-- What is true of the steps for each slot is true of those for all slots. -/
private theorem forall_steps_forM {P : DeviceStep → Prop} {f : Nat → Script Unit}
    {slots : List Nat} (hf : ∀ slot ∈ slots, ∀ bus, ∀ d ∈ (f slot).steps bus, P d) (bus : Bus) :
    ∀ d ∈ (slots.forM f).steps bus, P d := by
  induction slots generalizing bus with
  | nil => exact fun d hd => nomatch hd
  | cons slot rest ih =>
    obtain ⟨hfirst, hrest⟩ := List.forall_mem_cons.mp hf
    show ∀ d ∈ (f slot >>= fun _ => rest.forM f).steps bus, P d
    rw [steps_bind]
    refine List.forall_mem_append.mpr ⟨hfirst bus, ?_⟩
    cases (f slot).run bus with
    | ok _ bus' => exact ih hrest bus'
    | error e bus' => exact fun d hd => nomatch hd

/-- Loads from runs are orderly if they are short, -/
theorem Tidy.loadRuns {rs : List Run} (h : ∀ r ∈ rs, r.length ≤ 8) : (loadRuns rs).Tidy := by
  induction rs with
  | nil => exact .pure []
  | cons r rest ih =>
    obtain ⟨hfirst, hrest⟩ := List.forall_mem_cons.mp h
    have hload : (loadDevice r.region r.offset r.length).Tidy := fun _ _ =>
      .singleton hfirst nofun nofun
    exact .bind hload fun _ => .bind (ih hrest) fun _ => .pure _

/-- and so is one from a span. -/
theorem Tidy.loadSpan (transfer : Transfer) (address : UInt32) {length : Nat} (h : length ≤ 8) :
    (loadSpan transfer address length).Tidy := by
  unfold Script.loadSpan
  cases hroute : route transfer address length with
  | error e => exact .failed e
  | ok rs => exact .loadRuns fun r hr => (length_le_of_mem_route hroute hr).trans h

/-- A block copy whose steps are orderly. -/
def Copy.Tidy (copy : Copy) : Prop := ∀ source target length, (copy source target length).Tidy

section
variable {copy : Copy} (hcopy : copy.Tidy)
include hcopy

/-- All steps that a transfer of the PI makes itself are of other kinds, -/
private theorem Tidy.peripheralTransfer (toDram : Bool) (register : UInt32) :
    (peripheralTransfer copy toDram register).Tidy := by
  unfold Script.peripheralTransfer
  refine .bind (.make trivial nofun nofun) fun _ => .view fun _ _ => .view fun _ _ => ?_
  refine .bind (.attempt ?_) fun result => ?_
  · split <;> exact hcopy _ _ _
  · cases result with
    | ok _ => exact .make trivial nofun nofun
    | error e => exact .bind (.make trivial nofun nofun) fun _ => .failed e

/-- and so are those that its registers have as side effects. -/
private theorem Tidy.peripheralStored (slot : Nat) : (peripheralStored copy slot).Tidy := by
  unfold Script.peripheralStored
  refine .view fun _ _ => ?_
  split
  · exact .peripheralTransfer hcopy _ _
  · exact .peripheralTransfer hcopy _ _
  · refine .bind (.make trivial nofun nofun) fun _ => ?_
    split
    · exact .make trivial nofun nofun
    · exact .pure ()
  · exact .pure ()

/-- So it is with the SI: -/
private theorem Tidy.serialTransfer (direction : SerialTransfer) :
    (serialTransfer copy direction).Tidy := by
  unfold Script.serialTransfer
  refine .view fun _ _ => ?_
  cases direction <;> exact .bind (hcopy _ _ _) fun _ => .make trivial nofun nofun

/-- its transfers, and the side effects of its registers. -/
private theorem Tidy.serialStored (slot : Nat) : (serialStored copy slot).Tidy := by
  unfold Script.serialStored
  split
  · exact .serialTransfer hcopy _
  · exact .serialTransfer hcopy _
  · exact .make trivial nofun nofun
  · exact .pure ()

/-- The pieces of a transfer of the SP are copies; what begins and ends it comes around them. -/
private theorem Tidy.copyPieces (direction : SignalTransfer)
    (pieces : List SignalProcessor.Piece) (p : SignalProcessor.Position) :
    (copyPieces copy direction pieces p).Tidy := by
  induction pieces generalizing p with
  | nil => exact .pure _
  | cons piece rest ih =>
    unfold Script.copyPieces
    refine .bind (.attempt ?_) fun result => ?_
    · cases direction <;> exact hcopy _ _ _
    · cases result with
      | ok _ => exact ih piece.next
      | error e => exact .pure _

omit hcopy in
/-- A piece that fails ends the transfer, but not in a fault. -/
private theorem exists_run_copyPieces (direction : SignalTransfer)
    (pieces : List SignalProcessor.Piece) (p : SignalProcessor.Position) (bus : Bus) :
    ∃ stopped bus', (copyPieces copy direction pieces p).run bus = .ok stopped bus' := by
  induction pieces generalizing p bus with
  | nil => exact ⟨_, _, rfl⟩
  | cons piece rest ih =>
    unfold Script.copyPieces
    rw [run_bind, run_attempt]
    generalize Script.run _ = x
    -- The first piece that fails stops the transfer, which itself does not fail
    cases hrun : x bus with
    | ok _ bus' =>
      rw [bind_attempt_of_ok hrun]
      exact ih piece.next bus'
    | error e bus' =>
      rw [bind_attempt_of_error hrun]
      exact ⟨_, _, rfl⟩

/-- So every transfer comes to its end. -/
private theorem Tidy.signalTransfer (direction : SignalTransfer) (register : UInt32) :
    (signalTransfer copy direction register).Tidy := by
  intro bus hwired
  have hbegun : (DeviceStep.apply bus .signalBegin).Wired := hwired.step _
  show Orderly (.signalBegin :: (Script.copyPieces copy direction _ _ >>= _).steps
    (DeviceStep.apply bus .signalBegin))
  generalize DeviceStep.apply bus .signalBegin = begun at hbegun ⊢
  -- A fault of the copies is kept until the last step has been made
  obtain ⟨⟨position, fault⟩, bus', hrun⟩ := @exists_run_copyPieces copy direction
    (begun.sp.pieces register) begun.sp.transferStart begun
  have hlast : (Script.make (.signalFinish direction begun.sp.transferBank register position) >>=
      fun _ => rethrow fault).steps bus' =
        [.signalFinish direction begun.sp.transferBank register position] := by
    cases fault <;> rfl
  rw [steps_bind, hrun]
  dsimp only
  rw [hlast]
  exact .transfer (Tidy.copyPieces hcopy direction _ _ begun hbegun) _ _ _ _

/-- What a store into another register than the semaphore sets off is orderly. -/
private theorem Tidy.signalStored {slot : Nat} (hslot : slot ≠ SignalProcessor.semaphoreSlot) :
    (signalStored copy slot).Tidy := by
  unfold Script.signalStored
  refine .view fun _ _ => ?_
  split
  · exact .signalTransfer hcopy _ _
  · exact .signalTransfer hcopy _ _
  · exact .make trivial nofun nofun
  · exact absurd rfl hslot
  · exact .pure ()

/-- So is what follows a store that does not reach the semaphore. -/
private theorem Tidy.postStore {region : Region} {offset length : Nat}
    (h : region = .sp → SignalProcessor.reachesSemaphore offset length = false) :
    (postStore copy region offset length).Tidy := by
  unfold Script.postStore
  cases region with
  | sp =>
    dsimp only
    split
    · exact .pure ()
    -- The semaphore is not among the registers that the store touches
    · refine .view fun bus hwired => .forM fun slot hslot => .signalStored hcopy ?_
      rintro rfl
      rw [SignalProcessor.mem_touched_semaphore hwired.sp, h rfl] at hslot
      exact nomatch hslot
  | mi => exact .make trivial nofun nofun
  | vi =>
    refine .view fun _ _ => ?_
    split
    · exact .make trivial nofun nofun
    · exact .pure ()
  | ai =>
    refine .view fun _ _ => ?_
    split
    · exact .make trivial nofun nofun
    · exact .pure ()
  | pi => exact .view fun _ _ => .forM fun slot _ => .peripheralStored hcopy slot
  | si => exact .view fun _ _ => .forM fun slot _ => .serialStored hcopy slot
  | pif => exact .make trivial nofun nofun
  | _ => exact .pure ()

omit hcopy in
/-- All that is left is the semaphore, if the registers with other effects are not touched. -/
private theorem signalStored_release {slot : Nat} (hread : slot ≠ SignalProcessor.readLengthSlot)
    (hwrite : slot ≠ SignalProcessor.writeLengthSlot) (hstatus : slot ≠ SignalProcessor.statusSlot)
    (bus : Bus) : ∀ d ∈ (signalStored copy slot).steps bus, d = .releaseSemaphore := by
  unfold Script.signalStored
  rw [steps_view]
  dsimp only
  split
  · exact absurd rfl hread
  · exact absurd rfl hwrite
  · exact absurd rfl hstatus
  · exact fun d hd => List.mem_singleton.mp hd
  · exact fun d hd => nomatch hd

omit hcopy in
/-- What follows a short store that does reach it: no other register with an effect is that near. -/
private theorem postStore_release {offset length : Nat} (hlength : length ≤ 8)
    (hreaches : SignalProcessor.reachesSemaphore offset length = true) {bus : Bus}
    (hwired : bus.Wired) :
    ∀ d ∈ (postStore copy .sp offset length).steps bus, d = .releaseSemaphore := by
  have hoffset : 0x40014 < offset := by
    simp only [SignalProcessor.reachesSemaphore, Bool.and_eq_true, decide_eq_true_eq] at hreaches
    omega
  -- The length registers and the status end in front of a short span that reaches the semaphore
  have hfar : ∀ slot shape, SignalProcessor.initial.registers.layout[slot]? = some shape →
      shape.stop ≤ 0x40014 → slot ∉ bus.sp.registers.touched offset length := by
    intro slot shape hshape hstop hslot
    rw [← hwired.sp] at hshape
    rw [RegisterMap.mem_touched_of_layout hshape, RegisterShape.overlaps, Bool.and_eq_true,
      decide_eq_true_eq] at hslot
    omega
  have hread := hfar SignalProcessor.readLengthSlot ⟨0x40008, 1, .dual, .readWrite⟩
    (by decide +kernel) (by decide)
  have hwrite := hfar SignalProcessor.writeLengthSlot ⟨0x4000C, 1, .dual, .readWrite⟩
    (by decide +kernel) (by decide)
  have hstatus := hfar SignalProcessor.statusSlot ⟨0x40010, 1, .dual, .readWrite⟩
    (by decide +kernel) (by decide)
  have hwindow : ¬offset < SignalProcessor.memoryWindow := by
    rw [SignalProcessor.memoryWindow]
    omega
  have hsteps : (postStore copy .sp offset length).steps bus =
      ((bus.sp.registers.touched offset length).forM (Script.signalStored copy)).steps bus := by
    show (ite (offset < SignalProcessor.memoryWindow) _ _ : Script Unit).steps bus = _
    rw [if_neg hwindow]
    rfl
  rw [hsteps]
  refine forall_steps_forM (fun slot hslot bus' => signalStored_release ?_ ?_ ?_ bus') bus
  · rintro rfl
    exact hread hslot
  · rintro rfl
    exact hwrite hslot
  · rintro rfl
    exact hstatus hslot

/-- A short store and what follows it are orderly, wherever it goes. -/
private theorem Tidy.storeRun (region : Region) (offset : Nat) {data : List UInt8}
    (hdata : data.length ≤ 8) : (storeRun copy region offset data).Tidy := by
  intro bus hwired
  have hstored : (DeviceStep.apply bus (.store region offset data)).Wired := hwired.step _
  show Orderly (.store region offset data :: (Script.postStore copy region offset data.length).steps
    (DeviceStep.apply bus (.store region offset data)))
  -- A store that reaches the semaphore is followed by its release
  by_cases hreaches : region = .sp ∧ SignalProcessor.reachesSemaphore offset data.length = true
  · obtain ⟨rfl, hreaches⟩ := hreaches
    exact .release hreaches (postStore_release hdata hreaches hstored)
  · have hpost : (Script.postStore copy region offset data.length).Tidy :=
      .postStore hcopy fun hsp => Bool.eq_false_iff.mpr fun htrue => hreaches ⟨hsp, htrue⟩
    have hfirst : Orderly [.store region offset data] := .singleton trivial nofun nofun
    exact hfirst.append (hpost _ hstored)

/-- So are several, each a part of the data, -/
private theorem Tidy.storeRuns (rs : List Run) {data : List UInt8} (hdata : data.length ≤ 8) :
    (storeRuns copy rs data).Tidy := by
  induction rs generalizing data with
  | nil => exact .pure ()
  | cons r rest ih =>
    have hfirst : (data.take r.length).length ≤ 8 := by
      rw [List.length_take]
      omega
    have hrest : (data.drop r.length).length ≤ 8 := by
      rw [List.length_drop]
      omega
    exact .bind (.storeRun hcopy _ _ hfirst) fun _ => ih hrest

/-- and a short store into a span. -/
private theorem Tidy.storeSpan (transfer : Transfer) (address : UInt32) {data : List UInt8}
    (hdata : data.length ≤ 8) : (storeSpan copy transfer address data).Tidy := by
  unfold Script.storeSpan
  cases route transfer address data.length with
  | error e => exact .failed e
  | ok rs => exact .storeRuns hcopy rs hdata

/-- A copy moves few bytes at a time. -/
private theorem Copy.Tidy.copyThrough : (copyThrough copy).Tidy := by
  intro source target length
  unfold Script.copyThrough
  generalize (length + copyUnit - 1) / copyUnit = units
  generalize 0 = done
  induction units generalizing done with
  | zero => exact .pure ()
  | succ units ih =>
    unfold Script.copyUnits
    have hshort : min copyUnit (length - done) ≤ 8 :=
      (Nat.min_le_left _ _).trans (by decide)
    refine .bind (.adaptExcept ?_ _) fun _ => ih _
    -- What is stored is as long as what has been loaded
    refine .bind_of (.loadSpan _ _ hshort) fun bus bytes bus' hload => ?_
    rw [run_loadSpan] at hload
    exact .storeSpan hcopy _ _ ((length_loadSpan hload).trans_le hshort)

end

/-- So it is however deeply transfers start transfers. -/
private theorem Copy.Tidy.nestedCopy (depth : Nat) : (nestedCopy depth).Tidy := by
  induction depth with
  | zero => exact fun _ _ _ => .failed _
  | succ depth ih => exact ih.copyThrough

end Script

/-! ## Requests -/

namespace Request

/-- The request moves no more than a doubleword, or it is a copy. -/
def Short : Request → Prop
  | load _ _ length => length ≤ 8
  | store _ _ data => data.length ≤ 8
  | copy _ _ _ => True

instance : DecidablePred Short
  | load _ _ length => inferInstanceAs (Decidable (length ≤ 8))
  | store _ _ data => inferInstanceAs (Decidable (data.length ≤ 8))
  | copy _ _ _ => inferInstanceAs (Decidable True)

/-- The request loads the lowest byte of the semaphore, and gets zero. -/
def Acquires (bus : Bus) : Request → Prop
  | load transfer address length =>
    address.toNat ≤ 0x0404001F ∧
      ∃ bytes bus', Bus.load transfer address length bus = .ok bytes bus' ∧
        bytes[0x0404001F - address.toNat]? = some 0
  | _ => False

/-- A short request makes orderly steps, and so does a copy. -/
theorem orderly_steps {r : Request} (h : r.Short) {bus : Bus} (hwired : bus.Wired) :
    Orderly (r.steps bus) := by
  have hcopy := Script.Copy.Tidy.nestedCopy nestingLimit
  cases r with
  | load transfer address length => exact Script.Tidy.loadSpan transfer address h bus hwired
  | store transfer address data => exact Script.Tidy.storeSpan hcopy transfer address h bus hwired
  | copy source target length => exact hcopy.copyThrough source target length bus hwired

/-- What a client acquires, the device step that serves it has found free. -/
theorem exists_steps_of_acquires {r : Request} (hshort : r.Short) {bus : Bus}
    (h : r.Acquires bus) : ∃ d : DeviceStep, r.steps bus = [d] ∧ d.FindsFree bus := by
  cases r with
  | load transfer address length =>
    obtain ⟨haddress, bytes, bus', hload, hbyte⟩ := h
    have hlt := (List.getElem?_eq_some_iff.mp hbyte).1
    rw [length_loadSpan hload] at hlt
    rw [Short] at hshort
    -- A short load that reaches this byte starts among the registers of the SP
    have hbase : Region.sp.base = 0x04000000 := rfl
    have hsize : Region.sp.size = 0x100000 := rfl
    obtain ⟨offset, hoffset⟩ : ∃ offset, Region.sp.base + offset = address.toNat :=
      ⟨address.toNat - 0x04000000, by omega⟩
    have hroute : route transfer address length = .ok [⟨.sp, offset, length⟩] :=
      route_inside hoffset (by omega) (by omega) transfer
    have hsteps : (load transfer address length).steps bus = [.load .sp offset length] := by
      rw [steps, Script.loadSpan, hroute]
      rfl
    have hserved : Bus.load transfer address length bus =
        .ok (bus.deviceLoad .sp offset length).1 (bus.deviceLoad .sp offset length).2 := by
      cases transfer with
      | aligned => exact loadSpan_aligned hoffset (by omega) (by omega) bus
      | unaligned => exact loadSpan_inside hoffset (by omega) (by omega) bus
    have hbytes : bytes = (bus.deviceLoad .sp offset length).1 :=
      (EStateM.Result.ok.inj (hload.symm.trans hserved)).1
    have hplace : SignalProcessor.semaphoreByte - offset = 0x0404001F - address.toNat := by
      rw [SignalProcessor.semaphoreByte]
      omega
    refine ⟨_, hsteps, ?_, ?_⟩
    · rw [SignalProcessor.semaphoreByte]
      omega
    · rw [hplace, ← hbytes]
      exact hbyte
  | _ => exact h.elim

end Request

/-- So do several requests, one after the other. -/
theorem orderly_trace {rs : List Request} (h : ∀ r ∈ rs, r.Short) {bus : Bus}
    (hwired : bus.Wired) : Orderly (trace rs bus) := by
  induction rs generalizing bus with
  | nil => exact .nil
  | cons r rest ih =>
    obtain ⟨hfirst, hrest⟩ := List.forall_mem_cons.mp h
    exact (Request.orderly_steps hfirst hwired).append (ih hrest (hwired.perform [r]))

/-- The status of the SP, and who gets its semaphore, while these requests are carried out from
power-on. -/
structure SignalProtocol (cartridge : Cartridge) (rdramSize : Nat) (rs : List Request) : Prop where
  /-- The requests come to device steps, -/
  steps : perform rs (initial cartridge rdramSize) =
    afterSteps cartridge rdramSize (trace rs (initial cartridge rdramSize))
  /-- before and after each of which the processor is halted, -/
  halted : ∀ before after, trace rs (initial cartridge rdramSize) = before ++ after →
    (afterSteps cartridge rdramSize before).sp.status &&& SignalProcessor.haltFlag ≠ 0
  /-- and busy only during a transfer. -/
  busy : ∀ before after, trace rs (initial cartridge rdramSize) = before ++ after →
    ((afterSteps cartridge rdramSize before).sp.status &&& SignalProcessor.busyFlag ≠ 0 ↔
      InFlight before)
  /-- All transfers have come to their end. -/
  ended : ¬InFlight (trace rs (initial cartridge rdramSize))
  /-- No load finds the semaphore free that another load has found free and no store has reached
  since then, whether it is a client's or part of a transfer. -/
  taken : ∀ before d after, trace rs (initial cartridge rdramSize) = before ++ d :: after →
    d.FindsFree (afterSteps cartridge rdramSize before) → ¬Taken cartridge rdramSize before
  /-- So between two clients that acquire it something has been stored there. -/
  exclusive : ∀ earlier r between r' later, rs = earlier ++ r :: (between ++ r' :: later) →
    r.Acquires (perform earlier (initial cartridge rdramSize)) →
    r'.Acquires (perform (earlier ++ r :: between) (initial cartridge rdramSize)) →
    ∃ d ∈ trace between (perform (earlier ++ [r]) (initial cartridge rdramSize)),
      d.storesSemaphore = true

/-- So it is with any requests whose loads and stores move no more than eight bytes, and with
copies of any length. -/
theorem signal_protocol (cartridge : Cartridge) (rdramSize : Nat) (rs : List Request)
    (hshort : ∀ r ∈ rs, r.Short) : SignalProtocol cartridge rdramSize rs := by
  have horderly := orderly_trace hshort (wired_initial cartridge rdramSize)
  refine ⟨perform_eq_foldl rs _, fun before _ _ => halted_afterSteps before,
    fun before _ _ => busy_iff_inFlight before, horderly.ended, ?taken, ?exclusive⟩
  case taken =>
    intro before d after heq hfree
    exact not_taken_of_findsFree (heq ▸ horderly.toGuarded) hfree
  case exclusive =>
    rintro earlier r between r' later rfl hfirst hsecond
    obtain ⟨d, hd, hfree⟩ := Request.exists_steps_of_acquires (hshort r (by simp)) hfirst
    obtain ⟨d', hd', hfree'⟩ := Request.exists_steps_of_acquires (hshort r' (by simp)) hsecond
    -- The steps up to the second client, and those of all requests
    have hbefore : trace (earlier ++ r :: between) (initial cartridge rdramSize) =
        trace earlier (initial cartridge rdramSize) ++
          d :: trace between (perform (earlier ++ [r]) (initial cartridge rdramSize)) := by
      rw [trace_append, trace, hd, perform_append]
      rfl
    have hall : trace (earlier ++ r :: (between ++ r' :: later)) (initial cartridge rdramSize) =
        trace (earlier ++ r :: between) (initial cartridge rdramSize) ++ d' :: trace later
          (r'.leave (perform (earlier ++ r :: between) (initial cartridge rdramSize))) := by
      rw [← List.cons_append, ← List.append_assoc, trace_append, trace, hd']
      rfl
    rw [perform_eq_foldl] at hfree hfree'
    have hnot : ¬Taken cartridge rdramSize (trace (earlier ++ r :: between) _) :=
      not_taken_of_findsFree (hall ▸ horderly.toGuarded) hfree'
    by_contra hnone
    refine hnot ⟨_, d, _, hbefore, hfree, fun e he hstores => hnone ⟨e, he, hstores⟩⟩

/-- A client polls the semaphore, a copy goes over it, another client stores one byte into it, and
then it is polled once more along with the register in front of it. -/
def polling : List Request :=
  [.load .aligned 0x0404001C 4, .copy 0x0404001C 0x100 4, .store .unaligned 0x0404001D [7],
    .load .unaligned 0x0404001A 8]

/-- Both polls acquire it, so there is a store in between. -/
theorem signal_protocol_polling :
    SignalProtocol .smallest 0x120 polling ∧
      ∃ d ∈ trace [.copy 0x0404001C 0x100 4, .store .unaligned 0x0404001D [7]]
        (perform [.load .aligned 0x0404001C 4] (initial .smallest 0x120)),
        d.storesSemaphore = true := by
  have hprotocol := signal_protocol .smallest 0x120 polling (by decide)
  refine ⟨hprotocol, hprotocol.exclusive [] _ _ (.load .unaligned 0x0404001A 8) [] rfl ?_ ?_⟩
  · obtain ⟨bus', hload⟩ := exists_ok_of_answerOf (a := [0, 0, 0, 0])
      (r := load .aligned 0x0404001C 4 (initial .smallest 0x120)) (by decide +kernel)
    exact ⟨by decide, _, bus', hload, rfl⟩
  · generalize hbus : perform _ _ = bus
    obtain ⟨bus', hload⟩ := exists_ok_of_answerOf (a := [0, 0, 0, 0, 0, 0, 0, 0])
      (r := load .unaligned 0x0404001A 8 bus) (by rw [← hbus]; decide +kernel)
    exact ⟨by decide, _, bus', hload, rfl⟩

end Bus

end Console64
