import Console64.Proofs.ByteWalk
import Console64.Proofs.InterruptStatus
import Console64.Proofs.SignalTransfers

/-!
# The status and the semaphore of the signal processor

The signal processor is halted at all times, and busy only while it transfers.  Its semaphore is
taken by being loaded, and freed again by a store.  A store and the release that follows it are two
steps of the device, and a transfer is many.  So this is about sequences of steps.  `Orderly` is
what they have to be like: loads are short enough not to run into the registers from the memory in
front of them, each release directly follows a store, and transfers come to their end.

## Key results

- `Bus.DeviceStep.status_apply`, `Bus.DeviceStep.semaphore_apply`: what a step does to the two
- `Bus.halted_afterSteps`, `Bus.busy_iff_inFlight`: the status after any steps
- `Bus.semaphore_of_taken`: the semaphore shows that it is taken
- `Bus.not_taken_of_findsFree`: so nothing finds it free then
-/

namespace Console64

/-! ## The status -/

/-- A pair of commands concerns its own flags only. -/
theorem applyPair_and {flags other : UInt32} (h : flags &&& other = 0)
    (command clear set word : UInt32) :
    applyPair command clear set flags word &&& other = word &&& other := by
  unfold applyPair
  dsimp only
  split <;> split <;> simp only [set_and h, clear_and h]

namespace SignalProcessor

/-- No command concerns the busy flag. -/
private theorem commandedStatus_busy (command word : UInt32) :
    commandedStatus command word &&& busyFlag = word &&& busyFlag := by
  -- The signals are eight pairs of commands, taken one after the other
  have hsignals : ∀ (ns : List Nat), (∀ n ∈ ns, signalFlag n &&& busyFlag = 0) → ∀ w : UInt32,
      ns.foldl (fun status n => applyPair command (UInt32.ofNat (9 + 2 * n))
        (UInt32.ofNat (10 + 2 * n)) (signalFlag n) status) w &&& busyFlag = w &&& busyFlag := by
    intro ns hns
    induction ns with
    | nil => exact fun _ => rfl
    | cons n ns ih =>
      obtain ⟨hn, hns⟩ := List.forall_mem_cons.mp hns
      exact fun w => (ih hns _).trans (applyPair_and hn _ _ _ _)
  have hflags : ∀ n ∈ List.range 8, signalFlag n &&& busyFlag = 0 := by decide
  have hpairs : haltFlag &&& busyFlag = 0 ∧ singleStepFlag &&& busyFlag = 0 ∧
      interruptOnBreakFlag &&& busyFlag = 0 ∧ brokeFlag &&& busyFlag = 0 := by decide
  obtain ⟨hhalt, hstep, hbreak, hbroke⟩ := hpairs
  unfold commandedStatus
  dsimp only
  split <;>
  · simp only [clear_and hbroke, hsignals _ hflags, applyPair_and hbreak, applyPair_and hstep,
      applyPair_and hhalt]

/-- The status that a STATUS store leaves. -/
def settledStatus (command word : UInt32) : UInt32 :=
  let status := commandedStatus command word
  if status &&& haltFlag = 0 then status ||| haltFlag ||| brokeFlag else status

/-- A halted processor is halted after any command, -/
private theorem settledStatus_halt (command word : UInt32) :
    settledStatus command word &&& haltFlag ≠ 0 := by
  unfold settledStatus
  dsimp only
  split
  case isTrue =>
    rw [set_and (by decide : brokeFlag &&& haltFlag = 0), set_and_self]
    decide
  case isFalse hset => exact hset

/-- and busy if it was. -/
private theorem settledStatus_busy (command word : UInt32) :
    settledStatus command word &&& busyFlag = word &&& busyFlag := by
  rw [← commandedStatus_busy command word]
  unfold settledStatus
  dsimp only
  split
  · rw [set_and (by decide : brokeFlag &&& busyFlag = 0),
      set_and (by decide : haltFlag &&& busyFlag = 0)]
  · rfl

/-! ## The semaphore -/

/-- The semaphore as loads see it. -/
def semaphore (s : SignalProcessor) : UInt32 := s.registers.visible semaphoreSlot

/-- Offset of the lowest byte of the semaphore, which tells whether it is taken. -/
def semaphoreByte : Nat := 0x4001F

/-- The end of a transfer does not concern it. -/
private theorem semaphore_finish (s : SignalProcessor) (direction : SignalTransfer)
    (bank register : UInt32) (p : Position) :
    (s.finish direction bank register p).semaphore = s.semaphore := by
  cases direction <;>
  · simp (disch := decide) only [semaphore, finish, publishStatus, RegisterMap.publish,
      RegisterMap.set, RegisterMap.visible_of_ne]

/-- The span shares a byte with the semaphore. -/
def reachesSemaphore (offset length : Nat) : Bool := offset < 0x40020 && 0x4001C < offset + length

section
variable {s : SignalProcessor} (h : s.registers.layout = initial.registers.layout)
include h

/-- A span touches the register that it shares a byte with. -/
theorem mem_touched_semaphore (offset length : Nat) :
    semaphoreSlot ∈ s.registers.touched offset length ↔
      reachesSemaphore offset length = true :=
  RegisterMap.mem_touched_of_layout (semaphoreSlot_layout h) offset length

/-- The lowest byte is the last of its word. -/
private theorem byteAt_semaphoreByte :
    s.registers.byteAt semaphoreByte = s.semaphore.toUInt8 := by
  have hlocate : initial.registers.locate semaphoreByte = some semaphoreSlot := by decide +kernel
  obtain ⟨slot, hslot, hshape⟩ := RegisterMap.exists_slot (semaphoreSlot_layout h)
  obtain ⟨hbase, -, -, haccess⟩ := RegisterShape.mk.inj hshape
  have hlane : semaphoreByte - 0x4001C = 3 := rfl
  rw [RegisterMap.byteAt_eq, RegisterMap.locate_congr h, hlocate, Option.bind_some, hslot,
    Option.elim_some, hbase, hlane, semaphore, RegisterMap.visible, hslot, Option.elim_some,
    RegisterBlock.byteAt, haccess]
  rfl

/-- What a load finds in the lowest byte of the semaphore. -/
private theorem load_semaphoreByte {offset length : Nat} (hstart : memoryWindow ≤ offset)
    (hend : offset ≤ semaphoreByte) (hlength : semaphoreByte - offset < length) :
    (s.load offset length).1[semaphoreByte - offset]? = some s.semaphore.toUInt8 := by
  have hbytes : (s.load offset length).1 = s.registers.load offset length := by
    rw [load, if_neg (Nat.not_lt.mpr hstart)]
    dsimp only
    split <;> rfl
  rw [hbytes, RegisterMap.load, List.getElem?_map, List.getElem?_range hlength, Option.map_some,
    Nat.add_sub_cancel' hend, byteAt_semaphoreByte h]

/-- A short load that reaches the semaphore takes it, and no other load changes anything. -/
private theorem load_registers {offset length : Nat} (hshort : length ≤ 8) :
    (s.load offset length).2.registers =
      if reachesSemaphore offset length then s.registers.publish semaphoreSlot 1
      else s.registers := by
  have htouched := mem_touched_semaphore h offset length
  unfold load
  split
  case isTrue hmemory =>
    -- What starts in the memory is too short to get to the semaphore
    have hbefore : reachesSemaphore offset length = false := by
      rw [reachesSemaphore, memoryWindow] at *
      simp only [Bool.and_eq_false_iff, decide_eq_false_iff_not]
      omega
    rw [hbefore]
    rfl
  case isFalse =>
    simp only [htouched]
    split <;> rfl

omit h in
/-- Stores are not seen in registers that have a copy of their own for them. -/
private theorem visible_store {slot : Nat} {shape : RegisterShape}
    (hshape : s.registers.layout[slot]? = some shape) (hhides : shape.hidesStores = true)
    (offset : Nat) (data : List UInt8) :
    (s.store offset data).registers.visible slot = s.registers.visible slot := by
  unfold store
  split
  · exact visible_storeMemory hshape hhides _ _
  · exact RegisterMap.visible_store hshape hhides _ _

end

end SignalProcessor

namespace Bus

/-! ## Steps -/

namespace DeviceStep

/-- The step loads some of the semaphore. -/
def loadsSemaphore : DeviceStep → Bool
  | load .sp offset length => SignalProcessor.reachesSemaphore offset length
  | _ => false

/-- The step stores into some of the semaphore. -/
def storesSemaphore : DeviceStep → Bool
  | store .sp offset data => SignalProcessor.reachesSemaphore offset data.length
  | _ => false

/-- No step does both. -/
theorem not_loadsSemaphore {d : DeviceStep} (h : d.storesSemaphore = true) :
    ¬d.loadsSemaphore = true := by
  cases d with
  | store region offset data => exact Bool.false_ne_true
  | _ => exact nomatch h

/-- The step is the end of a transfer of the SP. -/
def endsSignal : DeviceStep → Bool
  | signalFinish _ _ _ _ => true
  | _ => false

/-- The step loads no more than a doubleword, if it is a load. -/
def Short : DeviceStep → Prop
  | load _ _ length => length ≤ 8
  | _ => True

/-- The step loads the lowest byte of the semaphore, and finds zero there. -/
def FindsFree (bus : Bus) : DeviceStep → Prop
  | load .sp offset length =>
    offset ≤ SignalProcessor.semaphoreByte ∧
      (bus.deviceLoad .sp offset length).1[SignalProcessor.semaphoreByte - offset]? = some 0
  | _ => False

/-- What a step makes of the status of the SP. -/
def statusAfter (status : UInt32) : DeviceStep → UInt32
  | signalBegin => status ||| SignalProcessor.busyFlag
  | signalFinish _ _ _ _ => status &&& ~~~SignalProcessor.busyFlag
  | signalStatus command => SignalProcessor.settledStatus command status
  | _ => status

section
variable {bus : Bus} (h : bus.Wired)
include h

/-- Only steps of the SP concern its status. -/
theorem status_apply (d : DeviceStep) : (d.apply bus).sp.status = d.statusAfter bus.sp.status := by
  have hshape : bus.sp.registers.layout[SignalProcessor.statusSlot]? =
      some ⟨0x40010, 1, .dual, .readWrite⟩ := by
    rw [h.sp, SignalProcessor.statusSlot_layout]
  cases d with
  | load region offset length =>
    cases region with
    | sp =>
      show (bus.sp.load offset length).2.status = bus.sp.status
      -- A load may take the semaphore, which is another register
      unfold SignalProcessor.load
      split
      · rfl
      · split
        · exact RegisterMap.visible_of_ne _ (by decide) _
        · rfl
    | _ => rfl
  | store region offset data =>
    cases region with
    | sp => exact SignalProcessor.visible_store hshape rfl offset data
    | _ => rfl
  | signalBegin => exact SignalProcessor.status_begin h.sp
  | signalFinish direction bank register position =>
    exact SignalProcessor.status_finish h.sp direction bank register position
  | signalStatus command => exact RegisterMap.visible_publish hshape Nat.one_pos _
  | releaseSemaphore => exact RegisterMap.visible_of_ne _ (by decide) _
  | _ => rfl

/-- The semaphore changes when it is loaded from and when it is released. -/
theorem semaphore_apply {d : DeviceStep} (hshort : d.Short) :
    (d.apply bus).sp.semaphore =
      if d = releaseSemaphore then 0 else if d.loadsSemaphore then 1 else bus.sp.semaphore := by
  have hshape := SignalProcessor.semaphoreSlot_layout h.sp
  cases d with
  | load region offset length =>
    cases region with
    | sp =>
      have hne : load .sp offset length ≠ releaseSemaphore := nofun
      show (bus.sp.load offset length).2.registers.visible SignalProcessor.semaphoreSlot = _
      -- A load that reaches the semaphore takes it, whatever was in it
      rw [SignalProcessor.load_registers h.sp hshort, if_neg hne, loadsSemaphore]
      by_cases hreaches : SignalProcessor.reachesSemaphore offset length = true
      · rw [if_pos hreaches, if_pos hreaches]
        exact RegisterMap.visible_publish hshape Nat.one_pos 1
      · rw [if_neg hreaches, if_neg hreaches]
        rfl
    | _ => rfl
  | store region offset data =>
    cases region with
    | sp => exact SignalProcessor.visible_store hshape rfl offset data
    | _ => rfl
  | signalFinish direction bank register position =>
    exact SignalProcessor.semaphore_finish bus.sp direction bank register position
  | signalBegin => exact RegisterMap.visible_of_ne _ (by decide) _
  | signalStatus command => exact RegisterMap.visible_of_ne _ (by decide) _
  | releaseSemaphore => exact (RegisterMap.holds_set hshape Nat.one_pos 0).2
  | _ => rfl

omit h in
/-- What finds the semaphore free is a load over its lowest byte. -/
private theorem FindsFree.exists_load {d : DeviceStep} (hd : d.FindsFree bus) :
    ∃ offset length, d = load .sp offset length ∧ offset ≤ SignalProcessor.semaphoreByte ∧
      SignalProcessor.semaphoreByte - offset < length ∧
      (bus.deviceLoad .sp offset length).1[SignalProcessor.semaphoreByte - offset]? = some 0 := by
  cases d with
  | load region offset length =>
    cases region with
    | sp =>
      have hlt := (List.getElem?_eq_some_iff.mp hd.2).1
      rw [length_deviceLoad] at hlt
      exact ⟨offset, length, rfl, hd.1, hlt, hd.2⟩
    | _ => exact hd.elim
  | _ => exact hd.elim

omit h in
/-- So it is a load from the semaphore. -/
theorem FindsFree.loads {d : DeviceStep} (hd : d.FindsFree bus) : d.loadsSemaphore = true := by
  obtain ⟨offset, length, rfl, hoffset, hlength, -⟩ := hd.exists_load
  rw [SignalProcessor.semaphoreByte] at hoffset hlength
  simp only [loadsSemaphore, SignalProcessor.reachesSemaphore, Bool.and_eq_true, decide_eq_true_eq]
  omega

/-- The semaphore is free then. -/
theorem FindsFree.semaphore {d : DeviceStep} (hd : d.FindsFree bus) (hshort : d.Short) :
    bus.sp.semaphore.toUInt8 = 0 := by
  obtain ⟨offset, length, rfl, hoffset, hlength, hbyte⟩ := hd.exists_load
  -- A longer load might start in the memory window, and find zero there
  have hstart : SignalProcessor.memoryWindow ≤ offset := by
    rw [Short] at hshort
    rw [SignalProcessor.semaphoreByte] at hoffset hlength
    rw [SignalProcessor.memoryWindow]
    omega
  have hfound := SignalProcessor.load_semaphoreByte h.sp hstart hoffset hlength
  exact Option.some_inj.mp (hfound.symm.trans hbyte)

end

/-- A halted processor stays halted. -/
theorem statusAfter_halt {status : UInt32} (h : status &&& SignalProcessor.haltFlag ≠ 0)
    (d : DeviceStep) : d.statusAfter status &&& SignalProcessor.haltFlag ≠ 0 := by
  have hbusy : SignalProcessor.busyFlag &&& SignalProcessor.haltFlag = 0 := by decide
  cases d with
  | signalBegin => exact (set_and hbusy status).trans_ne h
  | signalFinish direction bank register position => exact (clear_and hbusy status).trans_ne h
  | signalStatus command => exact SignalProcessor.settledStatus_halt command status
  | _ => exact h

/-- A transfer is busy from its first step to its last. -/
theorem statusAfter_busy (status : UInt32) (d : DeviceStep) :
    d.statusAfter status &&& SignalProcessor.busyFlag ≠ 0 ↔
      d = signalBegin ∨ (status &&& SignalProcessor.busyFlag ≠ 0 ∧ ¬d.endsSignal) := by
  -- Only a transfer and the commands of the status register reach the flag
  cases d with
  | signalBegin =>
    rw [statusAfter, set_and_self]
    exact iff_of_true (by decide) (.inl rfl)
  | signalFinish direction bank register position =>
    rw [statusAfter, clear_and_self]
    simp [endsSignal]
  | signalStatus command =>
    rw [statusAfter, SignalProcessor.settledStatus_busy]
    simp [endsSignal]
  | _ => simp [statusAfter, endsSignal]

end DeviceStep

/-! ## Histories of steps -/

/-- A transfer of the SP has begun, and has not come to its end. -/
def InFlight (ds : List DeviceStep) : Prop :=
  Since (fun _ d => d = .signalBegin) (·.endsSignal) ds

/-- There has been a store into the semaphore, and no load from it since. -/
def Released (ds : List DeviceStep) : Prop :=
  Since (fun _ d => d.storesSemaphore) (·.loadsSemaphore) ds

/-- Loads are short, and what releases the semaphore directly follows a store into it. -/
structure Guarded (ds : List DeviceStep) : Prop where
  short : ∀ d ∈ ds, d.Short
  released : ∀ before after, ds = before ++ .releaseSemaphore :: after → Released before

/-- Moreover, transfers come to their end. -/
structure Orderly (ds : List DeviceStep) : Prop extends Guarded ds where
  ended : ¬InFlight ds

/-- A first part is guarded too, -/
theorem Guarded.left {ds ds' : List DeviceStep} (h : Guarded (ds ++ ds')) : Guarded ds where
  short d hd := h.short d (List.mem_append_left ds' hd)
  released before after heq := h.released before (after ++ ds') (by rw [heq]; simp)

/-- and so is one sequence after the other. -/
theorem Guarded.append {ds ds' : List DeviceStep} (h : Guarded ds) (h' : Guarded ds') :
    Guarded (ds ++ ds') where
  short d hd := (List.mem_append.mp hd).elim (h.short d) (h'.short d)
  released before after heq := by
    rcases List.append_eq_append_iff.mp heq with ⟨mid, rfl, hsecond⟩ | ⟨mid, hfirst, hsecond⟩
    · exact since_append.mpr (.inl (h'.released mid after hsecond))
    · cases mid with
      | nil =>
        -- The second part does not begin with a release, as its store would be missing
        exact absurd (h'.released [] after hsecond.symm) not_since_nil
      | cons d mid =>
        obtain ⟨rfl, rfl⟩ := List.cons_eq_cons.mp hsecond
        exact h.released before mid hfirst

/-- A short step that does not release is guarded by itself. -/
theorem Guarded.singleton {d : DeviceStep} (hshort : d.Short) (hne : d ≠ .releaseSemaphore) :
    Guarded [d] where
  short e he := List.mem_singleton.mp he ▸ hshort
  released before after heq := by
    have hmem : .releaseSemaphore ∈ [d] := by rw [heq]; simp
    exact absurd (List.mem_singleton.mp hmem).symm hne

/-- No steps, nothing to put in order. -/
theorem Orderly.nil : Orderly [] where
  short := nofun
  released before after heq := by simp at heq
  ended := not_since_nil

/-- One orderly sequence after the other is orderly. -/
theorem Orderly.append {ds ds' : List DeviceStep} (h : Orderly ds) (h' : Orderly ds') :
    Orderly (ds ++ ds') where
  toGuarded := h.toGuarded.append h'.toGuarded
  ended hflight := (since_append.mp hflight).elim h'.ended fun hfirst => h.ended hfirst.1

/-- So is a short step that does not release and begins no transfer. -/
theorem Orderly.singleton {d : DeviceStep} (hshort : d.Short) (hne : d ≠ .releaseSemaphore)
    (hbegin : d ≠ .signalBegin) : Orderly [d] where
  toGuarded := .singleton hshort hne
  ended hflight := by
    have hlast : InFlight ([] ++ [d]) := hflight
    obtain heq | ⟨hbefore, -⟩ := since_append_singleton.mp hlast
    · exact hbegin heq
    · exact not_since_nil hbefore

/-- A transfer of the SP, with all that it does in between. -/
theorem Orderly.transfer {ds : List DeviceStep} (h : Orderly ds) (direction : SignalTransfer)
    (bank register : UInt32) (position : SignalProcessor.Position) :
    Orderly (.signalBegin :: (ds ++ [.signalFinish direction bank register position])) where
  toGuarded := by
    have hfirst : Guarded [.signalBegin] := .singleton trivial nofun
    have hlast : Guarded [.signalFinish direction bank register position] :=
      .singleton trivial nofun
    exact hfirst.append (h.toGuarded.append hlast)
  ended hflight := by
    have hsplit : InFlight ((.signalBegin :: ds) ++
      [.signalFinish direction bank register position]) := hflight
    -- Whatever has begun, the last step ends it
    obtain hbegin | ⟨-, hgoing⟩ := since_append_singleton.mp hsplit
    · exact nomatch hbegin
    · exact hgoing rfl

/-- A store into the semaphore, and releases right behind it. -/
theorem Orderly.release {d : DeviceStep} {rest : List DeviceStep} (hd : d.storesSemaphore = true)
    (hrest : ∀ e ∈ rest, e = .releaseSemaphore) : Orderly (d :: rest) where
  short e he := by
    rcases List.mem_cons.mp he with rfl | hmem
    · cases e <;> trivial
    · rw [hrest e hmem]
      trivial
  released before after heq := by
    cases before with
    | nil =>
      obtain ⟨rfl, -⟩ := List.cons_eq_cons.mp heq
      exact nomatch hd
    | cons e before =>
      obtain ⟨rfl, rfl⟩ := List.cons_eq_cons.mp heq
      -- Between the store and this release there are other releases only
      refine ⟨[], d, before, rfl, hd, fun e he => ?_⟩
      rw [hrest e (List.mem_append_left _ he)]
      nofun
  ended := by
    rintro ⟨before, e, after, heq, rfl, -⟩
    have hmem : .signalBegin ∈ d :: rest := by rw [heq]; simp
    rcases List.mem_cons.mp hmem with rfl | hin
    · exact nomatch hd
    · exact nomatch hrest _ hin

/-! ## Runs -/

section
variable {cartridge : Cartridge} {rdramSize : Nat}

/-- The processor is halted at all times. -/
theorem halted_afterSteps (ds : List DeviceStep) :
    (afterSteps cartridge rdramSize ds).sp.status &&& SignalProcessor.haltFlag ≠ 0 := by
  induction ds using List.reverseRecOn with
  | nil =>
    show SignalProcessor.initial.status &&& SignalProcessor.haltFlag ≠ 0
    decide +kernel
  | append_singleton ds d ih =>
    rw [afterSteps_append_singleton, DeviceStep.status_apply (wired_afterSteps ds)]
    exact DeviceStep.statusAfter_halt ih d

/-- It is busy while it transfers. -/
theorem busy_iff_inFlight (ds : List DeviceStep) :
    (afterSteps cartridge rdramSize ds).sp.status &&& SignalProcessor.busyFlag ≠ 0 ↔
      InFlight ds := by
  induction ds using List.reverseRecOn with
  | nil =>
    have hidle : SignalProcessor.initial.status &&& SignalProcessor.busyFlag = 0 := by
      decide +kernel
    exact iff_of_false (fun hbusy => hbusy hidle) not_since_nil
  | append_singleton ds d ih =>
    rw [afterSteps_append_singleton, DeviceStep.status_apply (wired_afterSteps ds),
      DeviceStep.statusAfter_busy, ih, InFlight, InFlight, since_append_singleton]

variable (cartridge rdramSize) in
/-- A load has found the semaphore free, and there has been no store into it since. -/
def Taken (ds : List DeviceStep) : Prop :=
  Since (fun before d => d.FindsFree (afterSteps cartridge rdramSize before))
    (·.storesSemaphore) ds

/-- What has been taken is not released. -/
private theorem Taken.not_released {ds : List DeviceStep} (h : Taken cartridge rdramSize ds) :
    ¬Released ds :=
  -- Each of the two ends when the other one begins
  Since.not_since h (fun _ _ hfree => hfree.loads) (fun _ _ hstores => hstores) fun _ hstores =>
    DeviceStep.not_loadsSemaphore hstores

/-- The semaphore shows that it is taken. -/
theorem semaphore_of_taken {ds : List DeviceStep} (hds : Guarded ds)
    (h : Taken cartridge rdramSize ds) :
    (afterSteps cartridge rdramSize ds).sp.semaphore = 1 := by
  induction ds using List.reverseRecOn with
  | nil => exact absurd h not_since_nil
  | append_singleton ds d ih =>
    have hwired : (afterSteps cartridge rdramSize ds).Wired := wired_afterSteps ds
    have htaken := since_append_singleton.mp h
    rw [afterSteps_append_singleton, DeviceStep.semaphore_apply hwired (hds.short d (by simp))]
    by_cases hrelease : d = .releaseSemaphore
    · -- A release follows a store, and then the semaphore is not taken any more
      subst hrelease
      obtain hfree | ⟨hbefore, -⟩ := htaken
      · exact hfree.elim
      · exact absurd (hds.released ds [] rfl) (Taken.not_released hbefore)
    · rw [if_neg hrelease]
      split
      case isTrue => rfl
      case isFalse hloads =>
        obtain hfree | ⟨hbefore, -⟩ := htaken
        · exact absurd hfree.loads hloads
        · exact ih hds.left hbefore

/-- So nothing finds it free then. -/
theorem not_taken_of_findsFree {before after : List DeviceStep} {d : DeviceStep}
    (hds : Guarded (before ++ d :: after))
    (hfree : d.FindsFree (afterSteps cartridge rdramSize before)) :
    ¬Taken cartridge rdramSize before := by
  intro htaken
  have hzero := hfree.semaphore (wired_afterSteps before) (hds.short d (by simp))
  rw [semaphore_of_taken hds.left htaken] at hzero
  exact nomatch hzero

end

end Bus

end Console64
