import Console64.Proofs.DeviceCopy
import Console64.Proofs.FirstVisit
import Console64.Proofs.TransferRequests

/-!
# How deeply transfers nest

A transfer started by a store may start others, whose stores start others again.  This file
shows that only the PI can keep that going: a store is carried out to its end exactly if the
transfers into the registers of the PI come to an end, and what nests below them is at most
two levels deep.  Stores to all other devices need one level.

The transfers into the PI itself have no bound.  Where main memory holds the command that
copies that very command into the PI, they do not come to an end at all.

## Key results

- `Bus.nestedCopy_sameUnless`: more depth changes nothing for a store that was not cut short
- `Bus.nesting_of_restarts`: the depth is the number of nested transfers into the PI, give or
  take two
- `Bus.SelfStarting.cutShort_nestedCopy`: a command that starts itself exhausts every depth
-/

namespace Console64

namespace Bus

/-! ## Depth -/

/-- The bus gave up. -/
private abbrev GaveUp (e : BusError) : Prop := e.cutOff = true

/-- Nothing is excused. -/
private abbrev Never (_ : BusError) : Prop := False

/-- What is never cut short is the same whatever is excused. -/
private theorem SameUnless.of_never {excused : BusError → Prop} {x y : BusM Unit}
    (h : SameUnless Never x y) : SameUnless excused x y :=
  fun bus => .inr ((h bus).resolve_left fun ⟨_, _, _, hnever⟩ => hnever)

/-- Work is the same as itself. -/
private theorem SameUnless.refl (x : BusM Unit) : SameUnless GaveUp x x := by
  intro bus
  cases hcut : cutShort (x bus) with
  | false => exact .inr ⟨rfl, rfl⟩
  | true =>
    cases h : x bus with
    | ok a bus' => rw [h] at hcut; exact nomatch hcut
    | error e bus' => exact .inl ⟨e, bus', rfl, by rwa [h] at hcut⟩

/-- What is the same unless the bus gives up is the same if it does not. -/
private theorem SameUnless.eq_of_not_cutShort {x y : BusM Unit} (h : SameUnless GaveUp x y)
    {bus : Bus} (hcut : cutShort (x bus) = false) : y bus = x bus := by
  rcases h bus with ⟨e, bus', hx, he⟩ | ⟨hy, -⟩
  · rw [hx] at hcut
    exact nomatch he.symm.trans hcut
  · exact hy

/-- One level more makes no difference to a copy that was not cut short. -/
private theorem nestedCopy_succ_sameUnless (depth : Nat) (source target : UInt32) (length : Nat) :
    SameUnless GaveUp (nestedCopy depth source target length)
      (nestedCopy (depth + 1) source target length) := by
  -- Induction on the depth: what is nested in the two copies differs by one level as well
  induction depth generalizing source target length with
  | zero => exact fun bus => .inl ⟨_, bus, rfl, rfl⟩
  | succ depth ih => exact copyThrough_sameUnless id (fun _ _ _ _ => ih _ _ _) source

/-- A copy that was not cut short is the same with more depth. -/
theorem nestedCopy_sameUnless {m n : Nat} (h : m ≤ n) (source target : UInt32) (length : Nat) :
    SameUnless GaveUp (nestedCopy m source target length) (nestedCopy n source target length) := by
  induction h with
  | refl => exact .refl _
  | step _ ih => exact ih.trans (nestedCopy_succ_sameUnless _ _ _ _)

/-- A copy between memories needs one level. -/
private theorem nestedCopy_of_inert {target : UInt32} {length : Nat} (h : Inert target length)
    (m n : Nat) (source : UInt32) :
    SameUnless Never (nestedCopy (m + 1) source target length)
      (nestedCopy (n + 1) source target length) :=
  copyThrough_sameUnless id (fun _ _ _ hmay => absurd hmay (not_mayAsk_of_inert h)) source

/-- A copy past the PI needs two. -/
private theorem nestedCopy_of_not_reaches {target : UInt32} {length : Nat}
    (h : reachesPeripheral target length = false) (m n : Nat) (source : UInt32) :
    SameUnless Never (nestedCopy (m + 2) source target length)
      (nestedCopy (n + 2) source target length) :=
  copyThrough_sameUnless id
    (fun _ _ _ hmay => nestedCopy_of_inert (inert_of_mayAsk h hmay) m n _) source

/-! ## Transfers into the PI -/

/-- The block copy handed to devices, good for `budget` more levels of transfers that reach the
PI.  The other ones are carried out as deeply as they go, which is two levels. -/
def restartCopy : (budget : Nat) → BlockCopy
  | 0 => fun source target length =>
    if reachesPeripheral target length then throw .nestedTooDeep
    else nestedCopy 2 source target length
  | budget + 1 => fun source target length =>
    if reachesPeripheral target length then copyThrough (restartCopy budget) source target length
    else nestedCopy 2 source target length

/-- A level that reaches the PI is a level. -/
private theorem nestedCopy_sameUnless_restartCopy (n : Nat) (source target : UInt32)
    (length : Nat) :
    SameUnless GaveUp (nestedCopy n source target length) (restartCopy n source target length) := by
  induction n generalizing source target length with
  | zero => exact fun bus => .inl ⟨_, bus, rfl, rfl⟩
  | succ n ih =>
    simp only [restartCopy]
    split
    · exact copyThrough_sameUnless id (fun _ _ _ _ => ih _ _ _) source
    case isFalse h =>
      rw [Bool.not_eq_true] at h
      exact (nestedCopy_sameUnless (Nat.le_add_right _ 2) _ _ _).trans
        (nestedCopy_of_not_reaches h (n + 1) 0 _).of_never

/-- Below the levels that reach the PI there are at most two more. -/
private theorem restartCopy_sameUnless_nestedCopy (n : Nat) (source target : UInt32)
    (length : Nat) :
    SameUnless GaveUp (restartCopy n source target length)
      (nestedCopy (n + 2) source target length) := by
  induction n generalizing source target length with
  | zero =>
    -- A restart needs one level of nesting of its own, and ends where none is left
    simp only [restartCopy]
    split
    · exact fun bus => .inl ⟨_, bus, rfl, rfl⟩
    · exact .refl _
  | succ n ih =>
    simp only [restartCopy]
    split
    · exact copyThrough_sameUnless id (fun _ _ _ _ => ih _ _ _) source
    · exact nestedCopy_sameUnless (Nat.le_add_left _ _) _ _ _

/-- The store is carried out to its end through this copy. -/
def Completes (copy : BlockCopy) (transfer : Transfer) (address : UInt32) (data : List UInt8)
    (bus : Bus) : Prop :=
  cutShort (storeSpan copy transfer address data bus) = false

instance (copy : BlockCopy) (transfer : Transfer) (address : UInt32) (data : List UInt8)
    (bus : Bus) : Decidable (Completes copy transfer address data bus) :=
  inferInstanceAs (Decidable (_ = false))

/-- A store needs as many levels as transfers into the PI are nested in it, and at most two
more.  If it does not go to the PI, it needs one. -/
theorem nesting_of_restarts (transfer : Transfer) (address : UInt32) (data : List UInt8)
    (bus : Bus) (n : Nat) :
    (Completes (restartCopy n) transfer address data bus → ∀ depth, n + 2 ≤ depth →
      storeSpan (nestedCopy depth) transfer address data bus =
        storeSpan (restartCopy n) transfer address data bus) ∧
    (Completes (nestedCopy n) transfer address data bus →
      storeSpan (restartCopy n) transfer address data bus =
        storeSpan (nestedCopy n) transfer address data bus) ∧
    ((∀ rs, route transfer address data.length = .ok rs → ∀ r ∈ rs, r.region ≠ .pi) →
      Completes (nestedCopy 1) transfer address data bus ∧
        storeSpan (nestedCopy (n + 1)) transfer address data bus =
          storeSpan (nestedCopy 1) transfer address data bus) := by
  refine ⟨fun hcomplete depth hdepth => ?_, fun hcomplete => ?_, fun hout => ?_⟩
  -- Two bounds on the nesting agree wherever neither of them gives up
  · have hsame : SameUnless GaveUp (storeSpan (restartCopy n) transfer address data)
        (storeSpan (nestedCopy depth) transfer address data) :=
      storeSpan_sameUnless fun _ _ _ _ _ _ _ _ =>
        (restartCopy_sameUnless_nestedCopy n _ _ _).trans (nestedCopy_sameUnless hdepth _ _ _)
    exact hsame.eq_of_not_cutShort hcomplete
  · have hsame : SameUnless GaveUp (storeSpan (nestedCopy n) transfer address data)
        (storeSpan (restartCopy n) transfer address data) :=
      storeSpan_sameUnless fun _ _ _ _ _ _ _ _ => nestedCopy_sameUnless_restartCopy n _ _ _
    exact hsame.eq_of_not_cutShort hcomplete
  · -- What another device asks for goes to memories, and starts nothing more
    have hsame : SameUnless Never (storeSpan (nestedCopy 1) transfer address data)
        (storeSpan (nestedCopy (n + 1)) transfer address data) :=
      storeSpan_sameUnless fun rs hroute r hr _ _ _ hasks =>
        nestedCopy_of_inert (inert_of_asks (hout rs hroute r hr) hasks) 0 n _
    obtain ⟨heq, hcut⟩ := (hsame bus).resolve_left fun ⟨_, _, _, hnever⟩ => hnever
    exact ⟨hcut, heq⟩

/-- Main memory starts with a command that copies four bytes into the cartridge, and the PI is
about to copy it into its own registers. -/
def restarting : Bus :=
  (Machine.loaded 0 [] [(.rdram, 4, 0x10000000), (.rdram, 8, 3), (.pi, 4, 0x04600000)]).bus

/-- One level of transfers into the PI is enough for it, and so are two levels in all; an SI
transfer needs one. -/
theorem restarting_nesting :
    Completes (restartCopy 1) .aligned 0x04600008 [0, 0, 0, 11] restarting ∧
      store .aligned 0x04600008 [0, 0, 0, 11] restarting =
        storeSpan (restartCopy 1) .aligned 0x04600008 [0, 0, 0, 11] restarting ∧
      Completes (nestedCopy 2) .aligned 0x04600008 [0, 0, 0, 11] restarting ∧
      storeSpan (restartCopy 2) .aligned 0x04600008 [0, 0, 0, 11] restarting =
        storeSpan (nestedCopy 2) .aligned 0x04600008 [0, 0, 0, 11] restarting ∧
      Completes (nestedCopy 1) .aligned 0x04800004 [0, 0, 0, 0] restarting := by
  have hone : Completes (restartCopy 1) .aligned 0x04600008 [0, 0, 0, 11] restarting := by
    decide +kernel
  have htwo : Completes (nestedCopy 2) .aligned 0x04600008 [0, 0, 0, 11] restarting := by
    decide +kernel
  refine ⟨hone, (nesting_of_restarts _ _ _ _ 1).1 hone nestingLimit (by decide), htwo,
    (nesting_of_restarts _ _ _ _ 2).2.1 htwo, ((nesting_of_restarts _ _ _ _ 0).2.2 ?_).1⟩
  intro rs hroute r hr
  cases hroute
  rw [List.mem_singleton.mp hr]
  decide

/-! ## A transfer that starts itself -/

deriving instance DecidableEq for RegisterBlock, RegisterSlot, RegisterMap

/-- The registers of the PI when all but the length of a copy from the start of main memory to
these registers has been stored. -/
def armedRegisters : RegisterMap :=
  PeripheralInterface.initial.registers.set PeripheralInterface.cartridgeSlot 0x04600000

/-- The registers of the PI while twelve bytes are copied this way. -/
def busyRegisters : RegisterMap :=
  (armedRegisters.set PeripheralInterface.readLengthSlot 11).publish
    PeripheralInterface.statusSlot PeripheralInterface.busyFlag

/-- Main memory starts with the command for this very copy. -/
structure SelfStarting (registers : RegisterMap) (bus : Bus) : Prop where
  registers : bus.pi.registers = registers
  source : bus.rdram.load 0 4 = [0, 0, 0, 0]
  target : bus.rdram.load 4 4 = [0x04, 0x60, 0, 0]
  length : bus.rdram.load 8 4 = [0, 0, 0, 11]

/-- What begins with work that is cut short is cut short, -/
private theorem cutShort_bind {α β : Type} {x : BusM α} {f : α → BusM β} {bus : Bus}
    (h : cutShort (x bus) = true) : cutShort ((x >>= f) bus) = true := by
  cases hx : x bus with
  | ok a bus' =>
    rw [hx] at h
    exact nomatch h
  | error e bus' =>
    rw [bind_of_error hx]
    rwa [hx] at h

/-- and so is a walk through a list. -/
private theorem cutShort_forM {α : Type} {f : α → BusM PUnit} {a : α} {l : List α} {bus : Bus}
    (h : cutShort (f a bus) = true) : cutShort (List.forM (a :: l) f bus) = true := cutShort_bind h

/-- A transfer whose copy is cut short is cut short. -/
private theorem cutShort_peripheralTransfer {copy : BlockCopy} {bus bus' : Bus} {register : UInt32}
    (hbegin : { bus with pi := bus.pi.begin } = bus')
    (h : cutShort (copy bus'.pi.dramAddress bus'.pi.cartridgeAddress
      (PeripheralInterface.transferLength register) bus') = true) :
    cutShort (peripheralTransfer copy false register bus) = true := by
  subst hbegin
  cases hcopy : copy bus.pi.begin.dramAddress bus.pi.begin.cartridgeAddress
    (PeripheralInterface.transferLength register) { bus with pi := bus.pi.begin } with
  | ok _ _ => rw [hcopy] at h; exact nomatch h
  | error e bus' =>
    rw [hcopy] at h
    -- The registers are set, read twice, and the copy is made
    have hrun : peripheralTransfer copy false register bus =
        .error e { bus' with pi := bus'.pi.abort } := by
      unfold peripheralTransfer
      exact (bind_of_ok rfl).trans
        ((bind_of_ok rfl).trans ((bind_of_ok rfl).trans ((bind_attempt_of_error hcopy).trans rfl)))
    rw [hrun]
    exact h

/-- To look at the bus changes nothing. -/
private theorem get_bind {α : Type} (f : Bus → BusM α) (bus : Bus) :
    (get >>= f) bus = f bus bus := rfl

/-- The length starts the transfer that it is the length of. -/
private theorem peripheralStored_readLength (copy : BlockCopy) (bus : Bus) :
    peripheralStored copy 2 bus =
      peripheralTransfer copy false (bus.pi.registers.stored 2) bus := by
  have h : peripheralStored copy 2 =
      get >>= fun bus => peripheralTransfer copy false (bus.pi.registers.stored 2) := by
    simp only [peripheralStored]
  rw [h, get_bind]

/-- A route that can be computed is the route. -/
private theorem route_of_toOption {transfer : Transfer} {address : UInt32} {length : Nat}
    {rs : List Run} (h : (route transfer address length).toOption = some rs) :
    route transfer address length = .ok rs := by
  cases hroute : route transfer address length with
  | ok rs' => rw [hroute] at h; exact congrArg _ (Option.some.inj h)
  | error e => rw [hroute] at h; exact nomatch h

/-- A store into the PI, up to its side effects. -/
private theorem storeSpan_peripheral {copy : BlockCopy} {transfer : Transfer} {address : UInt32}
    {data : List UInt8} {length offset : Nat} {bus bus' : Bus} (slots : List Nat)
    (hlength : data.length = length)
    (hroute : (route transfer address length).toOption = some [⟨.pi, offset, length⟩])
    (hstore : { bus with pi.registers := bus.pi.registers.store offset data } = bus')
    (htouched : bus'.pi.registers.touched offset length = slots) :
    storeSpan copy transfer address data bus = slots.forM (peripheralStored copy) bus' := by
  subst hlength hstore htouched
  simp only [storeSpan, route_of_toOption hroute, storeRuns, List.take_length, bind_pure_unit]
  rfl

/-- One unit whose store is cut short. -/
private theorem cutShort_copyUnits {copy : BlockCopy} {source target : UInt32}
    {length units moved n : Nat} {bytes : List UInt8} {bus bus' : Bus}
    (hn : min copyUnit (length - moved) = n)
    (hload : loadSpan .unaligned (source + UInt32.ofNat moved) n bus = .ok bytes bus')
    (hstore : cutShort
      (storeSpan copy .unaligned (target + UInt32.ofNat moved) bytes bus') = true) :
    cutShort (copyUnits copy source target length (units + 1) moved bus) = true := by
  subst hn
  simp only [copyUnits]
  refine cutShort_bind ?_
  simp only [EStateM.adaptExcept, bind_of_ok hload]
  cases hrun : storeSpan copy .unaligned (target + UInt32.ofNat moved) bytes bus' with
  | ok a bus'' => rw [hrun] at hstore; cases hstore
  | error e bus'' => rwa [hrun] at hstore

namespace SelfStarting

variable {registers : RegisterMap} {copy : BlockCopy} {bus : Bus}

/-- A load from main memory. -/
private theorem loadSpan_memory {a : UInt32} {offset : Nat} (bus : Bus)
    (hroute : (route .unaligned a 4).toOption = some [⟨.rdram, offset, 4⟩]) :
    loadSpan .unaligned a 4 bus = .ok (bus.rdram.load offset 4) bus := by
  simp only [loadSpan, route_of_toOption hroute, loadRuns, deviceLoad, List.append_nil]

/-- Once the length is stored, the copy starts; if that is cut short, so is the store. -/
private theorem cutShort_storeLength (h : bus.pi.registers = registers)
    (hbegin : PeripheralInterface.registers
      { registers := registers.store 8 [0, 0, 0, 11] : PeripheralInterface }.begin = busyRegisters)
    (htouched : (registers.store 8 [0, 0, 0, 11]).touched 8 4 = [2])
    (hlength : (registers.store 8 [0, 0, 0, 11]).stored 2 = 11) {transfer : Transfer}
    (hroute : (route transfer 0x04600008 4).toOption = some [⟨.pi, 8, 4⟩])
    (hcopy : cutShort (copy 0 0x04600000 12 { bus with pi.registers := busyRegisters }) = true) :
    cutShort (storeSpan copy transfer 0x04600008 [0, 0, 0, 11] bus) = true := by
  subst h
  generalize hbus' : { bus with pi.registers := bus.pi.registers.store 8 [0, 0, 0, 11] } = bus'
  have hregisters : bus.pi.registers.store 8 [0, 0, 0, 11] = bus'.pi.registers := by
    rw [← hbus']
  rw [hregisters] at hbegin htouched hlength
  -- With the length stored and the transfer begun the registers are those of the busy PI
  have hstart : { bus' with pi := bus'.pi.begin } = { bus with pi.registers := busyRegisters } := by
    rw [← hbegin, ← hbus']
    rfl
  have hdram : busyRegisters.stored 0 &&& 0x00FFFFFE = 0 := by decide +kernel
  have hcartridge : busyRegisters.stored 1 &&& 0xFFFFFFFE = 0x04600000 := by decide +kernel
  have htransfer : cutShort (peripheralTransfer copy false 11 bus') = true := by
    refine cutShort_peripheralTransfer hstart ?_
    show cutShort (copy (busyRegisters.stored 0 &&& 0x00FFFFFE)
      (busyRegisters.stored 1 &&& 0xFFFFFFFE) 12 _) = true
    rwa [hdram, hcartridge]
  have hrun : storeSpan copy transfer 0x04600008 [0, 0, 0, 11] bus =
      [2].forM (peripheralStored copy) bus' := storeSpan_peripheral [2] rfl hroute hbus' htouched
  rw [hrun]
  refine cutShort_forM ?_
  rwa [peripheralStored_readLength, hlength]

/-- The copy of the command stores into the registers what they hold already, and then starts
over. -/
private theorem cutShort_copyThrough (h : SelfStarting busyRegisters bus)
    (hcopy : cutShort (copy 0 0x04600000 12 bus) = true) :
    cutShort (copyThrough copy 0 0x04600000 12 bus) = true := by
  have hkeeps {offset : Nat} {data : List UInt8}
      (hstore : busyRegisters.store offset data = busyRegisters) :
      { bus with pi.registers := bus.pi.registers.store offset data } = bus := by
    rw [h.registers, hstore, ← h.registers]
  have htouched {offset : Nat} {slots : List Nat}
      (hslots : busyRegisters.touched offset 4 = slots) :
      bus.pi.registers.touched offset 4 = slots := by
    rw [h.registers, hslots]
  have hdram : (route .unaligned 0x04600000 4).toOption = some [⟨.pi, 0, 4⟩] := by decide +kernel
  have hcartridge : (route .unaligned 0x04600004 4).toOption = some [⟨.pi, 4, 4⟩] := by
    decide +kernel
  -- The addresses
  have hfirst : storeSpan copy .unaligned 0x04600000 [0, 0, 0, 0] bus = .ok () bus :=
    storeSpan_peripheral [0] rfl hdram (hkeeps (by decide +kernel)) (htouched (by decide +kernel))
  have hsecond : storeSpan copy .unaligned 0x04600004 [0x04, 0x60, 0, 0] bus = .ok () bus :=
    storeSpan_peripheral [1] rfl hcartridge (hkeeps (by decide +kernel))
      (htouched (by decide +kernel))
  -- The length, and with it the copy that is cut short
  have hthird : cutShort (storeSpan copy .unaligned 0x04600008 [0, 0, 0, 11] bus) = true := by
    refine cutShort_storeLength h.registers (by decide +kernel) (by decide +kernel)
      (by decide +kernel) (by decide +kernel) ?_
    rwa [← h.registers]
  show cutShort (copyUnits copy 0 0x04600000 12 3 0 bus) = true
  rw [copyUnits_of_ok rfl (h.source ▸ loadSpan_memory bus (by decide +kernel)) hfirst,
    copyUnits_of_ok rfl (h.target ▸ loadSpan_memory bus (by decide +kernel)) hsecond]
  exact cutShort_copyUnits rfl (h.length ▸ loadSpan_memory bus (by decide +kernel)) hthird

/-- The copy exhausts every depth. -/
theorem cutShort_nestedCopy (h : SelfStarting busyRegisters bus) (depth : Nat) :
    cutShort (nestedCopy depth 0 0x04600000 12 bus) = true := by
  induction depth with
  | zero => rfl
  | succ depth ih => exact h.cutShort_copyThrough ih

/-- So does the store that starts it. -/
theorem not_completes (h : SelfStarting armedRegisters bus) (depth : Nat) :
    ¬Completes (nestedCopy depth) .aligned 0x04600008 [0, 0, 0, 11] bus := by
  have hbusy : SelfStarting busyRegisters { bus with pi.registers := busyRegisters } :=
    ⟨rfl, h.source, h.target, h.length⟩
  have hcut :
      cutShort (storeSpan (nestedCopy depth) .aligned 0x04600008 [0, 0, 0, 11] bus) = true :=
    cutShort_storeLength h.registers (by decide +kernel) (by decide +kernel) (by decide +kernel)
      (by decide +kernel) (hbusy.cutShort_nestedCopy depth)
  rw [Completes, hcut]
  exact Bool.noConfusion

end SelfStarting

/-- A machine about to store the length of this command. -/
def selfStarting : Bus :=
  (Machine.loaded 0 [] [(.rdram, 4, 0x04600000), (.rdram, 8, 11), (.pi, 4, 0x04600000)]).bus

/-- No depth is enough for the store. -/
theorem selfStarting_unbounded :
    SelfStarting armedRegisters selfStarting ∧
      ∀ depth, ¬Completes (nestedCopy depth) .aligned 0x04600008 [0, 0, 0, 11] selfStarting := by
  have hself : SelfStarting armedRegisters selfStarting :=
    ⟨by decide +kernel, by decide +kernel, by decide +kernel, by decide +kernel⟩
  exact ⟨hself, hself.not_completes⟩

end Bus

end Console64
