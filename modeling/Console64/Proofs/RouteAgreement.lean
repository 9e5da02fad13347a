import Console64.Proofs.DeviceCopy
import Console64.Proofs.FirstVisit

/-!
# Refused accesses, and the two ways to route a span

The bus refuses a span that is not mapped, or that runs past the end of its device, before it
touches any device.  From then on only the block copies that devices ask for can fail, and
their faults are reported as aborted copies.  So an access that the bus has refused has
changed nothing.

Windows of devices begin and end at multiples of eight.  A span of one, two, four or eight
bytes at a multiple of its length therefore lies in one window or outside of all, and the two
ways to route it come to the same.

## Key results

- `Bus.Unrefused.copyThrough`: a block copy does not report that an access was refused
- `Bus.eq_of_refused`: a store that the bus refuses changes nothing
- `Bus.route_natural`: a naturally aligned span is routed alike as a whole and byte by byte
- `Bus.refused_and_routed`: both together, for loads and stores
-/

namespace Console64

/-- The bus did not let the access through to a device. -/
def BusError.refused : BusError → Bool
  | .unmapped _ | .outOfRange .. => true
  | _ => false

namespace Bus

variable {α β : Type} {copy : BlockCopy}

/-! ## Work that the bus does not refuse -/

/-- The run may fail, but not because the bus refused an access. -/
def Unrefused (x : BusM α) : Prop :=
  ∀ bus e bus', x bus = .error e bus' → e.refused = false

namespace Unrefused

/-- Work that never fails. -/
theorem of_ok {x : BusM α} (h : ∀ bus, ∃ a bus', x bus = .ok a bus') : Unrefused x := by
  intro bus e bus' herror
  obtain ⟨a, bus'', hok⟩ := h bus
  exact nomatch hok.symm.trans herror

/-- An answer is no refusal, -/
theorem pure (a : α) : Unrefused (pure a : BusM α) := of_ok fun _ => ⟨_, _, rfl⟩

/-- nor is a change of the devices, -/
theorem modify (f : Bus → Bus) : Unrefused (modify f : BusM PUnit) := of_ok fun _ => ⟨_, _, rfl⟩

/-- nor another fault. -/
theorem throw {e : BusError} (h : e.refused = false) : Unrefused (throw e : BusM α) := by
  intro bus e' bus' herror
  cases herror
  exact h

/-- What is done with the state at hand. -/
theorem get {f : Bus → BusM β} (h : ∀ bus, Unrefused (f bus)) : Unrefused (get >>= f) :=
  fun bus => h bus bus

/-- A sequence, whose second part is run after answers that the first one can give. -/
theorem bind_of {x : BusM α} {f : α → BusM β} (hx : Unrefused x)
    (hf : ∀ bus a bus', x bus = .ok a bus' → Unrefused (f a)) : Unrefused (x >>= f) := by
  intro bus e bus' herror
  rcases bind_eq_error herror with hfirst | ⟨a, mid, hok, hsecond⟩
  · exact hx _ _ _ hfirst
  · exact hf _ _ _ hok _ _ _ hsecond

/-- If the second part is not refused whatever it is given, all is not. -/
theorem bind {x : BusM α} {f : α → BusM β} (hx : Unrefused x) (hf : ∀ a, Unrefused (f a)) :
    Unrefused (x >>= f) :=
  hx.bind_of fun _ _ _ _ => hf _

/-- One run after the other. -/
theorem forM {f : α → BusM PUnit} (h : ∀ a, Unrefused (f a)) :
    ∀ l : List α, Unrefused (l.forM f)
  | [] => pure _
  | a :: l => (h a).bind fun _ => forM h l

/-- A fault that is turned into an answer does not leave. -/
theorem attempt (x : BusM α) : Unrefused (attempt x) := by
  refine of_ok fun bus => ?_
  simp only [Bus.attempt]
  cases x bus with
  | ok a bus' => exact ⟨_, _, rfl⟩
  | error e bus' => exact ⟨_, _, rfl⟩

/-- A fault that has been caught may be thrown again. -/
theorem caught {x : BusM α} (hx : Unrefused x) {bus bus' : Bus} {e : BusError}
    (h : Bus.attempt x bus = .ok (.error e) bus') : e.refused = false := by
  simp only [Bus.attempt] at h
  cases hrun : x bus with
  | ok a mid =>
    rw [hrun] at h
    cases h
  | error e' mid =>
    rw [hrun] at h
    cases h
    exact hx _ _ _ hrun

/-- Whatever goes wrong in a block copy is passed on as the cause of its own fault. -/
theorem adaptExcept (x : BusM α) (count : Nat) :
    Unrefused (EStateM.adaptExcept (BusError.copyAborted count) x) := by
  intro bus e bus' herror
  simp only [EStateM.adaptExcept] at herror
  cases hrun : x bus with
  | ok a mid =>
    rw [hrun] at herror
    exact nomatch herror
  | error cause mid =>
    rw [hrun] at herror
    cases herror
    rfl

/-! ## Copies, and what stores set off -/

/-- The units of a copy turn whatever fault they meet into one of their own, -/
private theorem copyUnits (source target : UInt32) (length units done : Nat) :
    Unrefused (copyUnits copy source target length units done) := by
  induction units generalizing done with
  | zero => exact pure ()
  | succ units ih => exact (adaptExcept _ _).bind fun _ => ih _

/-- So it is with every block copy, whatever copies its stores start in turn. -/
theorem copyThrough (source target : UInt32) (length : Nat) :
    Unrefused (copyThrough copy source target length) := copyUnits _ _ _ _ _

/-- however deeply they are nested. -/
theorem nestedCopy (depth : Nat) (source target : UInt32) (length : Nat) :
    Unrefused (nestedCopy depth source target length) := by
  cases depth with
  | zero => exact throw rfl
  | succ depth => exact copyThrough _ _ _

section
variable (hcopy : ∀ source target length, Unrefused (copy source target length))
include hcopy

/-- A transfer of the PI may pass on the fault of its copy, -/
private theorem peripheralTransfer (toDram : Bool) (register : UInt32) :
    Unrefused (peripheralTransfer copy toDram register) := by
  unfold Bus.peripheralTransfer
  refine (modify _).bind fun _ => get fun _ => get fun _ => ?_
  refine (attempt _).bind_of fun bus result bus' hresult => ?_
  cases result with
  | ok _ => exact modify _
  | error e =>
    refine (modify _).bind fun _ => throw (caught ?_ hresult)
    split
    · exact hcopy _ _ _
    · exact hcopy _ _ _

/-- and so may what a store into its registers sets off; -/
private theorem peripheralStored (slot : Nat) : Unrefused (peripheralStored copy slot) := by
  unfold Bus.peripheralStored
  refine get fun _ => ?_
  split
  · exact peripheralTransfer hcopy _ _
  · exact peripheralTransfer hcopy _ _
  · refine (modify _).bind fun _ => ?_
    split
    · exact modify _
    · exact pure _
  · exact pure _

/-- likewise one of the SI -/
private theorem serialTransfer (direction : SerialTransfer) :
    Unrefused (serialTransfer copy direction) := by
  unfold Bus.serialTransfer
  refine get fun _ => ?_
  cases direction with
  | pifToDram => exact (hcopy _ _ _).bind fun _ => modify _
  | dramToPif => exact (hcopy _ _ _).bind fun _ => modify _

/-- and its registers, -/
private theorem serialStored (slot : Nat) : Unrefused (serialStored copy slot) := by
  unfold Bus.serialStored
  split
  · exact serialTransfer hcopy _
  · exact serialTransfer hcopy _
  · exact modify _
  · exact pure _

omit hcopy in
/-- and the pieces of one of the SP, which keep the fault in their answer. -/
private theorem copyPieces (direction : SignalTransfer) (pieces : List SignalProcessor.Piece)
    (p : SignalProcessor.Position) : Unrefused (copyPieces copy direction pieces p) := by
  induction pieces generalizing p with
  | nil => exact pure _
  | cons piece rest ih =>
    unfold Bus.copyPieces
    refine (attempt _).bind fun result => ?_
    cases result with
    | ok _ => exact ih piece.next
    | error e => exact pure _

/-- The fault that the pieces of a transfer answer with comes of a copy. -/
private theorem copyPieces_fault (direction : SignalTransfer)
    (pieces : List SignalProcessor.Piece) {p q : SignalProcessor.Position} {bus bus' : Bus}
    {e : BusError} (h : Bus.copyPieces copy direction pieces p bus = .ok (q, some e) bus') :
    e.refused = false := by
  -- The first piece that fails ends the transfer, and its fault is that of its copy
  induction pieces generalizing p bus with
  | nil => exact nomatch h
  | cons piece rest ih =>
    unfold Bus.copyPieces at h
    obtain ⟨result, mid, hresult, hrest⟩ := bind_eq_ok h
    cases result with
    | ok _ => exact ih hrest
    | error e' =>
      cases hrest
      refine caught ?_ hresult
      cases direction with
      | dramToMemory => exact hcopy _ _ _
      | memoryToDram => exact hcopy _ _ _

/-- The transfer throws it when it has been closed. -/
private theorem signalTransfer (direction : SignalTransfer) (register : UInt32) :
    Unrefused (signalTransfer copy direction register) := by
  unfold Bus.signalTransfer
  refine (modify _).bind fun _ => get fun _ => ?_
  refine (copyPieces _ _ _).bind_of fun bus answer bus' hanswer => ?_
  obtain ⟨position, fault⟩ := answer
  refine (modify _).bind fun _ => ?_
  cases fault with
  | some e => exact throw (copyPieces_fault hcopy _ _ hanswer)
  | none => exact pure _

/-- So may a store into the registers of the SP, -/
private theorem signalStored (slot : Nat) : Unrefused (signalStored copy slot) := by
  unfold Bus.signalStored
  refine get fun _ => ?_
  split
  · exact signalTransfer hcopy _ _
  · exact signalTransfer hcopy _ _
  · exact modify _
  · exact modify _
  · exact pure _

/-- and any other one. -/
private theorem postStore (region : Region) (offset length : Nat) :
    Unrefused (postStore copy region offset length) := by
  unfold Bus.postStore
  cases region with
  | sp =>
    -- Three devices may start copies; the others only change
    dsimp only
    split
    · exact pure _
    · exact get fun _ => forM (signalStored hcopy) _
  | mi => exact modify _
  | vi =>
    refine get fun _ => ?_
    split
    · exact modify _
    · exact pure _
  | ai =>
    refine get fun _ => ?_
    split
    · exact modify _
    · exact pure _
  | pi => exact get fun _ => forM (peripheralStored hcopy) _
  | si => exact get fun _ => forM (serialStored hcopy) _
  | pif => exact modify _
  | _ => exact pure _

/-- Once a span has been routed, its store may fail but is not refused. -/
theorem storeRuns (rs : List Run) (data : List UInt8) : Unrefused (storeRuns copy rs data) := by
  induction rs generalizing data with
  | nil => exact pure ()
  | cons r rest ih => exact ((modify _).bind fun _ => postStore hcopy _ _ _).bind fun _ => ih _

end

end Unrefused

/-- A store that the bus refuses changes nothing. -/
theorem eq_of_refused {transfer : Transfer} {address : UInt32} {data : List UInt8} {bus : Bus}
    {e : BusError} {bus' : Bus} (h : store transfer address data bus = .error e bus')
    (hrefused : e.refused = true) : bus' = bus := by
  simp only [store, storeSpan] at h
  cases hroute : route transfer address data.length with
  | error e' =>
    rw [hroute] at h
    cases h
    rfl
  | ok rs =>
    -- Once it has been let through, it is not refused any more
    rw [hroute] at h
    have hnot := Unrefused.storeRuns (Unrefused.nestedCopy nestingLimit) rs data _ _ _ h
    rw [hrefused] at hnot
    cases hnot

/-! ## Naturally aligned spans -/

/-- A span of at most eight bytes at a multiple of its length, which is a power of two. -/
structure Natural (address : UInt32) (length : Nat) : Prop where
  power : length.isPowerOfTwo
  le : length ≤ 8
  multiple : address.toNat % length = 0

/-- There are four such lengths. -/
theorem Natural.length_eq {address : UInt32} {length : Nat} (h : Natural address length) :
    length = 1 ∨ length = 2 ∨ length = 4 ∨ length = 8 := by
  obtain ⟨k, rfl⟩ := h.power
  have hk : k ≤ 3 := (Nat.pow_le_pow_iff_right (by decide)).mp h.le
  obtain rfl | rfl | rfl | rfl : k = 0 ∨ k = 1 ∨ k = 2 ∨ k = 3 := by omega
  all_goals simp

/-- It stays in the window that it begins in. -/
theorem Natural.inside {address : UInt32} {length : Nat} (h : Natural address length)
    {region : Region} {offset : Nat} (hres : Region.resolve address = .ok (region, offset)) :
    offset + length ≤ region.size := by
  obtain ⟨hbase, hlt⟩ := resolve_lt hres
  -- Windows begin and end at multiples of eight
  have hwindow : region.base % 8 = 0 ∧ region.size % 8 = 0 := by cases region <;> decide
  have hmultiple := h.multiple
  obtain rfl | rfl | rfl | rfl := h.length_eq <;> omega

/-- Both ways to route such a span come to the same. -/
theorem route_natural {address : UInt32} {length : Nat} (h : Natural address length) :
    route .aligned address length = route .unaligned address length := by
  have hpos : 0 < length := by
    have := h.length_eq
    omega
  cases hres : Region.resolve address with
  | error e =>
    -- Byte by byte, the first byte is the one that is reported
    obtain ⟨n, rfl⟩ : ∃ n, length = n + 1 := ⟨length - 1, by omega⟩
    simp only [route, alignedRun, runs, hres, bind, Except.bind]
  | ok owner =>
    obtain ⟨region, offset⟩ := owner
    have hinside := h.inside hres
    have hbase := (resolve_lt hres).1
    rw [route_aligned hbase hinside hpos, route, runs_inside hbase hinside,
      if_neg (Nat.ne_of_gt hpos)]

/-- A store that the bus refuses, however it is routed, changes nothing; and a naturally
aligned span is loaded and stored alike, side effects and faults included, whether it is routed
as a whole or byte by byte. -/
theorem refused_and_routed :
    (∀ transfer address data bus e bus', store transfer address data bus = .error e bus' →
      e.refused = true → bus' = bus) ∧
    ∀ address length, Natural address length →
      load .aligned address length = load .unaligned address length ∧
      ∀ data, data.length = length →
        store .aligned address data = store .unaligned address data := by
  refine ⟨fun _ _ _ _ _ _ => eq_of_refused, fun address length h => ⟨?_, ?_⟩⟩
  · funext bus
    simp only [load, loadSpan, route_natural h]
  · rintro data rfl
    funext bus
    simp only [store, storeSpan, route_natural h]

/-- Four bytes that run from the SI registers into the hole behind them are refused, and eight
bytes at the end of the window of main memory are naturally aligned. -/
theorem refused_and_routed_at_ends :
    (∃ e bus', store .unaligned 0x048FFFFE [1, 2, 3, 4] (initial .smallest 0x120) = .error e bus' ∧
      e.refused = true ∧ bus' = initial .smallest 0x120) ∧
    Natural 0x03EFFFF8 8 ∧
      load .aligned 0x03EFFFF8 8 = load .unaligned 0x03EFFFF8 8 ∧
      store .aligned 0x03EFFFF8 (List.replicate 8 1) =
        store .unaligned 0x03EFFFF8 (List.replicate 8 1) := by
  have hrefused : store .unaligned 0x048FFFFE [1, 2, 3, 4] (initial .smallest 0x120) =
      .error (.unmapped 0x04900000) (initial .smallest 0x120) := rfl
  have hnatural : Natural 0x03EFFFF8 8 := ⟨⟨3, rfl⟩, Nat.le_refl 8, by decide⟩
  obtain ⟨hload, hstore⟩ := refused_and_routed.2 0x03EFFFF8 8 hnatural
  exact ⟨⟨_, _, hrefused, rfl, refused_and_routed.1 _ _ _ _ _ _ hrefused rfl⟩, hnatural, hload,
    hstore _ rfl⟩

end Bus

end Console64
