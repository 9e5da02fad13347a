import Console64.Proofs.WriteTracking

/-!
# Which transfers start which

A store into the registers of the SP, the PI or the SI may start a transfer, and the bytes
that the transfer copies are stores again.  This file finds out which copies each device may
request, and so which transfers can come of which.  SP and SI transfers go to memories only,
where a store sets off nothing more.  So it is with PI transfers into main memory; the other
ones go wherever the cartridge address points.

The copy handed to the devices stands for all that is nested below them.  What a store does
with it is compared for two such copies, which need to be alike on the requests only that the
store may make.

## Key results

- `Bus.Asks`: the copies that a store into a device may request
- `Bus.storeSpan_sameUnless` / `Bus.copyThrough_sameUnless`: stores and block copies do the
  same through two copies that do the same on those requests
- `Bus.inert_of_mayAsk`: past the PI, what a copy starts goes to memories only
-/

namespace Console64

/-- The bus gave the work up because transfers were nested too deeply. -/
def BusError.cutOff : BusError → Bool
  | .nestedTooDeep => true
  | .copyAborted _ cause => cause.cutOff
  | _ => false

/-- The bytes of several runs. -/
def Run.total : List Run → Nat
  | [] => 0
  | r :: rest => r.length + total rest

namespace Bus

variable {α β : Type}

/-- The run ended because the bus gave up. -/
def cutShort : EStateM.Result BusError Bus α → Bool
  | .ok _ _ => false
  | .error e _ => e.cutOff

/-- Unless `x` ends in a fault that is excused, the bus does not give up and `y` ends as `x`
does. -/
def SameUnless (excused : BusError → Prop) (x y : BusM α) : Prop :=
  ∀ bus, (∃ e bus', x bus = .error e bus' ∧ excused e) ∨
    (y bus = x bus ∧ cutShort (x bus) = false)

namespace SameUnless

variable {excused : BusError → Prop}

/-- Comparisons may be put one after the other. -/
theorem trans {x y z : BusM α} (h : SameUnless excused x y) (h' : SameUnless excused y z) :
    SameUnless excused x z := by
  intro bus
  rcases h bus with hx | ⟨hy, -⟩
  · exact .inl hx
  · rw [← hy]
    exact h' bus

/-- Work that never fails. -/
theorem of_ok {x : BusM α} (h : ∀ bus, ∃ a bus', x bus = .ok a bus') : SameUnless excused x x := by
  intro bus
  obtain ⟨a, bus', h⟩ := h bus
  exact .inr ⟨rfl, by rw [h]; rfl⟩

/-- An answer is no fault. -/
theorem pure (a : α) : SameUnless excused (pure a : BusM α) (pure a) := of_ok fun _ => ⟨_, _, rfl⟩

/-- A change of the bus is none either. -/
theorem modify (f : Bus → Bus) :
    SameUnless excused (modify f : BusM PUnit) (modify f) := of_ok fun _ => ⟨_, _, rfl⟩

/-- A fault of another kind. -/
theorem throw {e : BusError} (h : e.cutOff = false) :
    SameUnless excused (throw e : BusM α) (throw e) := fun _ => .inr ⟨rfl, h⟩

/-- What is done with the state at hand. -/
theorem get {f g : Bus → BusM β} (h : ∀ bus, SameUnless excused (f bus) (g bus)) :
    SameUnless excused (get >>= f) (get >>= g) := fun bus => h bus bus

/-- A sequence, whose second parts are compared after answers that the first one can give. -/
theorem bind_of {x y : BusM α} {f g : α → BusM β} (hx : SameUnless excused x y)
    (hf : ∀ {bus a bus'}, x bus = .ok a bus' → SameUnless excused (f a) (g a)) :
    SameUnless excused (x >>= f) (y >>= g) := by
  intro bus
  rcases hx bus with ⟨e, bus', h, he⟩ | ⟨hy, hcut⟩
  · exact .inl ⟨e, bus', bind_of_error h, he⟩
  · cases h : x bus with
    | ok a bus' =>
      rw [bind_of_ok h, bind_of_ok (hy.trans h)]
      exact hf h bus'
    | error e bus' =>
      rw [bind_of_error h, bind_of_error (hy.trans h)]
      exact .inr ⟨rfl, by rwa [h] at hcut⟩

/-- The second parts are alike after all answers. -/
theorem bind {x y : BusM α} {f g : α → BusM β} (hx : SameUnless excused x y)
    (hf : ∀ a, SameUnless excused (f a) (g a)) : SameUnless excused (x >>= f) (y >>= g) :=
  bind_of hx fun _ => hf _

/-- One run after the other. -/
theorem forM {f g : α → BusM PUnit} (h : ∀ a, SameUnless excused (f a) (g a)) :
    ∀ l : List α, SameUnless excused (l.forM f) (l.forM g)
  | [] => pure _
  | a :: l => bind (h a) fun _ => forM h l

/-- A fault that is passed on as the cause of another one. -/
theorem adaptExcept {x y : BusM α} (h : SameUnless excused x y) {wrap : BusError → BusError}
    (hexcused : ∀ {e}, excused e → excused (wrap e)) (hcut : ∀ e, (wrap e).cutOff = e.cutOff) :
    SameUnless excused (EStateM.adaptExcept wrap x) (EStateM.adaptExcept wrap y) := by
  intro bus
  simp only [EStateM.adaptExcept]
  -- A fault that is excused stays so under its new name
  rcases h bus with ⟨e, bus', h, he⟩ | ⟨hy, hnot⟩
  · rw [h]
    exact .inl ⟨_, _, rfl, hexcused he⟩
  · rw [hy]
    cases hx : x bus with
    | ok a bus' => exact .inr ⟨rfl, rfl⟩
    | error e bus' =>
      rw [hx] at hnot
      exact .inr ⟨rfl, (hcut e).trans hnot⟩

/-- A fault that is caught is excused as long as it is thrown again in the end. -/
theorem attempt {x y : BusM α} {f g : Except BusError α → BusM β} (hx : SameUnless excused x y)
    (hok : ∀ a, SameUnless excused (f (.ok a)) (g (.ok a)))
    (herror : ∀ e, e.cutOff = false → SameUnless excused (f (.error e)) (g (.error e)))
    (hthrow : ∀ e bus, ∃ bus', f (.error e) bus = .error e bus') :
    SameUnless excused (attempt x >>= f) (attempt y >>= g) := by
  intro bus
  -- An excused fault is passed on; any other answer is taken up by both
  rcases hx bus with ⟨e, bus', h, he⟩ | ⟨hy, hcut⟩
  · obtain ⟨bus'', hf⟩ := hthrow e bus'
    exact .inl ⟨e, bus'', (bind_attempt_of_error h).trans hf, he⟩
  · cases h : x bus with
    | ok a bus' =>
      rw [bind_attempt_of_ok h, bind_attempt_of_ok (hy.trans h)]
      exact hok a bus'
    | error e bus' =>
      rw [bind_attempt_of_error h, bind_attempt_of_error (hy.trans h)]
      exact herror e (by rwa [h] at hcut) bus'

end SameUnless

/-! ## What devices request -/

/-- A store at this place may start a transfer. -/
def commands (region : Region) (offset : Nat) : Bool :=
  match region with
  | .sp => decide (SignalProcessor.memoryWindow ≤ offset)
  | .pi | .si => true
  | _ => false

/-- No store into the span starts a transfer. -/
def Inert (target : UInt32) (length : Nat) : Prop :=
  ∀ i < length, ∀ region offset,
    Region.resolve (target + UInt32.ofNat i) = .ok (region, offset) → commands region offset = false

/-- The spans that a store at this place may have something copied to. -/
def Asks (region : Region) (offset : Nat) (target : UInt32) (length : Nat) : Prop :=
  match region with
  | .sp => SignalProcessor.memoryWindow ≤ offset ∧ Inert target length
  | .pi => True
  | .si => Inert target length
  | _ => False

/-- There are no commands below the SP registers, and none behind the SI. -/
theorem commands_eq_false {address : UInt32} {region : Region} {offset : Nat}
    (h : Region.resolve address = .ok (region, offset))
    (hout : address.toNat < 0x04040000 ∨ 0x04900000 ≤ address.toNat) :
    commands region offset = false := by
  obtain ⟨hbase, hsize⟩ := resolve_lt h
  cases region with
  | sp =>
    refine decide_eq_false ?_
    simp only [Region.base, Region.size, SignalProcessor.memoryWindow] at *
    omega
  | pi | si =>
    simp only [Region.base, Region.size] at *
    omega
  | _ => rfl

/-- Below the SP registers nothing starts a transfer. -/
theorem inert_of_le {target : UInt32} {length : Nat} (h : target.toNat + length ≤ 0x04040000) :
    Inert target length := by
  intro i hi region offset hres
  refine commands_eq_false hres (.inl ?_)
  rw [UInt32.toNat_add, UInt32.toNat_ofNat']
  omega

/-- The command memory of the PIF. -/
theorem inert_commandMemory : Inert Pif.ramAddress SerialInterface.transferLength := by
  intro i hi region offset hres
  simp only [SerialInterface.transferLength] at hi
  refine commands_eq_false hres (.inr ?_)
  rw [UInt32.toNat_add, UInt32.toNat_ofNat', show Pif.ramAddress.toNat = 0x1FC007C0 from rfl]
  omega

/-! ## The pieces of SP transfers -/

/-- The transfer stands in its bank and in the first 16 MiB. -/
private structure Placed (p : SignalProcessor.Position) : Prop where
  memory : p.memory.toNat < 0x1000
  dram : p.dram.toNat < 0x01000000

/-- Neither end of the piece reaches past the memories. -/
private def Short (piece : SignalProcessor.Piece) : Prop :=
  piece.memory.toNat < 0x2000 ∧ piece.dram.toNat < 0x01001000 ∧ piece.length.toNat ≤ 0x1000

/-- A masked number is not above its mask. -/
private theorem and_lt {a mask : UInt32} {n : Nat} (h : mask.toNat < n) :
    (a &&& mask).toNat < n := by
  rw [UInt32.toNat_and]
  exact Nat.lt_of_le_of_lt Nat.and_le_right h

/-- A row stays in its bank, and leaves the transfer placed for the next one. -/
private theorem rowPieces_short {bank length : UInt32} {p : SignalProcessor.Position}
    (hbank : bank.toNat ≤ 0x1000) (hlength : length.toNat ≤ 0x1000) (skip : UInt32)
    (hp : Placed p) :
    ∀ piece ∈ SignalProcessor.rowPieces bank length skip p, Short piece ∧ Placed piece.next := by
  obtain ⟨hmemory, hdram⟩ := hp
  have hfirst : (SignalProcessor.bankSize - p.memory).toNat = 0x1000 - p.memory.toNat :=
    UInt32.toNat_sub_of_le _ _ (UInt32.le_iff_toNat_le.mpr (Nat.le_of_lt hmemory))
  have hstart : (bank + p.memory).toNat < 0x2000 := by
    rw [UInt32.toNat_add]
    omega
  have hrow : p.dram.toNat < 0x01001000 := Nat.lt_trans hdram (by decide)
  have hmask (a : UInt32) : (a &&& (SignalProcessor.bankSize - 1)).toNat < 0x1000 :=
    and_lt (by decide)
  have hnext (a : UInt32) : (a &&& 0x00FFFFFF).toNat < 0x01000000 := and_lt (by decide)
  simp only [SignalProcessor.rowPieces]
  split
  -- One piece, or two if the row goes past the end of the bank
  case isTrue =>
    simp only [List.forall_mem_cons]
    exact ⟨⟨⟨hstart, hrow, hlength⟩, hmask _, hnext _⟩, fun _ h => nomatch h⟩
  case isFalse hle =>
    have hlt : 0x1000 - p.memory.toNat < length.toNat := by
      rwa [UInt32.le_iff_toNat_le, hfirst, Nat.not_le] at hle
    have hrest : (length - (SignalProcessor.bankSize - p.memory)).toNat ≤ 0x1000 := by
      rw [UInt32.toNat_sub_of_le _ _ (UInt32.le_iff_toNat_le.mpr (by omega))]
      omega
    have hsecond : (p.dram + (SignalProcessor.bankSize - p.memory)).toNat < 0x01001000 := by
      rw [UInt32.toNat_add]
      omega
    have hshort : (SignalProcessor.bankSize - p.memory).toNat ≤ 0x1000 := by omega
    have hlow : bank.toNat < 0x2000 := by omega
    simp only [List.forall_mem_cons]
    exact ⟨⟨⟨hstart, hrow, hshort⟩, Nat.succ_pos _, hdram⟩,
      ⟨⟨hlow, hsecond, hrest⟩, hmask _, hnext _⟩, fun _ h => nomatch h⟩

/-- All rows stay in the bank, one after the other. -/
private theorem piecesOf_short {bank length skip : UInt32} (hbank : bank.toNat ≤ 0x1000)
    (hlength : length.toNat ≤ 0x1000) (rows : Nat) {p : SignalProcessor.Position} (hp : Placed p) :
    ∀ piece ∈ SignalProcessor.piecesOf bank length skip rows p, Short piece := by
  -- Induction on the rows: the last piece of one says where the next one starts
  induction rows generalizing p with
  | zero => exact fun _ h => nomatch h
  | succ rows ih =>
    have hrow := rowPieces_short hbank hlength skip hp
    simp only [SignalProcessor.piecesOf, List.forall_mem_append]
    refine ⟨fun piece h => (hrow piece h).1, ih ?_⟩
    cases hlast : (SignalProcessor.rowPieces bank length skip p).getLast? with
    | none => exact hp
    | some piece => exact (hrow piece (List.mem_of_getLast? hlast)).2

/-- An SP transfer copies between memories. -/
theorem inert_of_mem_pieces {sp : SignalProcessor} {register : UInt32}
    {piece : SignalProcessor.Piece} (h : piece ∈ sp.pieces register) :
    Inert piece.dram piece.length.toNat ∧
      Inert (SignalProcessor.memoryBase + piece.memory) piece.length.toNat := by
  have hrow : (SignalProcessor.rowLength register).toNat ≤ 0x1000 := by
    have hor : ((register &&& 0xFFF) ||| 7).toNat < 2 ^ 12 := by
      rw [UInt32.toNat_or]
      exact Nat.or_lt_two_pow (and_lt (by decide)) (by decide)
    rw [SignalProcessor.rowLength, UInt32.toNat_add, show (1 : UInt32).toNat = 1 from rfl]
    omega
  -- The transfer starts placed, since its registers are masked
  obtain ⟨hmemory, hdram, hlength⟩ := piecesOf_short
    (Nat.le_of_lt_succ (and_lt (by decide))) hrow (SignalProcessor.rowCount register)
    ⟨and_lt (by decide), and_lt (by decide)⟩ piece h
  refine ⟨inert_of_le (by omega), inert_of_le ?_⟩
  rw [UInt32.toNat_add, show SignalProcessor.memoryBase.toNat = 0x04000000 from rfl]
  omega

/-! ## Side effects of stores -/

section
variable {excused : BusError → Prop} {c d : BlockCopy}

/-- A PI transfer copies once, anywhere. -/
private theorem peripheralTransfer_sameUnless
    (h : ∀ source target length,
      SameUnless excused (c source target length) (d source target length))
    (toDram : Bool) (register : UInt32) :
    SameUnless excused (peripheralTransfer c toDram register)
      (peripheralTransfer d toDram register) := by
  unfold peripheralTransfer
  -- A fault of the copy is caught while the transfer is closed, and thrown again
  refine .bind (.modify _) fun _ => .get fun first => .get fun second => ?_
  refine .attempt ?_ (fun _ => .modify _) (fun e he => .bind (.modify _) fun _ => .throw he)
    fun _ _ => ⟨_, rfl⟩
  split
  · exact h _ _ _
  · exact h _ _ _

/-- Two registers of the PI start transfers. -/
private theorem peripheralStored_sameUnless
    (h : ∀ source target length,
      SameUnless excused (c source target length) (d source target length)) (slot : Nat) :
    SameUnless excused (peripheralStored c slot) (peripheralStored d slot) := by
  unfold peripheralStored
  refine .get fun bus => ?_
  split
  · exact peripheralTransfer_sameUnless h false _
  · exact peripheralTransfer_sameUnless h true _
  · refine .bind (.modify _) fun _ => ?_
    split
    · exact .modify _
    · exact .pure _
  · exact .pure _

variable (h : ∀ source target length, Inert target length →
  SameUnless excused (c source target length) (d source target length))
include h

/-- An SI transfer copies once, to main memory or to the command memory. -/
private theorem serialTransfer_sameUnless (direction : SerialTransfer) :
    SameUnless excused (serialTransfer c direction) (serialTransfer d direction) := by
  unfold serialTransfer
  refine .get fun bus => ?_
  cases direction with
  | pifToDram =>
    -- The address register has 24 bits, so that the end is far below the registers
    have hdram : bus.si.dramAddress.toNat < 0x01000000 := and_lt (by decide)
    refine .bind (h _ _ _ (inert_of_le ?_)) fun _ => .modify _
    rw [SerialInterface.transferLength]
    omega
  | dramToPif => exact .bind (h _ _ _ inert_commandMemory) fun _ => .modify _

/-- Two registers of the SI start transfers. -/
private theorem serialStored_sameUnless (slot : Nat) :
    SameUnless excused (serialStored c slot) (serialStored d slot) := by
  unfold serialStored
  split
  · exact serialTransfer_sameUnless h _
  · exact serialTransfer_sameUnless h _
  · exact .modify _
  · exact .pure _

/-- The pieces of a transfer, and what is done when it stops: `stop` must throw the fault
again. -/
private theorem copyPieces_sameUnless (direction : SignalTransfer)
    {stop : SignalProcessor.Position × Option BusError → BusM Unit}
    (hstop : ∀ p, SameUnless excused (stop (p, none)) (stop (p, none)))
    (hfault : ∀ p e, e.cutOff = false → SameUnless excused (stop (p, some e)) (stop (p, some e)))
    (hthrow : ∀ p e bus, ∃ bus', stop (p, some e) bus = .error e bus')
    {pieces : List SignalProcessor.Piece}
    (hpieces : ∀ piece ∈ pieces, Inert piece.dram piece.length.toNat ∧
      Inert (SignalProcessor.memoryBase + piece.memory) piece.length.toNat)
    (p : SignalProcessor.Position) :
    SameUnless excused (copyPieces c direction pieces p >>= stop)
      (copyPieces d direction pieces p >>= stop) := by
  -- Induction on the pieces; one that fails stops the others
  induction pieces generalizing p with
  | nil => exact hstop p
  | cons piece rest ih =>
    simp only [List.forall_mem_cons] at hpieces
    obtain ⟨⟨hdram, hmemory⟩, hrest⟩ := hpieces
    simp only [copyPieces, bind_assoc]
    refine .attempt ?_ (fun _ => ih hrest piece.next) (fun e he => hfault p e he)
      fun e bus => hthrow p e bus
    cases direction with
    | dramToMemory => exact h _ _ _ hmemory
    | memoryToDram => exact h _ _ _ hdram

/-- An SP transfer copies its pieces, each between memories. -/
private theorem signalTransfer_sameUnless (direction : SignalTransfer) (register : UInt32) :
    SameUnless excused (signalTransfer c direction register)
      (signalTransfer d direction register) := by
  unfold signalTransfer
  refine .bind (.modify _) fun _ => .get fun bus => ?_
  refine copyPieces_sameUnless h direction (fun p => ?_) (fun p e he => ?_) (fun p e bus' => ?_)
    (fun piece hpiece => inert_of_mem_pieces hpiece) _
  -- Closed without a fault, or with one that is thrown again
  · exact .bind (.modify _) fun _ => .pure _
  · exact .bind (.modify _) fun _ => .throw he
  · exact ⟨_, rfl⟩

/-- Two registers of the SP start transfers. -/
private theorem signalStored_sameUnless (slot : Nat) :
    SameUnless excused (signalStored c slot) (signalStored d slot) := by
  unfold signalStored
  refine .get fun bus => ?_
  split
  · exact signalTransfer_sameUnless h _ _
  · exact signalTransfer_sameUnless h _ _
  · exact .modify _
  · exact .modify _
  · exact .pure _

end

/-! ## Routing -/

/-- An address without an owner is a fault of its own kind. -/
private theorem resolve_cutOff {address : UInt32} {e : BusError}
    (h : Region.resolve address = .error e) : e.cutOff = false := by
  simp only [Region.resolve] at h
  split at h
  case h_1 => cases h
  case h_2 =>
    cases h
    rfl

/-- So runs fail for this reason only. -/
private theorem runs_cutOff {address : UInt32} {length : Nat} {e : BusError}
    (h : runs address length = .error e) : e.cutOff = false := by
  induction length generalizing address with
  -- Induction on the length; the fault is that of the first byte or of the rest
  | zero => cases h
  | succ length ih =>
    simp only [runs, bind, Except.bind] at h
    cases hres : Region.resolve address with
    | error e' =>
      rw [hres] at h
      cases h
      exact resolve_cutOff hres
    | ok owner =>
      cases hrest : runs (address + 1) length with
      | error e' =>
        rw [hres, hrest] at h
        cases h
        exact ih hrest
      | ok rest =>
        rw [hres, hrest] at h
        dsimp only at h
        repeat' split at h
        all_goals cases h

/-- Routing does not fail because of nesting. -/
theorem route_cutOff {transfer : Transfer} {address : UInt32} {length : Nat} {e : BusError}
    (h : route transfer address length = .error e) : e.cutOff = false := by
  cases transfer with
  | unaligned => exact runs_cutOff h
  -- An aligned access is refused where nothing is mapped, or where it would leave its region
  | aligned =>
    simp only [route, alignedRun, bind, Except.bind] at h
    cases hres : Region.resolve address with
    | error e' =>
      rw [hres] at h
      cases h
      exact resolve_cutOff hres
    | ok owner =>
      rw [hres] at h
      dsimp only at h
      by_cases hfits : owner.1.size < owner.2 + length
      · rw [if_pos hfits] at h
        cases h
        rfl
      · rw [if_neg hfits] at h
        cases h

/-- A run starts at a byte of the span. -/
theorem resolve_of_mem_runs {address : UInt32} {length : Nat} {rs : List Run}
    (h : runs address length = .ok rs) {r : Run} (hr : r ∈ rs) :
    ∃ i < length, Region.resolve (address + UInt32.ofNat i) = .ok (r.region, r.offset) := by
  induction length generalizing address rs r with
  | zero =>
    cases h
    exact nomatch hr
  | succ length ih =>
    -- The run starts at the first byte, or is one of those that follow it
    have hlater {rest : List Run} (hrest : runs (address + 1) length = .ok rest) (hr : r ∈ rest) :
        ∃ i < length + 1, Region.resolve (address + UInt32.ofNat i) = .ok (r.region, r.offset) := by
      obtain ⟨i, hi, hres⟩ := ih hrest hr
      refine ⟨i + 1, Nat.succ_lt_succ hi, ?_⟩
      rwa [Nat.add_comm, UInt32.ofNat_add, ← UInt32.add_assoc]
    have hfirst {region : Region} {offset n : Nat}
        (hres : Region.resolve address = .ok (region, offset)) (heq : r = ⟨region, offset, n⟩) :
        ∃ i < length + 1, Region.resolve (address + UInt32.ofNat i) = .ok (r.region, r.offset) := by
      subst heq
      exact ⟨0, Nat.succ_pos _, by rwa [show UInt32.ofNat 0 = 0 from rfl, UInt32.add_zero]⟩
    obtain ⟨region, offset, rest, hres, hrest, rfl | ⟨n, others, rfl, rfl⟩⟩ := runs_succ h
    · rcases List.mem_cons.mp hr with heq | hmem
      · exact hfirst hres heq
      · exact hlater hrest hmem
    · rcases List.mem_cons.mp hr with heq | hmem
      · exact hfirst hres heq
      · exact hlater hrest (List.mem_cons_of_mem _ hmem)

/-- Bytes are put into runs, none is left out. -/
private theorem total_runs {address : UInt32} {length : Nat} {rs : List Run}
    (h : runs address length = .ok rs) : Run.total rs = length := by
  induction length generalizing address rs with
  | zero =>
    cases h
    rfl
  | succ length ih =>
    -- The first byte starts a run of its own, or the run behind it is made longer
    obtain ⟨region, offset, rest, -, hrest, rfl | ⟨n, others, rfl, rfl⟩⟩ := runs_succ h
    · rw [Run.total, ih hrest, Nat.add_comm]
    · have htotal := ih hrest
      rw [Run.total] at htotal ⊢
      dsimp only at htotal ⊢
      omega

/-- A device gives as many bytes as it is asked for. -/
theorem length_deviceLoad (bus : Bus) (region : Region) (offset length : Nat) :
    (bus.deviceLoad region offset length).1.length = length := by
  have hmap (f : Nat → UInt8) : ((List.range length).map f).length = length := by
    rw [List.length_map, List.length_range]
  cases region with
  | sp =>
    simp only [deviceLoad, SignalProcessor.load]
    split
    · exact hmap _
    · split <;> exact hmap _
  | _ => exact hmap _

/-- The runs of a span make up its length, however it is routed. -/
theorem total_route {transfer : Transfer} {address : UInt32} {length : Nat} {rs : List Run}
    (h : route transfer address length = .ok rs) : Run.total rs = length := by
  cases transfer with
  | unaligned => exact total_runs h
  | aligned =>
    simp only [route, alignedRun, bind, Except.bind] at h
    cases hres : Region.resolve address with
    | error e =>
      rw [hres] at h
      cases h
    | ok owner =>
      rw [hres] at h
      dsimp only at h
      by_cases hfits : owner.1.size < owner.2 + length
      · rw [if_pos hfits] at h
        cases h
      · rw [if_neg hfits] at h
        cases h
        rfl

/-- So none of them is longer than the span. -/
theorem length_le_of_mem_route {transfer : Transfer} {address : UInt32} {length : Nat}
    {rs : List Run} (h : route transfer address length = .ok rs) {r : Run} (hr : r ∈ rs) :
    r.length ≤ length := by
  -- A run is part of the total
  have htotal : ∀ rs : List Run, r ∈ rs → r.length ≤ Run.total rs := by
    intro rs hr
    induction rs with
    | nil => exact nomatch hr
    | cons s rest ih =>
      rw [Run.total]
      rcases List.mem_cons.mp hr with rfl | hin
      · omega
      · have := ih hin
        omega
  exact Nat.le_trans (htotal rs hr) (Nat.le_of_eq (total_route h))

/-- So do several of them. -/
private theorem length_loadRuns (bus : Bus) (rs : List Run) :
    (bus.loadRuns rs).1.length = Run.total rs := by
  induction rs generalizing bus with
  | nil => rfl
  | cons r rest ih =>
    show ((bus.deviceLoad r.region r.offset r.length).1 ++ _).length = _
    rw [List.length_append, length_deviceLoad, ih]
    rfl

/-- A load gives as many bytes as it was asked for. -/
theorem length_loadSpan {transfer : Transfer} {address : UInt32} {length : Nat} {bus bus' : Bus}
    {bytes : List UInt8} (h : loadSpan transfer address length bus = .ok bytes bus') :
    bytes.length = length := by
  simp only [loadSpan] at h
  cases hroute : route transfer address length with
  | error e =>
    rw [hroute] at h
    cases h
  | ok rs =>
    rw [hroute] at h
    cases h
    rw [length_loadRuns, total_route hroute]

/-! ## Stores and copies -/

section
variable {excused : BusError → Prop} {c d : BlockCopy}

/-- The side effects of a store depend on the copies that the store asks for. -/
theorem postStore_sameUnless {region : Region} {offset : Nat}
    (h : ∀ source target length, Asks region offset target length →
      SameUnless excused (c source target length) (d source target length)) (length : Nat) :
    SameUnless excused (postStore c region offset length) (postStore d region offset length) := by
  unfold postStore
  -- Only the SP, the PI and the SI start copies behind a store
  cases region with
  | sp =>
    dsimp only
    split
    case isTrue => exact .pure _
    case isFalse hout =>
      have hinert source target length (hi : Inert target length) :=
        h source target length ⟨Nat.le_of_not_lt hout, hi⟩
      exact .get fun _ => .forM (signalStored_sameUnless hinert) _
  | pi => exact .get fun _ => .forM (peripheralStored_sameUnless fun _ _ _ => h _ _ _ trivial) _
  | si => exact .get fun _ => .forM (serialStored_sameUnless h) _
  | mi | pif => exact .modify _
  | vi | ai =>
    refine .get fun bus => ?_
    split
    · exact .modify _
    · exact .pure _
  | _ => exact .pure _

/-- So do several stores, each with what it asks for. -/
theorem storeRuns_sameUnless {rs : List Run}
    (h : ∀ r ∈ rs, ∀ source target length, Asks r.region r.offset target length →
      SameUnless excused (c source target length) (d source target length)) (data : List UInt8) :
    SameUnless excused (storeRuns c rs data) (storeRuns d rs data) := by
  induction rs generalizing data with
  | nil => exact .pure _
  | cons r rest ih =>
    simp only [List.forall_mem_cons] at h
    exact .bind (.bind (.modify _) fun _ => postStore_sameUnless h.1 _) fun _ => ih h.2 _

/-- A store depends on the copies that its runs ask for. -/
theorem storeSpan_sameUnless {transfer : Transfer} {address : UInt32} {data : List UInt8}
    (h : ∀ rs, route transfer address data.length = .ok rs → ∀ r ∈ rs, ∀ source target length,
      Asks r.region r.offset target length →
        SameUnless excused (c source target length) (d source target length)) :
    SameUnless excused (storeSpan c transfer address data) (storeSpan d transfer address data) := by
  unfold storeSpan
  cases hroute : route transfer address data.length with
  | error e => exact .throw (route_cutOff hroute)
  | ok rs => exact storeRuns_sameUnless (h rs hroute) data

/-- Loads start no copies. -/
theorem loadSpan_sameUnless (transfer : Transfer) (address : UInt32) (length : Nat) :
    SameUnless excused (loadSpan transfer address length) (loadSpan transfer address length) := by
  unfold loadSpan
  cases hroute : route transfer address length with
  | error e => exact .throw (route_cutOff hroute)
  | ok rs => exact .of_ok fun _ => ⟨_, _, rfl⟩

end

/-- The copies that a block copy may start: those that the stores of its bytes ask for. -/
def MayAsk (target : UInt32) (length : Nat) (target' : UInt32) (length' : Nat) : Prop :=
  ∃ i < length, ∃ region offset,
    Region.resolve (target + UInt32.ofNat i) = .ok (region, offset) ∧
      Asks region offset target' length'

/-- A store by the unit depends on the copies that its block copy may start. -/
private theorem copyUnits_sameUnless {excused : BusError → Prop} {c d : BlockCopy}
    (hwrap : ∀ {n e}, excused e → excused (.copyAborted n e)) {target : UInt32} {length : Nat}
    (h : ∀ source' target' length', MayAsk target length target' length' →
      SameUnless excused (c source' target' length') (d source' target' length'))
    (source : UInt32) (units moved : Nat) :
    SameUnless excused (copyUnits c source target length units moved)
      (copyUnits d source target length units moved) := by
  induction units generalizing moved with
  | zero => exact .pure _
  | succ units ih =>
    simp only [copyUnits]
    refine .bind (.adaptExcept ?_ hwrap fun _ => rfl) fun _ => ih _
    refine .bind_of (loadSpan_sameUnless _ _ _) fun {_ bytes _} hload => ?_
    have hlength := length_loadSpan hload
    refine storeSpan_sameUnless fun rs hroute r hr source' target' length' hasks => ?_
    -- The byte at which the run starts is one of those that are copied
    obtain ⟨i, hi, hres⟩ := resolve_of_mem_runs hroute hr
    refine h source' target' length' ⟨moved + i, by omega, r.region, r.offset, ?_, hasks⟩
    rwa [UInt32.ofNat_add, ← UInt32.add_assoc]

/-- A block copy depends on the copies that it may start. -/
theorem copyThrough_sameUnless {excused : BusError → Prop} {c d : BlockCopy}
    (hwrap : ∀ {n e}, excused e → excused (.copyAborted n e)) {target : UInt32} {length : Nat}
    (h : ∀ source' target' length', MayAsk target length target' length' →
      SameUnless excused (c source' target' length') (d source' target' length'))
    (source : UInt32) :
    SameUnless excused (copyThrough c source target length)
      (copyThrough d source target length) := copyUnits_sameUnless hwrap h source _ _

/-! ## Requests after requests -/

/-- Copies between memories start none. -/
theorem not_mayAsk_of_inert {target target' : UInt32} {length length' : Nat}
    (h : Inert target length) : ¬MayAsk target length target' length' := by
  rintro ⟨i, hi, region, offset, hres, hasks⟩
  have hnone := h i hi region offset hres
  cases region with
  | sp => exact of_decide_eq_false hnone hasks.1
  | pi | si => exact nomatch hnone
  | _ => exact hasks

/-- A byte of the span belongs to the PI, whose transfers may go anywhere. -/
def reachesPeripheral (target : UInt32) (length : Nat) : Bool :=
  (List.range length).any fun i => Region.pi.contains (target + UInt32.ofNat i).toNat

/-- The other devices only ask for copies to memories. -/
theorem inert_of_asks {region : Region} {offset : Nat} {target : UInt32} {length : Nat}
    (hout : region ≠ .pi) (h : Asks region offset target length) : Inert target length := by
  cases region with
  | sp => exact h.2
  | si => exact h
  | pi => exact absurd rfl hout
  | _ => exact h.elim

/-- Past the PI, what a copy starts goes to memories only. -/
theorem inert_of_mayAsk {target target' : UInt32} {length length' : Nat}
    (hout : reachesPeripheral target length = false) (h : MayAsk target length target' length') :
    Inert target' length' := by
  obtain ⟨i, hi, region, offset, hres, hasks⟩ := h
  refine inert_of_asks ?_ hasks
  rintro rfl
  obtain ⟨hbase, hsize⟩ := resolve_lt hres
  have hnot := List.any_eq_false.mp hout i (List.mem_range.mpr hi)
  simp only [Region.contains, Bool.and_eq_true, decide_eq_true_eq] at hnot
  simp only [Region.stop] at hnot
  omega

end Bus

end Console64
