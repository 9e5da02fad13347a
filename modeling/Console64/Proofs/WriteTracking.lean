import Console64.Proofs.Frame
import Console64.Proofs.LogCoverage

/-!
# Every write to main memory is recorded

This file proves that whatever is stored over the bus, by the CPU or by a transfer
between devices to any depth of nesting, a byte of main memory that changes is covered
by the write log, and that nothing on the bus depends on the log.

## Key results

- `Bus.Tracked`: main memory differs only where the log says so, and the cartridge is
  the same
- `Bus.load_respects` / `Bus.store_respects`: loads and stores, with all that they set
  off, only make tracked changes and act alike whatever is in the log
-/

namespace Console64

/-! ## Main memory -/

/-- A store leaves the bytes outside its span alone. -/
theorem Rdram.byteAt_store_of_not_mem (m : Rdram) (offset a : Nat) (data : List UInt8)
    (h : a < offset ∨ offset + data.length ≤ a) : (m.store offset data).byteAt a = m.byteAt a := by
  induction data generalizing m offset with
  | nil => rfl
  | cons byte rest ih =>
    simp only [List.length_cons] at h
    -- The first byte misses `a`, and so do the rest
    rw [Rdram.store, ih _ _ (by omega), byteAt_storeByte]
    have hne : ¬(offset = a ∧ offset < m.size) := by omega
    rw [if_neg hne]

/-- A run lies inside its region. -/
def Run.Inside (r : Run) : Prop := r.offset + r.length ≤ r.region.size

namespace Bus

/-! ## Tracked changes -/

/-- The devices alone: the bus with an empty log. -/
def devices (bus : Bus) : Bus := { bus with writes := {} }

/-- Main memory was changed only where the log of the later state says so, nothing
was taken out of the log, and nothing past main memory entered it. -/
structure Tracked (before after : Bus) : Prop where
  watching : after.writes.watching = before.writes.watching
  cartridge : after.cartridge = before.cartridge
  covers : ∀ {a}, before.writes.Covers a → after.writes.Covers a
  changed : before.writes.watching = true → ∀ {a},
    after.rdram.byteAt a ≠ before.rdram.byteAt a → after.writes.Covers a
  inside : (∀ r ∈ before.writes.ranges.toList, r.stop ≤ Region.rdram.size) →
    ∀ r ∈ after.writes.ranges.toList, r.stop ≤ Region.rdram.size

/-- What touches neither main memory nor the cartridge nor the log is tracked. -/
theorem Tracked.of_eq {s t : Bus} (hrdram : t.rdram = s.rdram) (hcart : t.cartridge = s.cartridge)
    (hlog : t.writes = s.writes) : Tracked s t where
  watching := by rw [hlog]
  cartridge := hcart
  covers h := hlog ▸ h
  changed _ _ h := absurd (by rw [hrdram]) h
  inside h := hlog ▸ h

/-- Tracked changes add up. -/
theorem Tracked.trans {s t u : Bus} (h₁ : Tracked s t) (h₂ : Tracked t u) : Tracked s u where
  watching := h₂.watching.trans h₁.watching
  cartridge := h₂.cartridge.trans h₁.cartridge
  covers h := h₂.covers (h₁.covers h)
  changed hwatch a h := by
    -- A byte that differs at the end has changed in one of the two steps
    by_cases hsecond : u.rdram.byteAt a = t.rdram.byteAt a
    · exact h₂.covers (h₁.changed hwatch (hsecond ▸ h))
    · exact h₂.changed (h₁.watching.trans hwatch) hsecond
  inside h := h₂.inside (h₁.inside h)

/-- The frame of all work on the bus: it makes tracked changes, and does not look at
the log. -/
def frame : Frame Bus where
  change := Tracked
  change_refl _ := .of_eq rfl rfl rfl
  change_trans := Tracked.trans
  same s t := s.devices = t.devices

/-- A change of the other devices. -/
private theorem respects_devices {f : Bus → Bus}
    (h : ∀ s, (f s).rdram = s.rdram ∧ (f s).cartridge = s.cartridge ∧ (f s).writes = s.writes ∧
      (f s).devices = (f s.devices).devices) : frame.Respects (modify f : BusM PUnit) := by
  apply Frame.respects_modify
  · intro s
    obtain ⟨hrdram, hcart, hlog, _⟩ := h s
    exact .of_eq hrdram hcart hlog
  · intro s t hst
    show (f s).devices = (f t).devices
    rw [(h s).2.2.2, (h t).2.2.2, show s.devices = t.devices from hst]

/-- What is done with a view of the devices. -/
private theorem respects_view {β : Type} {f : Bus → BusM β} (hf : ∀ s, frame.Respects (f s))
    (hdev : ∀ s, f s = f s.devices) : frame.Respects (get >>= f) := by
  refine Frame.respects_get hf fun s t hst => ?_
  rw [hdev s, hdev t, show s.devices = t.devices from hst]

/-! ## Loads -/

/-- The frame of loads: they leave main memory, the cartridge and the log alone. -/
def loadFrame : Frame Bus where
  change s t := t.rdram = s.rdram ∧ t.cartridge = s.cartridge ∧ t.writes = s.writes
  change_refl _ := ⟨rfl, rfl, rfl⟩
  change_trans h h' := ⟨h'.1.trans h.1, h'.2.1.trans h.2.1, h'.2.2.trans h.2.2⟩
  same s t := s.devices = t.devices

/-- What loads leave alone is tracked. -/
theorem respects_of_load {α : Type} {x : BusM α} (h : loadFrame.Respects x) : frame.Respects x :=
  h.weaken (fun _ _ hchange => .of_eq hchange.1 hchange.2.1 hchange.2.2) rfl

/-- A load from one device changes at most the signal processor. -/
private theorem deviceLoad_respects (region : Region) (offset length : Nat) :
    loadFrame.Respects (fun bus => .ok (bus.deviceLoad region offset length).1
      (bus.deviceLoad region offset length).2 : BusM (List UInt8)) := by
  refine Frame.respects_modifyGet (fun s => ?_) fun s t hst => ?_
  · cases region <;> exact ⟨rfl, rfl, rfl⟩
  · have hs : s.devices.deviceLoad region offset length =
        ((s.deviceLoad region offset length).1, (s.deviceLoad region offset length).2.devices) := by
      cases region <;> rfl
    have ht : t.devices.deviceLoad region offset length =
        ((t.deviceLoad region offset length).1, (t.deviceLoad region offset length).2.devices) := by
      cases region <;> rfl
    rw [show s.devices = t.devices from hst, ht, Prod.mk.injEq] at hs
    exact ⟨hs.1.symm, hs.2.symm⟩

/-- So does a load of several runs. -/
private theorem loadRuns_respects (runs : List Run) :
    loadFrame.Respects (fun bus => .ok (bus.loadRuns runs).1 (bus.loadRuns runs).2 :
      BusM (List UInt8)) := by
  induction runs with
  | nil => exact Frame.respects_pure []
  | cons r rest ih =>
    exact Frame.respects_bind (deviceLoad_respects r.region r.offset r.length) fun bytes =>
      Frame.respects_bind ih fun others => Frame.respects_pure (bytes ++ others)

/-- A load of a span leaves main memory and the log alone. -/
theorem loadSpan_respects (transfer : Transfer) (address : UInt32) (length : Nat) :
    loadFrame.Respects (loadSpan transfer address length) := by
  unfold loadSpan
  cases route transfer address length with
  | error e => exact Frame.respects_throw e
  | ok runs => exact loadRuns_respects runs

/-- A load of a word leaves main memory and the log alone. -/
theorem readWord_loadFrame (address : UInt32) : loadFrame.Respects (readWord address) :=
  Frame.respects_bind
    (Frame.respects_bind (loadSpan_respects _ _ _) fun _ => Frame.respects_pure _) fun _ =>
      Frame.respects_pure _

/-! ## Side effects of stores -/

/-- A copy that respects the frame. -/
private def SoundCopy (copy : BlockCopy) : Prop :=
  ∀ source target length, frame.Respects (copy source target length)

section
variable {copy : BlockCopy} (hcopy : SoundCopy copy)
include hcopy

/-- A transfer of the PI is a copy between changes of the PI alone, -/
private theorem peripheralTransfer_respects (toDram : Bool) (register : UInt32) :
    frame.Respects (peripheralTransfer copy toDram register) := by
  unfold peripheralTransfer
  refine Frame.respects_bind (respects_devices fun _ => ⟨rfl, rfl, rfl, rfl⟩) fun _ => ?_
  refine respects_view (fun first => ?_) fun _ => rfl
  refine respects_view (fun second => ?_) fun _ => rfl
  -- A fault of the copy is passed on once the registers have been set
  refine Frame.respects_bind (Frame.respects_attempt ?_) fun result => ?_
  · split
    · exact hcopy _ _ _
    · exact hcopy _ _ _
  · cases result with
    | ok _ => exact respects_devices fun _ => ⟨rfl, rfl, rfl, rfl⟩
    | error e =>
      exact Frame.respects_bind (respects_devices fun _ => ⟨rfl, rfl, rfl, rfl⟩) fun _ =>
        Frame.respects_throw e

/-- and is what its length registers have as a side effect. -/
private theorem peripheralStored_respects (slot : Nat) :
    frame.Respects (peripheralStored copy slot) := by
  unfold peripheralStored
  refine respects_view (fun bus => ?_) fun _ => rfl
  split
  · exact peripheralTransfer_respects hcopy false _
  · exact peripheralTransfer_respects hcopy true _
  · refine Frame.respects_bind (respects_devices fun _ => ⟨rfl, rfl, rfl, rfl⟩) fun _ => ?_
    split
    · exact respects_devices fun _ => ⟨rfl, rfl, rfl, rfl⟩
    · exact Frame.respects_pure _
  · exact Frame.respects_pure _

/-- So it is with the SI, -/
private theorem serialTransfer_respects (direction : SerialTransfer) :
    frame.Respects (serialTransfer copy direction) := by
  unfold serialTransfer
  refine respects_view (fun bus => ?_) fun _ => rfl
  cases direction with
  | pifToDram =>
    exact Frame.respects_bind (hcopy _ _ _) fun _ =>
      respects_devices fun _ => ⟨rfl, rfl, rfl, rfl⟩
  | dramToPif =>
    exact Frame.respects_bind (hcopy _ _ _) fun _ =>
      respects_devices fun _ => ⟨rfl, rfl, rfl, rfl⟩

/-- and its registers. -/
private theorem serialStored_respects (slot : Nat) :
    frame.Respects (serialStored copy slot) := by
  unfold serialStored
  split
  · exact serialTransfer_respects hcopy _
  · exact serialTransfer_respects hcopy _
  · exact respects_devices fun _ => ⟨rfl, rfl, rfl, rfl⟩
  · exact Frame.respects_pure _

/-- A transfer of the SP is several copies, -/
private theorem copyPieces_respects (direction : SignalTransfer)
    (pieces : List SignalProcessor.Piece) (p : SignalProcessor.Position) :
    frame.Respects (copyPieces copy direction pieces p) := by
  induction pieces generalizing p with
  | nil => exact Frame.respects_pure _
  | cons piece rest ih =>
    unfold copyPieces
    refine Frame.respects_bind (Frame.respects_attempt ?_) fun result => ?_
    · cases direction with
      | dramToMemory => exact hcopy _ _ _
      | memoryToDram => exact hcopy _ _ _
    · -- A piece that fails ends the transfer
      cases result with
      | ok _ => exact ih piece.next
      | error e => exact Frame.respects_pure _

/-- again between changes of the SP alone, -/
private theorem signalTransfer_respects (direction : SignalTransfer) (register : UInt32) :
    frame.Respects (signalTransfer copy direction register) := by
  unfold signalTransfer
  refine Frame.respects_bind (respects_devices fun _ => ⟨rfl, rfl, rfl, rfl⟩) fun _ => ?_
  refine respects_view (fun bus => ?_) fun _ => rfl
  refine Frame.respects_bind (copyPieces_respects hcopy direction _ _) fun (position, fault) => ?_
  refine Frame.respects_bind (respects_devices fun _ => ⟨rfl, rfl, rfl, rfl⟩) fun _ => ?_
  cases fault with
  | some e => exact Frame.respects_throw e
  | none => exact Frame.respects_pure _

/-- and is what its length registers have as a side effect. -/
private theorem signalStored_respects (slot : Nat) :
    frame.Respects (signalStored copy slot) := by
  unfold signalStored
  refine respects_view (fun bus => ?_) fun _ => rfl
  split
  · exact signalTransfer_respects hcopy _ _
  · exact signalTransfer_respects hcopy _ _
  · exact respects_devices fun _ => ⟨rfl, rfl, rfl, rfl⟩
  · exact respects_devices fun _ => ⟨rfl, rfl, rfl, rfl⟩
  · exact Frame.respects_pure _

/-- The side effects of a store respect the frame. -/
private theorem postStore_respects (region : Region) (offset length : Nat) :
    frame.Respects (postStore copy region offset length) := by
  unfold postStore
  cases region with
  | sp =>
    -- Only the three devices with transfers do more than to change themselves
    dsimp only
    split
    · exact Frame.respects_pure _
    · exact respects_view (fun _ => Frame.respects_forM (signalStored_respects hcopy) _)
        fun _ => rfl
  | mi => exact respects_devices fun _ => ⟨rfl, rfl, rfl, rfl⟩
  | vi =>
    refine respects_view (fun bus => ?_) fun _ => rfl
    split
    · exact respects_devices fun _ => ⟨rfl, rfl, rfl, rfl⟩
    · exact Frame.respects_pure _
  | ai =>
    refine respects_view (fun bus => ?_) fun _ => rfl
    split
    · exact respects_devices fun _ => ⟨rfl, rfl, rfl, rfl⟩
    · exact Frame.respects_pure _
  | pi =>
    exact respects_view (fun _ => Frame.respects_forM (peripheralStored_respects hcopy) _)
      fun _ => rfl
  | si =>
    exact respects_view (fun _ => Frame.respects_forM (serialStored_respects hcopy) _)
      fun _ => rfl
  | pif => exact respects_devices fun _ => ⟨rfl, rfl, rfl, rfl⟩
  | _ => exact Frame.respects_pure _

end

/-! ## Routing -/

/-- The owner of an address has it inside its window. -/
theorem resolve_lt {address : UInt32} {region : Region} {offset : Nat}
    (h : Region.resolve address = .ok (region, offset)) :
    region.base + offset = address.toNat ∧ offset < region.size := by
  simp only [Region.resolve] at h
  split at h
  case h_1 r hfind =>
    cases h
    have hmem := List.find?_some hfind
    simp only [Region.contains, Bool.and_eq_true, decide_eq_true_eq] at hmem
    simp only [Region.stop] at hmem
    omega
  case h_2 => exact nomatch h

/-- What the runs of a span are made of: the first byte is a run of its own, or is put in
front of the run that follows it. -/
theorem runs_succ {address : UInt32} {length : Nat} {rs : List Run}
    (h : runs address (length + 1) = .ok rs) :
    ∃ region offset rest, Region.resolve address = .ok (region, offset) ∧
      runs (address + 1) length = .ok rest ∧
      (rs = ⟨region, offset, 1⟩ :: rest ∨
        ∃ n others, rest = ⟨region, offset + 1, n⟩ :: others ∧
          rs = ⟨region, offset, n + 1⟩ :: others) := by
  simp only [runs, bind, Except.bind] at h
  cases hres : Region.resolve address with
  | error e => rw [hres] at h; exact nomatch h
  | ok owner =>
    obtain ⟨region, offset⟩ := owner
    cases hrest : runs (address + 1) length with
    | error e => rw [hres, hrest] at h; exact nomatch h
    | ok rest =>
      refine ⟨region, offset, rest, rfl, rfl, ?_⟩
      rw [hres, hrest] at h
      dsimp only at h
      split at h
      -- The first byte is merged into a run that starts right behind it in the same region
      case h_1 r others =>
        split at h
        case isTrue hmerge =>
          cases h
          simp only [Bool.and_eq_true, decide_eq_true_eq] at hmerge
          obtain ⟨rfl, hoffset⟩ := hmerge
          exact .inr ⟨r.length, others, by rw [← hoffset], rfl⟩
        case isFalse =>
          cases h
          exact .inl rfl
      case h_2 =>
        cases h
        exact .inl rfl

/-- The runs of a span lie inside their regions. -/
private theorem inside_of_runs {address : UInt32} {length : Nat} {rs : List Run}
    (h : runs address length = .ok rs) : ∀ r ∈ rs, r.Inside := by
  -- Induction on the length: the bytes after the first one have been routed
  induction length generalizing address rs with
  | zero =>
    cases h
    exact fun r hr => nomatch hr
  | succ length ih =>
    obtain ⟨region, offset, rest, hres, hrest, rfl | ⟨n, others, rfl, rfl⟩⟩ := runs_succ h
    · have hsingle : (Run.mk region offset 1).Inside := (resolve_lt hres).2
      simp only [List.forall_mem_cons]
      exact ⟨hsingle, ih hrest⟩
    · have hinside := ih hrest
      simp only [List.forall_mem_cons, Run.Inside] at hinside ⊢
      exact ⟨by omega, hinside.2⟩

/-- However a span is routed, its runs lie inside their regions. -/
private theorem inside_of_route {transfer : Transfer} {address : UInt32} {length : Nat}
    {rs : List Run} (h : route transfer address length = .ok rs) : ∀ r ∈ rs, r.Inside := by
  cases transfer with
  | unaligned => exact inside_of_runs h
  | aligned =>
    -- An aligned span is one run, and was refused unless it fits
    simp only [route, alignedRun, bind, Except.bind] at h
    cases hres : Region.resolve address with
    | error e => rw [hres] at h; exact nomatch h
    | ok owner =>
      obtain ⟨region, offset⟩ := owner
      rw [hres] at h
      dsimp only at h
      by_cases hfits : region.size < offset + length
      · rw [if_pos hfits] at h
        exact nomatch h
      · rw [if_neg hfits] at h
        cases h
        simp only [List.forall_mem_cons]
        exact ⟨Nat.le_of_not_lt hfits, fun r hr => nomatch hr⟩

/-! ## Stores and copies -/

/-- What a device stores is tracked: main memory records the span first. -/
private theorem tracked_deviceStore (bus : Bus) {region : Region} {offset : Nat}
    {data : List UInt8} (h : offset + data.length ≤ region.size) :
    Tracked bus ((bus.deviceStore region offset data).noteStore region offset data.length) := by
  cases region with
  | rdram =>
    exact
      { watching := WriteLog.watching_note _ _
        cartridge := rfl
        covers := WriteLog.covers_note_of_covers _
        -- A byte that changes lies in the span, and the span is recorded
        changed := by
          intro hwatch a ha
          apply WriteLog.covers_note hwatch
          rw [ByteRange.contains_iff]
          apply Decidable.byContradiction
          intro hout
          exact ha (Rdram.byteAt_store_of_not_mem _ _ _ _ (by dsimp only at hout; omega))
        inside := fun hin => WriteLog.stop_note hin h }
  | _ => exact .of_eq rfl rfl rfl

/-- A run is stored, and then come the side effects, -/
private theorem storeRun_respects {copy : BlockCopy} (hcopy : SoundCopy copy) {region : Region}
    {offset : Nat} {data : List UInt8} (h : offset + data.length ≤ region.size) :
    frame.Respects (storeRun copy region offset data) := by
  unfold storeRun
  refine Frame.respects_bind ?_ fun _ => postStore_respects hcopy _ _ _
  refine Frame.respects_modify (fun s => tracked_deviceStore s h) fun s t hst => ?_
  -- Recording the span changes only the log, which no device looks at
  have hdev : ∀ u : Bus,
      ((u.deviceStore region offset data).noteStore region offset data.length).devices =
        (u.devices.deviceStore region offset data).devices := by
    intro u
    cases region <;> rfl
  show Bus.devices _ = Bus.devices _
  rw [hdev, hdev, show s.devices = t.devices from hst]

/-- for one run after the other, -/
private theorem storeRuns_respects {copy : BlockCopy} (hcopy : SoundCopy copy) {rs : List Run}
    (hin : ∀ r ∈ rs, r.Inside) (data : List UInt8) :
    frame.Respects (storeRuns copy rs data) := by
  induction rs generalizing data with
  | nil => exact Frame.respects_pure _
  | cons r rest ih =>
    simp only [List.forall_mem_cons] at hin
    have hfits : r.offset + (data.take r.length).length ≤ r.region.size := by
      have := hin.1
      simp only [Run.Inside] at this
      simp only [List.length_take]
      omega
    exact Frame.respects_bind (storeRun_respects hcopy hfits) fun _ => ih hin.2 _

/-- unless the span is refused. -/
private theorem storeSpan_respects {copy : BlockCopy} (hcopy : SoundCopy copy)
    (transfer : Transfer) (address : UInt32) (data : List UInt8) :
    frame.Respects (storeSpan copy transfer address data) := by
  unfold storeSpan
  cases hroute : route transfer address data.length with
  | error e => exact Frame.respects_throw e
  | ok rs => exact storeRuns_respects hcopy (inside_of_route hroute) data

/-- The units of a copy are loads and stores. -/
private theorem copyUnits_respects {copy : BlockCopy} (hcopy : SoundCopy copy)
    (source target : UInt32) (length units done : Nat) :
    frame.Respects (copyUnits copy source target length units done) := by
  induction units generalizing done with
  | zero => exact Frame.respects_pure _
  | succ units ih =>
    unfold copyUnits
    refine Frame.respects_bind (Frame.respects_adaptExcept ?_) fun _ => ih _
    exact Frame.respects_bind (respects_of_load (loadSpan_respects _ _ _)) fun bytes =>
      storeSpan_respects hcopy _ _ bytes

/-- However deeply transfers start transfers, the copies they make respect the frame. -/
private theorem nestedCopy_sound (depth : Nat) : SoundCopy (nestedCopy depth) := by
  -- Induction on the depth left: what a copied byte sets off copies one level down
  induction depth with
  | zero => exact fun _ _ _ => Frame.respects_throw _
  | succ depth ih => exact fun _ _ _ => copyUnits_respects ih _ _ _ _ _

/-! ## The bus as the CPU sees it -/

/-- A load only makes tracked changes, whatever is in the log. -/
theorem load_respects (transfer : Transfer) (address : UInt32) (length : Nat) :
    frame.Respects (load transfer address length) :=
  respects_of_load (loadSpan_respects transfer address length)

/-- A store, with all that it sets off, only makes tracked changes, whatever is in the
log. -/
theorem store_respects (transfer : Transfer) (address : UInt32) (data : List UInt8) :
    frame.Respects (store transfer address data) :=
  storeSpan_respects (nestedCopy_sound nestingLimit) transfer address data

/-- Values are read by loads, -/
theorem readValue_respects (address : UInt32) (size : Nat) :
    frame.Respects (readValue address size) :=
  Frame.respects_bind (load_respects _ _ _) fun _ => Frame.respects_pure _

/-- words among them, -/
theorem readWord_respects (address : UInt32) : frame.Respects (readWord address) :=
  respects_of_load (readWord_loadFrame address)

/-- and written by stores, -/
theorem writeValue_respects (address : UInt32) (size : Nat) (value : UInt64) :
    frame.Respects (writeValue address size value) := store_respects _ _ _

/-- as bytes are. -/
theorem write_respects (address : UInt32) (data : List UInt8) :
    frame.Respects (write address data) := store_respects _ _ _

end Bus

end Console64
