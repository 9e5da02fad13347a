import Console64.Proofs.BusScript
import Console64.Proofs.InterruptStatus
import Console64.Proofs.RegisterBytes

/-!
# Commands in the status of the PI

A store that goes over PI_STATUS is a command: bit 0 of the word that is there afterwards resets the
status, and bit 1 acknowledges the interrupt.  It makes no difference how wide the store is, or
whether a client makes it or a copy does, in whatever transfer.  A store that also goes over a
length register in front of PI_STATUS starts its transfers first, and if one of these fails, there
is no command.

`Commanded` says this of a sequence of steps, as a grammar: a store, the transfers that it starts,
the command, and what comes after it.  All requests come to such steps.

## Key results

- `Bus.Commanded.append`: one sequence after the other
- `Bus.Commanded.exists_store`: a reset is always that of a store
- `Bus.Script.Obeys`: scripts with such steps, with a lemma for each way to compose them
- `Bus.Request.commanded_steps`: so it is with all requests
- `Bus.interrupt_shown`: what shows and what is pending while requests are carried out
-/

namespace Console64

namespace Bus

/-! ## Commands -/

/-- A store of so many bytes among the registers of the PI goes over PI_STATUS, which is at 0x10. -/
def CoversStatus (offset length : Nat) : Prop := offset < 0x14 ∧ 0x10 < offset + length

namespace DeviceStep

/-- What a command in the status of the PI comes to. -/
def statusCommand (command : UInt32) : List DeviceStep :=
  peripheralReset command :: if command &&& 0x02 ≠ 0 then [peripheralAcknowledge] else []

/-- The step is a store over PI_STATUS, or part of a command. -/
def ConcernsStatus : DeviceStep → Prop
  | store .pi offset data => CoversStatus offset data.length
  | peripheralReset _ | peripheralAcknowledge => True
  | _ => False

end DeviceStep

/-- In these steps from `bus` on, the commands are carried out that are stored in PI_STATUS.  If
all is done, every one of them is; if something has failed, the command of a store that goes over a
register in front of PI_STATUS may not be reached. -/
inductive Commanded : (done : Bool) → Bus → List DeviceStep → Prop where
  | nil {done : Bool} {bus : Bus} : Commanded done bus []
  | other {done : Bool} {bus : Bus} {d : DeviceStep} {rest : List DeviceStep}
    (hother : ¬d.ConcernsStatus) (hrest : Commanded done (d.apply bus) rest) :
    Commanded done bus (d :: rest)
  /-- The store, the transfers that it starts, and then the word that is in PI_STATUS. -/
  | command {done : Bool} {bus : Bus} {offset : Nat} {data : List UInt8}
    {transfers rest : List DeviceStep} {word : UInt32}
    (hcovers : CoversStatus offset data.length)
    (htransfers : Commanded true ((DeviceStep.store .pi offset data).apply bus) transfers)
    (hstart : 0x10 ≤ offset → transfers = [])
    (hword : word = ((DeviceStep.store .pi offset data :: transfers).foldl DeviceStep.apply
      bus).pi.registers.stored 4)
    (hrest : Commanded done ((DeviceStep.store .pi offset data :: (transfers ++
      DeviceStep.statusCommand word)).foldl DeviceStep.apply bus) rest) :
    Commanded done bus (.store .pi offset data :: (transfers ++
      (DeviceStep.statusCommand word ++ rest)))
  /-- The store, a transfer that fails, and then no other store of this kind. -/
  | cut {bus : Bus} {offset : Nat} {data : List UInt8} {transfers rest : List DeviceStep}
    (hcovers : CoversStatus offset data.length) (hstart : offset < 0x10)
    (htransfers : Commanded false ((DeviceStep.store .pi offset data).apply bus) transfers)
    (hrest : ∀ d ∈ rest, ¬d.ConcernsStatus) :
    Commanded false bus (.store .pi offset data :: (transfers ++ .peripheralAbort :: rest))

namespace Commanded

variable {done : Bool} {bus : Bus} {ds ds' : List DeviceStep}

/-- Steps that do not concern PI_STATUS. -/
theorem of_others (h : ∀ d ∈ ds, ¬d.ConcernsStatus) : Commanded done bus ds := by
  induction ds generalizing bus with
  | nil => exact .nil
  | cons d rest ih =>
    obtain ⟨hfirst, hrest⟩ := List.forall_mem_cons.mp h
    exact .other hfirst (ih hrest)

/-- After steps that are all done, others may follow. -/
theorem append (h : Commanded true bus ds)
    (h' : Commanded done (ds.foldl DeviceStep.apply bus) ds') :
    Commanded done bus (ds ++ ds') := by
  generalize hdone : true = first at h
  induction h with
  | nil => exact h'
  | other hother _ ih => exact .other hother (ih h' hdone)
  | @command _ bus offset data transfers rest word hcovers htransfers hstart hword _ _ ih =>
    have hrest := ih (by simpa only [List.foldl_cons, List.foldl_append] using h') hdone
    have hall := Commanded.command hcovers htransfers hstart hword hrest
    simpa only [List.cons_append, List.append_assoc] using hall
  | cut => exact nomatch hdone

/-- After steps that have failed, only such as do not concern PI_STATUS. -/
theorem append_others (h : Commanded false bus ds) (h' : ∀ d ∈ ds', ¬d.ConcernsStatus) :
    Commanded false bus (ds ++ ds') := by
  generalize hdone : false = first at h
  induction h with
  | nil => exact .of_others h'
  | other hother _ ih => exact .other hother (ih hdone)
  | command hcovers htransfers hstart hword _ _ ih =>
    have hall := Commanded.command hcovers htransfers hstart hword (ih hdone)
    simpa only [List.cons_append, List.append_assoc] using hall
  | cut hcovers hstart htransfers hrest =>
    have hall := Commanded.cut hcovers hstart htransfers (List.forall_mem_append.mpr ⟨hrest, h'⟩)
    simpa only [List.cons_append, List.append_assoc] using hall

end Commanded

/-- These steps from `bus` on end in a store over PI_STATUS, along with the transfers that it has
started, and `word` is there now. -/
def Commands (bus : Bus) (ds : List DeviceStep) (word : UInt32) : Prop :=
  ∃ earlier offset data transfers, ds = earlier ++ .store .pi offset data :: transfers ∧
    CoversStatus offset data.length ∧ (0x10 ≤ offset → transfers = []) ∧
    Commanded true ((earlier ++ [.store .pi offset data]).foldl DeviceStep.apply bus) transfers ∧
    word = (ds.foldl DeviceStep.apply bus).pi.registers.stored 4

/-- What comes before does not matter. -/
theorem Commands.after {bus : Bus} (first : List DeviceStep) {ds : List DeviceStep} {word : UInt32}
    (h : Commands (first.foldl DeviceStep.apply bus) ds word) :
    Commands bus (first ++ ds) word := by
  obtain ⟨earlier, offset, data, transfers, rfl, hcovers, hstart, htransfers, hword⟩ := h
  refine ⟨first ++ earlier, offset, data, transfers, by simp, hcovers, hstart, ?_, ?_⟩
  · simpa only [List.foldl_append] using htransfers
  · simpa only [List.foldl_append] using hword

/-- What is in a sequence of two parts is in one of them. -/
private theorem split_append {ε : Type} {xs ys before after : List ε} {e : ε}
    (h : xs ++ ys = before ++ e :: after) :
    (∃ mid, xs = before ++ e :: mid) ∨ ∃ mid, before = xs ++ mid ∧ ys = mid ++ e :: after := by
  rcases List.append_eq_append_iff.mp h with ⟨mid, rfl, hys⟩ | ⟨mid, rfl, hrest⟩
  · exact .inr ⟨mid, rfl, hys⟩
  · cases mid with
    | nil => exact .inr ⟨[], by simp, hrest.symm⟩
    | cons e' mid =>
      obtain ⟨rfl, -⟩ := List.cons_eq_cons.mp hrest
      exact .inl ⟨mid, rfl⟩

/-- A command resets the status once, at its start. -/
private theorem split_statusCommand {word word' : UInt32} {before after : List DeviceStep}
    (h : DeviceStep.statusCommand word' = before ++ .peripheralReset word :: after) :
    before = [] ∧ word' = word := by
  -- A reset comes first among the steps of a command, if it comes at all
  cases before with
  | nil =>
    obtain ⟨hreset, -⟩ := List.cons_eq_cons.mp h
    exact ⟨rfl, DeviceStep.peripheralReset.inj hreset⟩
  | cons d before =>
    obtain ⟨-, hrest⟩ := List.cons_eq_cons.mp h
    have hmem : DeviceStep.peripheralReset word ∈
        if word' &&& 0x02 ≠ 0 then [DeviceStep.peripheralAcknowledge] else [] := by
      rw [hrest]
      simp
    split at hmem
    · exact nomatch List.mem_singleton.mp hmem
    · exact nomatch hmem

/-- A reset is always that of a store. -/
theorem Commanded.exists_store {done : Bool} {bus : Bus} {ds before after : List DeviceStep}
    {word : UInt32} (h : Commanded done bus ds)
    (heq : ds = before ++ .peripheralReset word :: after) : Commands bus before word := by
  induction h generalizing before after with
  | nil => exact absurd heq (by simp)
  | @other _ bus d rest hother _ ih =>
    cases before with
    | nil =>
      obtain ⟨rfl, -⟩ := List.cons_eq_cons.mp heq
      exact (hother trivial).elim
    | cons d' before =>
      obtain ⟨rfl, hrest⟩ := List.cons_eq_cons.mp heq
      exact .after [d] (ih hrest)
  | @command _ bus offset data transfers rest word' hcovers htransfers hstart hword _ ih ih' =>
    obtain _ | ⟨d, before⟩ := before
    · exact nomatch heq
    obtain ⟨rfl, hall⟩ := List.cons_eq_cons.mp heq
    -- It is part of the transfers, or it is that of the command, or part of what follows
    rcases split_append hall with ⟨mid, hearlier⟩ | ⟨mid, rfl, hlater⟩
    · exact .after [.store .pi offset data] (ih hearlier)
    rcases split_append hlater with ⟨mid', hcommand⟩ | ⟨mid', rfl, hlast⟩
    · obtain ⟨rfl, rfl⟩ := split_statusCommand hcommand
      rw [List.append_nil]
      exact ⟨[], offset, data, transfers, rfl, hcovers, hstart, htransfers, hword⟩
    · have hrest := Commands.after _ (ih' hlast)
      simpa only [List.cons_append, List.append_assoc] using hrest
  | @cut bus offset data transfers rest hcovers hstart htransfers hrest ih =>
    obtain _ | ⟨d, before⟩ := before
    · exact nomatch heq
    obtain ⟨rfl, hall⟩ := List.cons_eq_cons.mp heq
    rcases split_append hall with ⟨mid, hearlier⟩ | ⟨mid, rfl, hlater⟩
    · exact .after [.store .pi offset data] (ih hearlier)
    · have hmem : DeviceStep.peripheralReset word ∈ DeviceStep.peripheralAbort :: rest := by
        rw [hlater]
        simp
      rcases List.mem_cons.mp hmem with heq | hin
      · exact nomatch heq
      · exact (hrest _ hin trivial).elim

/-! ## Scripts -/

/-- The work has come to its end, and not to a fault. -/
def succeeded {ε σ α : Type} : EStateM.Result ε σ α → Bool
  | .ok _ _ => true
  | .error _ _ => false

namespace Script

variable {α β : Type} {good : α → Bool} {good' : β → Bool}

/-- The script comes to its end with a good answer. -/
def gives (good : α → Bool) (x : Script α) (bus : Bus) : Bool :=
  match x.run bus with
  | .ok a _ => good a
  | .error _ _ => false

/-- The commands are carried out that are stored in PI_STATUS, all of them if the answer is good. -/
def Obeys (good : α → Bool) (x : Script α) : Prop :=
  ∀ bus : Bus, bus.Wired → Commanded (x.gives good bus) bus (x.steps bus)

/-- A script none of whose steps concerns PI_STATUS obeys: -/
theorem Obeys.of_others {x : Script α} (h : ∀ bus, ∀ d ∈ x.steps bus, ¬d.ConcernsStatus) :
    x.Obeys good := fun bus _ => .of_others (h bus)

/-- one without steps, -/
theorem Obeys.pure (a : α) : (Pure.pure a : Script α).Obeys good := fun _ _ => .nil

/-- one that fails at once, -/
theorem Obeys.failed (e : BusError) : (Script.failed e : Script α).Obeys good := fun _ _ => .nil

/-- and a single step of another kind. -/
theorem Obeys.make {good : Unit → Bool} {d : DeviceStep} (h : ¬d.ConcernsStatus) :
    (Script.make d).Obeys good := fun _ _ => .other h .nil

/-- What comes second has to obey after good answers.  After the others it has to fail, and there
may not be any more commands. -/
theorem Obeys.bind_of {x : Script α} {f : α → Script β} (hx : x.Obeys good)
    (hgood : ∀ a, good a = true → (f a).Obeys good')
    (hbad : ∀ a, good a = false → ∀ bus, (f a).gives good' bus = false ∧
      ∀ d ∈ (f a).steps bus, ¬d.ConcernsStatus) : (x >>= f).Obeys good' := by
  intro bus hwired
  have hfirst := hx bus hwired
  have hleft := x.stateOf_run bus
  rw [steps_bind]
  simp only [gives, run_bind] at hfirst ⊢
  cases hrun : x.run bus with
  -- A script that fails makes no steps of what comes second
  | error e bus' =>
    simp only [hrun, bind_of_error hrun, List.append_nil] at hfirst ⊢
    exact hfirst
  | ok a bus' =>
    simp only [hrun, bind_of_ok hrun, stateOf_ok] at hfirst hleft ⊢
    -- One that gives an answer hands on to what comes second, if the answer is good
    cases ha : good a with
    | true =>
      rw [ha] at hfirst
      have hrest := hgood a ha bus' (wired_run hrun hwired)
      rw [hleft] at hrest ⊢
      exact hfirst.append hrest
    | false =>
      rw [ha] at hfirst
      obtain ⟨hfails, hothers⟩ := hbad a ha bus'
      have hfails : (match (f a).run bus' with
        | .ok b _ => good' b
        | .error _ _ => false) = false := hfails
      rw [hfails]
      exact hfirst.append_others hothers

/-- If all answers are good, it just has to obey. -/
theorem Obeys.bind {x : Script α} {f : α → Script β} (hx : x.Obeys fun _ => true)
    (hf : ∀ a, (f a).Obeys good') : (x >>= f).Obeys good' :=
  hx.bind_of (fun a _ => hf a) fun _ h => nomatch h

/-- A look at the bus is no step. -/
theorem Obeys.view {f : Bus → Script α} (hf : ∀ bus : Bus, bus.Wired → (f bus).Obeys good) :
    (Script.view >>= f).Obeys good := fun bus hwired => hf bus hwired bus hwired

/-- A fault turned into an answer is a bad one. -/
theorem Obeys.attempt {x : Script α} (hx : x.Obeys fun _ => true) :
    x.attempt.Obeys Except.isOk := by
  intro bus hwired
  have hsteps := hx bus hwired
  rw [steps_attempt]
  simp only [gives, run_attempt, Bus.attempt] at hsteps ⊢
  cases hrun : x.run bus with
  | ok a bus' =>
    rw [hrun] at hsteps
    exact hsteps
  | error e bus' =>
    rw [hrun] at hsteps
    exact hsteps

/-- Neither is what is put around a fault. -/
theorem Obeys.adaptExcept {x : Script α} (hx : x.Obeys good) (f : BusError → BusError) :
    (x.adaptExcept f).Obeys good := by
  intro bus hwired
  have hsteps := hx bus hwired
  rw [steps_adaptExcept]
  simp only [gives, run_adaptExcept, EStateM.adaptExcept] at hsteps ⊢
  cases hrun : x.run bus with
  | ok a bus' =>
    rw [hrun] at hsteps
    exact hsteps
  | error e bus' =>
    rw [hrun] at hsteps
    exact hsteps

/-- Loads from the runs of a span do not store, -/
theorem Obeys.loadRuns (rs : List Run) : (loadRuns rs).Obeys fun _ => true := by
  induction rs with
  | nil => exact .pure []
  | cons r rest ih =>
    have hload : (loadDevice r.region r.offset r.length).Obeys fun _ => true := fun _ _ =>
      .other id .nil
    exact .bind hload fun _ => .bind ih fun _ => .pure _

/-- and neither does a load from the span. -/
theorem Obeys.loadSpan (transfer : Transfer) (address : UInt32) (length : Nat) :
    (loadSpan transfer address length).Obeys fun _ => true := by
  unfold Script.loadSpan
  cases route transfer address length with
  | error e => exact .failed e
  | ok rs => exact .loadRuns rs

/-- A block copy whose commands are carried out. -/
def Copy.Obeys (copy : Copy) : Prop :=
  ∀ source target length, (copy source target length).Obeys fun _ => true

/-! ### Transfers of the PI -/

/-- If the script fails, the last thing it does is to abort a transfer of the PI. -/
def Aborts (x : Script Unit) : Prop :=
  ∀ bus : Bus, bus.Wired →
    (∃ bus', x.run bus = .ok () bus' ∧ Commanded true bus (x.steps bus)) ∨
    ∃ e bus' ds, x.run bus = .error e bus' ∧ x.steps bus = ds ++ [.peripheralAbort] ∧
      Commanded false bus ds

/-- No step is aborted where there is none, -/
theorem Aborts.pure : (Pure.pure () : Script Unit).Aborts := fun bus _ => .inl ⟨bus, rfl, .nil⟩

/-- nor by a look at the bus. -/
theorem Aborts.view {f : Bus → Script Unit} (hf : ∀ bus : Bus, (f bus).Aborts) :
    (Script.view >>= f).Aborts := fun bus hwired => hf bus bus hwired

/-- A step in front aborts nothing. -/
theorem Aborts.make_bind {d : DeviceStep} {x : Script Unit} (hd : ¬d.ConcernsStatus)
    (hx : x.Aborts) : (Script.make d >>= fun _ => x).Aborts := by
  intro bus hwired
  rcases hx (d.apply bus) (hwired.step d) with
    ⟨bus', hrun, hdone⟩ | ⟨e, bus', ds, hrun, hsteps, hcut⟩
  · exact .inl ⟨bus', hrun, .other hd hdone⟩
  · exact .inr ⟨e, bus', d :: ds, hrun, congrArg (d :: ·) hsteps, .other hd hcut⟩

/-- A part of a transfer that may fail, and then the end of the transfer. -/
theorem Aborts.attempt_bind {x : Script Unit} (hx : x.Obeys fun _ => true)
    {f : Except BusError Unit → Script Unit} {d : DeviceStep} (hd : ¬d.ConcernsStatus)
    (hok : f (.ok ()) = Script.make d)
    (herror : ∀ e, f (.error e) = Script.make .peripheralAbort >>= fun _ => Script.failed e) :
    (x.attempt >>= f).Aborts := by
  intro bus hwired
  have hsteps := hx bus hwired
  simp only [gives] at hsteps
  rw [steps_bind, steps_attempt, run_bind]
  -- The part is done, so the transfer is finished; after a fault it is aborted, and that is the
  -- last step
  cases hrun : x.run bus with
  | ok a bus' =>
    have hattempt : x.attempt.run bus = .ok (.ok ()) bus' := by
      rw [run_attempt, Bus.attempt, hrun]
    rw [hrun] at hsteps
    rw [bind_of_ok hattempt, hattempt]
    dsimp only
    rw [hok]
    exact .inl ⟨_, rfl, hsteps.append (.other hd .nil)⟩
  | error e bus' =>
    have hattempt : x.attempt.run bus = .ok (.error e) bus' := by
      rw [run_attempt, Bus.attempt, hrun]
    rw [hrun] at hsteps
    rw [bind_of_ok hattempt, hattempt]
    dsimp only
    rw [herror]
    exact .inr ⟨e, _, x.steps bus, rfl, rfl, hsteps⟩

/-- So do several of them, one after the other. -/
theorem Aborts.forM {f : Nat → Script Unit} {slots : List Nat}
    (hf : ∀ slot ∈ slots, (f slot).Aborts) :
    (slots.forM f).Aborts := by
  induction slots with
  | nil => exact .pure
  | cons slot rest ih =>
    obtain ⟨hfirst, hrest⟩ := List.forall_mem_cons.mp hf
    intro bus hwired
    show (∃ bus', (f slot >>= fun _ => rest.forM f).run bus = _ ∧
      Commanded true bus ((f slot >>= fun _ => rest.forM f).steps bus)) ∨
      ∃ e bus' ds, (f slot >>= fun _ => rest.forM f).run bus = _ ∧
        (f slot >>= fun _ => rest.forM f).steps bus = _ ∧ _
    rw [steps_bind, run_bind]
    -- Either the first one aborted and the rest is not reached, or the rest begins where it left
    rcases hfirst bus hwired with ⟨bus', hrun, hdone⟩ | ⟨e, bus', ds, hrun, hsteps, hcut⟩
    · have hleft := (f slot).stateOf_run bus
      rw [hrun, stateOf_ok] at hleft
      rw [bind_of_ok hrun, hrun]
      rcases ih hrest bus' (wired_run hrun hwired) with
        ⟨t, hrun', hdone'⟩ | ⟨e, t, ds, hrun', hsteps', hcut'⟩
      · rw [hleft] at hdone'
        exact .inl ⟨t, hrun', hdone.append (hleft ▸ hdone')⟩
      · refine .inr ⟨e, t, (f slot).steps bus ++ ds, hrun', ?_, hdone.append (hleft ▸ hcut')⟩
        dsimp only
        rw [hsteps', List.append_assoc]
    · rw [bind_of_error hrun, hrun]
      exact .inr ⟨e, bus', ds, rfl, by rw [List.append_nil, hsteps], hcut⟩

/-- Aborted or not, the commands are carried out. -/
theorem Aborts.obeys {x : Script Unit} (h : x.Aborts) : x.Obeys fun _ => true := by
  intro bus hwired
  simp only [gives]
  rcases h bus hwired with ⟨bus', hrun, hdone⟩ | ⟨e, bus', ds, hrun, hsteps, hcut⟩
  · rw [hrun]
    exact hdone
  · rw [hrun, hsteps]
    exact hcut.append_others (List.forall_mem_singleton.mpr id)

section
variable {copy : Copy} (hcopy : copy.Obeys)
include hcopy

/-- A transfer fails if its copy does. -/
theorem Aborts.peripheralTransfer (toDram : Bool) (register : UInt32) :
    (peripheralTransfer copy toDram register).Aborts := by
  unfold Script.peripheralTransfer
  refine .make_bind id (.view fun bus => .view fun bus' => ?_)
  refine .attempt_bind ?_ id rfl fun e => rfl
  split <;> exact hcopy _ _ _

/-- So do the side effects of the registers in front of PI_STATUS. -/
theorem Aborts.peripheralStored {slot : Nat} (h : slot ≠ 4) :
    (peripheralStored copy slot).Aborts := by
  unfold Script.peripheralStored
  refine .view fun bus => ?_
  split
  · exact .peripheralTransfer hcopy _ _
  · exact .peripheralTransfer hcopy _ _
  · exact absurd rfl h
  · exact .pure

end

/-- That of PI_STATUS is the command. -/
theorem peripheralStored_status (copy : Copy) (bus : Bus) :
    (∃ bus', (peripheralStored copy 4).run bus = .ok () bus') ∧
      (peripheralStored copy 4).steps bus =
        DeviceStep.statusCommand (bus.pi.registers.stored 4) := by
  -- The command is the word that is in the register when the side effect looks at it
  generalize hword : bus.pi.registers.stored 4 = word
  have hscript : (peripheralStored copy 4).run bus = (do
        Script.make (.peripheralReset word)
        if PeripheralInterface.acknowledges word then Script.make .peripheralAcknowledge :
          Script Unit).run bus ∧
      (peripheralStored copy 4).steps bus = (do
        Script.make (.peripheralReset word)
        if PeripheralInterface.acknowledges word then Script.make .peripheralAcknowledge :
          Script Unit).steps bus := by
    rw [← hword]
    exact ⟨rfl, rfl⟩
  rw [hscript.1, hscript.2, DeviceStep.statusCommand]
  by_cases hack : word &&& 0x02 ≠ 0
  · have hack' : PeripheralInterface.acknowledges word = true := decide_eq_true hack
    rw [if_pos hack, if_pos hack']
    exact ⟨⟨_, rfl⟩, rfl⟩
  · have hack' : ¬PeripheralInterface.acknowledges word = true :=
        fun h => hack (of_decide_eq_true h)
    rw [if_neg hack, if_neg hack']
    exact ⟨⟨_, rfl⟩, rfl⟩

end Script

/-- The registers that such a store touches: PI_STATUS, some in front of it and some behind it. -/
theorem touched_coversStatus {m : RegisterMap}
    (h : m.layout = PeripheralInterface.initial.registers.layout) {offset length : Nat}
    (hcovers : CoversStatus offset length) :
    ∃ front behind, m.touched offset length = front ++ 4 :: behind ∧ (∀ slot ∈ front, slot < 4) ∧
      (∀ slot ∈ behind, 4 < slot) ∧ (0x10 ≤ offset → front = []) := by
  have hrange : List.range PeripheralInterface.initial.registers.layout.size =
      List.range 4 ++ 4 :: [5, 6, 7, 8, 9, 10, 11, 12] := by decide +kernel
  have hstatus : PeripheralInterface.initial.registers.layout[4]? =
      some ⟨0x10, 1, .dual, .readWrite⟩ := PeripheralInterface.statusSlot_layout rfl
  have hhere : (RegisterShape.mk 0x10 1 .dual .readWrite).overlaps offset (offset + length) =
      true := by
    rw [RegisterShape.overlaps, Bool.and_eq_true]
    exact ⟨decide_eq_true hcovers.1, decide_eq_true hcovers.2⟩
  -- The registers in front of PI_STATUS end before it
  have hfront : ∀ slot < 4, ∃ shape, PeripheralInterface.initial.registers.layout[slot]? =
      some shape ∧ shape.stop ≤ 0x10 := by
    decide +kernel
  rw [RegisterMap.touched_eq, h, hrange, List.filter_append, List.filter_cons, hstatus,
    Option.any_some, hhere, if_pos rfl]
  refine ⟨_, _, rfl, fun slot hslot => ?_, fun slot hslot => ?_, fun hstart => ?_⟩
  · exact List.mem_range.mp (List.mem_filter.mp hslot).1
  · have hbehind : ∀ slot ∈ [5, 6, 7, 8, 9, 10, 11, 12], 4 < slot := by decide
    exact hbehind slot (List.mem_filter.mp hslot).1
  · rw [List.filter_eq_nil_iff]
    intro slot hslot
    obtain ⟨shape, hshape, hstop⟩ := hfront slot (List.mem_range.mp hslot)
    rw [hshape, Option.any_some, RegisterShape.overlaps, Bool.and_eq_true, decide_eq_true_eq]
    omega

/-- A register that a store touches is PI_STATUS only if the store goes over it. -/
theorem coversStatus_of_touched {m : RegisterMap}
    (h : m.layout = PeripheralInterface.initial.registers.layout) {offset length : Nat}
    (hslot : 4 ∈ m.touched offset length) : CoversStatus offset length := by
  have hshape : m.layout[4]? = some ⟨0x10, 1, .dual, .readWrite⟩ := by
    rw [h]
    exact PeripheralInterface.statusSlot_layout rfl
  rw [RegisterMap.mem_touched_of_layout hshape, RegisterShape.overlaps, Bool.and_eq_true,
    decide_eq_true_eq, decide_eq_true_eq] at hslot
  exact hslot

namespace Script

/-! ### Side effects of stores -/

/-- One script after the other obeys if all do. -/
theorem Obeys.forM {f : Nat → Script Unit} {slots : List Nat}
    (hf : ∀ slot ∈ slots, (f slot).Obeys fun _ => true) : (slots.forM f).Obeys fun _ => true := by
  induction slots with
  | nil => exact .pure ()
  | cons slot rest ih =>
    obtain ⟨hfirst, hrest⟩ := List.forall_mem_cons.mp hf
    exact .bind hfirst fun _ => ih hrest

/-- The registers behind PI_STATUS have no side effects. -/
theorem forM_peripheralStored_behind (copy : Copy) {slots : List Nat}
    (h : ∀ slot ∈ slots, 4 < slot) (bus : Bus) :
    (slots.forM (peripheralStored copy)).run bus = .ok () bus ∧
      -- Each of them looks at the bus and does nothing
      (slots.forM (peripheralStored copy)).steps bus = [] := by
  induction slots with
  | nil => exact ⟨rfl, rfl⟩
  | cons slot rest ih =>
    obtain ⟨hslot, hrest⟩ := List.forall_mem_cons.mp h
    have hidle : peripheralStored copy slot = Script.view >>= fun _ => Pure.pure () := by
      unfold Script.peripheralStored
      refine bind_congr fun bus' => ?_
      split
      · exact absurd hslot (by decide)
      · exact absurd hslot (by decide)
      · exact absurd hslot (by decide)
      · rfl
    show (peripheralStored copy slot >>= fun _ => rest.forM (peripheralStored copy)).run bus = _ ∧
      (peripheralStored copy slot >>= fun _ => rest.forM (peripheralStored copy)).steps bus = _
    rw [hidle]
    exact ih hrest

section
variable {copy : Copy} (hcopy : copy.Obeys)
include hcopy

/-- The one copy of a transfer of the SI obeys, and its end concerns another device. -/
theorem Obeys.serialTransfer (direction : SerialTransfer) :
    (serialTransfer copy direction).Obeys fun _ => true := by
  unfold Script.serialTransfer
  refine .view fun _ _ => ?_
  cases direction <;> exact .bind (hcopy _ _ _) fun _ => .make id

/-- So do the side effects of its registers, -/
theorem Obeys.serialStored (slot : Nat) : (serialStored copy slot).Obeys fun _ => true := by
  unfold Script.serialStored
  split
  · exact .serialTransfer hcopy _
  · exact .serialTransfer hcopy _
  · exact .make id
  · exact .pure ()

/-- A transfer of the SP stops at the first piece that fails, and answers with the fault. -/
theorem Obeys.copyPieces (direction : SignalTransfer) (pieces : List SignalProcessor.Piece)
    (p : SignalProcessor.Position) :
    (copyPieces copy direction pieces p).Obeys fun answer => answer.2.isNone := by
  induction pieces generalizing p with
  | nil => exact .pure _
  | cons piece rest ih =>
    unfold Script.copyPieces
    refine .bind_of (.attempt ?_) (fun result hresult => ?_) fun result hresult bus => ?_
    · cases direction <;> exact hcopy _ _ _
    -- After a piece that arrived the others follow; after one that did not there are none
    · cases result with
      | ok _ => exact ih piece.next
      | error e => cases hresult
    · cases result with
      | ok _ => cases hresult
      | error e => exact ⟨rfl, fun d hd => absurd hd List.not_mem_nil⟩

/-- The fault is kept until the transfer has been closed. -/
theorem Obeys.signalTransfer (direction : SignalTransfer) (register : UInt32) :
    (signalTransfer copy direction register).Obeys fun _ => true := by
  unfold Script.signalTransfer
  refine .bind (.make id) fun _ => .view fun begun _ => ?_
  refine .bind_of (.copyPieces hcopy _ _ _) (fun (position, fault) hfault => ?_)
    fun (position, fault) hfault bus => ?_
  -- Without a fault the end of the transfer is its last step; with one it only fails
  · obtain rfl : fault = none := Option.isNone_iff_eq_none.mp hfault
    exact .bind (.make id) fun _ => .pure ()
  · obtain _ | e := fault
    · exact nomatch hfault
    · exact ⟨rfl, List.forall_mem_singleton.mpr id⟩

/-- and so do those of the registers of the SP. -/
theorem Obeys.signalStored (slot : Nat) : (signalStored copy slot).Obeys fun _ => true := by
  unfold Script.signalStored
  refine .view fun _ _ => ?_
  split
  · exact .signalTransfer hcopy _ _
  · exact .signalTransfer hcopy _ _
  · exact .make id
  · exact .make id
  · exact .pure ()

/-- What follows a store that does not go over PI_STATUS. -/
theorem Obeys.postStore {region : Region} {offset : Nat} {data : List UInt8}
    (h : ¬(DeviceStep.store region offset data).ConcernsStatus) :
    (postStore copy region offset data.length).Obeys fun _ => true := by
  unfold Script.postStore
  -- Only the PI has a slot that takes commands, and the span keeps off it
  cases region with
  | sp =>
    dsimp only
    split
    · exact .pure ()
    · exact .view fun _ _ => .forM fun slot _ => .signalStored hcopy slot
  | mi => exact .make id
  | vi =>
    refine .view fun _ _ => ?_
    split
    · exact .make id
    · exact .pure ()
  | ai =>
    refine .view fun _ _ => ?_
    split
    · exact .make id
    · exact .pure ()
  | pi =>
    refine .view fun bus hwired => .forM fun slot hslot => ?_
    refine (Aborts.peripheralStored hcopy ?_).obeys
    rintro rfl
    exact h (coversStatus_of_touched hwired.pi hslot)
  | si => exact .view fun _ _ => .forM fun slot _ => .serialStored hcopy slot
  | pif => exact .make id
  | _ => exact .pure ()

/-- A store over PI_STATUS is carried out as a command, after the transfers that it starts. -/
theorem Obeys.storeStatus {offset : Nat} {data : List UInt8}
    (hcovers : CoversStatus offset data.length) :
    (storeRun copy .pi offset data).Obeys fun _ => true := by
  intro bus hwired
  have hwired' : ((DeviceStep.store .pi offset data).apply bus).Wired := hwired.step _
  obtain ⟨front, behind, htouched, hfront, hbehind, hstart⟩ :=
    touched_coversStatus hwired'.pi hcovers
  -- What a store into the device starts is the side effects of the registers it touches, in order
  have hscript : ∀ stored : Bus, stored.pi.registers.touched offset data.length =
        front ++ 4 :: behind → (DeviceStep.store .pi offset data).apply bus = stored →
      (storeRun copy .pi offset data).run bus = (front.forM (peripheralStored copy) >>= fun _ =>
          peripheralStored copy 4 >>= fun _ => behind.forM (peripheralStored copy)).run stored ∧
        (storeRun copy .pi offset data).steps bus = .store .pi offset data ::
          (front.forM (peripheralStored copy) >>= fun _ =>
            peripheralStored copy 4 >>= fun _ => behind.forM (peripheralStored copy)).steps
              stored := by
    rintro stored htouched rfl
    have happend : (front ++ 4 :: behind).forM (peripheralStored copy) =
        front.forM (peripheralStored copy) >>= fun _ =>
          peripheralStored copy 4 >>= fun _ => behind.forM (peripheralStored copy) :=
      List.forM_append
    rw [← happend, ← htouched]
    exact ⟨rfl, rfl⟩
  obtain ⟨hrun, hsteps⟩ := hscript _ htouched rfl
  simp only [gives]
  rw [hrun, hsteps, run_bind, steps_bind]
  have hbefore : (front.forM (peripheralStored copy)).Aborts :=
    .forM fun slot hslot => .peripheralStored hcopy (Nat.ne_of_lt (hfront slot hslot))
  rcases hbefore _ hwired' with ⟨bus', hran, hdone⟩ | ⟨e, bus', ds, hran, hmade, hcut⟩
  · -- The transfers have been made, and the command is what is in PI_STATUS now
    obtain ⟨⟨bus'', hcommand⟩, hcommanded⟩ := peripheralStored_status copy bus'
    obtain ⟨hidle, hnone⟩ := forM_peripheralStored_behind copy hbehind bus''
    have hleft := (front.forM (peripheralStored copy)).stateOf_run
      ((DeviceStep.store .pi offset data).apply bus)
    rw [hran, stateOf_ok] at hleft
    rw [hran]
    dsimp only
    rw [steps_bind, hcommand, hcommanded]
    dsimp only
    rw [hnone]
    refine .command hcovers hdone (fun hfar => ?_) (congrArg (·.pi.registers.stored 4) hleft) .nil
    rw [hstart hfar]
    rfl
  · -- A transfer has failed, so the store began in front of PI_STATUS
    rw [hran, bind_of_error hran]
    dsimp only
    rw [List.append_nil, hmade]
    refine .cut hcovers (Nat.lt_of_not_le fun hfar => ?_) hcut
      fun d hd => absurd hd List.not_mem_nil
    rw [hstart hfar] at hran
    cases hran

/-! ### Stores and copies -/

/-- A store into a run obeys, whether or not it goes over PI_STATUS. -/
theorem Obeys.storeRun (region : Region) (offset : Nat) (data : List UInt8) :
    (storeRun copy region offset data).Obeys fun _ => true := by
  by_cases h : (DeviceStep.store region offset data).ConcernsStatus
  · cases region with
    | pi => exact .storeStatus hcopy h
    | _ => exact h.elim
  · exact .bind (.make h) fun _ => .postStore hcopy h

/-- So does a store into several runs, -/
theorem Obeys.storeRuns (rs : List Run) (data : List UInt8) :
    (storeRuns copy rs data).Obeys fun _ => true := by
  induction rs generalizing data with
  | nil => exact .pure ()
  | cons r rest ih => exact .bind (.storeRun hcopy _ _ _) fun _ => ih _

/-- a store into a span, -/
theorem Obeys.storeSpan (transfer : Transfer) (address : UInt32) (data : List UInt8) :
    (storeSpan copy transfer address data).Obeys fun _ => true := by
  unfold Script.storeSpan
  cases route transfer address data.length with
  | error e => exact .failed e
  | ok rs => exact .storeRuns hcopy rs data

/-- and a copy, whose units each load from one span and store into another. -/
theorem Copy.Obeys.copyThrough : (copyThrough copy).Obeys := by
  intro source target length
  unfold Script.copyThrough
  -- The induction is on the units that are left, from wherever the copy has come to
  generalize (length + copyUnit - 1) / copyUnit = units
  generalize 0 = done
  induction units generalizing done with
  | zero => exact .pure ()
  | succ units ih =>
    unfold Script.copyUnits
    exact .bind (.adaptExcept (.bind (.loadSpan _ _ _) fun bytes => .storeSpan hcopy _ _ _) _)
      fun _ => ih _

end

/-- So it is however deeply transfers start transfers. -/
theorem Copy.Obeys.nestedCopy (depth : Nat) : (nestedCopy depth).Obeys := by
  induction depth with
  | zero => exact fun _ _ _ => .failed _
  | succ depth ih => exact ih.copyThrough

/-- So does what fails and what succeeds alike. -/
theorem Obeys.commanded {x : Script α} (h : x.Obeys fun _ => true) {bus : Bus}
    (hwired : bus.Wired) :
    Commanded (succeeded (x.run bus)) bus (x.steps bus) := by
  have hsteps := h bus hwired
  simp only [gives] at hsteps
  cases hrun : x.run bus with
  | ok a bus' =>
    rw [hrun] at hsteps
    exact hsteps
  | error e bus' =>
    rw [hrun] at hsteps
    exact hsteps

end Script

end Bus

namespace PeripheralInterface

section
variable {p : PeripheralInterface} (h : p.registers.layout = initial.registers.layout)
include h

/-- A word stored in the status is there. -/
private theorem stored_status (value : UInt64) :
    (p.registers.store 0x10 (BigEndian.bytes 4 value)).stored statusSlot = value.toUInt32 := by
  have hlocate : ∀ i < 4, initial.registers.locate (0x10 + i) = some statusSlot := by
    decide +kernel
  have hword : p.registers.store 0x10 (BigEndian.bytes 4 value) =
      p.registers.modifyBlock statusSlot (·.setStored 0 value.toUInt32) :=
    RegisterMap.store_word (statusSlot_layout h) Nat.one_pos nofun
      (fun i hi => (RegisterMap.locate_congr h _).trans (hlocate i hi)) value
  rw [hword]
  exact RegisterMap.stored_setStored (statusSlot_layout h) Nat.one_pos _

/-- The store touches no other register. -/
private theorem touched_status (value : UInt64) :
    (p.registers.store 0x10 (BigEndian.bytes 4 value)).touched 0x10 4 = [statusSlot] := by
  have htouched : initial.registers.touched 0x10 4 = [statusSlot] := by decide +kernel
  exact (RegisterMap.touched_congr ((RegisterMap.layout_store _ _ _).trans h) _ _).trans htouched

end

end PeripheralInterface

namespace Bus

/-! ## Requests -/

namespace Request

/-- The request gets its answer, and not a fault. -/
def succeeds : Request → Bus → Bool
  | load transfer address length, bus => succeeded (Bus.load transfer address length bus)
  | store transfer address data, bus => succeeded (Bus.store transfer address data bus)
  | copy source target length, bus => succeeded (Bus.copy source target length bus)

/-- In what a request comes to, the commands are carried out that are stored in PI_STATUS. -/
theorem commanded_steps (r : Request) {bus : Bus} (hwired : bus.Wired) :
    Commanded (r.succeeds bus) bus (r.steps bus) := by
  -- Each kind of request has its script, and the script obeys
  have hcopy := Script.Copy.Obeys.nestedCopy nestingLimit
  cases r with
  | load transfer address length =>
    have hsteps := (Script.Obeys.loadSpan transfer address length).commanded hwired
    rw [Script.run_loadSpan] at hsteps
    exact hsteps
  | store transfer address data =>
    have hsteps := (Script.Obeys.storeSpan hcopy transfer address data).commanded hwired
    rw [Script.run_storeSpan, Script.plain_nestedCopy] at hsteps
    exact hsteps
  | copy source target length =>
    have hsteps := (hcopy.copyThrough source target length).commanded hwired
    rw [Script.copyThrough, Script.run_copyUnits, Script.plain_nestedCopy] at hsteps
    have hanswer : succeeded (Bus.copy source target length bus) =
        succeeded (Bus.copyThrough (Bus.nestedCopy nestingLimit) source target length bus) := by
      cases hrun : Bus.copyThrough (Bus.nestedCopy nestingLimit) source target length bus with
      | ok a bus' => rw [Bus.copy, bind_of_ok hrun]; rfl
      | error e bus' => rw [Bus.copy, bind_of_error hrun]; rfl
    rw [succeeds, hanswer]
    exact hsteps

/-- A word stored in PI_STATUS by itself is carried out at once. -/
theorem steps_statusStore (value : UInt64) {bus : Bus} (hwired : bus.Wired) :
    (store .aligned 0x04600010 (BigEndian.bytes 4 value)).steps bus =
      .store .pi 0x10 (BigEndian.bytes 4 value) :: DeviceStep.statusCommand value.toUInt32 := by
  rw [steps]
  generalize Script.nestedCopy nestingLimit = copy
  generalize hdata : BigEndian.bytes 4 value = data
  have hlength : data.length = 4 := by rw [← hdata, BigEndian.length_bytes]
  have haddress : Region.pi.base + 0x10 = (0x04600010 : UInt32).toNat := rfl
  have hroute : route .aligned 0x04600010 data.length = .ok [⟨.pi, 0x10, 4⟩] := by
    rw [hlength]
    exact route_aligned haddress (by decide) (by decide)
  have hscript : Script.storeSpan copy .aligned 0x04600010 data =
      Script.storeRun copy .pi 0x10 data := by
    rw [Script.storeSpan, hroute]
    show Script.storeRun copy .pi 0x10 (data.take 4) >>= (fun _ => pure ()) = _
    rw [List.take_of_length_le hlength.le, bind_pure_unit]
  -- After the store the one register that it touches is PI_STATUS, and the word is there
  have htouched : ((DeviceStep.store .pi 0x10 data).apply bus).pi.registers.touched 0x10 4 = [4] :=
    hdata ▸ PeripheralInterface.touched_status hwired.pi value
  have hcommand : ((DeviceStep.store .pi 0x10 data).apply bus).pi.registers.stored 4 =
      value.toUInt32 := hdata ▸ PeripheralInterface.stored_status hwired.pi value
  have hrun : (Script.storeRun copy .pi 0x10 data).steps bus = .store .pi 0x10 data ::
      ((((DeviceStep.store .pi 0x10 data).apply bus).pi.registers.touched 0x10 4).forM
        (Script.peripheralStored copy)).steps ((DeviceStep.store .pi 0x10 data).apply bus) := by
    rw [← hlength]
    rfl
  have hlast : [4].forM (Script.peripheralStored copy) = Script.peripheralStored copy 4 :=
    bind_pure_unit
  rw [hscript, hrun, htouched, hlast, (Script.peripheralStored_status _ _).2, hcommand]

end Request

/-- Whenever the status of the PI is reset while requests are carried out, it is by a command that
has been stored there. -/
theorem commands_of_trace {rs : List Request} {bus : Bus} (hwired : bus.Wired)
    {before after : List DeviceStep} {word : UInt32}
    (h : trace rs bus = before ++ .peripheralReset word :: after) : Commands bus before word := by
  induction rs generalizing bus before with
  | nil => exact absurd h (by simp [trace])
  | cons r rest ih =>
    rw [trace] at h
    rcases split_append h with ⟨mid, hfirst⟩ | ⟨mid, rfl, hrest⟩
    · exact (r.commanded_steps hwired).exists_store hfirst
    · have hlater := ih (hwired.perform [r]) hrest
      have hleave : perform [r] bus = (r.steps bus).foldl DeviceStep.apply bus :=
        r.leave_eq_foldl bus
      rw [hleave] at hlater
      exact hlater.after _

/-! ## What programs see -/

/-- A word loaded from a register of these devices, which loads do not change. -/
private theorem readWord_register (region : Region) {m : RegisterMap} {slot : Nat}
    {shape : RegisterShape} {address : UInt32} {bus : Bus}
    (hload : bus.deviceLoad region shape.base 4 = (m.load shape.base 4, bus))
    (haddress : region.base + shape.base = address.toNat)
    (haligned : transferFor address 4 = .aligned) (hinside : shape.base + 4 ≤ region.size)
    (hshape : m.layout[slot]? = some shape) (haccess : shape.access ≠ .writeOnly)
    (hlocate : ∀ i < 4, m.locate (shape.base + i) = some slot) :
    readWord address bus = .ok (m.visible slot) bus := by
  have hread : read address 4 bus = .ok (m.load shape.base 4) bus := by
    rw [read, haligned, load, loadSpan_aligned haddress hinside (by decide), hload]
  have hvalue : readValue address 4 bus = .ok (BigEndian.value (m.load shape.base 4)) bus := by
    rw [readValue, bind_of_ok hread]
    rfl
  rw [readWord, bind_of_ok hvalue, ← RegisterMap.value_load_word hshape haccess hlocate]
  rfl

/-- PI_STATUS, SI_STATUS and MI_INTR as programs read them. -/
theorem Wired.readWord_interrupts {bus : Bus} (h : bus.Wired) :
    readWord 0x04600010 bus = .ok bus.pi.status bus ∧
      readWord 0x04800018 bus = .ok bus.si.status bus ∧
      readWord 0x04300008 bus = .ok bus.mi.pending bus := by
  -- The three words are where their maps put them, whatever they hold
  have hpi : ∀ i < 4, PeripheralInterface.initial.registers.locate (0x10 + i) = some 4 := by
    decide +kernel
  have hsi : ∀ i < 4, SerialInterface.initial.registers.locate (0x18 + i) =
      some SerialInterface.statusSlot := by decide +kernel
  have hmi : ∀ i < 4, MipsInterface.initial.registers.locate (0x08 + i) =
      some MipsInterface.interruptSlot := by decide +kernel
  exact ⟨readWord_register .pi rfl rfl rfl (by decide)
      (PeripheralInterface.statusSlot_layout h.pi) nofun
      fun i hi => (RegisterMap.locate_congr h.pi _).trans (hpi i hi),
    readWord_register .si rfl rfl rfl (by decide) (SerialInterface.statusSlot_layout h.si) nofun
      fun i hi => (RegisterMap.locate_congr h.si _).trans (hsi i hi),
    readWord_register .mi rfl rfl rfl (by decide) (MipsInterface.interruptSlot_layout h.mi) nofun
      fun i hi => (RegisterMap.locate_congr h.mi _).trans (hmi i hi)⟩

/-! ## Interrupts that are pending and do not show -/

/-- A command with bit 0 set was stored in PI_STATUS while the interrupt of the PI was pending, and
since it was carried out no transfer of the PI has come to its end, and no command with bit 1 set
has acknowledged the interrupt. -/
def HiddenByCommand (cartridge : Cartridge) (rdramSize : Nat) (ds : List DeviceStep) : Prop :=
  Since
    (fun before d => ∃ word, d = .peripheralReset word ∧ word &&& 0x01 ≠ 0 ∧
      Commands (initial cartridge rdramSize) before word ∧
      (afterSteps cartridge rdramSize before).mi.pending &&& 0x10 ≠ 0)
    (fun d => (∃ dram cartridge length, d = .peripheralFinish dram cartridge length) ∨
      d = .peripheralAcknowledge) ds

namespace DeviceStep

/-- A step resets the status if it is a reset whose word has bit 0, -/
theorem resetsStatus_iff (d : DeviceStep) :
    d.resetsStatus = true ↔ ∃ word, d = peripheralReset word ∧ word &&& 0x01 ≠ 0 := by
  cases d <;> simp [resetsStatus]

/-- and settles an interrupt of the PI if it ends a transfer or acknowledges it. -/
theorem settles_iff (d : DeviceStep) :
    d.completes .pi = true ∨ d.acknowledges .pi = true ↔
      (∃ dram cartridge length, d = peripheralFinish dram cartridge length) ∨
        d = peripheralAcknowledge := by
  cases d <;> simp [completes, acknowledges]

end DeviceStep

section
variable {cartridge : Cartridge} {rdramSize : Nat} {rs : List Request}

/-- While requests are carried out, what hides an interrupt is always a command. -/
theorem hiddenByCommand_iff {before after : List DeviceStep}
    (h : trace rs (initial cartridge rdramSize) = before ++ after) :
    HiddenByCommand cartridge rdramSize before ↔ Hidden cartridge rdramSize before := by
  refine (since_congr (fun earlier d rest hbefore => ?_) DeviceStep.settles_iff).symm
  rw [DeviceStep.resetsStatus_iff]
  -- A reset of the trace comes of a store to the status
  have hcommands : ∀ word, d = .peripheralReset word →
      Commands (initial cartridge rdramSize) earlier word := by
    rintro word rfl
    rw [hbefore, List.append_assoc, List.cons_append] at h
    exact commands_of_trace (wired_initial cartridge rdramSize) h
  constructor
  · rintro ⟨⟨word, hd, hbit⟩, hpending⟩
    exact ⟨word, hd, hbit, hcommands word hd, hpending⟩
  · rintro ⟨word, hd, hbit, -, hpending⟩
    exact ⟨⟨word, hd, hbit⟩, hpending⟩

end

/-- The interrupts of the PI and the SI, while these requests are carried out from power-on. -/
structure StatusProtocol (cartridge : Cartridge) (rdramSize : Nat) (rs : List Request) : Prop where
  /-- The requests come to device steps, -/
  steps : perform rs (initial cartridge rdramSize) =
    afterSteps cartridge rdramSize (trace rs (initial cartridge rdramSize))
  /-- in which commands are carried out as they are stored in PI_STATUS, by whatever store. -/
  commanded : ∀ earlier r later, rs = earlier ++ r :: later →
    Commanded (r.succeeds (perform earlier (initial cartridge rdramSize)))
      (perform earlier (initial cartridge rdramSize))
      (r.steps (perform earlier (initial cartridge rdramSize)))
  /-- If it is the store of that word alone, the word is the command. -/
  word : ∀ earlier value later,
    rs = earlier ++ .store .aligned 0x04600010 (BigEndian.bytes 4 value) :: later →
    (Request.store .aligned 0x04600010 (BigEndian.bytes 4 value)).steps
        (perform earlier (initial cartridge rdramSize)) =
      .store .pi 0x10 (BigEndian.bytes 4 value) :: DeviceStep.statusCommand value.toUInt32
  /-- At any time programs read in PI_STATUS, SI_STATUS and MI_INTR what shows and what is
  pending. -/
  read : ∀ before after, trace rs (initial cartridge rdramSize) = before ++ after →
    readWord 0x04600010 (afterSteps cartridge rdramSize before) =
        .ok (afterSteps cartridge rdramSize before).pi.status
          (afterSteps cartridge rdramSize before) ∧
      readWord 0x04800018 (afterSteps cartridge rdramSize before) =
        .ok (afterSteps cartridge rdramSize before).si.status
          (afterSteps cartridge rdramSize before) ∧
      readWord 0x04300008 (afterSteps cartridge rdramSize before) =
        .ok (afterSteps cartridge rdramSize before).mi.pending
          (afterSteps cartridge rdramSize before)
  /-- The SI shows its interrupt exactly if it is pending, -/
  serial : ∀ before after, trace rs (initial cartridge rdramSize) = before ++ after →
    ((afterSteps cartridge rdramSize before).si.status &&& 0x1000 ≠ 0 ↔
      (afterSteps cartridge rdramSize before).mi.pending &&& 0x02 ≠ 0)
  /-- and the PI only if it is. -/
  shown : ∀ before after, trace rs (initial cartridge rdramSize) = before ++ after →
    (afterSteps cartridge rdramSize before).pi.status &&& 0x08 ≠ 0 →
      (afterSteps cartridge rdramSize before).mi.pending &&& 0x10 ≠ 0
  /-- What is pending and the PI does not show has been hidden by a command. -/
  hidden : ∀ before after, trace rs (initial cartridge rdramSize) = before ++ after →
    ((afterSteps cartridge rdramSize before).mi.pending &&& 0x10 ≠ 0 ∧
        (afterSteps cartridge rdramSize before).pi.status &&& 0x08 = 0 ↔
      HiddenByCommand cartridge rdramSize before)

/-- So it is with any requests. -/
theorem interrupt_shown (cartridge : Cartridge) (rdramSize : Nat) (rs : List Request) :
    StatusProtocol cartridge rdramSize rs where
  steps := perform_eq_foldl rs _
  commanded earlier r later _ :=
    r.commanded_steps ((wired_initial cartridge rdramSize).perform earlier)
  word earlier value later _ :=
    Request.steps_statusStore value ((wired_initial cartridge rdramSize).perform earlier)
  read before _ _ := (wired_afterSteps before).readWord_interrupts
  serial before _ _ := serialShown_afterSteps before
  shown before _ _ := pending_of_peripheralShown before
  hidden before after h := by
    rw [hiddenByCommand_iff h, hidden_iff, PeripheralShown, not_not]
    rfl

/-- A transfer of four bytes from the cartridge, and a reset of the PI status. -/
def resetting : List Request :=
  [.store .aligned 0x0460000C [0, 0, 0, 3], .store .aligned 0x04600010 [0, 0, 0, 1]]

/-- The interrupt of the transfer is then pending, but does not show. -/
theorem hidden_of_resetting :
    ¬((perform resetting (initial .smallest 0x120)).pi.status &&& 0x08 ≠ 0 ↔
      (perform resetting (initial .smallest 0x120)).mi.pending &&& 0x10 ≠ 0) := by
  decide +kernel

end Bus

end Console64
