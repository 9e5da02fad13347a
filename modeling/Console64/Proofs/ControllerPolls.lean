import Console64.Proofs.History
import Console64.Proofs.PacketScan
import Mathlib.Tactic.IntervalCases

/-!
# Polls of the controllers

The host presses buttons at any time, and frames poll the controllers.  A poll takes everything
that was pressed on its port since the last one, and answers it.  But how much of the answer is
left in the command memory is for the frame to say: its packet may have no room for the mask, and
its control byte may clear the memory.  What is not left is lost.

## Key results

- `Pif.shown_processCommands`: what a poll leaves of the mask
- `Pif.press_reported_iff`: a button is pending from the time it is pressed until its port is
  polled, and is reported by that poll exactly if the frame lets it be seen
- `Pif.press_lost`: a press that no poll ever reports
-/

namespace Console64

namespace Buttons

/-- The two bytes of a mask, put together again. -/
theorem bits_of_bytes (b : UInt16) :
    (b >>> 8).toUInt8.toUInt16 <<< 8 ||| b.toUInt8.toUInt16 = b := by
  apply UInt16.toBitVec_inj.mp
  ext i hi
  interval_cases i <;> simp [-UInt16.toUInt16_toUInt8]

/-- The first of them alone. -/
theorem bits_of_upper (b : UInt16) : (b >>> 8).toUInt8.toUInt16 <<< 8 = b &&& 0xFF00 := by
  apply UInt16.toBitVec_inj.mp
  ext i hi
  interval_cases i <;> simp [-UInt16.toUInt16_toUInt8]

end Buttons

namespace Joybus.Exchange

/-- The mask that a packet leaves in its room; what there is no room for does not show. -/
def shown (e : Exchange) (m : Memory) : UInt16 :=
  (if 0 < e.receive then byteAt m e.room else 0).toUInt16 <<< 8 |||
    (if 1 < e.receive then byteAt m (e.room + 1) else 0).toUInt16

/-- The buttons that can be seen in the room of a packet once the frame has been dealt with. -/
def visible (e : Exchange) (frame : Memory) : UInt16 :=
  if getElem frame control control_lt &&& 0x40 ≠ 0 then 0
  else if e.receive = 0 then 0
  else if e.receive = 1 then 0xFF00
  else 0xFFFF

end Joybus.Exchange

namespace Pif

/-- The packet of a frame that polls a port. -/
def poll (frame : Joybus.Memory) (port : Fin 4) : Option Joybus.Exchange :=
  if getElem frame Joybus.control Joybus.control_lt &&& 0x01 ≠ 0 then Joybus.polled frame port
  else none

/-- Polled controllers are emptied, and no other ones. -/
theorem controllers_processCommands (p : Pif) (port : Fin 4) :
    p.processCommands.controllers[port] =
      if (poll p.ram port).isSome then {} else p.controllers[port] := by
  have hscanned : p.processCommands.controllers =
      if p.ram[Joybus.control] &&& 0x01 ≠ 0 then (Joybus.scan p.ram p.controllers).2
      else p.controllers := by
    unfold processCommands
    simp only [apply_ite Pif.controllers, clearPackets, ite_self]
    rfl
  rw [hscanned, poll]
  -- The frame scans the packets only if the control byte asks for it
  by_cases hpackets : p.ram[Joybus.control] &&& 0x01 ≠ 0
  · rw [if_pos hpackets, if_pos hpackets]
    exact Joybus.controllers_scan _ _ _
  · rw [if_neg hpackets, if_neg hpackets]
    rfl

/-- What is left of the answers before the control byte. -/
theorem byteAt_processCommands (p : Pif) {i : Nat} (hi : i < Joybus.control) :
    Joybus.byteAt p.processCommands.ram i =
      if p.ram[Joybus.control] &&& 0x40 ≠ 0 then 0
      else if p.ram[Joybus.control] &&& 0x01 ≠ 0 then
        Joybus.byteAt (Joybus.scan p.ram p.controllers).1 i
      else Joybus.byteAt p.ram i := by
  have hmemory : i < Joybus.memorySize := Nat.lt_trans hi (by decide)
  have hclear : ∀ q : Pif, Joybus.byteAt q.clearPackets.ram i = 0 := by
    intro q
    simp only [Joybus.byteAt, clearPackets, Vector.getElem?_eq_getElem hmemory, Option.getD_some,
      Vector.getElem_ofFn, if_pos hi]
  have hverdict : ∀ (m : Joybus.Memory) (verdict : UInt8),
      Joybus.byteAt (m.set Joybus.control verdict) i = Joybus.byteAt m i := by
    intro m verdict
    simp only [Joybus.byteAt,
      Vector.getElem?_set_ne (by decide : Joybus.control < Joybus.memorySize) (Nat.ne_of_gt hi)]
  -- The ROM lock is in the way, but does not concern the memory
  unfold processCommands
  simp only [hverdict, apply_ite Pif.ram, apply_ite (Joybus.byteAt · i), hclear, ite_self]
  rfl

/-- What a packet that polls a port answers. -/
theorem reply_of_polls {m : Joybus.Memory} {e : Joybus.Exchange} {port : Fin 4}
    (hchannel : e.channel = port) (hpolls : e.polls m = true) (controllers : Vector Controller 4) :
    e.reply m controllers = controllers[port].pressed.report.take e.receive := by
  simp only [Joybus.Exchange.polls, Bool.and_eq_true, decide_eq_true_eq] at hpolls
  have hlt : e.channel < 4 := by omega
  have hanswer : (Joybus.answer controllers e.channel 0x01).1 =
      controllers[e.channel].pressed.report := by
    show (if h : e.channel < 4 then _ else _ : List UInt8 × Vector Controller 4).1 = _
    rw [dif_pos hlt]
  rw [Joybus.Exchange.reply, if_neg (Nat.ne_of_gt hpolls.1), hpolls.2, hanswer]
  simp only [Fin.getElem_fin, hchannel]

/-- A poll leaves what was pressed, as far as the frame lets it be seen. -/
theorem shown_processCommands {p : Pif} {port : Fin 4} {e : Joybus.Exchange}
    (h : poll p.ram port = some e) :
    e.shown p.processCommands.ram = p.controllers[port].pressed.bits &&& e.visible p.ram := by
  by_cases hpackets : p.ram[Joybus.control] &&& 0x01 ≠ 0
  case neg =>
    rw [poll, if_neg hpackets] at h
    exact nomatch h
  rw [poll, if_pos hpackets] at h
  obtain ⟨hmem, hchannel, hpolls⟩ := Joybus.polled_eq_some h
  -- One byte of the mask that there is room for
  have hbyte : ∀ k < e.receive, ∀ byte, p.controllers[port].pressed.report[k]? = some byte →
      Joybus.byteAt p.processCommands.ram (e.room + k) =
        if p.ram[Joybus.control] &&& 0x40 ≠ 0 then 0 else byte := by
    intro k hk byte hreport
    have hstop : e.room + k < e.stop := Nat.add_lt_add_left hk _
    rw [byteAt_processCommands p (Nat.lt_of_lt_of_le hstop (Joybus.mem_exchangesFrom hmem).2.2.2),
      if_pos hpackets, Joybus.byteAt_scan_of_mem hmem (Nat.le_add_right _ _) hstop,
      reply_of_polls hchannel hpolls, Nat.add_sub_cancel_left, List.getElem?_take_of_lt hk, hreport,
      Option.getD_some]
  rw [Joybus.Exchange.shown, Joybus.Exchange.visible]
  -- No room at all, room for the upper byte, room for both
  rcases Nat.lt_trichotomy e.receive 1 with hnone | hone | htwo
  · have hzero : e.receive = 0 := by omega
    simp [hzero]
  · have hupper := hbyte 0 (by omega) _ rfl
    rw [Nat.add_zero] at hupper
    rw [hone, if_pos (by decide), if_neg (by decide), hupper]
    split
    · simp
    · simp only [Nat.one_ne_zero, if_true, if_false]
      simpa using Buttons.bits_of_upper _
  · have hupper := hbyte 0 (by omega) _ rfl
    have hlower := hbyte 1 htwo _ rfl
    rw [Nat.add_zero] at hupper
    rw [if_pos (by omega), if_pos htwo, hupper, hlower]
    split
    · simp
    · rw [if_neg (by omega), if_neg (by omega), Buttons.bits_of_bytes]
      exact UInt16.and_neg_one.symm

/-! ## Histories -/

/-- What happens to the controllers. -/
inductive Event where
  /-- The host presses buttons. -/
  | press (port : Fin 4) (buttons : Buttons)
  /-- The command memory holds a frame, however it got there, and its commands are carried out. -/
  | frame (memory : Joybus.Memory)
  deriving DecidableEq

namespace Event

/-- The button is pressed on the port. -/
def Presses (port : Fin 4) (button : Nat) : Event → Prop
  | press p buttons => p = port ∧ buttons.bits.toNat.testBit button
  | frame _ => False

/-- Anything is pressed on the port, be it nothing at all. -/
def Touches (port : Fin 4) : Event → Prop
  | press p _ => p = port
  | frame _ => False

/-- The port is polled. -/
def Polls (port : Fin 4) : Event → Prop
  | press _ _ => False
  | frame memory => (poll memory port).isSome

end Event

def next (p : Pif) : Event → Pif
  | .press port buttons =>
    { p with controllers := p.controllers.set port (p.controllers[port].append buttons) }
  | .frame memory => { p with ram := memory }.processCommands

/-- The state after a history. -/
def after (p : Pif) (es : List Event) : Pif := es.foldl next p

/-- One event more. -/
theorem after_append_singleton (p : Pif) (es : List Event) (e : Event) :
    p.after (es ++ [e]) = (p.after es).next e := by
  simp only [after, List.foldl_append, List.foldl_cons, List.foldl_nil]

/-- One event at one controller. -/
theorem controllers_next (p : Pif) (port : Fin 4) (e : Event) :
    (p.next e).controllers[port] =
      match e with
      | .press port' buttons =>
        if port' = port then p.controllers[port].append buttons else p.controllers[port]
      | .frame memory => if (poll memory port).isSome then {} else p.controllers[port] := by
  cases e with
  | press port' buttons =>
    simp only [next, Fin.getElem_fin, Vector.getElem_set, Fin.val_inj]
    split
    · next h => rw [h]
    · rfl
  | frame memory => exact controllers_processCommands { p with ram := memory } port

/-- A button is pending after an event if the event has pressed it, or if it was pending before
and the event is no poll. -/
theorem testBit_pressed_next (p : Pif) (port : Fin 4) (button : Nat) (e : Event) :
    (p.next e).controllers[port].pressed.bits.toNat.testBit button = true ↔
      e.Presses port button ∨
        (p.controllers[port].pressed.bits.toNat.testBit button = true ∧ ¬e.Polls port) := by
  rw [controllers_next]
  cases e with
  | press port' buttons =>
    -- Buttons are added to those of the port that is touched
    simp only [Event.Presses, Event.Polls, not_false_eq_true, and_true]
    split
    · next hport =>
      have hunion : (p.controllers[port].append buttons).pressed.bits =
          p.controllers[port].pressed.bits ||| buttons.bits := rfl
      rw [hunion, UInt16.toNat_or, Nat.testBit_or, Bool.or_eq_true]
      simp only [hport, true_and]
      exact Or.comm
    · next hport => simp only [hport, false_and, false_or]
  | frame memory =>
    -- The port that is polled forgets, and the others are kept
    simp only [Event.Presses, Event.Polls, false_or]
    split
    · next hpoll => simp [hpoll, Buttons.none]
    · next hpoll => simp [hpoll]

/-- So it is with the mark that there is anything new. -/
theorem pending_next (p : Pif) (port : Fin 4) (e : Event) :
    (p.next e).controllers[port].pending = true ↔
      e.Touches port ∨ (p.controllers[port].pending = true ∧ ¬e.Polls port) := by
  rw [controllers_next]
  cases e with
  | press port' buttons =>
    simp only [Event.Touches, Event.Polls, not_false_eq_true, and_true]
    split
    · next hport => simp [hport, Controller.append]
    · next hport => simp only [hport, false_or]
  | frame memory =>
    simp only [Event.Touches, Event.Polls, false_or]
    split
    · next hpoll => simp [hpoll]
    · next hpoll => simp [hpoll]

/-- What is pending after a history: what was pressed, and the port not polled since then. -/
theorem pending_after_iff {p : Pif} {port : Fin 4} (h : p.controllers[port] = {})
    (es : List Event) :
    ((p.after es).controllers[port].pending = true ↔
        Since (fun _ => Event.Touches port) (Event.Polls port) es) ∧
      ∀ button, (p.after es).controllers[port].pressed.bits.toNat.testBit button = true ↔
        Since (fun _ => Event.Presses port button) (Event.Polls port) es := by
  -- Induction on the events, the last one first
  induction es using List.reverseRecOn with
  | nil =>
    simp only [after, List.foldl_nil, h, not_since_nil, iff_false]
    exact ⟨Bool.false_ne_true, fun button => by simp [Buttons.none]⟩
  | append_singleton es last ih =>
    refine ⟨?_, fun button => ?_⟩
    · rw [after_append_singleton, pending_next, since_append_singleton, ih.1]
    · rw [after_append_singleton, testBit_pressed_next, since_append_singleton, ih.2]

/-- Whatever the host and the frames do: a button is pending from the time that it is pressed until
its port is polled, and that poll reports it exactly if the frame lets it be seen.  Whether or not
it has been seen, it is not pending any more. -/
theorem press_reported_iff (p : Pif) (port : Fin 4) (h : p.controllers[port] = {})
    (es : List Event) :
    ((p.after es).controllers[port].pending = true ↔
        Since (fun _ => Event.Touches port) (Event.Polls port) es) ∧
      (∀ button, (p.after es).controllers[port].pressed.bits.toNat.testBit button = true ↔
        Since (fun _ => Event.Presses port button) (Event.Polls port) es) ∧
      ∀ memory,
        (poll memory port = none →
          (p.after (es ++ [.frame memory])).controllers[port] = (p.after es).controllers[port]) ∧
        ∀ e, poll memory port = some e →
          (p.after (es ++ [.frame memory])).controllers[port] = {} ∧
          ∀ button,
            (e.shown (p.after (es ++ [.frame memory])).ram).toNat.testBit button = true ↔
              Since (fun _ => Event.Presses port button) (Event.Polls port) es ∧
                (e.visible memory).toNat.testBit button = true := by
  obtain ⟨hpending, hpressed⟩ := pending_after_iff h es
  refine ⟨hpending, hpressed, fun memory => ⟨fun hnone => ?_,
    fun e hpoll => ⟨?_, fun button => ?_⟩⟩⟩
  · rw [after_append_singleton, controllers_next]
    simp only [hnone, Option.isSome_none, Bool.false_eq_true, if_false]
  · rw [after_append_singleton, controllers_next]
    simp only [hpoll, Option.isSome_some, if_true]
  -- The answer is made of what is pending and of the bytes that are sent
  · have hshown : e.shown ((p.after es).next (.frame memory)).ram =
        (p.after es).controllers[port].pressed.bits &&& e.visible memory :=
      shown_processCommands (p := { p.after es with ram := memory }) hpoll
    rw [after_append_singleton, hshown, UInt16.toNat_and, Nat.testBit_and, Bool.and_eq_true,
      hpressed]

/-- A frame that polls the first port, with room for an answer of some length. -/
def pollFrame (receive : UInt8) : Joybus.Memory :=
  (Joybus.store (Vector.replicate _ 0) 0 [0x01, receive, 0x01]).set Joybus.control 0x01
    Joybus.control_lt

/-- With room for the whole answer the button is reported. -/
theorem press_reported_in_full :
    ({} : Pif).controllers[(0 : Fin 4)] = {} ∧
      poll (pollFrame 4) 0 = some ⟨0, 0, 1, 4⟩ ∧
      ((⟨0, 0, 1, 4⟩ : Joybus.Exchange).shown
        (({} : Pif).after [.press 0 ⟨0x0008⟩, .frame (pollFrame 4)]).ram).toNat.testBit 3 =
          true := by
  have hpoll : poll (pollFrame 4) 0 = some ⟨0, 0, 1, 4⟩ := by decide +kernel
  obtain ⟨-, -, hframe⟩ := press_reported_iff {} 0 rfl [.press 0 ⟨0x0008⟩]
  refine ⟨rfl, hpoll, (((hframe (pollFrame 4)).2 _ hpoll).2 3).mpr ⟨?_, by decide +kernel⟩⟩
  exact ⟨[], .press 0 ⟨0x0008⟩, [], rfl, ⟨rfl, by decide⟩, fun e' he' => nomatch he'⟩

/-- With room for one byte only it is not, and no later poll reports it either. -/
theorem press_lost :
    (({} : Pif).after [.press 0 ⟨0x0008⟩]).controllers[0] = ⟨⟨0x0008⟩, true⟩ ∧
      poll (pollFrame 1) 0 = some ⟨0, 0, 1, 1⟩ ∧
      (⟨0, 0, 1, 1⟩ : Joybus.Exchange).shown
        (({} : Pif).after [.press 0 ⟨0x0008⟩, .frame (pollFrame 1)]).ram = 0 ∧
      (({} : Pif).after [.press 0 ⟨0x0008⟩, .frame (pollFrame 1)]).controllers[0] = {} ∧
      poll (pollFrame 4) 0 = some ⟨0, 0, 1, 4⟩ ∧
      (⟨0, 0, 1, 4⟩ : Joybus.Exchange).shown
        (({} : Pif).after
          [.press 0 ⟨0x0008⟩, .frame (pollFrame 1), .frame (pollFrame 4)]).ram = 0 := by
  decide +kernel

end Pif

end Console64
