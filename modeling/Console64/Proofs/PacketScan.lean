import Console64.Proofs.CommandMemory

/-!
# Packets in the command memory

The scan writes answers into the memory that it goes on reading, but an answer stays in its own
packet, behind the header and the bytes sent.  So the packets are those that stood there before
the scan, each on a channel of its own, and no packet has a part in what another one does.

## Key results

- `Joybus.scan_eq_performAll`: the scan answers the packets that stood in the memory before
- `Joybus.pairwise_exchanges`: their channels and places go up
- `Joybus.byteAt_scan_of_mem`, `Joybus.byteAt_scan_of_outside`: the memory after a scan
- `Joybus.controllers_scan`: the controllers after a scan
-/

namespace Console64.Joybus

/-- A packet that is accepted: its channel, its place and the length of its two parts. -/
structure Exchange where
  channel : Nat
  pos : Nat
  send : Nat
  receive : Nat
  deriving DecidableEq, Repr

namespace Exchange

/-- Where the answer goes. -/
def room (e : Exchange) : Nat := e.pos + 2 + e.send

/-- First place past the packet. -/
def stop (e : Exchange) : Nat := e.room + e.receive

/-- The packet takes what was pressed. -/
def polls (e : Exchange) (m : Memory) : Bool := 0 < e.send && byteAt m (e.pos + 2) = 0x01

/-- The packet is answered. -/
def perform (e : Exchange) (s : Memory × Vector Controller 4) : Memory × Vector Controller 4 :=
  exchange s.1 s.2 e.channel e.pos e.send e.receive

/-- What is answered, as far as there is room. -/
def reply (e : Exchange) (m : Memory) (controllers : Vector Controller 4) : List UInt8 :=
  if e.send = 0 then []
  else (answer controllers e.channel (byteAt m (e.pos + 2))).1.take e.receive

end Exchange

/-- The packets that the remaining turns of a scan find. -/
def exchangesFrom : (turns channel pos : Nat) → Memory → List Exchange
  | 0, _, _, _ => []
  | turns + 1, channel, pos, m =>
    if control ≤ pos then []
    else
      match packet m pos with
      | .finish => []
      | .skip => exchangesFrom turns (channel + 1) (pos + 1) m
      | .exchange send receive =>
        ⟨channel, pos, send, receive⟩ ::
          exchangesFrom turns (channel + 1) (pos + send + receive + 2) m

/-- The packets in the command memory. -/
def exchanges (m : Memory) : List Exchange := exchangesFrom channels 0 0 m

/-! ## Where packets are -/

/-- A packet ends before the control byte. -/
theorem stop_le_control {m : Memory} {pos send receive : Nat}
    (h : packet m pos = .exchange send receive) : pos + 2 + send + receive ≤ control := by
  simp only [packet] at h
  -- Only the last case of the header gives an exchange
  split at h
  · exact nomatch h
  split at h
  · exact nomatch h
  split at h
  · exact nomatch h
  split at h
  · exact nomatch h
  split at h
  · exact nomatch h
  · cases h
    omega

/-- The header is all that is read of a packet. -/
theorem packet_congr {m m' : Memory} {pos : Nat} (h : ∀ i, pos ≤ i → byteAt m i = byteAt m' i) :
    packet m pos = packet m' pos := by
  unfold packet
  rw [h pos (Nat.le_refl pos), h (pos + 1) (Nat.le_succ pos)]

/-- What has been scanned does not matter any more. -/
theorem exchangesFrom_congr {m m' : Memory} {turns channel pos : Nat}
    (h : ∀ i, pos ≤ i → byteAt m i = byteAt m' i) :
    exchangesFrom turns channel pos m = exchangesFrom turns channel pos m' := by
  induction turns generalizing channel pos with
  | zero => rfl
  | succ turns ih =>
    rw [exchangesFrom, exchangesFrom, packet_congr h]
    split
    · rfl
    · split
      · rfl
      · exact ih fun i hi => h i (by omega)
      · rw [ih fun i hi => h i (by omega)]

/-- The packets of a scan lie behind its position, on its remaining channels. -/
theorem mem_exchangesFrom {m : Memory} {turns channel pos : Nat} {e : Exchange}
    (h : e ∈ exchangesFrom turns channel pos m) :
    channel ≤ e.channel ∧ e.channel < channel + turns ∧ pos ≤ e.pos ∧ e.stop ≤ control := by
  induction turns generalizing channel pos with
  -- A byte that is skipped, or a packet that is cut short, leaves no packet of its own
  | zero => exact nomatch h
  | succ turns ih =>
    rw [exchangesFrom] at h
    split at h
    · exact nomatch h
    · split at h
      · exact nomatch h
      · have := ih h
        omega
      · next send receive hpacket =>
        rcases List.mem_cons.mp h with rfl | hrest
        · exact ⟨Nat.le_refl _, Nat.lt_add_of_pos_right (Nat.succ_pos _), Nat.le_refl _,
            stop_le_control hpacket⟩
        · have := ih hrest
          omega

/-- The packets stand one after the other, and so do their channels. -/
theorem pairwise_exchangesFrom (m : Memory) (turns channel pos : Nat) :
    (exchangesFrom turns channel pos m).Pairwise fun e e' =>
      e.channel < e'.channel ∧ e.stop ≤ e'.pos := by
  induction turns generalizing channel pos with
  | zero => exact .nil
  | succ turns ih =>
    rw [exchangesFrom]
    split
    · exact .nil
    · split
      · exact .nil
      · exact ih _ _
      -- The packets that follow begin where this one ends
      · refine .cons (fun e he => ?_) (ih _ _)
        have := mem_exchangesFrom he
        simp only [Exchange.stop, Exchange.room]
        omega

/-- So they do in the command memory. -/
theorem pairwise_exchanges (m : Memory) :
    (exchanges m).Pairwise fun e e' => e.channel < e'.channel ∧ e.stop ≤ e'.pos :=
  pairwise_exchangesFrom m _ _ _

/-- What comes before a packet has lower channels and ends before it, and what comes after it has
higher channels and begins behind it. -/
theorem exchanges_split {m : Memory} {e : Exchange} (h : e ∈ exchanges m) :
    ∃ before after, exchanges m = before ++ e :: after ∧
      (∀ a ∈ before, a.channel < e.channel ∧ a.stop ≤ e.pos) ∧
      ∀ a ∈ after, e.channel < a.channel ∧ e.stop ≤ a.pos := by
  obtain ⟨before, after, hsplit⟩ := List.append_of_mem h
  have hordered := pairwise_exchanges m
  rw [hsplit, List.pairwise_append, List.pairwise_cons] at hordered
  obtain ⟨-, ⟨hafter, -⟩, hbefore⟩ := hordered
  exact ⟨before, after, hsplit, fun a ha => hbefore a ha e (List.mem_cons_self ..), hafter⟩

/-- A channel has one packet at most. -/
theorem eq_of_channel_eq {m : Memory} {e e' : Exchange} (he : e ∈ exchanges m)
    (he' : e' ∈ exchanges m) (h : e.channel = e'.channel) : e = e' := by
  obtain ⟨before, after, hsplit, hbefore, hafter⟩ := exchanges_split he
  rw [hsplit, List.mem_append, List.mem_cons] at he'
  rcases he' with hmem | rfl | hmem
  · exact absurd h (Nat.ne_of_gt (hbefore e' hmem).1)
  · rfl
  · exact absurd h (Nat.ne_of_lt (hafter e' hmem).1)

/-! ## One packet -/

/-- What is stored is there, and the other bytes are as they were. -/
theorem byteAt_store (m : Memory) (pos : Nat) (data : List UInt8) (i : Nat) (hi : i < memorySize) :
    byteAt (store m pos data) i =
      if pos ≤ i then (data[i - pos]?).getD (byteAt m i) else byteAt m i := by
  simp only [byteAt, Vector.getElem?_eq_getElem hi, Option.getD_some, getElem_store]

/-- Bytes that a store does not reach. -/
theorem byteAt_store_of_outside (m : Memory) {pos i : Nat} {data : List UInt8}
    (h : i < pos ∨ pos + data.length ≤ i) : byteAt (store m pos data) i = byteAt m i := by
  by_cases hi : i < memorySize
  · rw [byteAt_store m pos data i hi]
    split
    · rw [List.getElem?_eq_none (by omega), Option.getD_none]
    · rfl
  · simp only [byteAt, Vector.getElem?_eq_none (Nat.le_of_not_lt hi)]

/-- What a channel answers depends on its own controller only. -/
theorem answer_congr {controllers controllers' : Vector Controller 4} {channel : Nat}
    (h : controllers[channel]? = controllers'[channel]?) (command : UInt8) :
    (answer controllers channel command).1 = (answer controllers' channel command).1 := by
  unfold answer
  split
  · rfl
  · split
    · by_cases hchannel : channel < 4
      · rw [Vector.getElem?_eq_getElem hchannel, Vector.getElem?_eq_getElem hchannel,
          Option.some.injEq] at h
        rw [dif_pos hchannel, dif_pos hchannel, h]
      · rw [dif_neg hchannel, dif_neg hchannel]
    · rfl

/-- A poll takes from the controller of its channel, and nothing else takes anything. -/
theorem controllers_answer (controllers : Vector Controller 4) (channel : Nat) (command : UInt8)
    (port : Fin 4) :
    (answer controllers channel command).2.get port =
      if channel = port ∧ command = 0x01 then {} else controllers.get port := by
  -- Only a poll of a channel that has a port takes anything
  by_cases hpoll : command = 0x01
  · have hanswer : (answer controllers channel command).2 =
        if h : channel < 4 then controllers.set channel {} else controllers := by
      subst hpoll
      show (if h : channel < 4 then _ else _ : List UInt8 × Vector Controller 4).2 = _
      split <;> rfl
    rw [hanswer]
    by_cases hchannel : channel < 4
    · rw [dif_pos hchannel]
      simp only [hpoll, and_true]
      exact Vector.getElem_set hchannel port.isLt
    · rw [dif_neg hchannel, if_neg (by omega)]
  · have hanswer : (answer controllers channel command).2 = controllers := by
      unfold answer
      rw [if_neg hpoll]
      split <;> rfl
    rw [hanswer, if_neg fun h => hpoll h.2]

namespace Exchange

/-- To answer a packet is to store the answer in its room, -/
theorem memory_perform (e : Exchange) (s : Memory × Vector Controller 4) :
    (e.perform s).1 = store s.1 e.room (e.reply s.1 s.2) := by
  unfold perform exchange reply
  split <;> rfl

/-- and to empty the controller that it polls. -/
theorem controllers_perform (e : Exchange) (s : Memory × Vector Controller 4) (port : Fin 4) :
    (e.perform s).2.get port = if e.channel = port ∧ e.polls s.1 then {} else s.2.get port := by
  unfold perform exchange
  split
  · next hsend => simp [polls, hsend]
  · next hsend =>
    refine (controllers_answer _ _ _ _).trans ?_
    simp [polls, Nat.pos_of_ne_zero hsend]

/-- The answer keeps to the room. -/
theorem length_reply_le (e : Exchange) (m : Memory) (controllers : Vector Controller 4) :
    (e.reply m controllers).length ≤ e.receive := by
  unfold reply
  split
  · exact Nat.zero_le _
  · exact List.length_take_le _ _

/-- A packet changes bytes in its room only. -/
theorem byteAt_perform {e : Exchange} {i : Nat} (h : i < e.room ∨ e.stop ≤ i)
    (s : Memory × Vector Controller 4) : byteAt (e.perform s).1 i = byteAt s.1 i := by
  have hlength := e.length_reply_le s.1 s.2
  rw [memory_perform]
  refine byteAt_store_of_outside _ ?_
  simp only [stop] at h
  omega

end Exchange

/-! ## All packets -/

/-- Answer packets, first to last. -/
def performAll (es : List Exchange) (s : Memory × Vector Controller 4) :
    Memory × Vector Controller 4 := es.foldl (fun s e => e.perform s) s

/-- The scan answers the packets that it finds, and its answers do not change what it finds. -/
theorem scanFrom_eq (turns channel pos : Nat) (m : Memory) (controllers : Vector Controller 4) :
    scanFrom turns channel pos m controllers =
      performAll (exchangesFrom turns channel pos m) (m, controllers) := by
  induction turns generalizing channel pos m controllers with
  | zero => rfl
  | succ turns ih =>
    rw [scanFrom, exchangesFrom]
    by_cases hend : control ≤ pos
    · rw [if_pos hend, if_pos hend]
      rfl
    rw [if_neg hend, if_neg hend]
    cases packet m pos with
    | finish => rfl
    | skip => exact ih _ _ _ _
    | exchange send receive =>
      refine (ih _ _ _ _).trans ?_
      -- Behind the packet the memory is what it was
      refine congrArg (performAll · _) (exchangesFrom_congr fun i hi => ?_)
      refine Exchange.byteAt_perform (e := ⟨channel, pos, send, receive⟩) (.inr ?_) (m, controllers)
      simp only [Exchange.stop, Exchange.room]
      omega

/-- So does a scan from the start. -/
theorem scan_eq_performAll (m : Memory) (controllers : Vector Controller 4) :
    scan m controllers = performAll (exchanges m) (m, controllers) := scanFrom_eq _ _ _ _ _

/-- Bytes outside all rooms are left alone. -/
theorem byteAt_performAll {es : List Exchange} {i : Nat} (h : ∀ e ∈ es, i < e.room ∨ e.stop ≤ i)
    (s : Memory × Vector Controller 4) : byteAt (performAll es s).1 i = byteAt s.1 i := by
  induction es generalizing s with
  | nil => rfl
  | cons e rest ih =>
    rw [List.forall_mem_cons] at h
    exact (ih h.2 _).trans (Exchange.byteAt_perform h.1 s)

/-- Controllers on other channels are left alone. -/
theorem controllers_performAll {es : List Exchange} {port : Fin 4}
    (h : ∀ e ∈ es, e.channel ≠ port) (s : Memory × Vector Controller 4) :
    (performAll es s).2.get port = s.2.get port := by
  induction es generalizing s with
  | nil => rfl
  | cons e rest ih =>
    rw [List.forall_mem_cons] at h
    refine (ih h.2 _).trans ?_
    rw [Exchange.controllers_perform, if_neg fun hpoll => h.1 hpoll.1]

/-- A scan changes bytes in the rooms of the packets only. -/
theorem byteAt_scan_of_outside {m : Memory} {i : Nat}
    (h : ∀ e ∈ exchanges m, i < e.room ∨ e.stop ≤ i) (controllers : Vector Controller 4) :
    byteAt (scan m controllers).1 i = byteAt m i := by
  rw [scan_eq_performAll]
  exact byteAt_performAll h (m, controllers)

/-- A scan comes to one packet with nothing done to what it reads, and leaves its answer. -/
private theorem scan_at {m : Memory} {e : Exchange} (h : e ∈ exchanges m)
    (controllers : Vector Controller 4) :
    ∃ s after, scan m controllers = performAll after (e.perform s) ∧
      (∀ i, e.pos ≤ i → byteAt s.1 i = byteAt m i) ∧
      (∀ port : Fin 4, e.channel ≤ port → s.2.get port = controllers.get port) ∧
      ∀ a ∈ after, e.channel < a.channel ∧ e.stop ≤ a.pos := by
  obtain ⟨before, after, hsplit, hbefore, hafter⟩ := exchanges_split h
  refine ⟨performAll before (m, controllers), after, ?_, fun i hi => ?_, fun port hport => ?_,
    hafter⟩
  · rw [scan_eq_performAll, hsplit, performAll, List.foldl_append, List.foldl_cons]
    rfl
  · refine byteAt_performAll (fun a ha => .inr ?_) _
    have := hbefore a ha
    omega
  · refine controllers_performAll (fun a ha => ?_) _
    have := hbefore a ha
    omega

/-- In the room of a packet is its answer, and behind that what was there before. -/
theorem byteAt_scan_of_mem {m : Memory} {e : Exchange} (h : e ∈ exchanges m) {i : Nat}
    (hroom : e.room ≤ i) (hstop : i < e.stop) (controllers : Vector Controller 4) :
    byteAt (scan m controllers).1 i =
      ((e.reply m controllers)[i - e.room]?).getD (byteAt m i) := by
  obtain ⟨s, after, hscan, hmemory, hcontrollers, hafter⟩ := scan_at h controllers
  have hi : i < memorySize :=
    Nat.lt_trans (Nat.lt_of_lt_of_le hstop (mem_exchangesFrom h).2.2.2) (by decide)
  -- The packet finds its command and its controller as they were
  have hcontroller : s.2[e.channel]? = controllers[e.channel]? := by
    by_cases hchannel : e.channel < 4
    · rw [Vector.getElem?_eq_getElem hchannel, Vector.getElem?_eq_getElem hchannel]
      exact congrArg some (hcontrollers ⟨e.channel, hchannel⟩ (Nat.le_refl _))
    · rw [Vector.getElem?_eq_none (Nat.le_of_not_lt hchannel),
        Vector.getElem?_eq_none (Nat.le_of_not_lt hchannel)]
  have hreply : e.reply s.1 s.2 = e.reply m controllers := by
    rw [Exchange.reply, Exchange.reply, hmemory _ (by omega), answer_congr hcontroller]
  have hlater : byteAt (performAll after (e.perform s)).1 i = byteAt (e.perform s).1 i := by
    refine byteAt_performAll (fun a ha => .inl ?_) _
    have := (hafter a ha).2
    simp only [Exchange.room]
    omega
  rw [hscan, hlater, Exchange.memory_perform, byteAt_store _ _ _ _ hi, if_pos hroom, hreply,
    hmemory i (by simp only [Exchange.room] at hroom; omega)]

/-- The packet that takes what was pressed on a port. -/
def polled (m : Memory) (port : Fin 4) : Option Exchange :=
  (exchanges m).find? fun e => e.channel = port && e.polls m

/-- It is one of the packets, on the channel of the port, and it polls. -/
theorem polled_eq_some {m : Memory} {port : Fin 4} {e : Exchange} (h : polled m port = some e) :
    e ∈ exchanges m ∧ e.channel = port ∧ e.polls m := by
  have hfound := List.find?_some h
  rw [Bool.and_eq_true, decide_eq_true_eq] at hfound
  exact ⟨List.mem_of_find?_eq_some h, hfound⟩

/-- A scan empties the controllers that are polled, and no other ones. -/
theorem controllers_scan (m : Memory) (controllers : Vector Controller 4) (port : Fin 4) :
    (scan m controllers).2.get port =
      if (polled m port).isSome then {} else controllers.get port := by
  -- Whether the channel has a packet at all
  by_cases hport : ∃ e ∈ exchanges m, e.channel = port
  · obtain ⟨e, he, hchannel⟩ := hport
    obtain ⟨s, after, hscan, hmemory, hcontrollers, hafter⟩ := scan_at he controllers
    have hlater : (performAll after (e.perform s)).2.get port = (e.perform s).2.get port := by
      refine controllers_performAll (fun a ha => ?_) _
      have := (hafter a ha).1
      omega
    have hpolls : e.polls s.1 = e.polls m := by
      rw [Exchange.polls, Exchange.polls, hmemory _ (by omega)]
    -- No other packet is on this channel
    have hpolled : (polled m port).isSome = e.polls m := by
      cases hfound : polled m port with
      | some e' =>
        obtain ⟨he', hchannel', hpolls'⟩ := polled_eq_some hfound
        rw [eq_of_channel_eq he he' (hchannel.trans hchannel'.symm), hpolls']
        rfl
      | none =>
        have := List.find?_eq_none.mp hfound e he
        simp only [hchannel, decide_true, Bool.true_and] at this
        exact (Bool.eq_false_iff.mpr this).symm
    rw [hscan, hlater, Exchange.controllers_perform, hpolls, hpolled,
      hcontrollers port (Nat.le_of_eq hchannel)]
    simp only [hchannel, true_and]
  · have hother : ∀ e ∈ exchanges m, e.channel ≠ port := fun e he h => hport ⟨e, he, h⟩
    have hnone : polled m port = none :=
      List.find?_eq_none.mpr fun e he h => by simp [hother e he] at h
    rw [scan_eq_performAll, controllers_performAll hother, hnone]
    rfl

end Console64.Joybus
