import Console64.Proofs.PacketScan

/-!
# What a scan looks at, and what it changes

A scan moves through the command memory by lengths that stand in that memory, and writes
answers into it on the way.  `audit` is the scan with every access checked, failing at any
byte that does not lie in front of the control byte, and with a record of its turns.  It
never fails and ends as the scan does, so that its turns are those of the scan.

The turns move forward, one channel after the other, and the room of a packet lies behind
all that is read of it.  So no answer comes into the way of another one or of a header, and
the same turns are found again in the memory that the scan leaves.

## Key results

- `Joybus.auditFrom_eq`: the scan stays in front of the control byte
- `Joybus.pairwise_turns`: turns move forward, and only the last one ends the scan
- `Joybus.turnsFrom_congr`: the headers alone tell which turns there are
- `Joybus.SameInFront.scanFrom`: the control byte makes no difference to a scan
- `Joybus.scan_confined`: where a scan reads and writes, and what it leaves alone
-/

namespace Console64.Joybus

/-! ## Turns -/

namespace Packet

/-- How far a turn moves the scan on. -/
def extent : Packet → Nat
  | .finish => 0
  | .skip => 1
  | .exchange send receive => send + receive + 2

/-- How many bytes are header, or are sent. -/
def head : Packet → Nat
  | .finish => 2
  | .skip => 1
  | .exchange send _ => send + 2

/-- A turn looks at one byte at least, -/
theorem head_pos (p : Packet) : 0 < p.head := by
  cases p <;> simp only [head] <;> omega

/-- and at a second one unless it is skipped. -/
theorem one_lt_head {p : Packet} (h : p ≠ .skip) : 1 < p.head := by
  cases p with
  | skip => exact absurd rfl h
  | finish => exact Nat.lt_succ_self 1
  | exchange send receive => exact Nat.lt_add_left send (Nat.lt_succ_self 1)

/-- A turn that does not end the scan passes what it has read. -/
theorem head_le_extent {p : Packet} (h : p ≠ .finish) : p.head ≤ p.extent := by
  cases p with
  | finish => exact absurd rfl h
  | skip => exact Nat.le_refl 1
  | exchange send receive =>
    simp only [head, extent]
    omega

end Packet

/-- One channel's turn: where it looks, and what it finds. -/
structure Turn where
  channel : Nat
  pos : Nat
  found : Packet
  deriving DecidableEq, Repr

namespace Turn

/-- First place past what was found. -/
def stop (t : Turn) : Nat := t.pos + t.found.extent

/-- The byte belongs to the header, or is sent. -/
def Holds (t : Turn) (i : Nat) : Prop := t.pos ≤ i ∧ i < t.pos + t.found.head

/-- The packet of the turn, if it is accepted. -/
def accepted (t : Turn) : Option Exchange :=
  match t.found with
  | .exchange send receive => some ⟨t.channel, t.pos, send, receive⟩
  | _ => none

/-- What a turn accepts is the packet that it found. -/
theorem accepted_eq_some {t : Turn} {e : Exchange} (h : t.accepted = some e) :
    t.found = .exchange e.send e.receive ∧ e.channel = t.channel ∧ e.pos = t.pos := by
  obtain ⟨channel, pos, found⟩ := t
  cases found with
  | exchange send receive =>
    cases h
    exact ⟨rfl, rfl, rfl⟩
  | finish => exact nomatch h
  | skip => exact nomatch h

/-- The packet ends where the turn does, and its room lies behind all that is read of it. -/
theorem stop_of_accepted {t : Turn} {e : Exchange} (h : t.accepted = some e) :
    e.stop = t.stop ∧ e.room = t.pos + t.found.head := by
  obtain ⟨hfound, -, hpos⟩ := accepted_eq_some h
  simp only [Exchange.stop, Exchange.room, stop, hfound, hpos, Packet.extent, Packet.head]
  omega

end Turn

/-- The byte lies in the room for the answer. -/
def Exchange.InRoom (e : Exchange) (i : Nat) : Prop := e.room ≤ i ∧ i < e.stop

/-- The turns that remain for a scan. -/
def turnsFrom : (turns channel pos : Nat) → Memory → List Turn
  | 0, _, _, _ => []
  | turns + 1, channel, pos, m =>
    if control ≤ pos then []
    else
      ⟨channel, pos, packet m pos⟩ ::
        match packet m pos with
        | .finish => []
        | .skip => turnsFrom turns (channel + 1) (pos + 1) m
        | .exchange send receive => turnsFrom turns (channel + 1) (pos + send + receive + 2) m

/-- The turns of a scan. -/
def turns (m : Memory) : List Turn := turnsFrom channels 0 0 m

/-- The packets that a scan answers are those that its turns accept. -/
theorem exchangesFrom_eq_accepted (turns channel pos : Nat) (m : Memory) :
    exchangesFrom turns channel pos m =
      (turnsFrom turns channel pos m).filterMap Turn.accepted := by
  induction turns generalizing channel pos with
  | zero => rfl
  | succ turns ih =>
    rw [exchangesFrom, turnsFrom]
    split
    · rfl
    · cases hpacket : packet m pos with
      | finish => rfl
      | skip => exact ih _ _
      | exchange send receive => exact congrArg _ (ih _ _)

/-- So it is from the start. -/
theorem exchanges_eq_accepted (m : Memory) :
    exchanges m = (turns m).filterMap Turn.accepted := exchangesFrom_eq_accepted _ _ _ _

/-- Every channel has one turn, in order. -/
theorem channels_turnsFrom (n channel pos : Nat) (m : Memory) :
    (turnsFrom n channel pos m).map (·.channel) =
        List.range' channel (turnsFrom n channel pos m).length ∧
      (turnsFrom n channel pos m).length ≤ n := by
  -- Each turn takes one channel, however far it moves
  induction n generalizing channel pos with
  | zero => exact ⟨rfl, Nat.le_refl 0⟩
  | succ n ih =>
    rw [turnsFrom]
    split
    · exact ⟨rfl, Nat.zero_le _⟩
    · cases packet m pos with
      | finish => exact ⟨rfl, Nat.succ_le_succ (Nat.zero_le n)⟩
      | skip =>
        obtain ⟨hchannels, hlength⟩ := ih (channel + 1) (pos + 1)
        exact ⟨congrArg (channel :: ·) hchannels, Nat.succ_le_succ hlength⟩
      | exchange send receive =>
        obtain ⟨hchannels, hlength⟩ := ih (channel + 1) (pos + send + receive + 2)
        exact ⟨congrArg (channel :: ·) hchannels, Nat.succ_le_succ hlength⟩

/-- The turns of a scan lie behind its position, on its remaining channels. -/
theorem mem_turnsFrom {m : Memory} {n channel pos : Nat} {t : Turn}
    (h : t ∈ turnsFrom n channel pos m) :
    channel ≤ t.channel ∧ pos ≤ t.pos ∧ t.found = packet m t.pos := by
  induction n generalizing channel pos with
  | zero => exact nomatch h
  | succ n ih =>
    rw [turnsFrom] at h
    split at h
    · exact nomatch h
    -- It is this turn, or one of those that follow what was found
    rcases List.mem_cons.mp h with rfl | hrest
    · exact ⟨Nat.le_refl _, Nat.le_refl _, rfl⟩
    · cases hpacket : packet m pos with
      | finish =>
        rw [hpacket] at hrest
        exact nomatch hrest
      | skip =>
        rw [hpacket] at hrest
        obtain ⟨hchannel, hpos, hfound⟩ := ih hrest
        exact ⟨by omega, by omega, hfound⟩
      | exchange send receive =>
        rw [hpacket] at hrest
        obtain ⟨hchannel, hpos, hfound⟩ := ih hrest
        exact ⟨by omega, by omega, hfound⟩

/-- Turns move forward, and a turn that ends the scan is the last one. -/
theorem pairwise_turnsFrom (m : Memory) (n channel pos : Nat) :
    (turnsFrom n channel pos m).Pairwise fun t t' =>
      t.channel < t'.channel ∧ t.stop ≤ t'.pos ∧ t.found ≠ .finish := by
  induction n generalizing channel pos with
  | zero => exact .nil
  | succ n ih =>
    rw [turnsFrom]
    split
    · exact .nil
    · cases hpacket : packet m pos with
      | finish => exact List.pairwise_singleton _ _
      | skip =>
        refine .cons (fun t ht => ?_) (ih _ _)
        obtain ⟨hchannel, hpos, -⟩ := mem_turnsFrom ht
        exact ⟨hchannel, hpos, nofun⟩
      | exchange send receive =>
        refine .cons (fun t ht => ?_) (ih _ _)
        obtain ⟨hchannel, hpos, -⟩ := mem_turnsFrom ht
        -- An accepted packet moves on by its header, what it sends and what it receives
        refine ⟨hchannel, ?_, nofun⟩
        simp only [Turn.stop, Packet.extent]
        omega

/-- So it is with all turns. -/
theorem pairwise_turns (m : Memory) :
    (turns m).Pairwise fun t t' =>
      t.channel < t'.channel ∧ t.stop ≤ t'.pos ∧ t.found ≠ .finish :=
  pairwise_turnsFrom m _ _ _

/-- What comes before a turn ends in front of it, and what comes after it begins behind it. -/
theorem turns_split {m : Memory} {t : Turn} (h : t ∈ turns m) :
    ∃ before after, turns m = before ++ t :: after ∧
      (∀ a ∈ before, a.channel < t.channel ∧ a.stop ≤ t.pos ∧ a.found ≠ .finish) ∧
      ∀ a ∈ after, t.channel < a.channel ∧ t.stop ≤ a.pos ∧ t.found ≠ .finish := by
  obtain ⟨before, after, hsplit⟩ := List.append_of_mem h
  have hordered := pairwise_turns m
  rw [hsplit, List.pairwise_append, List.pairwise_cons] at hordered
  obtain ⟨-, ⟨hafter, -⟩, hbefore⟩ := hordered
  exact ⟨before, after, hsplit, fun a ha => hbefore a ha t (List.mem_cons_self ..), hafter⟩

/-! ## What the turns depend on -/

/-- A channel is skipped for one of two header bytes. -/
theorem packet_eq_skip_iff {m : Memory} {pos : Nat} :
    packet m pos = .skip ↔ byteAt m pos = 0x00 ∨ byteAt m pos = 0xFF := by
  constructor
  · intro h
    simp only [packet] at h
    -- Only the second case of the header leaves the channel out
    split at h
    · cases h
    split at h
    next hmark => simpa only [Bool.or_eq_true, decide_eq_true_eq] using hmark
    split at h
    · cases h
    split at h
    · cases h
    split at h
    · cases h
    · cases h
  · rintro (h | h) <;> simp only [packet, h] <;> rfl

/-- A header byte that is not read does not matter. -/
theorem packet_congr_of_header {m m' : Memory} {pos : Nat} (hfirst : byteAt m pos = byteAt m' pos)
    (hsecond : packet m pos ≠ .skip → byteAt m (pos + 1) = byteAt m' (pos + 1)) :
    packet m pos = packet m' pos := by
  by_cases hskip : packet m pos = .skip
  · rw [hskip, eq_comm, packet_eq_skip_iff, ← hfirst, ← packet_eq_skip_iff, hskip]
  · unfold packet
    rw [hfirst, hsecond hskip]

/-- The bytes that turns read tell which turns there are. -/
theorem turnsFrom_congr {m m' : Memory} {n channel pos : Nat}
    (h : ∀ t ∈ turnsFrom n channel pos m, ∀ i, t.Holds i → byteAt m i = byteAt m' i) :
    turnsFrom n channel pos m = turnsFrom n channel pos m' := by
  induction n generalizing channel pos with
  | zero => rfl
  | succ n ih =>
    rw [turnsFrom] at h
    rw [turnsFrom, turnsFrom]
    by_cases hend : control ≤ pos
    · rw [if_pos hend, if_pos hend]
    rw [if_neg hend, List.forall_mem_cons] at h
    obtain ⟨hhere, hlater⟩ := h
    -- The header is one byte, or two if there is a packet
    have hpacket : packet m pos = packet m' pos := by
      refine packet_congr_of_header (hhere pos ⟨Nat.le_refl _, ?_⟩)
        fun hread => hhere (pos + 1) ⟨Nat.le_succ _, ?_⟩
      · exact Nat.lt_add_of_pos_right (packet m pos).head_pos
      · exact Nat.add_lt_add_left (Packet.one_lt_head hread) pos
    rw [if_neg hend, if_neg hend, ← hpacket]
    congr 1
    cases hfound : packet m pos with
    | finish => rfl
    | skip =>
      rw [hfound] at hlater
      exact ih hlater
    | exchange send receive =>
      rw [hfound] at hlater
      exact ih hlater

/-- What has been scanned does not matter to the turns that remain. -/
theorem turnsFrom_congr_behind {m m' : Memory} {n channel pos : Nat}
    (h : ∀ i, pos ≤ i → byteAt m i = byteAt m' i) :
    turnsFrom n channel pos m = turnsFrom n channel pos m' :=
  turnsFrom_congr fun _ ht i hholds => h i (Nat.le_trans (mem_turnsFrom ht).2.1 hholds.1)

/-! ## The checked scan -/

/-- The byte at `pos`, which must lie in front of the control byte. -/
def fetch (m : Memory) (pos : Nat) : Option UInt8 :=
  if pos < control then some (byteAt m pos) else none

/-- Store what there is room for in the `room` bytes from `pos` on, which must lie in front of
the control byte. -/
def put (m : Memory) (pos room : Nat) (data : List UInt8) : Option Memory :=
  if pos + room ≤ control then some (store m pos (data.take room)) else none

/-- Read the header at `pos`, with each access checked. -/
def checkedPacket (m : Memory) (pos : Nat) : Option Packet := do
  let sendByte ← fetch m pos
  if sendByte = 0xFE then return .finish
  else if sendByte = 0x00 || sendByte = 0xFF then return .skip
  else if control ≤ pos + 1 then return .finish
  else
    let receiveByte ← fetch m (pos + 1)
    if receiveByte = 0xFE then return .finish
    else
      let send := (sendByte &&& 0x3F).toNat
      let receive := (receiveByte &&& 0x3F).toNat
      if control < pos + 2 + send + receive then return .finish else return .exchange send receive

/-- Handle one packet, with each access checked. -/
def checkedExchange (m : Memory) (controllers : Vector Controller 4)
    (channel pos send receive : Nat) : Option (Memory × Vector Controller 4) :=
  if send = 0 then some (m, controllers)
  else do
    let command ← fetch m (pos + 2)
    let (reply, controllers) := answer controllers channel command
    return (← put m (pos + 2 + send) receive reply, controllers)

/-- The remaining turns of a scan, with each access checked and each turn recorded. -/
def auditFrom : (turns channel pos : Nat) → Memory → Vector Controller 4 →
    Option (List Turn × Memory × Vector Controller 4)
  | 0, _, _, m, controllers => some ([], m, controllers)
  | turns + 1, channel, pos, m, controllers =>
    if control ≤ pos then some ([], m, controllers)
    else do
      let found ← checkedPacket m pos
      let (rest, s) ←
        match found with
        | .finish => some ([], m, controllers)
        | .skip => auditFrom turns (channel + 1) (pos + 1) m controllers
        | .exchange send receive => do
          let (m, controllers) ← checkedExchange m controllers channel pos send receive
          auditFrom turns (channel + 1) (pos + send + receive + 2) m controllers
      return (⟨channel, pos, found⟩ :: rest, s)

/-- A scan with each access checked and each turn recorded. -/
def audit (m : Memory) (controllers : Vector Controller 4) :
    Option (List Turn × Memory × Vector Controller 4) := auditFrom channels 0 0 m controllers

/-- In front of the control byte the header of a packet passes the checks, -/
theorem checkedPacket_eq {m : Memory} {pos : Nat} (h : pos < control) :
    checkedPacket m pos = some (packet m pos) := by
  -- Both bytes of the header are in front of the control byte when they are read
  have hfirst : fetch m pos = some (byteAt m pos) := if_pos h
  simp only [checkedPacket, packet, hfirst, Option.bind_eq_bind, Option.bind_some]
  split
  · rfl
  split
  · rfl
  split
  · rfl
  next hsecond =>
    have hsecond : fetch m (pos + 1) = some (byteAt m (pos + 1)) :=
      if_pos (Nat.lt_of_not_le hsecond)
    simp only [hsecond, Option.bind_some]
    split
    · rfl
    split
    · rfl
    · rfl

/-- and so does a packet that ends there. -/
theorem checkedExchange_eq {channel pos send receive : Nat}
    (h : pos + 2 + send + receive ≤ control) (m : Memory) (controllers : Vector Controller 4) :
    checkedExchange m controllers channel pos send receive =
      some (exchange m controllers channel pos send receive) := by
  by_cases hsend : send = 0
  · rw [checkedExchange, exchange, if_pos hsend, if_pos hsend]
  · have hcommand : fetch m (pos + 2) = some (byteAt m (pos + 2)) := if_pos (by omega)
    rw [checkedExchange, exchange, if_neg hsend, if_neg hsend, hcommand]
    simp only [Option.bind_eq_bind, Option.bind_some, put, if_pos h]
    rfl

/-- No check fails, and the scan ends as it does without them. -/
theorem auditFrom_eq (n channel pos : Nat) (m : Memory) (controllers : Vector Controller 4) :
    auditFrom n channel pos m controllers =
      some (turnsFrom n channel pos m, scanFrom n channel pos m controllers) := by
  induction n generalizing channel pos m controllers with
  | zero => rfl
  | succ n ih =>
    rw [auditFrom, turnsFrom, scanFrom]
    by_cases hend : control ≤ pos
    · rw [if_pos hend, if_pos hend, if_pos hend]
    rw [if_neg hend, if_neg hend, if_neg hend, checkedPacket_eq (Nat.lt_of_not_le hend)]
    simp only [Option.bind_eq_bind, Option.bind_some]
    cases hpacket : packet m pos with
    | finish => rfl
    | skip =>
      simp only [ih, Option.bind_some]
      rfl
    | exchange send receive =>
      simp only [checkedExchange_eq (stop_le_control hpacket), ih, Option.bind_some]
      -- The answer lies in front of the turns that remain
      have hrest : turnsFrom n (channel + 1) (pos + send + receive + 2)
          (exchange m controllers channel pos send receive).1 =
          turnsFrom n (channel + 1) (pos + send + receive + 2) m := by
        refine turnsFrom_congr_behind fun i hi => ?_
        refine Exchange.byteAt_perform (e := ⟨channel, pos, send, receive⟩) (.inr ?_)
          (m, controllers)
        simp only [Exchange.stop, Exchange.room]
        omega
      rw [hrest]
      rfl

/-- So it is from the start. -/
theorem audit_eq (m : Memory) (controllers : Vector Controller 4) :
    audit m controllers = some (turns m, scan m controllers) := auditFrom_eq _ _ _ _ _

/-! ## The control byte does not matter -/

/-- The memories are the same in front of the control byte. -/
def SameInFront (m m' : Memory) : Prop := ∀ i < control, byteAt m i = byteAt m' i

/-- So each header is the same in both. -/
theorem packet_congr_inFront {m m' : Memory} (h : SameInFront m m') {pos : Nat}
    (hpos : pos < control) : packet m pos = packet m' pos := by
  have hfetch : fetch m = fetch m' := by
    funext i
    unfold fetch
    split
    · next hi => rw [h i hi]
    · rfl
  have hchecked : checkedPacket m pos = checkedPacket m' pos := by
    simp only [checkedPacket, hfetch]
  rw [checkedPacket_eq hpos, checkedPacket_eq hpos] at hchecked
  exact Option.some_inj.mp hchecked

/-- Stores keep them the same, -/
theorem SameInFront.store {m m' : Memory} (h : SameInFront m m') (pos : Nat) (data : List UInt8) :
    SameInFront (store m pos data) (store m' pos data) := by
  intro i hi
  have hsize : i < memorySize := Nat.lt_trans hi control_lt
  rw [byteAt_store _ _ _ _ hsize, byteAt_store _ _ _ _ hsize, h i hi]

/-- and so do packets, which answer alike. -/
theorem SameInFront.exchange {m m' : Memory} (h : SameInFront m m') {channel pos send receive : Nat}
    (hfits : pos + 2 + send + receive ≤ control) (controllers : Vector Controller 4) :
    SameInFront (exchange m controllers channel pos send receive).1
        (exchange m' controllers channel pos send receive).1 ∧
      (exchange m controllers channel pos send receive).2 =
        (exchange m' controllers channel pos send receive).2 := by
  unfold Joybus.exchange
  by_cases hsend : send = 0
  · rw [if_pos hsend, if_pos hsend]
    exact ⟨h, rfl⟩
  · rw [if_neg hsend, if_neg hsend, h (pos + 2) (by omega)]
    exact ⟨h.store _ _, rfl⟩

/-- What a scan leaves in front of the control byte, and of the controllers, does not depend on
the control byte. -/
theorem SameInFront.scanFrom {m m' : Memory} (h : SameInFront m m') (n channel pos : Nat)
    (controllers : Vector Controller 4) :
    SameInFront (scanFrom n channel pos m controllers).1
        (scanFrom n channel pos m' controllers).1 ∧
      (scanFrom n channel pos m controllers).2 = (scanFrom n channel pos m' controllers).2 := by
  induction n generalizing channel pos m m' controllers with
  | zero => exact ⟨h, rfl⟩
  | succ n ih =>
    -- The two scans find the same packets, since those lie in front of the control byte
    rw [Joybus.scanFrom, Joybus.scanFrom]
    by_cases hend : control ≤ pos
    · rw [if_pos hend, if_pos hend]
      exact ⟨h, rfl⟩
    rw [if_neg hend, if_neg hend, ← packet_congr_inFront h (Nat.lt_of_not_le hend)]
    cases hpacket : packet m pos with
    | finish => exact ⟨h, rfl⟩
    | skip => exact ih h _ _ _
    | exchange send receive =>
      obtain ⟨hmemory, hcontrollers⟩ := h.exchange (stop_le_control hpacket) controllers
      dsimp only
      rw [← hcontrollers]
      exact ih hmemory _ _ _

/-! ## What a scan changes -/

/-- The room of a packet holds nothing that any turn reads. -/
theorem not_holds_of_inRoom {m : Memory} {t t' : Turn} (ht : t ∈ turns m) (ht' : t' ∈ turns m)
    {e : Exchange} (he : t.accepted = some e) {i : Nat} (hroom : e.InRoom i) : ¬ t'.Holds i := by
  obtain ⟨hstop, hbegin⟩ := Turn.stop_of_accepted he
  obtain ⟨before, after, hsplit, hbefore, hafter⟩ := turns_split ht
  rw [Exchange.InRoom, hstop, hbegin] at hroom
  rintro ⟨hfrom, hto⟩
  rw [hsplit, List.mem_append, List.mem_cons] at ht'
  rcases ht' with hmem | rfl | hmem
  · -- A turn before it, which ends in front of the packet
    obtain ⟨-, hends, hgoes⟩ := hbefore t' hmem
    have := Packet.head_le_extent hgoes
    rw [Turn.stop] at hends
    omega
  · omega
  · -- A turn after it, which begins behind the room
    obtain ⟨-, hbegins, -⟩ := hafter t' hmem
    omega

/-- A byte that a scan changes lies in the room of a packet. -/
theorem inRoom_of_changed {m : Memory} {controllers : Vector Controller 4} {i : Nat}
    (h : byteAt (scan m controllers).1 i ≠ byteAt m i) : ∃ e ∈ exchanges m, e.InRoom i := by
  refine Classical.byContradiction fun hnone =>
    h (byteAt_scan_of_outside (fun e he => ?_) controllers)
  have hout : ¬ e.InRoom i := fun hroom => hnone ⟨e, he, hroom⟩
  rw [Exchange.InRoom] at hout
  omega

/-- The packets of a scan are those its turns accept. -/
theorem mem_exchanges {m : Memory} {e : Exchange} :
    e ∈ exchanges m ↔ ∃ t ∈ turns m, t.accepted = some e := by
  rw [exchanges_eq_accepted, List.mem_filterMap]

/-- The same turns are found again in the memory that a scan leaves. -/
theorem turns_scan (m : Memory) (controllers : Vector Controller 4) :
    turns (scan m controllers).1 = turns m := by
  refine (turnsFrom_congr fun t ht i hholds => Classical.byContradiction fun hchanged => ?_).symm
  obtain ⟨e, he, hroom⟩ := inRoom_of_changed (Ne.symm hchanged)
  obtain ⟨t', ht', haccepted⟩ := mem_exchanges.mp he
  exact not_holds_of_inRoom ht' ht haccepted hroom hholds

/-- A controller is polled if a packet on its channel polls it. -/
theorem isSome_polled {m : Memory} {port : Fin 4} :
    (polled m port).isSome ↔ ∃ e ∈ exchanges m, e.channel = port ∧ e.polls m := by
  simp only [polled, List.find?_isSome, Bool.and_eq_true, decide_eq_true_eq]

/-! ## Packets that do not fit -/

/-- The header at `pos` asks for a packet that would reach the control byte, or reaches it
itself. -/
structure Overruns (m : Memory) (pos : Nat) : Prop where
  first : byteAt m pos ≠ 0xFE ∧ byteAt m pos ≠ 0x00 ∧ byteAt m pos ≠ 0xFF
  second : control ≤ pos + 1 ∨ byteAt m (pos + 1) ≠ 0xFE ∧
    control < pos + 2 + (byteAt m pos &&& 0x3F).toNat + (byteAt m (pos + 1) &&& 0x3F).toNat

/-- Such a header ends the scan. -/
theorem Overruns.packet_eq {m : Memory} {pos : Nat} (h : Overruns m pos) :
    packet m pos = .finish := by
  obtain ⟨⟨hend, hzero, hmark⟩, hsecond⟩ := h
  simp only [packet]
  rw [if_neg hend, if_neg (by simp [hzero, hmark])]
  rcases hsecond with hheader | ⟨hsecond, hlong⟩
  · rw [if_pos hheader]
  · rw [if_neg hsecond, if_pos hlong, ite_self]

/-- Where a scan ends at a turn, that turn is the last one, and the packets of the others lie
in front of it. -/
theorem last_of_finish {m : Memory} {t : Turn} (ht : t ∈ turns m) (hfound : t.found = .finish) :
    (turns m).getLast? = some t ∧
      ∀ e ∈ exchanges m, e.channel < t.channel ∧ e.stop ≤ t.pos := by
  obtain ⟨before, after, hsplit, hbefore, hafter⟩ := turns_split ht
  -- Nothing follows a turn that ends the scan
  have hlast : after = [] := by
    cases after with
    | nil => rfl
    | cons a rest => exact absurd hfound (hafter a (List.mem_cons_self ..)).2.2
  subst hlast
  refine ⟨by rw [hsplit, List.getLast?_append, List.getLast?_singleton]; rfl, fun e he => ?_⟩
  obtain ⟨t', ht', haccepted⟩ := mem_exchanges.mp he
  obtain ⟨hexchange, hchannel, -⟩ := Turn.accepted_eq_some haccepted
  obtain ⟨hstop, -⟩ := Turn.stop_of_accepted haccepted
  rw [hsplit, List.mem_append, List.mem_singleton] at ht'
  rcases ht' with hmem | rfl
  · rw [hchannel, hstop]
    exact ⟨(hbefore t' hmem).1, (hbefore t' hmem).2.1⟩
  · rw [hfound] at hexchange
    exact nomatch hexchange

/-! ## The scan as a whole -/

/-- What a scan of `m` with the turns `ts` may do, and what it leaves alone. -/
structure Confined (m : Memory) (controllers : Vector Controller 4) (ts : List Turn)
    (m' : Memory) (controllers' : Vector Controller 4) : Prop where
  /-- At most five channels have a turn, in order. -/
  inTurn : ts.map (·.channel) = List.range ts.length ∧ ts.length ≤ channels
  /-- Bytes change in the rooms of accepted packets only. -/
  changed : ∀ i, byteAt m' i ≠ byteAt m i → ∃ e ∈ ts.filterMap Turn.accepted, e.InRoom i
  /-- No two rooms share a byte. -/
  apart : (ts.filterMap Turn.accepted).Pairwise fun e e' => ∀ i, ¬ (e.InRoom i ∧ e'.InRoom i)
  /-- No room shares a byte with what any turn reads. -/
  clear : ∀ e ∈ ts.filterMap Turn.accepted, ∀ t ∈ ts, ∀ i, e.InRoom i → ¬ t.Holds i
  /-- The control byte makes no difference. -/
  unread : ∀ other, SameInFront m other →
    SameInFront m' (scan other controllers).1 ∧ (scan other controllers).2 = controllers'
  /-- A scan of the answered memory has the same turns. -/
  again : ∀ others, ∃ s, audit m' others = some (ts, s)
  /-- Controllers that an accepted packet polls are emptied. -/
  emptied : ∀ port : Fin 4, (∃ e ∈ ts.filterMap Turn.accepted, e.channel = port ∧ e.polls m) →
    controllers'.get port = {}
  /-- The other ones are left alone. -/
  spared : ∀ port : Fin 4,
    (¬ ∃ e ∈ ts.filterMap Turn.accepted, e.channel = port ∧ e.polls m) →
      controllers'.get port = controllers.get port
  /-- A packet that would reach the control byte ends the scan, and from there on nothing is
  changed. -/
  overrun : ∀ t ∈ ts, Overruns m t.pos → ts.getLast? = some t ∧ t.accepted = none ∧
    (∀ i, t.pos ≤ i → byteAt m' i = byteAt m i) ∧
    ∀ port : Fin 4, t.channel ≤ port → controllers'.get port = controllers.get port

/-- For every memory and all controllers, a scan with each access checked to lie in front of the
control byte does not fail and ends as the scan does, and its turns confine it. -/
theorem scan_confined (m : Memory) (controllers : Vector Controller 4) :
    ∃ ts, audit m controllers = some (ts, scan m controllers) ∧
      Confined m controllers ts (scan m controllers).1 (scan m controllers).2 := by
  refine ⟨turns m, audit_eq m controllers, ?_⟩
  have haccepted := exchanges_eq_accepted m
  constructor
  case inTurn =>
    rw [List.range_eq_range']
    exact channels_turnsFrom _ _ _ _
  case changed =>
    rw [← haccepted]
    exact fun i => inRoom_of_changed
  case apart =>
    rw [← haccepted]
    refine (pairwise_exchanges m).imp fun hordered i hrooms => ?_
    obtain ⟨⟨-, hbelow⟩, ⟨habove, -⟩⟩ := hrooms
    simp only [Exchange.room] at habove
    omega
  case clear =>
    rw [← haccepted]
    intro e he t ht i hroom
    obtain ⟨t', ht', he⟩ := mem_exchanges.mp he
    exact not_holds_of_inRoom ht' ht he hroom
  case unread =>
    intro other hsame
    obtain ⟨hmemory, hcontrollers⟩ := hsame.scanFrom channels 0 0 controllers
    exact ⟨hmemory, hcontrollers.symm⟩
  case again =>
    intro others
    exact ⟨_, by rw [audit_eq, turns_scan]⟩
  case emptied =>
    intro port hpolled
    rw [← haccepted, ← isSome_polled] at hpolled
    rw [controllers_scan, if_pos hpolled]
  case spared =>
    intro port hpolled
    rw [← haccepted, ← isSome_polled] at hpolled
    rw [controllers_scan, if_neg hpolled]
  case overrun =>
    intro t ht hoverruns
    obtain ⟨-, -, hfound⟩ := mem_turnsFrom ht
    rw [hoverruns.packet_eq] at hfound
    obtain ⟨hlast, hfront⟩ := last_of_finish ht hfound
    -- The turn that overruns accepts nothing, and what was accepted lies in front of it
    refine ⟨hlast, by rw [Turn.accepted, hfound], fun i hi => ?_, fun port hport => ?_⟩
    · refine byteAt_scan_of_outside (fun e he => .inr ?_) controllers
      exact Nat.le_trans (hfront e he).2 hi
    · rw [scan_eq_performAll]
      refine controllers_performAll (fun e he hchannel => ?_) _
      have := (hfront e he).1
      omega

end Console64.Joybus
