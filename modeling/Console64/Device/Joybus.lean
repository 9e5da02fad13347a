import Console64.Device.Controller

/-! # The serial command scan

Command memory holds 64 bytes.  The first 63 are a run of packets, one for each
channel; the last is the control byte.  A packet is a header of two bytes (how
many bytes are sent, how many are expected), the bytes sent and the room for the
answer.  `packet` reads one header; `scan` walks the packets and writes the
answers in place. -/

namespace Console64.Joybus

/-- Size of the command memory. -/
abbrev memorySize : Nat := 64

/-- Place of the control byte, where the packets end. -/
abbrev control : Nat := memorySize - 1

/-- Four controllers and the cartridge. -/
def channels : Nat := 5

/-- The command memory. -/
abbrev Memory := Vector UInt8 memorySize

/-- What a channel's turn finds at its position. -/
inductive Packet where
  /-- Nothing more to do. -/
  | finish
  /-- The channel is left out; one byte is consumed. -/
  | skip
  /-- `send` bytes for the device, then room for `receive` bytes. -/
  | exchange (send receive : Nat)
  deriving DecidableEq, Repr

/-- The byte at `pos`, zero past the end. -/
def byteAt (m : Memory) (pos : Nat) : UInt8 := m[pos]?.getD 0

/-- Read the header at `pos`.  A packet that would reach the control byte ends
the scan, and so does the mark `0xFE` in either header byte. -/
def packet (m : Memory) (pos : Nat) : Packet :=
  let sendByte := byteAt m pos
  if sendByte = 0xFE then .finish
  else if sendByte = 0x00 || sendByte = 0xFF then .skip
  else if control ≤ pos + 1 then .finish
  else
    let receiveByte := byteAt m (pos + 1)
    if receiveByte = 0xFE then .finish
    else
      -- The two upper bits of a length do not count
      let send := (sendByte &&& 0x3F).toNat
      let receive := (receiveByte &&& 0x3F).toNat
      if control < pos + 2 + send + receive then .finish else .exchange send receive

/-- Store bytes from `pos` on. -/
def store (m : Memory) (pos : Nat) : List UInt8 → Memory
  | [] => m
  | byte :: rest => store (m.setIfInBounds pos byte) (pos + 1) rest

/-- The identity that a channel's device reports. -/
def identity (channel : Nat) : List UInt8 :=
  if channel = 0 then [0x05, 0x00, 0x02]
  else if channel < 4 then [0xFF, 0xFF, 0xFF]
  else [0x00, 0x80, 0x00]

/-- Carry out `command` on `channel`: the answer's bytes and the controllers
after it.  An unknown command and a save memory command answer nothing. -/
def answer (controllers : Vector Controller 4) (channel : Nat) (command : UInt8) :
    List UInt8 × Vector Controller 4 :=
  if command = 0x00 || command = 0xFF then (identity channel, controllers)
  else if command = 0x01 then
    if h : channel < 4 then
      let (pressed, controller) := controllers[channel].take
      (pressed.report, controllers.set channel controller)
    else ([], controllers)
  else ([], controllers)

/-- Handle one packet at `pos`: with nothing sent there is no command. -/
def exchange (m : Memory) (controllers : Vector Controller 4) (channel pos send receive : Nat) :
    Memory × Vector Controller 4 :=
  if send = 0 then (m, controllers)
  else
    let (reply, controllers) := answer controllers channel (byteAt m (pos + 2))
    -- The answer is cut to the room that there is for it
    (store m (pos + 2 + send) (reply.take receive), controllers)

/-- The turns of the remaining `turns` channels, the first of them `channel`,
from position `pos` on. -/
def scanFrom : (turns channel pos : Nat) → Memory → Vector Controller 4 →
    Memory × Vector Controller 4
  | 0, _, _, m, controllers => (m, controllers)
  | turns + 1, channel, pos, m, controllers =>
    if control ≤ pos then (m, controllers)
    else
      match packet m pos with
      | .finish => (m, controllers)
      | .skip => scanFrom turns (channel + 1) (pos + 1) m controllers
      | .exchange send receive =>
        let (m, controllers) := exchange m controllers channel pos send receive
        scanFrom turns (channel + 1) (pos + send + receive + 2) m controllers

/-- Answer every packet in the command memory. -/
def scan (m : Memory) (controllers : Vector Controller 4) : Memory × Vector Controller 4 :=
  scanFrom channels 0 0 m controllers

end Console64.Joybus
