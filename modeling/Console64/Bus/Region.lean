import Console64.Bus.Error

/-! # The physical address map

Thirteen regions, each owned by one device; what lies between them is unmapped.

    0x0000_0000  RDRAM              0x0450_0000  AI
    0x03F0_0000  RDRAM registers    0x0460_0000  PI
    0x0400_0000  SP                 0x0470_0000  RI
    0x0410_0000  DP command         0x0480_0000  SI
    0x0420_0000  DP span            0x1000_0000  cartridge
    0x0430_0000  MI                 0x1FC0_0000  PIF
    0x0440_0000  VI

`resolve` gives the owner of an address together with the offset inside it. -/

namespace Console64

/-- A window of the physical address space and the device behind it. -/
inductive Region where
  | rdram | rdramRegisters | sp | dpCommand | dpSpan | mi | vi | ai | pi | ri | si
  | cartridge | pif
  deriving DecidableEq, Repr, Inhabited

namespace Region

/-- Every region, in address order. -/
def all : List Region :=
  [rdram, rdramRegisters, sp, dpCommand, dpSpan, mi, vi, ai, pi, ri, si, cartridge, pif]

/-- First address of the window. -/
def base : Region → Nat
  | rdram => 0x00000000
  | rdramRegisters => 0x03F00000
  | sp => 0x04000000
  | dpCommand => 0x04100000
  | dpSpan => 0x04200000
  | mi => 0x04300000
  | vi => 0x04400000
  | ai => 0x04500000
  | pi => 0x04600000
  | ri => 0x04700000
  | si => 0x04800000
  | cartridge => 0x10000000
  | pif => 0x1FC00000

/-- Length of the window in bytes. -/
def size : Region → Nat
  | rdram => 0x03F00000
  | cartridge => 0x0FC00000
  -- The register windows are a megabyte each, however few registers there are
  | _ => 0x00100000

/-- First address past the window. -/
def stop (r : Region) : Nat := r.base + r.size

/-- The device's name, as faults report it. -/
def name : Region → String
  | rdram => "RDRAM"
  | rdramRegisters => "RDRAM regs"
  | sp => "SP"
  | dpCommand => "DP command"
  | dpSpan => "DP span"
  | mi => "MI"
  | vi => "VI"
  | ai => "AI"
  | pi => "PI"
  | ri => "RI"
  | si => "SI"
  | cartridge => "cartridge"
  | pif => "PIF"

/-- `address` lies in the window. -/
def contains (r : Region) (address : Nat) : Bool := r.base ≤ address && address < r.stop

/-- The region that owns a physical address, and the offset inside it. -/
def resolve (address : UInt32) : Except BusError (Region × Nat) :=
  match all.find? (·.contains address.toNat) with
  | some r => .ok (r, address.toNat - r.base)
  | none => .error (.unmapped address)

/-- Windows are disjoint, so an address has at most one owner. -/
theorem disjoint_windows :
    ∀ r ∈ all, ∀ s ∈ all, r ≠ s → r.stop ≤ s.base ∨ s.stop ≤ r.base := by decide

end Region

end Console64
