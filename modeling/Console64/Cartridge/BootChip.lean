import Console64.Cartridge.Crc32
import Console64.Cartridge.Header
import Console64.Cpu.RegisterIndex

/-! # Boot chips

Each cartridge carries a chip that takes part in booting, and boot code made for
that chip.  The chip is recognised by the boot code's check, and decides the
checksum seed and the register values that the boot ROM leaves behind. -/

namespace Console64

/-- The known boot chips. -/
inductive BootChip where
  | x101
  | x102
  | x103
  | x105
  | x106
  deriving DecidableEq, Repr, Inhabited

namespace BootChip

/-- Every chip, in order. -/
def all : List BootChip := [x101, x102, x103, x105, x106]

/-- The chip's name, with games that use it. -/
def description : BootChip → String
  | x101 => "CIC-NUS-6101 (Star Fox 64, etc.)"
  | x102 => "CIC-NUS-6102 (most common: Mario 64, etc.)"
  | x103 => "CIC-NUS-6103 (Banjo-Kazooie, etc.)"
  | x105 => "CIC-NUS-6105 (Zelda OoT, Majora's Mask, etc.)"
  | x106 => "CIC-NUS-6106 (F-Zero X, Yoshi's Story, etc.)"

/-- Where every checksum accumulator starts. -/
def checksumSeed : BootChip → UInt32
  | x101 | x102 => 0xF8CA4DDC
  | x103 => 0xA3886759
  | x105 => 0xDF26F436
  | x106 => 0x1FEA617A

/-- The seed handed to the boot code. -/
def bootSeed : BootChip → UInt64
  | x101 | x102 => 0x3F
  | x103 => 0x78
  | x105 => 0x91
  | x106 => 0x85

/-- First byte of the boot code in an image. -/
def bootCodeStart : Nat := 0x40

/-- First byte after the boot code. -/
def bootCodeStop : Nat := 0x1000

/-- The chip whose boot code has this check. -/
def ofCheck (check : UInt32) : Option BootChip :=
  if check = 0x6170A4A1 then some x101
  else if check = 0x90BB6CB5 then some x102
  else if check = 0x0B050EE0 then some x103
  else if check = 0x98BC2C86 then some x105
  else if check = 0xACC8580A then some x106
  else none

/-- The chip that an image is made for: the most common one when the boot code
is unknown or cut. -/
def detect (data : ByteArray) : BootChip :=
  if data.size < bootCodeStop then x102
  else
    let code := (data.extract bootCodeStart bootCodeStop).toList
    (ofCheck (Crc32.ofBytes code)).getD x102

/-- The fragment of earlier boot code that the boot code for `x105` expects in
the signal processor's second bank. -/
def x105Fragment : List UInt32 :=
  [0x3C0DBFC0, 0x8DA807FC, 0x25AD07C0, 0x31080080, 0x5500FFFC, 0x3C0DBFC0, 0x8DA80024,
    0x3C0BB000]

/-- Register values common to all chips. -/
def commonRegisters (chip : BootChip) (tv : TvStandard) : List (RegisterIndex × UInt64) :=
  [(6, 0xFFFFFFFFA4001F0C), (7, 0xFFFFFFFFA4001F08), (8, 0xC0), (10, 0x40),
    (11, 0xFFFFFFFFA4000040), (19, 0), (20, tv.bootValue), (21, 0), (22, chip.bootSeed),
    (23, 0), (29, 0xFFFFFFFFA4001FF0)] ++
  if tv = .ntsc then [(24, 3), (31, 0xFFFFFFFFA4001550)]
  else [(23, 6), (31, 0xFFFFFFFFA4001554)]

/-- Register values of one chip. -/
def ownRegisters (chip : BootChip) (tv : TvStandard) : List (RegisterIndex × UInt64) :=
  match chip with
  | x101 => []
  | x102 =>
    [(1, 1), (2, 0x0EBDA536), (3, 0x0EBDA536), (4, 0xA536), (12, 0xFFFFFFFFED10D0B3),
      (13, 0x1402A4CC), (15, 0x3103E121), (25, 0xFFFFFFFF9DEBB54F)] ++
    if tv = .ntsc then [(5, 0xFFFFFFFFC95973D5), (14, 0x2449A366)]
    else [(5, 0xFFFFFFFFC0F1D859), (14, 0x2DE108EA), (24, 0)]
  | x103 =>
    [(1, 1), (2, 0x49A5EE96), (3, 0x49A5EE96), (4, 0xEE96), (12, 0xFFFFFFFFCE9DFBF7),
      (13, 0xFFFFFFFFCE9DFBF7), (15, 0x18B63D28), (25, 0xFFFFFFFF825B21C9)] ++
    if tv = .ntsc then [(5, 0xFFFFFFFF95315A28), (14, 0x5BACA1DF)]
    else [(5, 0xFFFFFFFFD4646273), (14, 0x1AF99984), (24, 0)]
  | x105 =>
    [(11, 0xFFFFFFFFA4000040), (29, 0xFFFFFFFFA4001FF0), (31, 0xFFFFFFFFA4001550)] ++
    if tv = .ntsc then [(5, 0x5493FB9A), (14, 0xFFFFFFFFC2C20384)]
    else [(5, 0xFFFFFFFFDECAAAD1), (14, 0x0CF85C13), (24, 2)]
  | x106 =>
    [(1, 0), (2, 0xFFFFFFFFA95930A4), (3, 0xFFFFFFFFA95930A4), (4, 0x30A4),
      (12, 0xFFFFFFFFBCB59510), (13, 0xFFFFFFFFBCB59510), (15, 0x7A3C07F4), (22, 0x85),
      (25, 0x465E3F72)] ++
    if tv = .ntsc then [(5, 0xFFFFFFFFE067221F), (14, 0x5CD2B70F)]
    else [(5, 0xFFFFFFFFB04DC903), (14, 0x1AF99984), (24, 2)]

/-- The values that the boot ROM leaves behind, later entries over earlier ones;
the other registers are left alone. -/
def initialRegisters (chip : BootChip) (tv : TvStandard) (gpr : Vector UInt64 32) :
    Vector UInt64 32 :=
  (chip.commonRegisters tv ++ chip.ownRegisters tv).foldl (fun g (r, v) => replaceAt g r v) gpr

end BootChip

end Console64
