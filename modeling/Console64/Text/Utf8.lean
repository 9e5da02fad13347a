/-! # Reading text from bytes

UTF-8, with every ill-formed stretch shown as one replacement character.  A
stretch ends where no further byte could make it well formed, so that a cut
sequence counts once and a stray byte counts alone. -/

namespace Console64.Utf8

/-- Shown in place of an ill-formed stretch. -/
def replacement : Char := '\uFFFD'

/-- `b` may follow inside a sequence. -/
def isContinuation (b : UInt8) : Bool := 0x80 ≤ b && b ≤ 0xBF

/-- For the first byte of a longer sequence: how many bytes follow, and the
least and greatest value that the second may have. -/
def sequenceOf (lead : UInt8) : Option (Nat × UInt8 × UInt8) :=
  if 0xC2 ≤ lead && lead ≤ 0xDF then some (1, 0x80, 0xBF)
  else if lead = 0xE0 then some (2, 0xA0, 0xBF)
  else if lead = 0xED then some (2, 0x80, 0x9F)
  else if 0xE1 ≤ lead && lead ≤ 0xEF then some (2, 0x80, 0xBF)
  else if lead = 0xF0 then some (3, 0x90, 0xBF)
  else if lead = 0xF4 then some (3, 0x80, 0x8F)
  else if 0xF1 ≤ lead && lead ≤ 0xF3 then some (3, 0x80, 0xBF)
  else none

/-- The bits that the first byte of a sequence contributes. -/
def leadBits (lead : UInt8) (following : Nat) : Nat :=
  lead.toNat % (1 <<< (6 - following))

/-- The first character after `lead`, and how many bytes of `rest` it takes. -/
def next (lead : UInt8) (rest : List UInt8) : Char × Nat :=
  if lead < 0x80 then (Char.ofNat lead.toNat, 0)
  else
    match sequenceOf lead with
    | none => (replacement, 0)
    | some (following, least, greatest) =>
      let second := rest.take 1 |>.takeWhile fun b => least ≤ b && b ≤ greatest
      let others := if second.isEmpty then []
        else ((rest.drop 1).take (following - 1)).takeWhile isContinuation
      let taken := second ++ others
      if taken.length = following then
        (Char.ofNat (taken.foldl (fun n b => n * 64 + b.toNat % 64) (leadBits lead following)),
          following)
      else (replacement, taken.length)

/-- The text that the bytes spell. -/
def decodeLossy : List UInt8 → List Char
  | [] => []
  | lead :: rest =>
    let (c, taken) := next lead rest
    c :: decodeLossy (rest.drop taken)
termination_by bytes => bytes.length
decreasing_by simp only [List.length_drop, List.length_cons]; omega

end Console64.Utf8
