import Console64.Block.Op

/-! # Compiled blocks

A block is a straight run of decoded instructions from one physical page, so that
it is mapped as a whole.  It ends after a branch with its delay slot, after an
instruction that nothing may follow, at the end of the page, at the most
instructions asked for, or before the first word that cannot be taken along.

Compiling fails only if not even the first instruction can be taken. -/

namespace Console64

/-- Why no block can start at an address. -/
inductive CompileError where
  /-- The word at this address cannot be read. -/
  | unreadable (address : UInt32)
  /-- The branch at this address would lose its delay slot. -/
  | splitDelaySlot (address : UInt32)
  /-- The delay slot at this address holds a branch, or what must end a block. -/
  | unsuitableDelaySlot (address : UInt32)
  deriving DecidableEq, Repr, Inhabited

/-- The text shown for a failure. -/
def CompileError.message : CompileError → String
  | .unreadable a => "cannot read guest code at " ++ Hex.word a
  | .splitDelaySlot a => "branch at " ++ Hex.word a ++ " has no room for its delay slot"
  | .unsuitableDelaySlot a => "unsupported instruction in delay slot at " ++ Hex.word a

/-- What one instruction adds to a block. -/
inductive Piece where
  /-- An instruction after which the block may go on. -/
  | plain (d : DecodedWord)
  /-- An instruction that nothing may follow. -/
  | last (d : DecodedWord)
  /-- A branch with its delay slot. -/
  | branch (d slot : DecodedWord)

/-- The instructions of a block, and what is known of its branch. -/
structure BlockBody where
  code : List DecodedWord := []
  /-- The block ends with a branch and its delay slot. -/
  hasControlFlow : Bool := false
  /-- Where the branch goes, if its word tells. -/
  jumpTarget : Option UInt64 := none

/-- A compiled block. -/
structure Block extends BlockBody where
  /-- Physical address of its first instruction. -/
  start : UInt32
  /-- Virtual address it was compiled for. -/
  entry : UInt64

/-- What to compile. -/
structure CompileRequest where
  start : UInt32
  entry : UInt64
  /-- The most instructions to take; a block has room for one in any case. -/
  maxInstructions : Nat

namespace Block

/-- Number of instructions. -/
def size (b : Block) : Nat := b.code.length

/-- First physical address past the block. -/
def stop (b : Block) : UInt32 := b.start + UInt32.ofNat (4 * b.size)

/-- Bits of an address inside its page. -/
def pageMask : UInt32 := 0xFFF

/-- A page starts at `a`. -/
def startsPage (a : UInt32) : Bool := a &&& pageMask = 0

variable {m : Type → Type} [Monad m]

/-- The delay slot at `a`. -/
def slotAt (source : UInt32 → m (Option UInt32)) (a : UInt32) :
    m (Except CompileError DecodedWord) := do
  match ← source a with
  | none => return .error (.unreadable a)
  | some word =>
    let slot : DecodedWord := { word }
    if slot.op.isControlFlow || slot.op.endsBlock then return .error (.unsuitableDelaySlot a)
    else return .ok slot

/-- The instruction at `a` and what belongs to it, in a block that has room for
`room` more. -/
def pieceAt (source : UInt32 → m (Option UInt32)) (a : UInt32) (room : Nat) :
    m (Except CompileError Piece) := do
  match ← source a with
  | none => return .error (.unreadable a)
  | some word =>
    let d : DecodedWord := { word }
    if d.op.isControlFlow then
      -- The slot has to be in the block, and so in the same page
      if startsPage (a + 4) || room < 2 then return .error (.splitDelaySlot a)
      else return (← slotAt source (a + 4)).map (.branch d)
    else if d.op.endsBlock then return .ok (.last d)
    else return .ok (.plain d)

/-- A branch at the virtual address `v`, with its delay slot. -/
def branchBody (v : UInt64) (d slot : DecodedWord) : BlockBody where
  code := [d, slot]
  hasControlFlow := true
  jumpTarget := d.op.staticTarget v

/-- A block body with one more instruction in front. -/
def consBody (d : DecodedWord) (body : BlockBody) : BlockBody :=
  { body with code := d :: body.code }

/-- The instructions from `a` on, after the first of the block; `v` is their
virtual address. -/
def bodyAfter (source : UInt32 → m (Option UInt32)) (a : UInt32) (v : UInt64) :
    (room : Nat) → m BlockBody
  | 0 => return {}
  | room + 1 => do
    -- The next page may be mapped elsewhere
    if startsPage a then return {}
    match ← pieceAt source a (room + 1) with
    -- The block ends in front of what it cannot take along
    | .error _ => return {}
    | .ok (.plain d) => return consBody d (← bodyAfter source (a + 4) (v + 4) room)
    | .ok (.last d) => return { code := [d] }
    | .ok (.branch d slot) => return branchBody v d slot

/-- Compile a block from the words of `source`, which answers `none` where nothing
can be read. -/
def compile (source : UInt32 → m (Option UInt32)) (request : CompileRequest) :
    m (Except CompileError Block) := do
  let { start, entry, maxInstructions } := request
  let room := max maxInstructions 1
  match ← pieceAt source start room with
  | .error e => return .error e
  | .ok (.plain d) =>
    let body ← bodyAfter source (start + 4) (entry + 4) (room - 1)
    return .ok { consBody d body with start, entry }
  | .ok (.last d) => return .ok { code := [d], start, entry }
  | .ok (.branch d slot) => return .ok { branchBody entry d slot with start, entry }

end Block

/-- A compiler that counts the blocks it has built. -/
structure BlockCompiler where
  built : Nat := 0

/-- `Block.compile`, counted if it succeeds. -/
def BlockCompiler.compile {m : Type → Type} [Monad m] (c : BlockCompiler)
    (source : UInt32 → m (Option UInt32)) (request : CompileRequest) :
    m (Except CompileError Block × BlockCompiler) := do
  match ← Block.compile source request with
  | .ok b => return (.ok b, { built := c.built + 1 })
  | .error e => return (.error e, c)

end Console64
