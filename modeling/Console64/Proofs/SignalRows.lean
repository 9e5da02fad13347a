import Console64.Device.SignalProcessor

/-!
# The rows of a transfer of the signal processor

A transfer copies rows: they follow each other in one bank of the memory of the SP, which goes
around at its end, and in main memory with a gap after each of them.  The registers say how long
a row is, how many there are and how long the gaps are; the SP copies each row in one or two
pieces, none of which goes around.  This file tells the bytes that such a transfer moves, in
order, and proves that the pieces move them.

## Key results

- `Memories.move`: what it means to move one byte
- `SignalProcessor.exists_rowPieces`: the pieces of a row make up the row
- `SignalProcessor.exists_piecesOf`: and those of a transfer make up all of its rows
- `Memories.foldl_move_of_ne`: a byte that no move concerns stays as it is
-/

namespace Console64

/-- One byte of a transfer: where it is in the memory of the SP, and where in main memory. -/
structure ByteMove where
  memory : Nat
  dram : Nat
  deriving DecidableEq, Repr

/-- What the memory of the SP and main memory hold. -/
structure Memories where
  memory : Nat → UInt8
  dram : Nat → UInt8

namespace Memories

/-- One byte is copied.  Main memory takes only what is installed. -/
def move (installed : Nat) (direction : SignalTransfer) (m : Memories) (w : ByteMove) : Memories :=
  match direction with
  | .dramToMemory =>
    { m with memory := fun n => if n = w.memory then m.dram w.dram else m.memory n }
  | .memoryToDram =>
    { m with dram := fun n => if n = w.dram ∧ n < installed then m.memory w.memory else m.dram n }

/-- A byte that no move concerns stays as it is. -/
theorem foldl_move_of_ne (installed : Nat) (direction : SignalTransfer) (ws : List ByteMove)
    (m : Memories) (n : Nat) :
    ((∀ w ∈ ws, w.memory ≠ n) → (ws.foldl (move installed direction) m).memory n = m.memory n) ∧
      ((∀ w ∈ ws, w.dram ≠ n) → (ws.foldl (move installed direction) m).dram n = m.dram n) := by
  induction ws generalizing m with
  | nil => exact ⟨fun _ => rfl, fun _ => rfl⟩
  | cons w ws ih =>
    -- Only the end that is written changes, and it is at no address of the list
    obtain ⟨hmemory, hdram⟩ := ih (move installed direction m w)
    rw [List.foldl_cons]
    constructor
    · intro hne
      rw [List.forall_mem_cons] at hne
      rw [hmemory hne.2]
      cases direction with
      | dramToMemory => exact if_neg (Ne.symm hne.1)
      | memoryToDram => rfl
    · intro hne
      rw [List.forall_mem_cons] at hne
      rw [hdram hne.2]
      cases direction with
      | dramToMemory => rfl
      | memoryToDram => exact if_neg fun h => hne.1 h.1.symm

end Memories

/-! ## Bytes that follow each other -/

/-- So many bytes, from two places on. -/
def ByteMove.span (memory dram length : Nat) : List ByteMove :=
  (List.range length).map fun i => ⟨memory + i, dram + i⟩

/-- The first byte, and those behind it. -/
theorem ByteMove.span_succ (memory dram length : Nat) :
    span memory dram (length + 1) = ⟨memory, dram⟩ :: span (memory + 1) (dram + 1) length := by
  simp only [span, List.range_succ_eq_map, List.map_cons, List.map_map, Function.comp_def,
    Nat.add_zero, Nat.succ_eq_add_one, Nat.add_assoc, Nat.add_comm 1]

namespace SignalProcessor

/-- The bytes that a piece moves. -/
def Piece.moves (piece : Piece) : List ByteMove :=
  ByteMove.span piece.memory.toNat piece.dram.toNat piece.length.toNat

/-- Both ends of the piece lie in a memory, and it is a number of units of a block copy. -/
structure Piece.Inside (piece : Piece) : Prop where
  memory : piece.memory.toNat + piece.length.toNat ≤ memorySize
  dram : piece.dram.toNat + piece.length.toNat ≤ 0x01001000
  units : 4 ∣ piece.length.toNat

/-! ## Rows -/

/-- The bytes of one row: it goes around at the end of its bank. -/
def rowMoves (bank memory dram length : Nat) : List ByteMove :=
  (List.range length).map fun j => ⟨bank + (memory + j) % 0x1000, dram + j⟩

/-- Where the rows start in main memory, `pitch` bytes from one to the next. -/
def rowStart (dram pitch : Nat) : (row : Nat) → Nat
  | 0 => dram
  | row + 1 => (rowStart dram pitch row + pitch) % 0x01000000

/-- The bytes of all rows, row by row. -/
def rowsMoves (bank memory dram length pitch rows : Nat) : List ByteMove :=
  (List.range rows).flatMap fun r =>
    rowMoves bank (memory + r * length) (rowStart dram pitch r) length

/-- The rows that follow the first one start where it has left off. -/
theorem rowStart_succ (dram pitch row : Nat) :
    rowStart dram pitch (row + 1) = rowStart ((dram + pitch) % 0x01000000) pitch row := by
  induction row with
  | zero => rfl
  | succ row ih => rw [rowStart, ih, rowStart]

/-- A row starts anywhere in its bank, as the registers have it. -/
theorem rowMoves_mod (bank memory dram length : Nat) :
    rowMoves bank (memory % 0x1000) dram length = rowMoves bank memory dram length := by
  simp only [rowMoves, Nat.mod_add_mod]

/-- The first row, and then the other ones from where it has left off. -/
theorem rowsMoves_succ (bank memory dram length pitch rows : Nat) :
    rowsMoves bank memory dram length pitch (rows + 1) =
      rowMoves bank memory dram length ++
        rowsMoves bank ((memory + length) % 0x1000) ((dram + pitch) % 0x01000000) length pitch
          rows := by
  -- The rows behind the first are those of a transfer that begins one row later
  have hrow : ∀ r, rowMoves bank (memory + (r + 1) * length) (rowStart dram pitch (r + 1)) length =
      rowMoves bank ((memory + length) % 0x1000 + r * length)
        (rowStart ((dram + pitch) % 0x01000000) pitch r) length := by
    intro r
    rw [← rowMoves_mod, ← rowMoves_mod bank ((memory + length) % 0x1000 + r * length),
      Nat.mod_add_mod, rowStart_succ, Nat.succ_mul, Nat.add_assoc, Nat.add_comm (r * length)]
  have hfirst : rowMoves bank (memory + 0 * length) (rowStart dram pitch 0) length =
      rowMoves bank memory dram length := by
    rw [Nat.zero_mul, Nat.add_zero, rowStart]
  simp only [rowsMoves, List.range_succ_eq_map, List.flatMap_cons, List.flatMap_map, hfirst,
    Nat.succ_eq_add_one, hrow]

/-- No row leaves the bank. -/
theorem memory_of_mem_rowsMoves {bank memory dram length pitch rows : Nat} {w : ByteMove}
    (hw : w ∈ rowsMoves bank memory dram length pitch rows) :
    bank ≤ w.memory ∧ w.memory < bank + 0x1000 := by
  obtain ⟨r, -, hrow⟩ := List.mem_flatMap.mp hw
  obtain ⟨j, -, rfl⟩ := List.mem_map.mp hrow
  dsimp only
  omega

/-- A row that goes around is two spans. -/
theorem rowMoves_split {bank memory dram first rest : Nat} (hmemory : memory + first = 0x1000)
    (hrest : rest ≤ 0x1000) :
    rowMoves bank memory dram (first + rest) =
      ByteMove.span (bank + memory) dram first ++ ByteMove.span bank (dram + first) rest := by
  rw [rowMoves, List.range_add, List.map_append, List.map_map, ByteMove.span, ByteMove.span]
  -- In front of the end of the bank nothing wraps; behind it everything does
  congr 1
  · apply List.map_congr_left
    intro j hj
    have hj : j < first := List.mem_range.mp hj
    rw [Nat.mod_eq_of_lt (by omega), Nat.add_assoc]
  · apply List.map_congr_left
    intro j hj
    have hj : j < rest := List.mem_range.mp hj
    have hplace : (memory + (first + j)) % 0x1000 = j := by omega
    rw [Function.comp_apply, hplace, Nat.add_assoc]

/-- One that does not is a span. -/
theorem rowMoves_eq_span {bank memory dram length : Nat} (h : memory + length ≤ 0x1000) :
    rowMoves bank memory dram length = ByteMove.span (bank + memory) dram length := by
  rw [rowMoves, ByteMove.span]
  apply List.map_congr_left
  intro j hj
  have hj : j < length := List.mem_range.mp hj
  rw [Nat.mod_eq_of_lt (by omega), Nat.add_assoc]

/-! ## Pieces -/

/-- Where a row may start: somewhere in the bank, and in the part of main memory that the SP
reaches. -/
structure Position.AtRow (p : Position) : Prop where
  memory : p.memory.toNat < 0x1000
  units : 4 ∣ p.memory.toNat
  dram : p.dram.toNat < 0x01000000

/-- The rows that the registers can ask for. -/
structure RowShape (bank length skip : UInt32) : Prop where
  banks : bank.toNat = 0 ∨ bank.toNat = 0x1000
  rowSize : length.toNat ≤ 0x1000
  rowUnits : 4 ∣ length.toNat
  skipSize : skip.toNat < 0x1000

/-- The pieces move these bytes; the transfer stands at `p` before and at `next` after them. -/
structure Covers (moves : List ByteMove) (p : Position) (pieces : List Piece) (next : Position) :
    Prop where
  inside : ∀ piece ∈ pieces, piece.Inside
  moves : pieces.flatMap Piece.moves = moves
  last : pieces.getLast?.elim p (·.next) = next

/-- Pieces that move the first bytes, and pieces that move the rest. -/
theorem Covers.append {first rest : List ByteMove} {p q r : Position} {pieces others : List Piece}
    (h : Covers first p pieces q) (h' : Covers rest q others r) :
    Covers (first ++ rest) p (pieces ++ others) r where
  inside := List.forall_mem_append.mpr ⟨h.inside, h'.inside⟩
  moves := by rw [List.flatMap_append, h.moves, h'.moves]
  last := by
    rw [← h'.last, ← h.last, List.getLast?_append]
    cases others.getLast? with
    | none => rfl
    | some piece => rfl

/-- What has to be true of the numbers of a piece. -/
private theorem inside_mk {m d l : UInt32} (next : Position) {memory dram length : Nat}
    (hm : m.toNat = memory) (hd : d.toNat = dram) (hl : l.toNat = length)
    (hmemory : memory + length ≤ memorySize) (hdram : dram + length ≤ 0x01001000)
    (hunits : 4 ∣ length) : Piece.Inside ⟨m, d, l, next⟩ := by
  subst hm hd hl
  exact ⟨hmemory, hdram, hunits⟩

/-- The offset in a bank, -/
private theorem toNat_and_bank (a : UInt32) :
    (a &&& (bankSize - 1)).toNat = a.toNat % 0x1000 := by
  rw [UInt32.toNat_and]
  exact Nat.and_two_pow_sub_one_eq_mod a.toNat 12

/-- and the part of main memory that the SP reaches. -/
private theorem toNat_and_dram (a : UInt32) : (a &&& 0x00FFFFFF).toNat = a.toNat % 0x01000000 := by
  rw [UInt32.toNat_and]
  exact Nat.and_two_pow_sub_one_eq_mod a.toNat 24

section
variable {bank length skip : UInt32} {p : Position}

/-- A row in one or two pieces. -/
theorem exists_rowPieces (hshape : RowShape bank length skip) (hp : p.AtRow) :
    ∃ next, Covers (rowMoves bank.toNat p.memory.toNat p.dram.toNat length.toNat) p
        (rowPieces bank length skip p) next ∧
      next.memory.toNat = (p.memory.toNat + length.toNat) % 0x1000 ∧
      next.dram.toNat = (p.dram.toNat + (length.toNat + skip.toNat)) % 0x01000000 := by
  obtain ⟨hbank, hlength, hunits, hskip⟩ := hshape
  obtain ⟨hmemory, haligned, hdram⟩ := hp
  -- None of the sums goes past 32 bits, so that they are those of the numbers
  have hfirst : (bankSize - p.memory).toNat = 0x1000 - p.memory.toNat :=
    UInt32.toNat_sub_of_le _ _ (UInt32.le_iff_toNat_le.mpr (Nat.le_of_lt hmemory))
  have hplace : (bank + p.memory).toNat = bank.toNat + p.memory.toNat := by
    rw [UInt32.toNat_add]
    omega
  have hnext : ((p.dram + (length + skip)) &&& 0x00FFFFFF).toNat =
      (p.dram.toNat + (length.toNat + skip.toNat)) % 0x01000000 := by
    rw [toNat_and_dram, UInt32.toNat_add, UInt32.toNat_add]
    omega
  rw [rowPieces]
  split
  case isTrue hle =>
    -- The row ends before its bank does: it is one piece, and one span
    rw [UInt32.le_iff_toNat_le, hfirst] at hle
    have hend : ((p.memory + length) &&& (bankSize - 1)).toNat =
        (p.memory.toNat + length.toNat) % 0x1000 := by
      rw [toNat_and_bank, UInt32.toNat_add]
      omega
    have hspan : rowMoves bank.toNat p.memory.toNat p.dram.toNat length.toNat =
        ByteMove.span (bank.toNat + p.memory.toNat) p.dram.toNat length.toNat :=
      rowMoves_eq_span (by omega)
    refine ⟨_, ⟨?_, ?_, rfl⟩, hend, hnext⟩
    · rw [List.forall_mem_singleton]
      exact inside_mk _ hplace rfl rfl (by rw [memorySize]; omega) (by omega) hunits
    · rw [List.flatMap_singleton, Piece.moves, hplace, hspan]
  case isFalse hlt =>
    -- It does not: the second piece goes on at the start of the bank, and in main memory behind
    -- the first one
    rw [UInt32.le_iff_toNat_le, hfirst] at hlt
    have hrest : (length - (bankSize - p.memory)).toNat =
        length.toNat - (0x1000 - p.memory.toNat) := by
      rw [UInt32.toNat_sub_of_le _ _ (UInt32.le_iff_toNat_le.mpr (by omega)), hfirst]
    have hsecond : (p.dram + (bankSize - p.memory)).toNat =
        p.dram.toNat + (0x1000 - p.memory.toNat) := by
      rw [UInt32.toNat_add, hfirst]
      omega
    have hend : ((length - (bankSize - p.memory)) &&& (bankSize - 1)).toNat =
        (p.memory.toNat + length.toNat) % 0x1000 := by
      rw [toNat_and_bank, hrest]
      omega
    have hlong : length.toNat = 0x1000 - p.memory.toNat +
        (length.toNat - (0x1000 - p.memory.toNat)) := by
      omega
    have hsplit : rowMoves bank.toNat p.memory.toNat p.dram.toNat length.toNat =
        ByteMove.span (bank.toNat + p.memory.toNat) p.dram.toNat (0x1000 - p.memory.toNat) ++
          ByteMove.span bank.toNat (p.dram.toNat + (0x1000 - p.memory.toNat))
            (length.toNat - (0x1000 - p.memory.toNat)) := by
      rw [← rowMoves_split (by omega) (by omega), ← hlong]
    refine ⟨_, ⟨?_, ?_, rfl⟩, hend, hnext⟩
    · -- The rest of the bank is a multiple of four bytes, because the row starts at one
      rw [List.forall_mem_cons, List.forall_mem_singleton]
      exact ⟨inside_mk _ hplace rfl hfirst (by rw [memorySize]; omega) (by omega) (by omega),
        inside_mk _ rfl hsecond hrest (by rw [memorySize]; omega) (by omega) (by omega)⟩
    · rw [List.flatMap_cons, List.flatMap_singleton, Piece.moves, Piece.moves, hplace, hfirst,
        hrest, hsecond, hsplit]

/-- The pieces of a transfer, row by row. -/
theorem exists_piecesOf (hshape : RowShape bank length skip) (rows : Nat) (hp : p.AtRow) :
    ∃ next, Covers (rowsMoves bank.toNat p.memory.toNat p.dram.toNat length.toNat
        (length.toNat + skip.toNat) rows) p (piecesOf bank length skip rows p) next ∧
      next.memory.toNat = (p.memory.toNat + rows * length.toNat) % 0x1000 ∧
      next.dram.toNat = rowStart p.dram.toNat (length.toNat + skip.toNat) rows := by
  induction rows generalizing p with
  | zero =>
    refine ⟨p, ⟨fun _ h => (nomatch h), rfl, rfl⟩, ?_, rfl⟩
    rw [Nat.zero_mul, Nat.add_zero, Nat.mod_eq_of_lt hp.memory]
  | succ rows ih =>
    -- A row ends where the next one begins, and its moves are put in front
    obtain ⟨q, hrow, hmemory, hdram⟩ := exists_rowPieces hshape hp
    have hq : q.AtRow := by
      have hunits := hp.units
      have hlength := hshape.rowUnits
      exact ⟨by omega, by omega, by omega⟩
    obtain ⟨next, hrest, hmemory', hdram'⟩ := ih hq
    have hpieces : piecesOf bank length skip (rows + 1) p =
        rowPieces bank length skip p ++ piecesOf bank length skip rows q := by
      rw [piecesOf, hrow.last]
    rw [hmemory] at hmemory' hrest
    rw [hdram] at hdram' hrest
    rw [hpieces, rowsMoves_succ, rowStart_succ]
    refine ⟨next, hrow.append hrest, ?_, hdram'⟩
    rw [hmemory', Nat.mod_add_mod, Nat.succ_mul, Nat.add_assoc, Nat.add_comm length.toNat]

end

end SignalProcessor

end Console64
