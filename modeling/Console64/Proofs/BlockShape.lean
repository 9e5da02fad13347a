import Console64.Proofs.FailureRecords
import Console64.Proofs.InstructionClasses

/-!
# The shape of compiled blocks

A block is a run of instructions that go on, and an ending: a branch with its delay slot, an
instruction that nothing may follow, or nothing more, where the next instruction cannot be taken
along.  Compiling fails only if that is so of the first one already.

## Key results

- `Block.pieceAt_eq_error_iff`: why an instruction cannot be taken along
- `Block.exists_shape`: the shape of every compiled block
- `Block.compile_wellFormed`: what the compiler promises of a block, and when it refuses
-/

namespace Console64

namespace Block

variable {words : CodeWords} {a : UInt32} {v : UInt64} {room : Nat}

/-! ## One instruction -/

/-- The block may go on after the instruction. -/
def Plain (d : DecodedWord) : Prop := d.op.isControlFlow = false ∧ d.op.endsBlock = false

/-- Why the instruction at `a` cannot be taken into a block with room for `room` more. -/
inductive Refused (words : CodeWords) (a : UInt32) (room : Nat) : CompileError → Prop where
  /-- It cannot be read. -/
  | unreadable (hword : words a = none) : Refused words a room (.unreadable a)
  /-- It is a branch whose delay slot lies in the next page, or is one too many. -/
  | split {word : UInt32} (hword : words a = some word)
    (hbranch : (Op.decode word).isControlFlow = true)
    (hroom : startsPage (a + 4) = true ∨ room < 2) : Refused words a room (.splitDelaySlot a)
  /-- It is a branch whose delay slot cannot be read. -/
  | slotUnreadable {word : UInt32} (hword : words a = some word)
    (hbranch : (Op.decode word).isControlFlow = true) (hpage : startsPage (a + 4) = false)
    (hroom : 2 ≤ room) (hslot : words (a + 4) = none) : Refused words a room (.unreadable (a + 4))
  /-- It is a branch with a branch in its delay slot, or with what must end a block. -/
  | slotUnsuitable {word slot : UInt32} (hword : words a = some word)
    (hbranch : (Op.decode word).isControlFlow = true) (hpage : startsPage (a + 4) = false)
    (hroom : 2 ≤ room) (hslot : words (a + 4) = some slot)
    (hunsuitable : (Op.decode slot).isControlFlow = true ∨ (Op.decode slot).endsBlock = true) :
    Refused words a room (.unsuitableDelaySlot (a + 4))

/-- What is taken along of the instruction at `a`, and what belongs to it. -/
inductive Taken (words : CodeWords) (a : UInt32) (room : Nat) : Piece → Prop where
  | plain {d : DecodedWord} (hword : words a = some d.word) (hplain : Plain d) :
    Taken words a room (.plain d)
  | last {d : DecodedWord} (hword : words a = some d.word) (hflow : d.op.isControlFlow = false)
    (hends : d.op.endsBlock = true) : Taken words a room (.last d)
  | branch {d slot : DecodedWord} (hword : words a = some d.word)
    (hbranch : d.op.isControlFlow = true) (hpage : startsPage (a + 4) = false) (hroom : 2 ≤ room)
    (hslot : words (a + 4) = some slot.word) (hplain : Plain slot) :
    Taken words a room (.branch d slot)

/-- An instruction is taken along, or it is refused. -/
theorem pieceAt_cases (words : CodeWords) (a : UInt32) (room : Nat) :
    (∃ p, (pieceAt words.read a room).run = .ok p ∧ Taken words a room p) ∨
      ∃ e, (pieceAt words.read a room).run = .error e ∧ Refused words a room e := by
  cases hword : words a with
  | none =>
    rw [pieceAt, bind_of_run (show (words.read a).run = none from hword)]
    exact .inr ⟨_, rfl, .unreadable hword⟩
  | some word =>
    rw [pieceAt, bind_of_run (show (words.read a).run = some word from hword)]
    dsimp only
    split
    case isTrue hbranch =>
      split
      case isTrue hroom =>
        rw [Bool.or_eq_true, decide_eq_true_eq] at hroom
        exact .inr ⟨_, rfl, .split hword hbranch hroom⟩
      case isFalse hroom =>
        rw [Bool.or_eq_true, decide_eq_true_eq, not_or, Bool.not_eq_true, Nat.not_lt] at hroom
        obtain ⟨hpage, hroom⟩ := hroom
        -- The delay slot decides
        cases hslot : words (a + 4) with
        | none =>
          rw [slotAt, bind_of_run (show (words.read (a + 4)).run = none from hslot)]
          exact .inr ⟨_, rfl, .slotUnreadable hword hbranch hpage hroom hslot⟩
        | some slot =>
          rw [slotAt, bind_of_run (show (words.read (a + 4)).run = some slot from hslot)]
          dsimp only
          split
          case isTrue hunsuitable =>
            rw [Bool.or_eq_true] at hunsuitable
            exact .inr ⟨_, rfl, .slotUnsuitable hword hbranch hpage hroom hslot hunsuitable⟩
          case isFalse hplain =>
            rw [Bool.not_eq_true, Bool.or_eq_false_iff] at hplain
            exact .inl ⟨_, rfl, .branch hword hbranch hpage hroom hslot hplain⟩
    case isFalse hflow =>
      rw [Bool.not_eq_true] at hflow
      split
      case isTrue hends => exact .inl ⟨_, rfl, .last hword hflow hends⟩
      case isFalse hends =>
        rw [Bool.not_eq_true] at hends
        exact .inl ⟨_, rfl, .plain hword ⟨hflow, hends⟩⟩

/-- An instruction is refused for exactly these reasons. -/
theorem pieceAt_eq_error_iff {e : CompileError} :
    (pieceAt words.read a room).run = .error e ↔ Refused words a room e := by
  constructor
  · intro h
    rcases pieceAt_cases words a room with ⟨p, hp, -⟩ | ⟨e', he, hrefused⟩
    · cases h.symm.trans hp
    · cases h.symm.trans he
      exact hrefused
  · have hfits : startsPage (a + 4) = false → 2 ≤ room →
        ¬(startsPage (a + 4) || decide (room < 2)) = true := by
      intro hpage hroom
      rw [hpage, Bool.false_or, decide_eq_true_eq]
      omega
    -- Each reason leads to its own exit of `pieceAt`
    intro h
    cases h with
    | unreadable hword =>
      rw [pieceAt, bind_of_run (show (words.read a).run = _ from hword)]
      rfl
    | split hword hbranch hroom =>
      rw [pieceAt, bind_of_run (show (words.read a).run = _ from hword)]
      dsimp only
      rw [if_pos hbranch, if_pos (by rwa [Bool.or_eq_true, decide_eq_true_eq])]
      rfl
    | slotUnreadable hword hbranch hpage hroom hslot =>
      rw [pieceAt, bind_of_run (show (words.read a).run = _ from hword)]
      dsimp only
      rw [if_pos hbranch, if_neg (hfits hpage hroom), slotAt,
        bind_of_run (show (words.read (a + 4)).run = _ from hslot)]
      rfl
    | slotUnsuitable hword hbranch hpage hroom hslot hunsuitable =>
      rw [pieceAt, bind_of_run (show (words.read a).run = _ from hword)]
      dsimp only
      rw [if_pos hbranch, if_neg (hfits hpage hroom), slotAt,
        bind_of_run (show (words.read (a + 4)).run = _ from hslot)]
      dsimp only
      rw [if_pos (by rwa [Bool.or_eq_true])]
      rfl

/-! ## Whole blocks -/

/-- How a block may end at `a`, behind instructions that go on; `v` is the virtual address. -/
inductive Ending (words : CodeWords) (a : UInt32) (v : UInt64) (room : Nat) : BlockBody → Prop where
  /-- The next instruction is not taken along. -/
  | stop (h : room = 0 ∨ startsPage a = true ∨ ∃ e, Refused words a room e) :
    Ending words a v room {}
  | last {d : DecodedWord} (h : Taken words a room (.last d)) (hroom : 1 ≤ room) :
    Ending words a v room { code := [d] }
  | branch {d slot : DecodedWord} (h : Taken words a room (.branch d slot)) :
    Ending words a v room (branchBody v d slot)

/-- The instructions from `a` on are the words found there, in one page: some in front that go on,
and an ending. -/
structure Shape (words : CodeWords) (a : UInt32) (v : UInt64) (room : Nat) (body : BlockBody)
    (front : List DecodedWord) (ending : BlockBody) : Prop where
  body_eq : body = { ending with code := front ++ ending.code }
  plain : ∀ d ∈ front, Plain d
  wordsAt : WordsAt words a body.code
  straight : Straight a body.code
  front_le : front.length ≤ room
  ends : Ending words (a + UInt32.ofNat (4 * front.length))
    (v + UInt64.ofNat (4 * front.length)) (room - front.length) ending

/-- An instruction that does not end a block is not for the system control coprocessor. -/
private theorem opcode_ne {d : DecodedWord} (h : d.op.endsBlock = false) :
    (Instruction.mk d.word).opcode ≠ 0x10 := by
  rw [d.op_eq] at h
  exact Op.opcode_ne_of_endsBlock h

/-- A branch does not end a block by itself. -/
theorem endsBlock_of_branch {d : DecodedWord} (h : d.op.isControlFlow = true) :
    d.op.endsBlock = false := by
  rw [d.op_eq] at h ⊢
  exact Op.endsBlock_of_isControlFlow h

/-- An ending alone. -/
theorem Shape.of_ending {ending : BlockBody} (h : Ending words a v room ending) :
    Shape words a v room ending [] ending := by
  -- The ending has at most a branch and its slot, which are in one page
  have hwords : WordsAt words a ending.code ∧ Straight a ending.code := by
    cases h with
    | stop => exact ⟨wordsAt_nil _ _, trivial⟩
    | last htaken =>
      cases htaken with
      | last hword => exact ⟨wordsAt_cons.mpr ⟨hword, wordsAt_nil _ _⟩, trivial⟩
    | branch htaken =>
      cases htaken with
      | branch hword hbranch hpage _ hslot =>
        exact ⟨wordsAt_cons.mpr ⟨hword, wordsAt_cons.mpr ⟨hslot, wordsAt_nil _ _⟩⟩,
          opcode_ne (endsBlock_of_branch hbranch), hpage, trivial⟩
  exact
    { body_eq := rfl
      plain := fun d hd => nomatch hd
      wordsAt := hwords.1
      straight := hwords.2
      front_le := Nat.zero_le room
      ends := by
        rw [List.length_nil, Nat.mul_zero, Nat.sub_zero]
        rwa [show a + UInt32.ofNat 0 = a from UInt32.add_zero a,
          show v + UInt64.ofNat 0 = v from UInt64.add_zero v] }

/-- One more instruction in front. -/
theorem Shape.cons {d : DecodedWord} {body ending : BlockBody} {front : List DecodedWord}
    (hword : words a = some d.word) (hplain : Plain d)
    (hpage : body.code = [] ∨ startsPage (a + 4) = false)
    (h : Shape words (a + 4) (v + 4) room body front ending) :
    Shape words a v (room + 1) (consBody d body) (d :: front) ending where
  body_eq := by
    rw [h.body_eq]
    rfl
  plain := List.forall_mem_cons.mpr ⟨hplain, h.plain⟩
  wordsAt := wordsAt_cons.mpr ⟨hword, h.wordsAt⟩
  straight := straight_cons (opcode_ne hplain.2) hpage h.straight
  front_le := Nat.succ_le_succ h.front_le
  ends := by
    -- Counted from the instruction behind it, the ending is one place nearer
    have hends := h.ends
    have hplace : a + 4 + UInt32.ofNat (4 * front.length) =
        a + UInt32.ofNat (4 * (d :: front).length) := by
      apply UInt32.toNat_inj.mp
      simp only [List.length_cons, UInt32.toNat_add, UInt32.toNat_ofNat, UInt32.toNat_ofNat']
      omega
    have haddress : v + 4 + UInt64.ofNat (4 * front.length) =
        v + UInt64.ofNat (4 * (d :: front).length) := by
      apply UInt64.toNat_inj.mp
      simp only [List.length_cons, UInt64.toNat_add, UInt64.toNat_ofNat, UInt64.toNat_ofNat']
      omega
    rw [hplace, haddress] at hends
    rwa [List.length_cons, Nat.add_sub_add_right]

/-- The shape of what comes after the first instruction of a block: it is nothing at the start of
a page. -/
theorem bodyAfter_shape (words : CodeWords) (a : UInt32) (v : UInt64) (room : Nat) :
    (∃ front ending, Shape words a v room (bodyAfter words.read a v room).run front ending) ∧
      ((bodyAfter words.read a v room).run.code = [] ∨ startsPage a = false) := by
  -- Induction on the room left
  induction room generalizing a v with
  | zero => exact ⟨⟨[], {}, .of_ending (.stop (.inl rfl))⟩, .inl rfl⟩
  | succ room ih =>
    rw [bodyAfter]
    by_cases hpage : startsPage a = true
    · rw [if_pos hpage]
      exact ⟨⟨[], {}, .of_ending (.stop (.inr (.inl hpage)))⟩, .inl rfl⟩
    · rw [if_neg hpage]
      rw [Bool.not_eq_true] at hpage
      rcases pieceAt_cases words a (room + 1) with ⟨p, hp, htaken⟩ | ⟨e, he, hrefused⟩
      · rw [bind_of_run hp]
        refine ⟨?_, .inr hpage⟩
        cases htaken with
        | plain hword hplain =>
          obtain ⟨⟨front, ending, hshape⟩, hnext⟩ := ih (a + 4) (v + 4)
          exact ⟨_ :: front, ending, hshape.cons hword hplain hnext⟩
        | last hword hflow hends =>
          exact ⟨[], _, .of_ending (.last (.last hword hflow hends) (Nat.succ_pos room))⟩
        | branch hword hbranch hfollows hroom hslot hplain =>
          exact ⟨[], _, .of_ending (.branch (.branch hword hbranch hfollows hroom hslot hplain))⟩
      · rw [bind_of_run he]
        exact ⟨⟨[], {}, .of_ending (.stop (.inr (.inr ⟨e, hrefused⟩)))⟩, .inl rfl⟩

/-- The shape of every compiled block. -/
theorem exists_shape {start : UInt32} {entry : UInt64} {maxInstructions : Nat} {b : Block}
    (h : (compile words.read ⟨start, entry, maxInstructions⟩).run = .ok b) :
    b.start = start ∧ b.entry = entry ∧ b.code ≠ [] ∧
      ∃ front ending,
        Shape words start entry (max maxInstructions 1) b.toBlockBody front ending := by
  obtain ⟨room, hroom⟩ : ∃ room, max maxInstructions 1 = room + 1 :=
    ⟨max maxInstructions 1 - 1, by omega⟩
  simp only [compile, hroom] at h ⊢
  rcases pieceAt_cases words start (room + 1) with ⟨p, hp, htaken⟩ | ⟨e, he, -⟩
  · rw [bind_of_run hp] at h
    -- The first instruction goes on, ends the block, or is a branch with its slot
    cases htaken with
    | plain hword hplain =>
      obtain ⟨⟨front, ending, hshape⟩, hnext⟩ := bodyAfter_shape words (start + 4) (entry + 4) room
      cases h
      exact ⟨rfl, rfl, List.cons_ne_nil _ _, _, _, hshape.cons hword hplain hnext⟩
    | last hword hflow hends =>
      cases h
      exact ⟨rfl, rfl, List.cons_ne_nil _ _, _, _,
        .of_ending (.last (.last hword hflow hends) (Nat.succ_pos room))⟩
    | branch hword hbranch hfollows hfits hslot hplain =>
      cases h
      exact ⟨rfl, rfl, List.cons_ne_nil _ _, _, _,
        .of_ending (.branch (.branch hword hbranch hfollows hfits hslot hplain))⟩
  · rw [bind_of_run he] at h
    cases h

namespace Shape

variable {body ending : BlockBody} {front : List DecodedWord}
  (h : Shape words a v room body front ending)
include h

/-- The words of the body are those in front and those of its end. -/
theorem code_eq : body.code = front ++ ending.code := congrArg BlockBody.code h.body_eq

/-- The end alone says whether there is control flow, -/
theorem hasControlFlow_eq : body.hasControlFlow = ending.hasControlFlow := by rw [h.body_eq]

/-- and where a jump goes. -/
theorem jumpTarget_eq : body.jumpTarget = ending.jumpTarget := by rw [h.body_eq]

/-- The words are counted in both parts, -/
theorem length_eq : body.code.length = front.length + ending.code.length := by
  rw [h.code_eq, List.length_append]

/-- and there is room for them. -/
theorem length_le : body.code.length ≤ room := by
  have hfront := h.front_le
  rw [h.length_eq]
  cases h.ends with
  | stop => exact hfront
  | last _ hroom =>
    simp only [List.length_cons, List.length_nil]
    omega
  | branch htaken =>
    cases htaken with
    | branch _ _ _ hroom =>
      simp only [branchBody, List.length_cons, List.length_nil]
      omega

/-- The ending comes behind the instructions that go on. -/
theorem getElem_ending (j : Nat) (hj : j < ending.code.length)
    (hi : front.length + j < body.code.length) : body.code[front.length + j] = ending.code[j] := by
  simp only [h.code_eq, List.getElem_append_right (Nat.le_add_right _ _), Nat.add_sub_cancel_left]

/-- An instruction goes on, or it belongs to the ending. -/
theorem getElem_cases (i : Nat) (hi : i < body.code.length) :
    Plain body.code[i] ∨
      ∃ j, ∃ hj : j < ending.code.length, i = front.length + j ∧ body.code[i] = ending.code[j] := by
  by_cases hfront : i < front.length
  · simp only [h.code_eq, List.getElem_append_left hfront]
    exact .inl (h.plain _ (List.getElem_mem hfront))
  · obtain ⟨j, rfl⟩ := Nat.exists_eq_add_of_le (Nat.not_lt.mp hfront)
    have hj : j < ending.code.length := by
      rw [h.length_eq] at hi
      omega
    exact .inr ⟨j, hj, rfl, h.getElem_ending j hj hi⟩

/-- Nothing follows what ends a block. -/
theorem eq_of_endsBlock (i : Nat) (hi : i < body.code.length)
    (hop : body.code[i].op.endsBlock = true) : i + 1 = body.code.length := by
  -- It is one of those in front, which are plain, or belongs to the ending
  rcases h.getElem_cases i hi with hplain | ⟨j, hj, rfl, hcode⟩
  · exact Bool.noConfusion (hplain.2.symm.trans hop)
  · rw [hcode] at hop
    rw [h.length_eq]
    cases h.ends with
    | stop => exact absurd hj (Nat.not_lt_zero j)
    | last =>
      rw [Nat.lt_one_iff.mp hj]
      rfl
    | branch htaken =>
      cases htaken with
      | branch _ hbranch _ _ _ hplain =>
        match j, hj with
        | 0, _ => exact Bool.noConfusion ((endsBlock_of_branch hbranch).symm.trans hop)
        | 1, _ => exact Bool.noConfusion (hplain.2.symm.trans hop)

/-- Only its delay slot follows a branch. -/
theorem eq_of_isControlFlow (i : Nat) (hi : i < body.code.length)
    (hop : body.code[i].op.isControlFlow = true) :
    body.hasControlFlow = true ∧ i + 2 = body.code.length := by
  -- As above: one of those in front has no control flow
  rcases h.getElem_cases i hi with hplain | ⟨j, hj, rfl, hcode⟩
  · exact Bool.noConfusion (hplain.1.symm.trans hop)
  · rw [hcode] at hop
    rw [h.hasControlFlow_eq, h.length_eq]
    cases h.ends with
    | stop => exact absurd hj (Nat.not_lt_zero j)
    | last htaken =>
      cases htaken with
      | last _ hflow _ =>
        match j, hj with
        | 0, _ => exact Bool.noConfusion (hflow.symm.trans hop)
    | branch htaken =>
      cases htaken with
      | branch _ _ _ _ _ hplain =>
        match j, hj with
        | 0, _ => exact ⟨rfl, rfl⟩
        | 1, _ => exact Bool.noConfusion (hplain.1.symm.trans hop)

end Shape

/-- What the compiler promises of a block from `start` on, compiled for the virtual address `entry`
and with room for `room` instructions. -/
structure WellFormed (words : CodeWords) (start : UInt32) (entry : UInt64) (room : Nat)
    (b : Block) : Prop where
  start_eq : b.start = start
  entry_eq : b.entry = entry
  size_pos : 1 ≤ b.size
  size_le : b.size ≤ room
  /-- Each instruction is the word in its place, decoded. -/
  word : ∀ i (hi : i < b.code.length),
    words (start + UInt32.ofNat (4 * i)) = some b.code[i].word ∧
      b.code[i].op = Op.decode b.code[i].word
  /-- All of them lie in one page. -/
  page : ∀ i < b.size, (start + UInt32.ofNat (4 * i)).toNat / 4096 = start.toNat / 4096
  /-- What ends a block is its last instruction. -/
  ends : ∀ i (hi : i < b.code.length), b.code[i].op.endsBlock = true → i + 1 = b.size
  /-- A branch is the last instruction but one, and the block is marked as one with a branch. -/
  branch : ∀ i (hi : i < b.code.length), b.code[i].op.isControlFlow = true →
    b.hasControlFlow = true ∧ i + 2 = b.size
  /-- A block that is marked has a branch, with its target, and a delay slot that is neither a
  branch nor ends a block. -/
  slot : b.hasControlFlow = true → ∃ i, ∃ hi : i + 1 < b.code.length, i + 2 = b.size ∧
    b.code[i].op.isControlFlow = true ∧ Plain b.code[i + 1] ∧
    b.jumpTarget = b.code[i].op.staticTarget (entry + UInt64.ofNat (4 * i))
  /-- Any other has no target. -/
  target : b.hasControlFlow = false → b.jumpTarget = none
  /-- The block goes on as long as it can: there is no more room, or a page starts, or an
  instruction or a branch has ended it, or the next instruction is refused. -/
  stops : b.size = room ∨ startsPage b.stop = true ∨
    (∃ i, ∃ hi : i < b.code.length, i + 1 = b.size ∧ b.code[i].op.endsBlock = true) ∨
    b.hasControlFlow = true ∨ ∃ e, Refused words b.stop (room - b.size) e

/-- Words in one page from an aligned address on have their places there. -/
private theorem page_of_length {i length : Nat} (hlength : a.toNat % 4096 + 4 * length ≤ 4096)
    (hi : i < length) : (a + UInt32.ofNat (4 * i)).toNat / 4096 = a.toNat / 4096 := by
  have hlt := a.toNat_lt
  simp only [UInt32.toNat_add, UInt32.toNat_ofNat']
  omega

/-- A block of that shape keeps all promises. -/
theorem Shape.wellFormed {b : Block} {front : List DecodedWord} {ending : BlockBody}
    (h : Shape words b.start b.entry room b.toBlockBody front ending) (hne : b.code ≠ [])
    (halign : b.start.toNat % 4 = 0) : WellFormed words b.start b.entry room b where
  start_eq := rfl
  entry_eq := rfl
  size_pos := List.length_pos_iff.mpr hne
  size_le := h.length_le
  word i hi := ⟨h.wordsAt i hi, b.code[i].op_eq⟩
  page i hi := page_of_length (h.straight.length_le halign hne) hi
  ends := h.eq_of_endsBlock
  branch := h.eq_of_isControlFlow
  -- Only an ending with a branch has control flow
  slot := by
    intro hflow
    rw [h.hasControlFlow_eq] at hflow
    rw [h.jumpTarget_eq]
    cases h.ends with
    | stop => exact nomatch hflow
    | last => exact nomatch hflow
    | branch htaken =>
      cases htaken with
      | branch _ hbranch _ _ _ hplain =>
        have hlength : b.code.length = front.length + 2 := h.length_eq
        have hfirst := h.getElem_ending 0 (Nat.succ_pos 1) (by omega)
        have hsecond := h.getElem_ending 1 (Nat.lt_succ_self 1) (by omega)
        refine ⟨front.length, by omega, hlength.symm, ?_⟩
        simp only [Nat.add_zero] at hfirst
        rw [hfirst, hsecond]
        exact ⟨hbranch, hplain, rfl⟩
  target := by
    intro hflow
    rw [h.hasControlFlow_eq] at hflow
    rw [h.jumpTarget_eq]
    cases h.ends with
    | stop => rfl
    | last => rfl
    | branch => exact nomatch hflow
  -- What stopped the body is what its ending says
  stops := by
    rw [h.hasControlFlow_eq]
    cases h.ends with
    | stop hstop =>
      have hlength : b.size = front.length := h.length_eq
      rw [← hlength] at hstop
      rcases hstop with hfull | hpage | hrefused
      · have hle : b.size ≤ room := h.length_le
        exact .inl (by omega)
      · exact .inr (.inl hpage)
      · exact .inr (.inr (.inr (.inr hrefused)))
    | last htaken =>
      cases htaken with
      | last _ _ hends =>
        have hlength : b.code.length = front.length + 1 := h.length_eq
        have hlast := h.getElem_ending 0 (Nat.succ_pos 0) (by omega)
        refine .inr (.inr (.inl ⟨front.length, by omega, hlength.symm, ?_⟩))
        simp only [Nat.add_zero] at hlast
        rw [hlast]
        exact hends
    | branch => exact .inr (.inr (.inr (.inl rfl)))

/-- For every source of words and from every aligned address on, with room for one instruction at
the least: a compiled block keeps all promises, and compiling fails exactly if its first instruction
is refused, and for that reason. -/
theorem compile_wellFormed (words : CodeWords) {start : UInt32} (halign : start.toNat % 4 = 0)
    (entry : UInt64) (maxInstructions : Nat) :
    (∀ b, (compile words.read ⟨start, entry, maxInstructions⟩).run = .ok b →
      WellFormed words start entry (max maxInstructions 1) b) ∧
    ∀ e, (compile words.read ⟨start, entry, maxInstructions⟩).run = .error e ↔
      Refused words start (max maxInstructions 1) e := by
  constructor
  · intro b h
    obtain ⟨rfl, rfl, hne, front, ending, hshape⟩ := exists_shape h
    exact hshape.wellFormed hne halign
  · intro e
    rw [compile_eq_error_iff, ← pieceAt_eq_error_iff, refusal]
    cases (pieceAt words.read start (max maxInstructions 1)).run with
    | ok p => simp only [reduceCtorEq]
    | error e' => simp only [Option.some.injEq, Except.error.injEq]

/-- A branch and its delay slot are a block, with the target of the branch.  If the slot holds a
jump, no block can start there. -/
theorem compile_wellFormed_branching :
    (0x1000 : UInt32).toNat % 4 = 0 ∧
      (∃ b, (compile (CodeState.branching 0).read ⟨0x1000, 0xFFFFFFFF80001000, 64⟩).run = .ok b ∧
        b.size = 2 ∧ b.jumpTarget = some 0xFFFFFFFF8000100C ∧
        WellFormed (CodeState.branching 0) 0x1000 0xFFFFFFFF80001000 64 b) ∧
      Refused (CodeState.branching 0x08000000) 0x1000 64 (.unsuitableDelaySlot 0x1004) := by
  have halign : (0x1000 : UInt32).toNat % 4 = 0 := rfl
  refine ⟨halign, ⟨_, rfl, rfl, rfl, ?_⟩, ?_⟩
  · exact (compile_wellFormed _ halign _ 64).1 _ rfl
  · exact ((compile_wellFormed _ halign 0xFFFFFFFF80001000 64).2 _).mp rfl

end Block

end Console64
