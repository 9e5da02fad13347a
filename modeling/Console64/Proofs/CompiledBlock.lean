import Console64.Proofs.CodeMemory

/-!
# What compiling gives

A block is a straight run of the words found where it was compiled from: it stays in one
page, and nothing but its last instruction belongs to the system control coprocessor.
Among the registers of the signal processor this is not certain, since there a fetch may
change what the next one finds.

## Key results

- `Block.fresh_iff`: a block is fresh when memory still holds each of its words
- `Block.compile_run`: compiling anywhere else changes nothing, and gives a straight and
  fresh block
- `Block.compile_closed`: what holds of looking at words holds of compiling
-/

namespace Console64

/-- Memory holds these words, one after the other from `a` on. -/
def HoldsCode (bus : Bus) : UInt32 → List DecodedWord → Prop
  | _, [] => True
  | a, d :: rest => bus.wordAt a = some d.word ∧ HoldsCode bus (a + 4) rest

/-- From `a` on, these words stay in one page, and none but the last of them is for the
system control coprocessor. -/
def Straight : UInt32 → List DecodedWord → Prop
  | a, d :: d' :: rest =>
    (Instruction.mk d.word).opcode ≠ 0x10 ∧ Block.startsPage (a + 4) = false ∧
      Straight (a + 4) (d' :: rest)
  | _, _ => True

/-- Each of the words is what `word` gives for its place from `a` on. -/
def WordsAt (word : UInt32 → Option UInt32) (a : UInt32) (code : List DecodedWord) : Prop :=
  ∀ i (h : i < code.length), word (a + UInt32.ofNat (4 * i)) = some code[i].word

/-- No words, nothing to say. -/
theorem wordsAt_nil (word : UInt32 → Option UInt32) (a : UInt32) : WordsAt word a [] :=
  fun _ h => absurd h (Nat.not_lt_zero _)

/-- The first word is at its place, and the others from the next one on. -/
theorem wordsAt_cons {word : UInt32 → Option UInt32} {a : UInt32} {d : DecodedWord}
    {rest : List DecodedWord} :
    WordsAt word a (d :: rest) ↔ word a = some d.word ∧ WordsAt word (a + 4) rest := by
  -- Places counted from the second word are one further on
  have hshift : ∀ i, a + 4 + UInt32.ofNat (4 * i) = a + UInt32.ofNat (4 * (i + 1)) := by
    intro i
    apply UInt32.toNat_inj.mp
    simp only [UInt32.toNat_add, UInt32.toNat_ofNat, UInt32.toNat_ofNat']
    omega
  have hzero : a + UInt32.ofNat (4 * 0) = a := UInt32.add_zero a
  simp only [WordsAt, hshift]
  constructor
  · intro h
    have hfirst := h 0 (Nat.succ_pos _)
    rw [hzero] at hfirst
    exact ⟨hfirst, fun i hi => h (i + 1) (Nat.succ_lt_succ hi)⟩
  · rintro ⟨hfirst, hrest⟩ i hi
    cases i with
    | zero =>
      rw [hzero]
      exact hfirst
    | succ i => exact hrest i (Nat.lt_of_succ_lt_succ hi)

/-- Memory holds the words at their places, each at its own. -/
theorem holdsCode_iff (bus : Bus) (a : UInt32) (code : List DecodedWord) :
    HoldsCode bus a code ↔
      ∀ i (h : i < code.length), bus.wordAt (a + UInt32.ofNat (4 * i)) = some code[i].word := by
  show _ ↔ WordsAt bus.wordAt a code
  induction code generalizing a with
  | nil => exact ⟨fun _ => wordsAt_nil _ _, fun _ => trivial⟩
  | cons d rest ih => rw [wordsAt_cons, HoldsCode, ih]

/-! ## Pages -/

/-- An aligned address whose successor starts no page has it in its own. -/
theorem toNat_add_four_of_not_startsPage {a : UInt32} (halign : a.toNat % 4 = 0)
    (h : Block.startsPage (a + 4) = false) :
    (a + 4).toNat = a.toNat + 4 ∧ a.toNat % 4096 + 4 < 4096 := by
  have hlt := a.toNat_lt
  -- After the last word of a page the next page starts
  have hmask : ((a + 4) &&& Block.pageMask).toNat = (a + 4).toNat % 2 ^ 12 := by
    rw [UInt32.toNat_and, show Block.pageMask.toNat = 2 ^ 12 - 1 from rfl,
      Nat.and_two_pow_sub_one_eq_mod]
  have hne : (a + 4).toNat % 2 ^ 12 ≠ 0 := by
    intro hzero
    rw [hzero] at hmask
    have hstarts : (a + 4) &&& Block.pageMask = 0 := UInt32.toNat_inj.mp hmask
    simp only [Block.startsPage, hstarts, decide_true, Bool.true_eq_false] at h
  simp only [UInt32.toNat_add, UInt32.toNat_ofNat] at hne ⊢
  omega

/-- The next word of the page is aligned and quiet like this one. -/
theorem quiet_add_four {a : UInt32} (halign : a.toNat % 4 = 0) (hquiet : quiet a = true)
    (h : Block.startsPage (a + 4) = false) : (a + 4).toNat % 4 = 0 ∧ quiet (a + 4) = true := by
  obtain ⟨hadd, hpage⟩ := toNat_add_four_of_not_startsPage halign h
  refine ⟨by omega, quiet_of_page hquiet ?_⟩
  omega

/-- The next word of the page is aligned, and in code memory if this one is. -/
theorem inCodeMemory_add_four {a : UInt32} (halign : a.toNat % 4 = 0)
    (hcode : inCodeMemory a = true) (h : Block.startsPage (a + 4) = false) :
    (a + 4).toNat % 4 = 0 ∧ inCodeMemory (a + 4) = true := by
  obtain ⟨hadd, hpage⟩ := toNat_add_four_of_not_startsPage halign h
  refine ⟨by omega, inCodeMemory_of_page hcode ?_⟩
  omega

/-- A straight run of words ends with its page at the latest. -/
theorem Straight.length_le {a : UInt32} {code : List DecodedWord} (h : Straight a code)
    (halign : a.toNat % 4 = 0) (hne : code ≠ []) :
    a.toNat % 4096 + 4 * code.length ≤ 4096 := by
  match code with
  | [] => exact absurd rfl hne
  | [_] =>
    simp only [List.length_singleton]
    omega
  | d :: d' :: rest =>
    -- The next instruction is in the same page, four bytes on
    obtain ⟨_, hpage, hrest⟩ := h
    obtain ⟨hadd, hinside⟩ := toNat_add_four_of_not_startsPage halign hpage
    have ih := hrest.length_le (by omega) (List.cons_ne_nil d' rest)
    simp only [List.length_cons] at ih ⊢
    omega

/-- One more instruction in front of a straight run. -/
theorem straight_cons {a : UInt32} {d : DecodedWord} {rest : List DecodedWord}
    (hop : (Instruction.mk d.word).opcode ≠ 0x10)
    (hpage : rest = [] ∨ Block.startsPage (a + 4) = false) (h : Straight (a + 4) rest) :
    Straight a (d :: rest) := by
  cases rest with
  | nil => trivial
  | cons d' rest =>
    rcases hpage with hnil | hpage
    · exact absurd hnil (List.cons_ne_nil d' rest)
    · exact ⟨hop, hpage, h⟩

/-! ## The pieces of a block -/

/-- Words of the system control coprocessor are interpreted, and end a block. -/
private theorem decode_of_cop0 {word : UInt32} (h : (Instruction.mk word).opcode = 0x10) :
    Op.decode word = .interpret word true ∧ Op.interpretedBranch word = false := by
  constructor
  · simp only [Op.decode, Op.interpreted, Op.mustEndBlock, h]
    rfl
  · simp only [Op.interpretedBranch, h]
    rfl

/-- What a piece says about memory. -/
private def PieceHolds (bus : Bus) (a : UInt32) : Except CompileError Piece → Prop
  | .error _ => True
  | .ok (.plain d) => bus.wordAt a = some d.word ∧ (Instruction.mk d.word).opcode ≠ 0x10
  | .ok (.last d) => bus.wordAt a = some d.word
  | .ok (.branch d slot) => HoldsCode bus a [d, slot] ∧ Straight a [d, slot]

/-- Reading code for the compiler is what a fetch does, but for the fault. -/
theorem readCode_eq (a : UInt32) (m : Machine) :
    Recompiler.readCode a m =
      .ok (m.bus.wordAt a) { m with bus := stateOf (Bus.readWord a m.bus) } := by
  rw [Recompiler.readCode, Machine.onBus, Bus.wordAt]
  cases hread : Bus.readWord a m.bus with
  | ok word bus =>
    rw [bind_attempt_of_ok hread]
    rfl
  | error e bus =>
    rw [bind_attempt_of_error hread]
    rfl

/-- So on a quiet word it gives what memory holds, and changes nothing. -/
theorem readCode_run {a : UInt32} (halign : a.toNat % 4 = 0) (hquiet : quiet a = true)
    (m : Machine) : Recompiler.readCode a m = .ok (m.bus.wordAt a) m := by
  rw [readCode_eq, Bus.readWord_of_quiet halign hquiet]

/-- The delay slot is read like that, -/
private theorem slotAt_run {a : UInt32} (halign : a.toNat % 4 = 0) (hquiet : quiet a = true)
    (m : Machine) :
    ∃ r, Block.slotAt Recompiler.readCode a m = .ok r m ∧
      ∀ slot, r = .ok slot → m.bus.wordAt a = some slot.word := by
  rw [Block.slotAt, bind_of_ok (readCode_run halign hquiet m)]
  cases m.bus.wordAt a with
  | none => exact ⟨_, rfl, fun slot h => nomatch h⟩
  | some word =>
    dsimp only
    split
    · exact ⟨_, rfl, fun slot h => nomatch h⟩
    · refine ⟨_, rfl, fun slot h => ?_⟩
      cases h
      rfl

/-- and so is what a piece of a block consists of. -/
private theorem pieceAt_run {a : UInt32} (halign : a.toNat % 4 = 0) (hquiet : quiet a = true)
    (room : Nat) (m : Machine) :
    ∃ r, Block.pieceAt Recompiler.readCode a room m = .ok r m ∧ PieceHolds m.bus a r := by
  rw [Block.pieceAt, bind_of_ok (readCode_run halign hquiet m)]
  cases hword : m.bus.wordAt a with
  | none => exact ⟨_, rfl, trivial⟩
  | some word =>
    dsimp only
    by_cases hflow : (Op.decode word).isControlFlow = true
    · rw [if_pos hflow]
      split
      · exact ⟨_, rfl, trivial⟩
      · rename_i hroom
        simp only [Bool.or_eq_true, not_or, Bool.not_eq_true] at hroom
        obtain ⟨halign', hquiet'⟩ := quiet_add_four halign hquiet hroom.1
        obtain ⟨r, hslot, hholds⟩ := slotAt_run halign' hquiet' m
        refine ⟨_, bind_of_ok hslot, ?_⟩
        cases r with
        | error e => trivial
        | ok slot =>
          refine ⟨⟨hword, hholds slot rfl, trivial⟩, ?_, hroom.1, trivial⟩
          -- An operation of the coprocessor never branches
          intro hcop0
          obtain ⟨hop, hbranch⟩ := decode_of_cop0 hcop0
          rw [hop] at hflow
          exact absurd hflow (by rw [Op.isControlFlow, hbranch]; exact Bool.false_ne_true)
    · rw [if_neg hflow]
      split
      · exact ⟨_, rfl, hword⟩
      · rename_i hends
        refine ⟨_, rfl, hword, ?_⟩
        -- An operation of the coprocessor would have ended the block
        intro hcop0
        rw [(decode_of_cop0 hcop0).1] at hends
        exact hends rfl

/-! ## Whole blocks -/

/-- The instructions after the first of a block hold what memory does, and lie in the
page of the one before them. -/
private theorem bodyAfter_run {a : UInt32} (v : UInt64) (room : Nat) (m : Machine)
    (halign : Block.startsPage a = false → a.toNat % 4 = 0)
    (hquiet : Block.startsPage a = false → quiet a = true) :
    ∃ body, Block.bodyAfter Recompiler.readCode a v room m = .ok body m ∧
      (body.code = [] ∨ Block.startsPage a = false) ∧ HoldsCode m.bus a body.code ∧
      Straight a body.code := by
  -- Induction on the room left; `hfirst` tells that the next piece stays in the page
  induction room generalizing a v with
  | zero => exact ⟨{}, rfl, .inl rfl, trivial, trivial⟩
  | succ room ih =>
    rw [Block.bodyAfter]
    by_cases hpage : Block.startsPage a = true
    · rw [if_pos hpage]
      exact ⟨{}, rfl, .inl rfl, trivial, trivial⟩
    · rw [if_neg hpage]
      rw [Bool.not_eq_true] at hpage
      obtain ⟨r, hpiece, hholds⟩ := pieceAt_run (halign hpage) (hquiet hpage) (room + 1) m
      rw [bind_of_ok hpiece]
      match r, hholds with
      | .error e, _ => exact ⟨{}, rfl, .inl rfl, trivial, trivial⟩
      | .ok (.plain d), hholds =>
        obtain ⟨body, hbody, hfirst, hrest, hstraight⟩ := ih (v + 4)
          (fun h => (quiet_add_four (halign hpage) (hquiet hpage) h).1)
          fun h => (quiet_add_four (halign hpage) (hquiet hpage) h).2
        exact ⟨_, bind_of_ok hbody, .inr hpage, ⟨hholds.1, hrest⟩,
          straight_cons hholds.2 hfirst hstraight⟩
      | .ok (.last d), hholds => exact ⟨_, rfl, .inr hpage, ⟨hholds, trivial⟩, trivial⟩
      | .ok (.branch d slot), hholds => exact ⟨_, rfl, .inr hpage, hholds.1, hholds.2⟩

namespace Block

/-- Memory holds every word of the block where it was compiled from. -/
def Fresh (b : Block) (bus : Bus) : Prop := HoldsCode bus b.start b.code

/-- A block is fresh when each of its words is what a fetch finds in its place. -/
theorem fresh_iff (b : Block) (bus : Bus) :
    b.Fresh bus ↔ ∀ i (h : i < b.code.length),
      bus.wordAt (b.start + UInt32.ofNat (4 * i)) = some b.code[i].word :=
  holdsCode_iff bus b.start b.code

/-- A block is stale where another word is found at its start. -/
theorem not_fresh_of_head {b : Block} {bus : Bus} {first word : UInt32} {rest : List UInt32}
    (hwords : b.code.map (·.word) = first :: rest) (hword : bus.wordAt b.start = some word)
    (hne : word ≠ first) : ¬b.Fresh bus := by
  obtain ⟨d, tail, hcode, hd, -⟩ := List.map_eq_cons_iff.mp hwords
  intro hfresh
  rw [Fresh, hcode] at hfresh
  have hsame := hword.symm.trans hfresh.1
  rw [hd] at hsame
  exact hne (Option.some.inj hsame)

/-- The block is a straight run in code memory. -/
structure Placed (b : Block) : Prop where
  aligned : b.start.toNat % 4 = 0
  inCode : inCodeMemory b.start = true
  nonempty : b.code ≠ []
  straight : Straight b.start b.code

/-- Compiling changes nothing, and what it gives is a straight and fresh block. -/
theorem compile_run {start : UInt32} (entry : UInt64) (maxInstructions : Nat) (m : Machine)
    (halign : start.toNat % 4 = 0) (hquiet : quiet start = true) :
    ∃ r, compile Recompiler.readCode ⟨start, entry, maxInstructions⟩ m = .ok r m ∧
      ∀ b, r = .ok b → b.start = start ∧ b.code ≠ [] ∧ Straight b.start b.code ∧ b.Fresh m.bus := by
  obtain ⟨r, hpiece, hholds⟩ := pieceAt_run halign hquiet (max maxInstructions 1) m
  simp only [compile]
  rw [bind_of_ok hpiece]
  -- The first piece decides: it is refused, goes on, or is the last one, with or without a delay
  -- slot
  match r, hholds with
  | .error e, _ => exact ⟨_, rfl, fun b h => nomatch h⟩
  | .ok (.plain d), hholds =>
    obtain ⟨body, hbody, hfirst, hrest, hstraight⟩ :=
      bodyAfter_run (entry + 4) (max maxInstructions 1 - 1) m
        (fun h => (quiet_add_four halign hquiet h).1)
        fun h => (quiet_add_four halign hquiet h).2
    refine ⟨_, bind_of_ok hbody, fun b h => ?_⟩
    cases h
    exact ⟨rfl, List.cons_ne_nil _ _, straight_cons hholds.2 hfirst hstraight, hholds.1, hrest⟩
  | .ok (.last d), hholds =>
    refine ⟨_, rfl, fun b h => ?_⟩
    cases h
    exact ⟨rfl, List.cons_ne_nil _ _, trivial, hholds, trivial⟩
  | .ok (.branch d slot), hholds =>
    refine ⟨_, rfl, fun b h => ?_⟩
    cases h
    exact ⟨rfl, List.cons_ne_nil _ _, hholds.2, hholds.1⟩

/-- A block in code memory ends with its page at the latest. -/
theorem Placed.stop_eq {b : Block} (h : b.Placed) :
    b.stop.toNat = b.start.toNat + 4 * b.code.length ∧ b.stop.toNat ≤ 0x1FC00000 := by
  -- Code memory ends far below the address space, so the end does not wrap around
  have hlength := h.straight.length_le h.aligned h.nonempty
  have hlt := lt_of_inCodeMemory h.inCode
  simp only [stop, size, UInt32.toNat_add, UInt32.toNat_ofNat']
  omega

/-- A range that holds a byte of the block shares a byte with it. -/
theorem Placed.overlaps_of_contains {b : Block} (h : b.Placed) {r : ByteRange} {a : Nat}
    (hr : r.contains a = true) (hstart : b.start.toNat ≤ a)
    (hstop : a < b.start.toNat + 4 * b.code.length) : b.overlaps r = true := by
  obtain ⟨hend, _⟩ := h.stop_eq
  rw [ByteRange.contains_iff] at hr
  simp only [overlaps, Bool.and_eq_true, decide_eq_true_eq]
  simp only [ByteRange.stop]
  omega

end Block

/-! ## Compiling as work

Compiling looks at words and makes something of them.  What holds of looking at a word, and of
any sequence of which it holds of the parts, holds of compiling. -/

section Closed

variable {M : Type → Type} [Monad M] {P : ∀ {α : Type}, M α → Prop}
  {source : UInt32 → M (Option UInt32)}
  (hpure : ∀ {α : Type} (a : α), P (pure a : M α))
  (hbind : ∀ {α β : Type} {x : M α} {f : α → M β}, P x → (∀ a, P (f a)) → P (x >>= f))
  (hsource : ∀ a, P (source a))
include hpure hbind hsource

namespace Block

/-- The work on a delay slot is made of reads, -/
private theorem slotAt_closed (a : UInt32) : P (slotAt source a) := by
  refine hbind (hsource a) fun word => ?_
  cases word with
  | none => exact hpure _
  | some word =>
    dsimp only
    split
    · exact hpure _
    · exact hpure _

/-- that on a piece, -/
private theorem pieceAt_closed (a : UInt32) (room : Nat) : P (pieceAt source a room) := by
  refine hbind (hsource a) fun word => ?_
  cases word with
  | none => exact hpure _
  | some word =>
    dsimp only
    -- Reading the word, and that of the slot for a branch, is all that is asked of the source
    split
    · split
      · exact hpure _
      · exact hbind (slotAt_closed hpure hbind hsource _) fun _ => hpure _
    · split
      · exact hpure _
      · exact hpure _

/-- that on what follows the first piece, -/
private theorem bodyAfter_closed (a : UInt32) (v : UInt64) (room : Nat) :
    P (bodyAfter source a v room) := by
  induction room generalizing a v with
  | zero => exact hpure _
  | succ room ih =>
    rw [bodyAfter]
    split
    · exact hpure _
    · refine hbind (pieceAt_closed hpure hbind hsource a _) fun piece => ?_
      match piece with
      | .error _ => exact hpure _
      | .ok (.plain d) => exact hbind (ih _ _) fun _ => hpure _
      | .ok (.last d) => exact hpure _
      | .ok (.branch d slot) => exact hpure _

/-- and all of the compiler's. -/
theorem compile_closed (request : CompileRequest) : P (compile source request) := by
  simp only [compile]
  refine hbind (pieceAt_closed hpure hbind hsource _ _) fun piece => ?_
  match piece with
  | .error _ => exact hpure _
  | .ok (.plain d) => exact hbind (bodyAfter_closed hpure hbind hsource _ _ _) fun _ => hpure _
  | .ok (.last d) => exact hpure _
  | .ok (.branch d slot) => exact hpure _

end Block

end Closed

/-! ## Compiling anywhere

Outside code memory a fetch may have side effects on its device, but compiling still
never fails as a whole, and leaves the CPU, main memory and the log alone. -/

/-- The work always succeeds, and changes no more than devices other than memory. -/
def Machine.Peeks {α : Type} (x : MachineM α) : Prop :=
  ∀ m, ∃ a m', x m = .ok a m' ∧ m'.cpu = m.cpu ∧ Bus.loadFrame.change m.bus m'.bus

namespace Machine.Peeks

variable {α β : Type}

/-- An answer changes nothing. -/
theorem pure (a : α) : Machine.Peeks (Pure.pure a : MachineM α) :=
  fun m => ⟨a, m, rfl, rfl, Bus.loadFrame.change_refl m.bus⟩

/-- One after the other changes no more than both. -/
theorem bind {x : MachineM α} {f : α → MachineM β} (hx : Machine.Peeks x)
    (hf : ∀ a, Machine.Peeks (f a)) : Machine.Peeks (x >>= f) := by
  intro m
  obtain ⟨a, m₁, h₁, hcpu₁, hbus₁⟩ := hx m
  obtain ⟨b, m₂, h₂, hcpu₂, hbus₂⟩ := hf a m₁
  exact ⟨b, m₂, (bind_of_ok h₁).trans h₂, hcpu₂.trans hcpu₁,
    Bus.loadFrame.change_trans hbus₁ hbus₂⟩

/-- Reading code may change a device, by a load from it, -/
theorem readCode (a : UInt32) : Machine.Peeks (Recompiler.readCode a) := by
  intro m
  have hbus := (Bus.readWord_loadFrame a).1 m.bus
  exact ⟨_, _, readCode_eq a m, rfl, hbus⟩

/-- and compiling is made of such reads. -/
theorem compile (request : CompileRequest) :
    Machine.Peeks (Block.compile Recompiler.readCode request) :=
  Block.compile_closed (P := @Machine.Peeks) pure bind readCode request

end Machine.Peeks

/-- Where nothing is mapped, there is nothing to compile. -/
theorem Block.compile_unmapped {start : UInt32} {e : BusError}
    (h : Region.resolve start = .error e) (entry : UInt64) (maxInstructions : Nat) (m : Machine) :
    Block.compile Recompiler.readCode ⟨start, entry, maxInstructions⟩ m =
      .ok (.error (.unreadable start)) m := by
  have hread := Bus.readWord_unmapped h m.bus
  have hcode : Recompiler.readCode start m = .ok none m := by
    rw [readCode_eq, Bus.wordAt, hread]
    rfl
  have hpiece : Block.pieceAt Recompiler.readCode start (max maxInstructions 1) m =
      .ok (.error (.unreadable start)) m := bind_of_ok hcode
  simp only [Block.compile]
  rw [bind_of_ok hpiece]
  rfl

/-- Wherever a block is compiled, it starts where it was asked for, at an address that
is mapped, and is not empty. -/
theorem Block.compile_start {start : UInt32} {entry : UInt64} {maxInstructions : Nat}
    {m m' : Machine} {b : Block}
    (h : Block.compile Recompiler.readCode ⟨start, entry, maxInstructions⟩ m = .ok (.ok b) m') :
    b.start = start ∧ b.code ≠ [] ∧ ∃ owner, Region.resolve start = .ok owner := by
  have hmapped : ∃ owner, Region.resolve start = .ok owner := by
    cases hres : Region.resolve start with
    | ok owner => exact ⟨owner, rfl⟩
    | error e =>
      rw [Block.compile_unmapped hres] at h
      exact nomatch h
  -- However the compilation ends, a block has at least its first instruction
  simp only [Block.compile] at h
  obtain ⟨piece, m₁, -, h⟩ := bind_eq_ok h
  match piece with
  | .error _ => exact nomatch h
  | .ok (.plain d) =>
    obtain ⟨body, m₂, -, h⟩ := bind_eq_ok h
    cases h
    exact ⟨rfl, List.cons_ne_nil _ _, hmapped⟩
  | .ok (.last d) =>
    cases h
    exact ⟨rfl, List.cons_ne_nil _ _, hmapped⟩
  | .ok (.branch d slot) =>
    cases h
    exact ⟨rfl, List.cons_ne_nil _ _, hmapped⟩

/-- Words of code stay what they are until the log covers a byte of them. -/
theorem HoldsCode.of_tracked {s t : Bus} (htracked : Bus.Tracked s t)
    (hwatch : s.writes.watching = true) {a : UInt32} {code : List DecodedWord}
    (hstraight : Straight a code) (halign : a.toNat % 4 = 0) (hcode : inCodeMemory a = true)
    (hclear : ∀ x, a.toNat ≤ x → x < a.toNat + 4 * code.length → ¬t.writes.Covers x)
    (h : HoldsCode s a code) : HoldsCode t a code := by
  match code with
  | [] => trivial
  | d :: rest =>
    obtain ⟨hfirst, hrest⟩ := h
    simp only [List.length_cons] at hclear
    -- The word is unchanged, and those behind it follow in the same page
    have hword := Bus.wordAt_eq_of_tracked htracked hwatch halign hcode fun i hi =>
      hclear (a.toNat + i) (by omega) (by omega)
    refine ⟨hword.trans hfirst, ?_⟩
    match rest with
    | [] => trivial
    | d' :: rest =>
      obtain ⟨_, hpage, hstraight'⟩ := hstraight
      obtain ⟨hadd, _⟩ := toNat_add_four_of_not_startsPage halign hpage
      obtain ⟨halign', hcode'⟩ := inCodeMemory_add_four halign hcode hpage
      exact HoldsCode.of_tracked htracked hwatch hstraight' halign' hcode'
        (fun x hx hx' => hclear x (by omega) (by omega)) hrest

end Console64
