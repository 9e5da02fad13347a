import Console64.Proofs.BoundedWork

/-!
# Cycles and retired instructions

A console counts its cycles from what the engine answers, and lets the video interface catch up
by as much.  Where the engine fails there is no answer, and neither happens.

What the video interface is advanced by is counted where `Bus.advanceVideo` is called, and it shows
in the cycles of the half-line that the interface keeps.

## Key results

- `Metered.run_tick`: meters do not change a tick
- `Console.lineCycles_afterTicks`: the video interface has been advanced by what the meter counts
- `Console.cycles_account`: the cycles are those of the video interface; they lag behind the
  instructions by as many as were retired in ticks that failed
- `Console.cycles_lag`: a console whose first tick loses one
-/

namespace Console64

namespace Metered

/-! ## The console -/

/-- Work on the session of a console. -/
def onSession {α : Type} (x : Metered BusError Session α) : Metered ConsoleError Console α where
  run c :=
    match x.run c.session with
    | .ok a session => .ok a { c with session }
    | .error e session => .error (.bus e) { c with session }
  count c := x.count c.session

/-- If the session goes on, the console has it as it is then, -/
theorem onSession_ok {α : Type} {x : Metered BusError Session α} {c : Console} {a : α}
    {session : Session} (h : x.run c.session = .ok a session) :
    (onSession x).run c = .ok a { c with session } := by
  simp only [onSession, h]

/-- and if it fails, also. -/
theorem onSession_error {α : Type} {x : Metered BusError Session α} {c : Console} {e : BusError}
    {session : Session} (h : x.run c.session = .error e session) :
    (onSession x).run c = .error (.bus e) { c with session } := by
  simp only [onSession, h]

/-- `Console.tick` with meters in its engine and in the devices that catch up. -/
def tick (engine : Nat → Metered BusError Session Nat)
    (devices : Nat → Metered ConsoleError Console Unit) : Metered ConsoleError Console Nat := do
  if ← silent (return (← get).settings.boot = .pifRom && !(← get).pifRomLoaded) then
    silent (throw .missingPifRom)
  else
    let budget ← silent (return (← get).session.machine.bus.vi.cyclesToNextLine)
    let elapsed ← onSession (engine budget)
    devices elapsed
    silent (modify fun c => { c with cycles := c.cycles + elapsed })
    return elapsed

end Metered

/-- A session fails if its recompiler does. -/
theorem Session.executeWithin_of_error {budget : Nat} {r r' : Recompiler} {m m' : Machine}
    {e : BusError} (h : Recompiler.executeWithin budget (r, m) = .error e (r', m')) :
    Session.executeWithin budget ⟨.recompiler r, m⟩ = .error e ⟨.recompiler r', m'⟩ := by
  simp only [Session.executeWithin, h]

namespace Console

/-- Let the other devices of a console catch up with `elapsed` instructions. -/
def catchingUp (elapsed : Nat) : ConsoleM Unit :=
  modify fun c => { c with session.machine := catchUp elapsed c.session.machine }

/-- Let the video interface of a console advance. -/
def advancingVideo (cycles : Nat) : ConsoleM Unit :=
  modify fun c =>
    { c with session.machine.bus := c.session.machine.bus.advanceVideo cycles }

/-- Let the processor of a console see whether an interrupt is asserted. -/
def drivingLine : ConsoleM Unit :=
  modify fun c =>
    { c with
      session.machine.cpu.cop0 :=
        c.session.machine.cpu.cop0.driveLine 2 c.session.machine.bus.mi.asserted }

end Console

namespace Metered

/-- The video interface with a meter for the cycles that it is advanced by. -/
def advanceVideo (cycles : Nat) : Metered ConsoleError Console Unit :=
  counting cycles (Console.advancingVideo cycles)

/-- `Console.catchUp` with that meter. -/
def catchUp (elapsed : Nat) : Metered ConsoleError Console Unit := do
  advanceVideo elapsed
  silent Console.drivingLine

/-- The devices with their meter catch up as they do without, -/
theorem run_catchUp (elapsed : Nat) : (catchUp elapsed).run = Console.catchingUp elapsed := rfl

/-- and the meter counts what they have been told. -/
theorem count_catchUp (elapsed : Nat) (c : Console) : (catchUp elapsed).count c = elapsed :=
  count_seq_of_silent (fun _ _ => rfl) c

/-- The console with its meters does what it does without. -/
theorem run_tick {engine : Nat → Metered BusError Session Nat}
    {devices : Nat → Metered ConsoleError Console Unit}
    (hengine : ∀ budget, (engine budget).run = Session.executeWithin budget)
    (hdevices : ∀ elapsed, (devices elapsed).run = Console.catchingUp elapsed) :
    (tick engine devices).run = Console.tick := by
  funext ⟨session, settings, cycles, pifRomLoaded⟩
  simp only [tick, run_bind, run_ite, hdevices, Console.tick]
  show (if _ then _ else _ : ConsoleM Nat) _ = _
  -- Without a boot ROM both refuse; with one, both turn on what the engine answers
  split
  · rfl
  · show (do
      let elapsed ← (onSession (engine session.machine.bus.vi.cyclesToNextLine)).run
      Console.catchingUp elapsed
      modify fun c => { c with cycles := c.cycles + elapsed }
      return elapsed : ConsoleM Nat) _ = _
    cases h : Session.executeWithin session.machine.bus.vi.cyclesToNextLine session with
    | ok elapsed session' =>
      rw [← hengine] at h
      exact bind_of_ok (onSession_ok (c := ⟨session, settings, cycles, pifRomLoaded⟩) h)
    | error e session' =>
      rw [← hengine] at h
      exact bind_of_error (onSession_error (c := ⟨session, settings, cycles, pifRomLoaded⟩) h)

/-- What a tick counts: all of its engine, and of the devices only if that succeeds. -/
theorem count_tick (engine : Nat → Metered BusError Session Nat)
    (devices : Nat → Metered ConsoleError Console Unit) (c : Console) :
    (tick engine devices).count c =
      if c.settings.boot = .pifRom && !c.pifRomLoaded then 0
      else
        (engine c.session.machine.bus.vi.cyclesToNextLine).count c.session +
          match (engine c.session.machine.bus.vi.cyclesToNextLine).run c.session with
          | .ok elapsed session => (devices elapsed).count { c with session }
          | .error _ _ => 0 := by
  obtain ⟨session, settings, cycles, pifRomLoaded⟩ := c
  -- Neither reading the console nor writing it back counts anything
  show 0 + (if _ then _ else _ : Metered ConsoleError Console Nat).count _ = _
  rw [Nat.zero_add]
  split
  · rfl
  · show 0 + Metered.count (onSession (engine session.machine.bus.vi.cyclesToNextLine) >>= _) _ = _
    rw [Nat.zero_add]
    cases h : (engine session.machine.bus.vi.cyclesToNextLine).run session with
    | ok elapsed session' =>
      rw [count_seq_of_ok (onSession_ok (c := ⟨session, settings, cycles, pifRomLoaded⟩) h),
        count_seq_of_silent fun _ _ => count_seq_of_silent (fun _ _ => rfl) _]
      rfl
    | error e session' =>
      exact count_seq_of_error
        (onSession_error (c := ⟨session, settings, cycles, pifRomLoaded⟩) h)

end Metered

namespace Console

/-- Ticks with a meter for the instructions that are retired. -/
def retiring : Metered ConsoleError Console Nat :=
  Metered.tick Metered.executeWithin fun elapsed => .silent (catchingUp elapsed)

/-- Ticks with a meter for the cycles that the video interface is advanced by. -/
def advancing : Metered ConsoleError Console Nat :=
  Metered.tick (fun budget => .silent (Session.executeWithin budget)) Metered.catchUp

/-- The meters do not change the ticks. -/
theorem run_retiring : retiring.run = tick :=
  Metered.run_tick Metered.run_executeWithin fun _ => rfl

/-- Neither of them does. -/
theorem run_advancing : advancing.run = tick :=
  Metered.run_tick (fun _ => rfl) Metered.run_catchUp

/-! ## Ticks -/

/-- A tick that succeeds answers its instructions, by which the cycles and the video interface
move on. -/
theorem tick_ok {c c' : Console} {n : Nat} (h : tick c = .ok n c') :
    c'.cycles = c.cycles + n ∧ advancing.count c = n ∧ retiring.count c = n := by
  rw [advancing, retiring, Metered.count_tick, Metered.count_tick, Metered.run_executeWithin]
  obtain ⟨session, settings, cycles, pifRomLoaded⟩ := c
  simp only [tick] at h
  split at h
  case isTrue => cases h
  case isFalse hready =>
    rw [if_neg hready, if_neg hready]
    -- A tick has come to its end only if its engine has
    cases hrun : Session.executeWithin session.machine.bus.vi.cyclesToNextLine session with
    | error e session' =>
      rw [hrun] at h
      cases h
    | ok elapsed session' =>
      rw [hrun] at h
      cases h
      have hanswer : n = (Metered.executeWithin _).count session :=
        Metered.answers_executeWithin _ session n session' (by rw [Metered.run_executeWithin, hrun])
      refine ⟨rfl, ?_, hanswer.symm⟩
      show 0 + (match Session.executeWithin _ session with
        | .ok elapsed session => _
        | .error _ _ => 0) = n
      rw [hrun]
      exact (Nat.zero_add _).trans (Metered.count_catchUp n _)

/-- A tick that fails leaves the cycles and the video interface alone; the interpreter has not
retired anything then. -/
theorem tick_error {c c' : Console} {e : ConsoleError} (h : tick c = .error e c') :
    c'.cycles = c.cycles ∧ advancing.count c = 0 ∧
      (c.session.engine = .interpreter → retiring.count c = 0) := by
  rw [advancing, retiring, Metered.count_tick, Metered.count_tick, Metered.run_executeWithin]
  obtain ⟨⟨engine, machine⟩, settings, cycles, pifRomLoaded⟩ := c
  simp only [tick] at h
  split at h
  case isTrue hrefused =>
    cases h
    rw [if_pos hrefused, if_pos hrefused]
    exact ⟨rfl, rfl, fun _ => rfl⟩
  case isFalse hready =>
    rw [if_neg hready, if_neg hready]
    cases hrun : Session.executeWithin machine.bus.vi.cyclesToNextLine ⟨engine, machine⟩ with
    | ok elapsed session' =>
      rw [hrun] at h
      cases h
    | error e session' =>
      rw [hrun] at h
      cases h
      -- The video interface is not told, and an interpreter that fails has retired nothing
      refine ⟨rfl, ?_, ?_⟩
      · show 0 + (match Session.executeWithin _ ⟨engine, machine⟩ with
          | .ok elapsed session => _
          | .error _ _ => 0) = 0
        rw [hrun]
        rfl
      · rintro rfl
        exact (Metered.executeWithin_interpreter.1 e _ hrun).1

/-- An interpreter stays one. -/
theorem interpreter_tick {c : Console} (h : c.session.engine = .interpreter) :
    (stateOf (tick c)).session.engine = .interpreter := by
  obtain ⟨⟨engine, machine⟩, settings, cycles, pifRomLoaded⟩ := c
  cases h
  simp only [tick]
  split
  · rfl
  · cases hrun : Session.executeWithin machine.bus.vi.cyclesToNextLine ⟨.interpreter, machine⟩ with
    | ok n session => exact Metered.executeWithin_interpreter.2 n session hrun
    | error e session => exact (Metered.executeWithin_interpreter.1 e session hrun).2

/-- The console after some ticks, whether they succeed or fail. -/
def afterTicks (c : Console) : Nat → Console
  | 0 => c
  | n + 1 => stateOf (tick (c.afterTicks n))

/-- What a meter counts in some ticks. -/
def counted (x : Metered ConsoleError Console Nat) (c : Console) : Nat → Nat
  | 0 => 0
  | n + 1 => counted x c n + x.count (c.afterTicks n)

/-- Instructions that are retired in some ticks. -/
def retired (c : Console) (n : Nat) : Nat := counted retiring c n

/-- Cycles that the video interface is advanced by. -/
def advanced (c : Console) (n : Nat) : Nat := counted advancing c n

/-- Instructions that are retired in those of the ticks that fail. -/
def lost (c : Console) : Nat → Nat
  | 0 => 0
  | n + 1 =>
    c.lost n + match tick (c.afterTicks n) with
      | .ok _ _ => 0
      | .error _ _ => retiring.count (c.afterTicks n)

/-! ## The cycles of the half-line -/

/-- Blocks are no longer than 32 bits can tell. -/
def SmallBlocks (settings : Settings) : Prop := settings.recompiler.maxBlockInstructions < 2 ^ 32

/-- The cycles since the last half-line are what the cycles passed leave of it. -/
theorem advanceVideo_lineCycles {bus : Bus} {cycles : Nat}
    (hfits : bus.vi.lineCycles.toNat + cycles < 2 ^ 64) :
    (bus.advanceVideo cycles).vi.lineCycles.toNat = (bus.vi.lineCycles.toNat + cycles) % 2976 := by
  -- An interrupt of the video interface leaves its time alone
  rw [Bus.advanceVideo]
  dsimp only
  split <;> exact VideoInterface.toNat_lineCycles_advance hfits

/-- A tick moves the cycles of the half-line on by what the meter counts, whether it succeeds or
fails: engines do not touch them. -/
theorem lineCycles_tick {c : Console} (h : c.InLine) (hsmall : SmallBlocks c.settings) :
    (stateOf (tick c)).session.machine.bus.vi.lineCycles.toNat =
      (c.session.machine.bus.vi.lineCycles.toNat + advancing.count c) % 2976 := by
  have hline : c.session.machine.bus.vi.lineCycles.toNat < 2976 := h.video
  have hwork := (Session.works_executeWithin c.session.machine.bus.vi.cyclesToNextLine
    c.session).lineCycles_eq
  cases htick : tick c with
  | ok n c' =>
    obtain ⟨session, hrun, rfl⟩ := engine_of_tick htick
    obtain ⟨hpos, hle⟩ := VideoInterface.cyclesToNextLine_bounds h.video
    have hover := Session.executeWithin_lt h.engine hpos hrun
    have hbudget : c.session.machine.bus.vi.cyclesToNextLine ≤ 2976 := hle
    rw [hrun, stateOf_ok] at hwork
    rw [(tick_ok htick).2.1, ← hwork]
    -- A tick takes less than a line and a block
    unfold SmallBlocks at hsmall
    unfold RecompilerSettings.blockRoom at hover
    exact advanceVideo_lineCycles (by rw [hwork]; omega)
  | error e c' =>
    have hsame : c'.session.machine.bus.vi.lineCycles = c.session.machine.bus.vi.lineCycles := by
      obtain rfl | ⟨e', session, hrun, rfl⟩ := engine_of_tick_error htick
      · rfl
      · rw [hrun, stateOf_error] at hwork
        exact hwork
    rw [(tick_error htick).2.1, Nat.add_zero, Nat.mod_eq_of_lt hline, stateOf_error, hsame]

/-- The settings stay as they are. -/
theorem settings_tick (c : Console) : (stateOf (tick c)).settings = c.settings := by
  cases htick : tick c with
  | ok n c' =>
    obtain ⟨session, -, rfl⟩ := engine_of_tick htick
    rfl
  | error e c' =>
    obtain rfl | ⟨e', session, -, rfl⟩ := engine_of_tick_error htick <;> rfl

/-- So do some ticks: the video interface has been advanced by what the meter counts. -/
theorem lineCycles_afterTicks {c : Console} (h : c.InLine) (hsmall : SmallBlocks c.settings)
    (n : Nat) :
    (c.afterTicks n).session.machine.bus.vi.lineCycles.toNat =
      (c.session.machine.bus.vi.lineCycles.toNat + c.advanced n) % 2976 := by
  -- Each tick begins somewhere on a line, with the settings of the first one
  have hkept : ∀ n, (c.afterTicks n).InLine ∧ (c.afterTicks n).settings = c.settings := by
    intro n
    induction n with
    | zero => exact ⟨h, rfl⟩
    | succ n ih => exact ⟨ih.1.tick, (settings_tick _).trans ih.2⟩
  induction n with
  | zero => exact (Nat.mod_eq_of_lt h.video).symm
  | succ n ih =>
    obtain ⟨hinline, hsettings⟩ := hkept n
    have hadvanced : c.advanced (n + 1) = c.advanced n + advancing.count (c.afterTicks n) := rfl
    rw [afterTicks, lineCycles_tick hinline (by rwa [hsettings]), ih, hadvanced, Nat.mod_add_mod,
      Nat.add_assoc]

/-! ## The account -/

/-- One tick more moves the cycles and the video interface on alike, and behind the instructions
they fall by what is lost. -/
private theorem clocks_succ (c : Console) (n : Nat) :
    (c.afterTicks (n + 1)).cycles = (c.afterTicks n).cycles + advancing.count (c.afterTicks n) ∧
      retiring.count (c.afterTicks n) + c.lost n =
        advancing.count (c.afterTicks n) + c.lost (n + 1) := by
  simp only [afterTicks, lost]
  cases h : tick (c.afterTicks n) with
  | ok answer c' =>
    obtain ⟨hcycles, hadvanced, hretired⟩ := tick_ok h
    rw [hadvanced, hretired]
    exact ⟨hcycles, rfl⟩
  | error e c' =>
    obtain ⟨hcycles, hadvanced, -⟩ := tick_error h
    rw [hadvanced, Nat.add_zero, Nat.zero_add]
    exact ⟨hcycles, Nat.add_comm _ _⟩

/-- So do some ticks. -/
private theorem clocks_afterTicks (c : Console) (n : Nat) :
    (c.afterTicks n).cycles = c.cycles + c.advanced n ∧
      c.retired n = c.advanced n + c.lost n := by
  -- Induction on the ticks: both meters from the start
  induction n with
  | zero => exact ⟨rfl, rfl⟩
  | succ n ih =>
    obtain ⟨hcycles, hsum⟩ := ih
    obtain ⟨hstep, hlost⟩ := clocks_succ c n
    have hadvanced : c.advanced (n + 1) = c.advanced n + advancing.count (c.afterTicks n) := rfl
    have hretired : c.retired (n + 1) = c.retired n + retiring.count (c.afterTicks n) := rfl
    omega

/-- Nothing is lost exactly if no tick that fails has retired anything. -/
theorem lost_eq_zero {c : Console} {n : Nat} :
    c.lost n = 0 ↔ ∀ k < n, ∀ e c', tick (c.afterTicks k) = .error e c' →
      retiring.count (c.afterTicks k) = 0 := by
  induction n with
  | zero => exact ⟨fun _ k hk => absurd hk (Nat.not_lt_zero k), fun _ => rfl⟩
  | succ n ih =>
    rw [lost, Nat.add_eq_zero_iff, ih]
    constructor
    · rintro ⟨hearlier, hlast⟩ k hk e c' hfails
      -- The last tick, or one of those before
      rcases Nat.lt_succ_iff_lt_or_eq.mp hk with hk | rfl
      · exact hearlier k hk e c' hfails
      · rwa [hfails] at hlast
    · intro hall
      refine ⟨fun k hk => hall k (Nat.lt_succ_of_lt hk), ?_⟩
      cases h : tick (c.afterTicks n) with
      | ok answer c' => rfl
      | error e c' => exact hall n (Nat.lt_succ_self n) e c' h

/-- The interpreter loses nothing. -/
theorem lost_interpreter {c : Console} (h : c.session.engine = .interpreter) (n : Nat) :
    c.lost n = 0 := by
  have hengine : ∀ k, (c.afterTicks k).session.engine = .interpreter := by
    intro k
    induction k with
    | zero => exact h
    | succ k ih => exact interpreter_tick ih
  exact lost_eq_zero.mpr fun k _ e c' hfails => (tick_error hfails).2.2 (hengine k)

/-- For every console and any number of ticks, of which each may succeed or fail:
* the cycles and the video interface have moved on by as much;
* they lag behind the instructions that were retired by those of failing ticks;
* so the cycles count the instructions exactly if no tick has failed with some retired, and with
  the interpreter they always do;
* if the console is one that there can be, the cycles can be told from the half-line that the
  video interface is in. -/
theorem cycles_account (c : Console) (n : Nat) :
    (c.afterTicks n).cycles = c.cycles + c.advanced n ∧
      c.cycles + c.retired n = (c.afterTicks n).cycles + c.lost n ∧
      ((c.afterTicks n).cycles = c.cycles + c.retired n ↔
        ∀ k < n, ∀ e c', tick (c.afterTicks k) = .error e c' →
          retiring.count (c.afterTicks k) = 0) ∧
      (c.session.engine = .interpreter → (c.afterTicks n).cycles = c.cycles + c.retired n) ∧
      (c.Reachable → SmallBlocks c.settings →
        (c.afterTicks n).session.machine.bus.vi.lineCycles.toNat =
          (c.session.machine.bus.vi.lineCycles.toNat + ((c.afterTicks n).cycles - c.cycles)) %
            2976) := by
  obtain ⟨hcycles, hsum⟩ := clocks_afterTicks c n
  -- Cycles and retired instructions differ by what is lost
  refine ⟨hcycles, by omega, ?_, fun h => ?_, fun h hsmall => ?_⟩
  · rw [← lost_eq_zero]
    omega
  · have hnone := lost_interpreter h n
    omega
  · rw [lineCycles_afterTicks h.inLine hsmall, hcycles, Nat.add_sub_cancel_left]

/-- A tick across the end of a line: three cycles from one before it on leave two on the next. -/
theorem cycles_account_nearingLineEnd :
    nearingLineEnd.Reachable ∧ SmallBlocks nearingLineEnd.settings ∧
      (nearingLineEnd.afterTicks 1).cycles = nearingLineEnd.cycles + 3 ∧
      nearingLineEnd.advanced 1 = 3 ∧ nearingLineEnd.retired 1 = 3 ∧
      (nearingLineEnd.afterTicks 1).session.machine.bus.vi.lineCycles.toNat = 2 := by
  have hsmall : SmallBlocks nearingLineEnd.settings := by unfold SmallBlocks; decide
  obtain ⟨c', htick⟩ := tick_nearingLineEnd
  have hcycles : (nearingLineEnd.afterTicks 1).cycles = nearingLineEnd.cycles + 3 := by
    show (stateOf (tick nearingLineEnd)).cycles = _
    rw [htick]
    exact (tick_ok htick).1
  have hline : nearingLineEnd.session.machine.bus.vi.lineCycles.toNat = 2975 := by
    have hleft := cyclesToNextLine_nearingLineEnd
    have hlength : VideoInterface.cyclesPerLine = 2976 := rfl
    rw [VideoInterface.cyclesToNextLine, hlength] at hleft
    omega
  obtain ⟨hadvanced, hretired, hexact, -, hvideo⟩ := cycles_account nearingLineEnd 1
  -- Nothing is lost, since no tick has failed
  have hall := hexact.mpr fun k hk e c'' hfails => by
    obtain rfl : k = 0 := by omega
    cases htick.symm.trans hfails
  have hleft := hvideo reachable_nearingLineEnd hsmall
  rw [hcycles, hline, Nat.add_sub_cancel_left] at hleft
  exact ⟨reachable_nearingLineEnd, hsmall, hcycles, by omega, by omega, hleft⟩

/-- The first tick can be taken apart as well as the last. -/
theorem afterTicks_succ (c : Console) (n : Nat) :
    c.afterTicks (n + 1) = (stateOf (tick c)).afterTicks n := by
  induction n with
  | zero => rfl
  | succ n ih => exact congrArg (fun c => stateOf (tick c)) ih

/-- Several ticks go on to the end only if each of them succeeds. -/
theorem tickTimes_ok {c c' : Console} {n : Nat} (h : tickTimes n c = .ok () c') :
    c' = c.afterTicks n ∧ c.lost n = 0 := by
  -- The induction peels ticks off at the front, where the run takes them
  have heach : c' = c.afterTicks n ∧
      ∀ k < n, ∃ answer c'', tick (c.afterTicks k) = .ok answer c'' := by
    induction n generalizing c with
    | zero =>
      cases h
      exact ⟨rfl, fun k hk => absurd hk (Nat.not_lt_zero k)⟩
    | succ n ih =>
      obtain ⟨_, c₁, hfirst, hrest⟩ := bind_eq_ok h
      obtain ⟨answer, _, htick, hdone⟩ := bind_eq_ok hfirst
      cases hdone
      obtain ⟨hafter, hall⟩ := ih hrest
      have hstate : stateOf (tick c) = c₁ := by rw [htick, stateOf_ok]
      refine ⟨by rw [afterTicks_succ, hstate, hafter], fun k hk => ?_⟩
      cases k with
      | zero => exact ⟨answer, c₁, htick⟩
      | succ k =>
        rw [afterTicks_succ, hstate]
        exact hall k (Nat.lt_of_succ_lt_succ hk)
  refine ⟨heach.1, lost_eq_zero.mpr fun k hk e c'' hfails => ?_⟩
  obtain ⟨answer, c₁, hok⟩ := heach.2 k hk
  rw [hok] at hfails
  exact nomatch hfails

/-- So a run for several ticks that gets to its end answers what it has retired. -/
theorem runFor_ok {c c' : Console} {n k : Nat} (h : runFor n c = .ok k c') :
    c' = c.afterTicks n ∧ k = c.retired n ∧ k = c.advanced n := by
  obtain ⟨_, c₁, hget, h⟩ := bind_eq_ok h
  cases hget
  obtain ⟨_, c₂, hrun, h⟩ := bind_eq_ok h
  obtain ⟨_, c₃, hget, h⟩ := bind_eq_ok h
  cases hget
  cases h
  obtain ⟨hafter, hlost⟩ := tickTimes_ok hrun
  obtain ⟨hcycles, hsum⟩ := clocks_afterTicks c n
  rw [← hafter] at hcycles
  exact ⟨hafter, by omega, by omega⟩

/-! ## A tick that loses an instruction -/

/-- A tick fails if its engine does. -/
theorem tick_of_error {c : Console} {e : BusError} {s : Session}
    (hready : ¬(c.settings.boot = .pifRom && !c.pifRomLoaded) = true)
    (h : Session.executeWithin c.session.machine.bus.vi.cyclesToNextLine c.session = .error e s) :
    tick c = .error (.bus e) { c with session := s } := by
  simp only [tick, if_neg hready, h]

/-- A console at a block whose second instruction loads from where nothing is mapped. -/
def lagging : Console where
  session :=
    { engine := .recompiler (.ofSettings .eager)
      machine :=
        .loaded 0xFFFFFFFF80000100 [(13, 0xFFFFFFFFA5000000)]
          [(.rdram, 0x100, 0x24090001), (.rdram, 0x104, 0x8DAA0000)] }
  settings := { recompiler := .eager }

/-- After a tick it has retired an instruction, but counts no cycle, and the video interface is as
far from its next line as before. -/
theorem cycles_lag :
    lagging.retired 1 = 1 ∧ (lagging.afterTicks 1).cycles = 0 ∧ lagging.advanced 1 = 0 ∧
      (lagging.afterTicks 1).session.machine.bus.vi.cyclesToNextLine = 2976 := by
  have hcheck : (lagging.session.machine.firstBlock 16).any (fun b =>
      b.start == 0x100 && (Metered.runCode b).count lagging.session.machine == 1 &&
      b.faults lagging.session.machine fun _ => true) = true := by
    decide +kernel
  simp only [Option.any_eq_true, Bool.and_eq_true, Block.faults_iff, beq_iff_eq] at hcheck
  obtain ⟨b, hb, ⟨hstart, hcount⟩, e, m', hfault, -⟩ := hcheck
  have hvisit : Recompiler.FirstVisit (.ofSettings .eager) lagging.session.machine b :=
    .of_fresh rfl hb (by rw [hstart]; rfl) (Nat.le_refl 1)
  have hready : ¬(lagging.settings.boot = .pifRom && !lagging.pifRomLoaded) = true := by decide
  -- The engine fails, and so does the tick
  have hcall := hvisit.executeWithin (Recompiler.coherent_ofSettings .eager rfl) rfl
    lagging.session.machine.bus.vi.cyclesToNextLine
  simp only [hfault] at hcall
  have hfails : Session.executeWithin lagging.session.machine.bus.vi.cyclesToNextLine
      lagging.session = .error e ⟨.recompiler _, m'⟩ := Session.executeWithin_of_error hcall
  have htick := tick_of_error (c := lagging) hready hfails
  have hretired : retiring.count lagging = 1 := by
    rw [retiring, Metered.count_tick, if_neg hready, Metered.run_executeWithin, hfails]
    exact (Metered.count_runWithin_of_fault hvisit hfault _).trans hcount
  obtain ⟨hcycles, hadvanced, -⟩ := tick_error htick
  have hvideo : (lagging.afterTicks 1).session.machine.bus.vi.lineCycles = 0 := by
    have hwork := (Session.works_executeWithin
      lagging.session.machine.bus.vi.cyclesToNextLine lagging.session).lineCycles_eq
    rw [hfails, stateOf_error] at hwork
    show (stateOf (tick lagging)).session.machine.bus.vi.lineCycles = 0
    rw [htick]
    exact hwork
  refine ⟨?_, ?_, ?_, ?_⟩
  · show 0 + retiring.count lagging = 1
    rw [hretired]
  · show (stateOf (tick lagging)).cycles = 0
    rw [htick]
    exact hcycles
  · show 0 + advancing.count lagging = 0
    rw [hadvanced]
  · rw [VideoInterface.cyclesToNextLine, hvideo]
    rfl

end Console

end Console64
