import Console64.Proofs.Frame
import Console64.Proofs.InstructionEffect

/-!
# How the CPU uses the bus

Seen from the bus, the work of the CPU is a sequence of accesses, in which what is
loaded may decide how to go on.  `BusUse` is this view.  It does not mention the bus: so
what is proved of the accesses of an instruction holds whatever the devices do.

An instruction makes at most one access, at an address that the CPU could translate, and
once it has made it, it raises no exception.

## Key results

- `Machine.execute_use`: every instruction as a use of the bus
- `Machine.execute_cases`: what an instruction that ends without a bus fault has done
-/

namespace Console64

/-- What the CPU does with the bus.  Each access comes with the CPU that a fault of the
bus would leave. -/
inductive BusUse where
  /-- No further access; this CPU is left. -/
  | done (cpu : Cpu)
  | load (cpu : Cpu) (physical : UInt32) (size : Nat) (next : UInt64 → BusUse)
  | store (cpu : Cpu) (physical : UInt32) (bytes : List UInt8) (next : BusUse)

namespace BusUse

/-- Make the accesses on a bus. -/
def run : BusUse → Bus → EStateM.Result BusError Machine Unit
  | done cpu, bus => .ok () ⟨cpu, bus⟩
  | load cpu physical size next, bus =>
    match Bus.readValue physical size bus with
    | .ok v bus => (next v).run bus
    | .error e bus => .error e ⟨cpu, bus⟩
  | store cpu physical bytes next, bus =>
    match Bus.write physical bytes bus with
    | .ok _ bus => next.run bus
    | .error e bus => .error e ⟨cpu, bus⟩

/-- Every access is one that `allowed` knows, by its kind, address and length; the CPU is
left as `before` says without an access, and as `after` says once there has been one. -/
def Follows (allowed : Access → UInt32 → Nat → Prop) (after : Cpu → Prop) :
    (before : Cpu → Prop) → BusUse → Prop
  | before, done cpu => before cpu
  | _, load _ physical size next =>
    allowed .load physical size ∧ ∀ v, Follows allowed after after (next v)
  | _, store _ physical bytes next =>
    allowed .store physical bytes.length ∧ Follows allowed after after next

/-- Every access is one that `allowed` knows. -/
def Every (allowed : Access → UInt32 → Nat → Prop) (u : BusUse) : Prop :=
  u.Follows allowed (fun _ => True) fun _ => True

/-- The same accesses, and at the end a change of the CPU. -/
def map (f : Cpu → Cpu) : BusUse → BusUse
  | done cpu => done (f cpu)
  | load cpu physical size next => load cpu physical size fun v => (next v).map f
  | store cpu physical bytes next => store cpu physical bytes (next.map f)

/-- A use that begins with a load. -/
theorem run_load (cpu : Cpu) (physical : UInt32) (size : Nat) (next : UInt64 → BusUse) (bus : Bus) :
    (load cpu physical size next).run bus =
      (Machine.onBus (Bus.readValue physical size) >>= fun v m => (next v).run m.bus)
        ⟨cpu, bus⟩ := by
  show _ = EStateM.bind (Machine.onBus (Bus.readValue physical size)) _ ⟨cpu, bus⟩
  simp only [run, EStateM.bind, Machine.onBus]
  cases Bus.readValue physical size bus <;> rfl

/-- A use that begins with a store. -/
theorem run_store (cpu : Cpu) (physical : UInt32) (bytes : List UInt8) (next : BusUse) (bus : Bus) :
    (store cpu physical bytes next).run bus =
      (Machine.onBus (Bus.write physical bytes) >>= fun _ m => next.run m.bus) ⟨cpu, bus⟩ := by
  show _ = EStateM.bind (Machine.onBus (Bus.write physical bytes)) _ ⟨cpu, bus⟩
  simp only [run, EStateM.bind, Machine.onBus]
  cases Bus.write physical bytes bus <;> rfl

/-- The change is made where the use ends without a fault. -/
theorem run_map (f : Cpu → Cpu) (u : BusUse) (bus : Bus) :
    (u.map f).run bus =
      match u.run bus with
      | .ok _ m => .ok () ⟨f m.cpu, m.bus⟩
      | .error e m => .error e m := by
  -- Induction on the use; a fault of an access ends both sides alike
  induction u generalizing bus with
  | done cpu => rfl
  | load cpu physical size next ih =>
    simp only [map, run]
    cases Bus.readValue physical size bus with
    | ok v bus' => exact ih v bus'
    | error e bus' => rfl
  | store cpu physical bytes next ih =>
    simp only [map, run]
    cases Bus.write physical bytes bus with
    | ok v bus' => exact ih bus'
    | error e bus' => rfl

/-- A change of the CPU at the end makes no further access. -/
theorem Every.map {allowed : Access → UInt32 → Nat → Prop} {u : BusUse} (h : u.Every allowed)
    (f : Cpu → Cpu) : (u.map f).Every allowed := by
  induction u with
  | done cpu => trivial
  | load cpu physical size next ih => exact ⟨h.1, fun v => ih v (h.2 v)⟩
  | store cpu physical bytes next ih => exact ⟨h.1, ih h.2⟩

/-- A use that follows the rules follows weaker ones. -/
theorem Follows.mono {allowed allowed' : Access → UInt32 → Nat → Prop}
    {after after' : Cpu → Prop} (hallowed : ∀ access p n, allowed access p n → allowed' access p n)
    (hafter : ∀ c, after c → after' c) {u : BusUse} {before before' : Cpu → Prop}
    (hbefore : ∀ c, before c → before' c) (h : u.Follows allowed after before) :
    u.Follows allowed' after' before' := by
  induction u generalizing before before' with
  | done cpu => exact hbefore cpu h
  | load cpu physical size next ih => exact ⟨hallowed _ _ _ h.1, fun v => ih v hafter (h.2 v)⟩
  | store cpu physical bytes next ih => exact ⟨hallowed _ _ _ h.1, ih hafter h.2⟩

/-- So does one whose accesses are all allowed. -/
theorem Every.mono {allowed allowed' : Access → UInt32 → Nat → Prop} {u : BusUse}
    (h : u.Every allowed) (hallowed : ∀ access p n, allowed access p n → allowed' access p n) :
    u.Every allowed' :=
  Follows.mono hallowed (fun _ h => h) (fun _ h => h) h

/-- Where a use that follows the rules ends: without an access the bus is untouched. -/
theorem Follows.run_ok {allowed : Access → UInt32 → Nat → Prop} {before after : Cpu → Prop}
    {u : BusUse} (h : u.Follows allowed after before) {bus : Bus} {m : Machine}
    (hrun : u.run bus = .ok () m) : (before m.cpu ∧ m.bus = bus) ∨ after m.cpu := by
  -- Induction on the use; behind an access both ways out are `after`
  induction u generalizing before bus with
  | done cpu =>
    cases hrun
    exact .inl ⟨h, rfl⟩
  | load cpu physical size next ih =>
    simp only [run] at hrun
    split at hrun
    case h_1 v bus' _ => exact .inr ((ih v (h.2 v) hrun).elim (·.1) id)
    case h_2 => exact nomatch hrun
  | store cpu physical bytes next ih =>
    simp only [run] at hrun
    split at hrun
    case h_1 => exact .inr ((ih h.2 hrun).elim (·.1) id)
    case h_2 => exact nomatch hrun

end BusUse

/-- The `n` bytes at a physical address belong to one doubleword that the CPU can
translate for the access. -/
def Cpu.Reaches (c : Cpu) (access : Access) (physical : UInt32) (n : Nat) : Prop :=
  ∃ a, c.resolve a access = .ok physical ∧ a.toNat % 8 + n ≤ 8

/-! ## Translation -/

namespace Cpu

/-- What stands in the way of an access comes from the instruction itself. -/
theorem synchronous_of_resolve {c : Cpu} {a : UInt64} {access : Access} {k : Condition}
    (h : c.resolve a access = .error k) : k.Synchronous := by
  simp only [resolve] at h
  -- The segment answers, refuses, or leaves it to the TLB
  split at h
  case h_1 => cases h
  case h_2 => cases h; trivial
  case h_3 =>
    split at h
    case h_1 => cases h
    case h_2 fault _ =>
      cases h
      cases fault with
      | miss =>
        simp only [tlbCondition]
        split <;> trivial
      | invalid => trivial
      | modified => trivial

/-- A translation either succeeds and changes nothing, or raises an exception. -/
theorem translate_cases (c : Cpu) (a : UInt64) (access : Access) :
    (∃ p, c.resolve a access = .ok p ∧ c.translate a access = (some p, c)) ∨
      ∃ k, k.Synchronous ∧ c.translate a access = (none, c.recordCondition k) := by
  simp only [translate]
  cases h : c.resolve a access with
  | ok p => exact .inl ⟨p, rfl, rfl⟩
  | error k => exact .inr ⟨k, synchronous_of_resolve h, rfl⟩

/-- The same for an aligned access. -/
theorem translateAligned_cases (c : Cpu) (a : UInt64) (size : Nat) (access : Access) :
    (∃ p, a % UInt64.ofNat size = 0 ∧ c.resolve a access = .ok p ∧
        c.translateAligned a size access = (some p, c)) ∨
      ∃ k, k.Synchronous ∧ c.translateAligned a size access = (none, c.recordCondition k) := by
  simp only [translateAligned]
  split
  case isTrue halign =>
    rcases c.translate_cases a access with ⟨p, hp, heq⟩ | hfault
    · exact .inl ⟨p, halign, hp, heq⟩
    · exact .inr hfault
  case isFalse => exact .inr ⟨.address _ _, trivial, rfl⟩

end Cpu

/-- The sizes of aligned accesses. -/
def AccessSize (n : Nat) : Prop := n = 1 ∨ n = 2 ∨ n = 4 ∨ n = 8

/-- An aligned access stays inside its doubleword. -/
theorem AccessSize.inside {n : Nat} (h : AccessSize n) {a : UInt64}
    (halign : a % UInt64.ofNat n = 0) : a.toNat % 8 + n ≤ 8 := by
  have hmod : a.toNat % n = 0 := by
    -- The sizes divide the doubleword, so the remainder is known for each of them
    have := congrArg UInt64.toNat halign
    rcases h with rfl | rfl | rfl | rfl <;> exact this
  rcases h with rfl | rfl | rfl | rfl <;> omega

namespace Machine

/-! ## Loads and stores -/

variable {c : Cpu} {a : UInt64} {size : Nat}

/-- Work on the CPU whose outcome is known. -/
private theorem onCpu_of_eq {α : Type} {f : Cpu → α × Cpu} {c c' : Cpu} {v : α}
    (h : f c = (v, c')) (bus : Bus) : onCpu f ⟨c, bus⟩ = .ok v ⟨c', bus⟩ := by
  simp only [onCpu, h]

/-- Work on the bus does not touch the CPU, so what follows it starts from the same one. -/
theorem onBus_congr {α β : Type} {x : BusM α} {f g : α → MachineM β}
    (h : ∀ a bus, f a ⟨c, bus⟩ = g a ⟨c, bus⟩) (bus : Bus) :
    (onBus x >>= f) ⟨c, bus⟩ = (onBus x >>= g) ⟨c, bus⟩ := by
  show EStateM.bind (onBus x) f ⟨c, bus⟩ = EStateM.bind (onBus x) g ⟨c, bus⟩
  simp only [EStateM.bind, onBus]
  cases x bus with
  | ok a bus' => exact h a bus'
  | error e bus' => rfl

/-- Work on the bus that succeeds leaves the CPU as it is. -/
theorem onBus_cpu {α : Type} {x : BusM α} {a : α} {m m' : Machine} (h : onBus x m = .ok a m') :
    m'.cpu = m.cpu := by
  simp only [onBus] at h
  split at h
  · cases h
    rfl
  · exact nomatch h

/-- So does work that fails. -/
theorem onBus_cpu_error {α : Type} {x : BusM α} {e : BusError} {m m' : Machine}
    (h : onBus x m = .error e m') : m'.cpu = m.cpu := by
  simp only [onBus] at h
  split at h
  · exact nomatch h
  · cases h
    rfl

/-- A load of an address that can be translated is a load from the bus. -/
private theorem load_of_translated {p : UInt32}
    (h : c.translateAligned a size .load = (some p, c)) (bus : Bus) :
    load a size ⟨c, bus⟩ =
      (onBus (Bus.readValue p size) >>= fun v => pure (some v)) ⟨c, bus⟩ := by
  rw [load, bind_of_ok (onCpu_of_eq h bus)]

/-- A load that raises an exception does not come to the bus. -/
private theorem load_of_fault {c' : Cpu}
    (h : c.translateAligned a size .load = (none, c')) (bus : Bus) :
    load a size ⟨c, bus⟩ = .ok none ⟨c', bus⟩ := by
  rw [load, bind_of_ok (onCpu_of_eq h bus)]
  rfl

/-- A fetch is a load of a word. -/
theorem fetch_of_translated {p : UInt32}
    (h : c.translateAligned a 4 .fetch = (some p, c)) (bus : Bus) :
    fetch a ⟨c, bus⟩ =
      (onBus (Bus.readValue p 4) >>= fun v => pure (some v.toUInt32)) ⟨c, bus⟩ := by
  have hword : onBus (Bus.readWord p) ⟨c, bus⟩ =
      (onBus (Bus.readValue p 4) >>= fun v => pure v.toUInt32) ⟨c, bus⟩ := by
    show onBus (EStateM.bind _ _) ⟨c, bus⟩ = EStateM.bind _ _ ⟨c, bus⟩
    simp only [onBus, EStateM.bind]
    cases Bus.readValue p 4 bus <;> rfl
  rw [fetch, bind_of_ok (onCpu_of_eq h bus)]
  dsimp only
  rw [bind_of_eq hword, bind_assoc]
  rfl

/-- A fetch from an address that is refused does not come to the bus. -/
theorem fetch_of_fault {c' : Cpu} (h : c.translateAligned a 4 .fetch = (none, c')) (bus : Bus) :
    fetch a ⟨c, bus⟩ = .ok none ⟨c', bus⟩ := by
  rw [fetch, bind_of_ok (onCpu_of_eq h bus)]
  rfl

/-! ## Uses of the bus -/

/-- From the CPU `c`, the work is one use of the bus, whatever the bus is. -/
def Uses (c : Cpu) (before after : Cpu → Prop) (x : MachineM Unit) : Prop :=
  ∃ u : BusUse, (∀ bus, x ⟨c, bus⟩ = u.run bus) ∧ u.Follows c.Reaches after before

variable {before after : Cpu → Prop}

/-- A change of the CPU uses no bus. -/
private theorem uses_modifyCpu {f : Cpu → Cpu} (h : before (f c)) :
    Uses c before after (modifyCpu f) := ⟨.done (f c), fun _ => rfl, h⟩

/-- A look at the CPU goes on with what it sees. -/
private theorem uses_withCpu {α : Type} {f : Cpu → α} {x : α → MachineM Unit}
    (h : Uses c before after (x (f c))) : Uses c before after (withCpu f >>= x) := h

/-- What follows a store: a change of the CPU, if the store was done. -/
private def ifDone (f : Cpu → Cpu) (done : Bool) : MachineM Unit :=
  if done then modifyCpu f else pure ()

/-- The store is done, whichever way the address was translated. -/
private theorem uses_write {x : MachineM Bool} {f : Cpu → Cpu} (p : UInt32) (bytes : List UInt8)
    (hx : ∀ bus, x ⟨c, bus⟩ = (onBus (Bus.write p bytes) >>= fun _ => pure true) ⟨c, bus⟩)
    (hp : c.Reaches .store p bytes.length) (h : after (f c)) :
    Uses c before after (x >>= ifDone f) := by
  refine ⟨.store c p bytes (.done (f c)), fun bus => ?_, hp, h⟩
  rw [bind_of_eq (hx bus), bind_assoc, BusUse.run_store]
  exact onBus_congr (fun _ _ => by rfl) bus

section
variable (hraise : ∀ k, k.Synchronous → before (c.recordCondition k))
include hraise

/-- An operation that is not allowed raises its exception without an access. -/
private theorem uses_ifWide {x : MachineM Unit} (h : Uses c before after x) :
    Uses c before after (ifWide x) := by
  refine uses_withCpu ?_
  split
  · exact h
  · exact uses_modifyCpu (hraise _ trivial)

/-- The address mapping is the same once the unit follows the status. -/
private theorem uses_ifFpuUsable {x : MachineM Unit} (h : Uses c.followStatus before after x) :
    Uses c before after (ifFpuUsable x) := by
  refine uses_withCpu ?_
  split
  · exact h
  · exact uses_modifyCpu (hraise _ trivial)

/-- A load either reaches the bus at an address that was translated, or raises an exception. -/
private theorem uses_loading (hsize : AccessSize size) {use : UInt64 → Cpu → Cpu}
    (h : ∀ v, after (use v c)) : Uses c before after (loading a size use) := by
  rcases c.translateAligned_cases a size .load with ⟨p, halign, hp, heq⟩ | ⟨k, hk, heq⟩
  -- The access is the one that the address allows, and what follows it uses no bus
  · refine ⟨.load c p size fun v => .done (use v c), fun bus => ?_,
      ⟨a, hp, hsize.inside halign⟩, h⟩
    rw [loading, bind_of_eq (load_of_translated heq bus), bind_assoc, BusUse.run_load]
    exact onBus_congr (fun _ _ => by rfl) bus
  · exact ⟨.done (c.recordCondition k), fun bus => bind_of_ok (load_of_fault heq bus), hraise k hk⟩

/-- So does a store. -/
private theorem uses_store (hsize : AccessSize size) {v : UInt64} {f : Cpu → Cpu}
    (h : after (f c)) : Uses c before after (store a size v >>= ifDone f) := by
  rcases c.translateAligned_cases a size .store with ⟨p, halign, hp, heq⟩ | ⟨k, hk, heq⟩
  · refine uses_write p (BigEndian.bytes size v) (fun bus => ?_) ⟨a, hp, ?_⟩ h
    -- It is one access, of the bytes of the value
    · rw [store, bind_of_ok (onCpu_of_eq heq bus)]
      rfl
    · rw [BigEndian.length_bytes]
      exact hsize.inside halign
  · refine ⟨.done (c.recordCondition k), fun bus => ?_, hraise k hk⟩
    have hstore : store a size v ⟨c, bus⟩ = .ok false ⟨c.recordCondition k, bus⟩ := by
      rw [store, bind_of_ok (onCpu_of_eq heq bus)]
      rfl
    exact bind_of_ok hstore

/-- So does a store of bytes that stay in their doubleword. -/
private theorem uses_storeBytes {bytes : List UInt8} (hinside : a.toNat % 8 + bytes.length ≤ 8)
    {f : Cpu → Cpu} (h : after (f c)) :
    Uses c before after (storeBytes a bytes >>= ifDone f) := by
  rcases c.translate_cases a .store with ⟨p, hp, heq⟩ | ⟨k, hk, heq⟩
  · refine uses_write p bytes (fun bus => ?_) ⟨a, hp, hinside⟩ h
    rw [storeBytes, bind_of_ok (onCpu_of_eq heq bus)]
  · refine ⟨.done (c.recordCondition k), fun bus => ?_, hraise k hk⟩
    have hstore : storeBytes a bytes ⟨c, bus⟩ = .ok false ⟨c.recordCondition k, bus⟩ := by
      rw [storeBytes, bind_of_ok (onCpu_of_eq heq bus)]
      rfl
    exact bind_of_ok hstore

end

/-- Forgetting an answer. -/
theorem discard_eq {α : Type} (x : MachineM α) : discard x = x >>= fun _ => pure () := by
  funext m
  show EStateM.map _ x m = _
  cases h : x m with
  | ok a m' =>
    rw [bind_of_ok h]
    simp only [EStateM.map, h]
    rfl
  | error e m' =>
    rw [bind_of_error h]
    simp only [EStateM.map, h]

/-- Forgetting whether a store was done. -/
private theorem discard_eq_ifDone (x : MachineM Bool) : discard x = x >>= ifDone id := by
  have hdone : (fun _ => pure () : Bool → MachineM Unit) = ifDone id := by
    funext done
    cases done <;> rfl
  rw [discard_eq, hdone]

/-! ## Instructions on memory -/

section
open Cpu (Effect Completed)

variable {i : Instruction} {pc : UInt64}

/-- The work of the instruction, as a use of the bus: without an access the instruction
may raise an exception, with one it does not. -/
private abbrev InstructionUse (i : Instruction) (pc : UInt64) (c : Cpu) (x : MachineM Unit) :
    Prop :=
  Uses c (Effect i pc c) (Completed i pc c) x

/-- To raise an exception is one of the two ways. -/
private theorem effect_raised (c : Cpu) (k : Condition) (h : k.Synchronous) :
    Effect i pc c (c.recordCondition k) := .inl (c.raised_recordCondition h)

/-- The guard of a doubleword operation. -/
private theorem use_ifWide {x : MachineM Unit} (h : InstructionUse i pc c x) :
    InstructionUse i pc c (ifWide x) := uses_ifWide (effect_raised c) h

/-- Loads to a general register. -/
private theorem use_loadRegister (hsize : AccessSize size) (extend : UInt64 → UInt64) :
    InstructionUse i pc c (loadRegister i size extend) :=
  uses_withCpu (uses_loading (effect_raised c) hsize fun _ => c.completed_setGpr _ _)

/-- To note the address of a linked load is the one change of the coprocessor. -/
private theorem completed_link (c : Cpu) (r : RegisterIndex) (v a : UInt64) :
    Completed i pc c ((c.setGpr r v).link a) := by
  simp only [Cpu.link]
  split
  · exact ⟨rfl, .inr ⟨_, rfl⟩, fun _ => rfl⟩
  · exact ⟨rfl, .inl rfl, fun _ => rfl⟩

/-- Linked loads. -/
private theorem use_loadLinked (hsize : AccessSize size) (extend : UInt64 → UInt64) :
    InstructionUse i pc c (loadLinked i size extend) :=
  uses_withCpu (uses_loading (effect_raised c) hsize fun _ => completed_link c _ _ _)

/-- Stores of a general register. -/
private theorem use_storeRegister (hsize : AccessSize size) :
    InstructionUse i pc c (storeRegister i size) := by
  refine uses_withCpu (uses_withCpu ?_)
  rw [discard_eq_ifDone]
  exact uses_store (effect_raised c) hsize (.of_eq rfl rfl rfl)

/-- Conditional stores, whose outcome is a result like others. -/
private theorem use_storeConditional (hsize : AccessSize size) :
    InstructionUse i pc c (storeConditional i size) := by
  refine uses_withCpu (uses_withCpu (uses_withCpu ?_))
  split
  · exact uses_store (effect_raised c) hsize (c.completed_setGpr _ _)
  · exact uses_modifyCpu (.inr (c.completed_setGpr _ _))

/-- Loads of part of a word, which load all of it. -/
private theorem use_loadPart32 (merge : UInt32 → UInt32 → UInt32 → UInt32) :
    InstructionUse i pc c (loadPart32 i merge) :=
  uses_withCpu (uses_loading (effect_raised c) (.inr (.inr (.inl rfl))) fun _ =>
    c.completed_setGpr _ _)

/-- Loads of part of a doubleword. -/
private theorem use_loadPart64 (merge : UInt64 → UInt64 → UInt64 → UInt64) :
    InstructionUse i pc c (loadPart64 i merge) :=
  uses_withCpu (uses_loading (effect_raised c) (.inr (.inr (.inr rfl))) fun _ =>
    c.completed_setGpr _ _)

/-- The remainder of an address by the size of a word. -/
private theorem toNat_mod_size {a : UInt64} (hsize : size = 4 ∨ size = 8) :
    (a % UInt64.ofNat size).toNat = a.toNat % size := by
  rcases hsize with rfl | rfl <;> rfl

/-- The bytes from an address to the end of its word stay in the doubleword. -/
private theorem use_storeLeft (hsize : size = 4 ∨ size = 8) :
    InstructionUse i pc c (storeLeft i size) := by
  refine uses_withCpu (uses_withCpu ?_)
  rw [discard_eq_ifDone]
  refine uses_storeBytes (effect_raised c) ?_ (.of_eq rfl rfl rfl)
  rw [List.length_take, BigEndian.length_bytes, toNat_mod_size hsize]
  rcases hsize with rfl | rfl <;> omega

/-- So do the bytes from the start of the word to the address. -/
private theorem use_storeRight (hsize : size = 4 ∨ size = 8) :
    InstructionUse i pc c (storeRight i size) := by
  refine uses_withCpu (uses_withCpu ?_)
  rw [discard_eq_ifDone]
  refine uses_storeBytes (effect_raised c) ?_ (.of_eq rfl rfl rfl)
  have hlt := (c.effectiveAddress i).toNat_lt
  have hstart : (c.effectiveAddress i - UInt64.ofNat ((c.effectiveAddress i).toNat % size)).toNat =
      (c.effectiveAddress i).toNat - (c.effectiveAddress i).toNat % size := by
    -- The start of the word is not after the address
    rw [UInt64.toNat_sub, UInt64.toNat_ofNat']
    have hle := Nat.mod_le (c.effectiveAddress i).toNat size
    omega
  rw [List.length_drop, BigEndian.length_bytes, toNat_mod_size hsize, hstart]
  rcases hsize with rfl | rfl <;> omega

/-- The guard of the FPU, where its mode follows the status first. -/
private theorem use_ifFpuUsable {x : MachineM Unit}
    (h : InstructionUse i pc c.followStatus x) : InstructionUse i pc c (ifFpuUsable x) := by
  refine uses_ifFpuUsable (effect_raised c) ?_
  obtain ⟨u, hrun, hfollows⟩ := h
  exact ⟨u, hrun, hfollows.mono (fun _ _ _ h => h) (fun _ => .of_followStatus) fun _ =>
    .of_followStatus⟩

/-- Loads to a register of the FPU. -/
private theorem use_loadFloat (f : FloatFormat) (hsize : AccessSize size) :
    InstructionUse i pc c (loadFloat i f size) :=
  uses_withCpu (uses_loading (effect_raised c) hsize fun _ => .of_eq rfl rfl rfl)

/-- Stores of one. -/
private theorem use_storeFloat (f : FloatFormat) (hsize : AccessSize size) :
    InstructionUse i pc c (storeFloat i f size) := by
  refine uses_withCpu (uses_withCpu ?_)
  rw [discard_eq_ifDone]
  exact uses_store (effect_raised c) hsize (.of_eq rfl rfl rfl)

/-- The work of an instruction, as a use of the bus.  Without an access the instruction may
raise an exception, or belong to the system control coprocessor; with one it does neither. -/
theorem execute_use (i : Instruction) (pc : UInt64) (c : Cpu) :
    Uses c (fun c' => Effect i pc c c' ∨ (i.opcode = 0x10 ∧ c' = c.performCop0 i))
      (Completed i pc c) (execute i pc) := by
  -- What is proved of loads and stores is less than what may happen otherwise
  have hmemory : ∀ {x}, InstructionUse i pc c x →
      Uses c (fun c' => Effect i pc c c' ∨ (i.opcode = 0x10 ∧ c' = c.performCop0 i))
        (Completed i pc c) x := by
    rintro x ⟨u, hrun, hfollows⟩
    exact ⟨u, hrun, hfollows.mono (fun _ _ _ h => h) (fun _ h => h) fun _ h => .inl h⟩
  have h1 : AccessSize 1 := .inl rfl
  have h2 : AccessSize 2 := .inr (.inl rfl)
  have h4 : AccessSize 4 := .inr (.inr (.inl rfl))
  have h8 : AccessSize 8 := .inr (.inr (.inr rfl))
  simp only [execute]
  split
  -- Each load and store under its guard, with the size that its opcode stands for
  case h_1 | h_2 => exact hmemory (use_ifWide (use_loadPart64 _))
  case h_3 | h_7 => exact hmemory (use_loadRegister h1 _)
  case h_4 | h_8 => exact hmemory (use_loadRegister h2 _)
  case h_5 | h_9 => exact hmemory (use_loadPart32 _)
  case h_6 => exact hmemory (use_loadRegister h4 _)
  case h_10 => exact hmemory (use_ifWide (use_loadRegister h4 _))
  case h_11 => exact hmemory (use_storeRegister h1)
  case h_12 => exact hmemory (use_storeRegister h2)
  case h_13 => exact hmemory (use_storeLeft (.inl rfl))
  case h_14 => exact hmemory (use_storeRegister h4)
  case h_15 => exact hmemory (use_ifWide (use_storeLeft (.inr rfl)))
  case h_16 => exact hmemory (use_ifWide (use_storeRight (.inr rfl)))
  case h_17 => exact hmemory (use_storeRight (.inl rfl))
  case h_18 => exact hmemory (use_loadLinked h4 _)
  case h_19 => exact hmemory (use_ifFpuUsable (use_loadFloat .single h4))
  case h_20 => exact hmemory (use_ifWide (use_loadLinked h8 _))
  case h_21 => exact hmemory (use_ifFpuUsable (use_loadFloat .double h8))
  case h_22 => exact hmemory (use_ifWide (use_loadRegister h8 _))
  case h_23 => exact hmemory (use_storeConditional h4)
  case h_24 => exact hmemory (use_ifFpuUsable (use_storeFloat .single h4))
  case h_25 => exact hmemory (use_ifWide (use_storeConditional h8))
  case h_26 => exact hmemory (use_ifFpuUsable (use_storeFloat .double h8))
  case h_27 => exact hmemory (use_ifWide (use_storeRegister h8))
  case h_28 =>
    -- The rest does not access memory at all
    by_cases hop : i.opcode = 0x10
    · refine uses_modifyCpu (.inr ⟨hop, ?_⟩)
      simp only [Cpu.perform, hop]
    · exact uses_modifyCpu (.inl (c.perform_effect i pc hop))

/-- What an instruction that ends without a bus fault has done.  If it has raised an
exception, the bus is as before. -/
theorem execute_cases {i : Instruction} {pc : UInt64} {m m' : Machine}
    (h : execute i pc m = .ok () m') :
    (m.cpu.Raised m'.cpu ∧ m'.bus = m.bus) ∨ Completed i pc m.cpu m'.cpu ∨
      (i.opcode = 0x10 ∧ m'.cpu = m.cpu.performCop0 i ∧ m'.bus = m.bus) := by
  obtain ⟨c, bus⟩ := m
  obtain ⟨u, hrun, hfollows⟩ := execute_use i pc c
  rw [hrun] at h
  rcases hfollows.run_ok h with ⟨heffect | ⟨hop, hcpu⟩, hbus⟩ | hcompleted
  · exact heffect.imp (fun hraised => ⟨hraised, hbus⟩) .inl
  · exact .inr (.inr ⟨hop, hcpu, hbus⟩)
  · exact .inr (.inl hcompleted)

end

end Machine

end Console64
