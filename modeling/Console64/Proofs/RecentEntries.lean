import Console64.Cpu.Trace
import Mathlib.Data.List.DropRight
import Mathlib.Data.List.ReduceOption

/-!
# The latest entries of a trace

The ring of a trace is filled first, and then its oldest entry gives way to each new one.  Either
way the entry with number `k` of all that were pushed lies at `k` modulo the capacity, as long as
it is among the latest.  So the ring says no more and no less than the list of what was pushed.

## Key results

- `TraceLog.Holds`: the ring holds the latest of the entries pushed
- `TraceLog.Holds.push`: one more entry keeps it so, whether or not the ring is full
- `TraceLog.recent_pushes`: what is read from the ring after any pushes
-/

namespace Console64

namespace TraceLog

/-- Add an entry, refusing to write past the end of the ring. -/
def checkedPush (t : TraceLog) (r : RetiredInstruction) : Option TraceLog :=
  if t.size < t.capacity ∨ t.next < t.entries.size then some (t.push r) else none

/-- What is found at the places that `recent` looks at: nothing past the end of the ring. -/
def found (t : TraceLog) (n : Nat) : List (Option RetiredInstruction) :=
  let n := min n t.size
  (List.range n).map fun i => t.entries[(t.startOf n + i) % t.size]?

/-- Those that are there are the recent ones. -/
theorem recent_eq_reduceOption (t : TraceLog) (n : Nat) :
    t.recent n = (t.found n).reduceOption := by
  rw [recent, found, List.reduceOption, List.filterMap_map]
  rfl

/-! ## What the ring holds -/

/-- The ring holds the latest of these entries, each at its number modulo the capacity. -/
structure Holds (t : TraceLog) (rs : List RetiredInstruction) : Prop where
  capacity : 0 < t.capacity
  size : t.size = min rs.length t.capacity
  next : t.next = rs.length % t.capacity
  entries : ∀ k < rs.length, rs.length ≤ k + t.capacity → t.entries[k % t.capacity]? = rs[k]?

/-- Numbers that are less than a capacity apart have places of their own. -/
private theorem mod_ne_of_lt {k n c : Nat} (h : k < n) (hc : n < k + c) : k % c ≠ n % c := by
  intro heq
  have hdvd : c ∣ n - k := Nat.dvd_of_mod_eq_zero (Nat.sub_mod_eq_zero_of_mod_eq heq.symm)
  have hzero : n - k = 0 := Nat.eq_zero_of_dvd_of_lt hdvd (by omega)
  omega

namespace Holds

variable {t : TraceLog} {rs : List RetiredInstruction}

/-- A new ring. -/
theorem empty {capacity : Nat} (h : 0 < capacity) : Holds { capacity } [] where
  capacity := h
  size := (Nat.zero_min capacity).symm
  next := (Nat.zero_mod capacity).symm
  entries k hk := absurd hk (Nat.not_lt_zero k)

section
variable (h : Holds t rs)
include h

/-- There is room for an entry, or an old one to be replaced. -/
theorem inRange : t.size < t.capacity ∨ t.next < t.entries.size := by
  have hsize : t.entries.size = min rs.length t.capacity := h.size
  have hnext : t.next < t.capacity := h.next ▸ Nat.mod_lt _ h.capacity
  rw [TraceLog.size]
  omega

/-- A new entry is put where its number says, and the others stay where they are. -/
theorem getElem?_push (r : RetiredInstruction) (j : Nat) :
    (t.push r).entries[j]? = if j = rs.length % t.capacity then some r else t.entries[j]? := by
  have hsize : t.entries.size = min rs.length t.capacity := h.size
  rw [push]
  dsimp only
  -- While there is room the entry is appended; once full it replaces the oldest
  split
  case isTrue hroom =>
    have hlast : t.entries.size = rs.length % t.capacity := by
      rw [Nat.mod_eq_of_lt (by omega)]
      omega
    rw [Array.getElem?_push, hlast]
  case isFalse hfull =>
    have hbound : rs.length % t.capacity < t.entries.size := by
      have := Nat.mod_lt rs.length h.capacity
      omega
    rw [h.next, Array.getElem?_setIfInBounds]
    by_cases hj : j = rs.length % t.capacity
    · rw [if_pos hj, if_pos hj.symm, if_pos hbound]
    · rw [if_neg hj, if_neg (Ne.symm hj)]

/-- One more entry. -/
theorem push (r : RetiredInstruction) : Holds (t.push r) (rs ++ [r]) where
  capacity := h.capacity
  size := by
    have hsize : t.entries.size = min rs.length t.capacity := h.size
    rw [List.length_append, List.length_singleton, TraceLog.size, TraceLog.push]
    dsimp only
    split
    · rw [Array.size_push]
      omega
    · rw [Array.size_setIfInBounds]
      omega
  next := by
    show (t.next + 1) % t.capacity = _
    rw [h.next, Nat.mod_add_mod, List.length_append, List.length_singleton]
    rfl
  entries k hk hlate := by
    rw [List.length_append, List.length_singleton] at hk hlate
    replace hlate : rs.length + 1 ≤ k + t.capacity := hlate
    show (t.push r).entries[k % t.capacity]? = _
    rw [h.getElem?_push]
    -- It is the new entry, or one of the latest before it
    rcases Nat.lt_succ_iff_lt_or_eq.mp hk with hold | rfl
    · rw [if_neg (mod_ne_of_lt hold (by omega)), h.entries k hold (by omega),
        List.getElem?_append_left hold]
    · rw [if_pos rfl, List.getElem?_concat_length]

/-- The place that is looked at for an entry is the one that its number says. -/
theorem place {n i : Nat} (hn : n ≤ t.size) (hi : i < n) :
    (t.startOf n + i) % t.size = (rs.length - n + i) % t.capacity := by
  have hsize := h.size
  rw [startOf]
  split
  -- Before the ring is full the numbers are the places
  case isTrue hroom =>
    have hall : t.size = rs.length := by omega
    rw [hall, Nat.mod_eq_of_lt (by omega), Nat.mod_eq_of_lt (by omega)]
  -- Afterwards the oldest entry is where the next one will be put
  case isFalse hfull =>
    have hfull : t.size = t.capacity := by omega
    have hback : rs.length + t.capacity - n + i = rs.length - n + i + t.capacity := by omega
    have hwhole : (t.next + t.capacity - n) % t.capacity =
        (rs.length + t.capacity - n) % t.capacity := by
      rw [Nat.add_sub_assoc (by omega), h.next, Nat.mod_add_mod, ← Nat.add_sub_assoc (by omega)]
    rw [hfull, Nat.mod_add_mod, ← Nat.mod_add_mod (t.next + t.capacity - n), hwhole,
      Nat.mod_add_mod, hback, Nat.add_mod_right]

/-- Every place holds an entry, and together they are the latest of those pushed. -/
theorem found_eq (n : Nat) : t.found n = (rs.rtake (min n t.size)).map some := by
  have hsize := h.size
  apply List.ext_getElem?
  intro i
  rw [found, List.rtake]
  generalize hcount : min n t.size = count
  have hle : count ≤ t.size := by omega
  rw [List.getElem?_map, List.getElem?_map, List.getElem?_drop]
  -- The entries from the back are those with the last numbers
  by_cases hi : i < count
  · have hnumber : rs.length - count + i < rs.length := by omega
    rw [List.getElem?_range hi, Option.map_some, h.place hle hi,
      h.entries _ hnumber (by omega), List.getElem?_eq_getElem hnumber, Option.map_some]
  · rw [List.getElem?_eq_none (by rw [List.length_range]; omega),
      List.getElem?_eq_none (by omega), Option.map_none, Option.map_none]

/-- So the recent ones are the last of those that were pushed. -/
theorem recent_eq (n : Nat) : t.recent n = rs.rtake (min n t.size) := by
  rw [recent_eq_reduceOption, h.found_eq, List.reduceOption, List.filterMap_map]
  exact List.filterMap_some

end

end Holds

/-- After any pushes the ring holds the latest of them, and none of them was refused. -/
private theorem holds_foldl {capacity : Nat} (h : 0 < capacity) (rs : List RetiredInstruction) :
    Holds (rs.foldl push { capacity }) rs ∧
      rs.foldlM checkedPush { capacity } = some (rs.foldl push { capacity }) ∧
      (rs.foldl push { capacity }).capacity = capacity := by
  -- Induction on the pushes, the last one first
  induction rs using List.reverseRecOn with
  | nil => exact ⟨.empty h, rfl, rfl⟩
  | append_singleton rs r ih =>
    obtain ⟨hholds, hchecked, hcapacity⟩ := ih
    rw [List.foldl_append, List.foldlM_append, hchecked]
    refine ⟨hholds.push r, ?_, hcapacity⟩
    show ((rs.foldl push { capacity }).checkedPush r).bind pure = _
    rw [checkedPush, if_pos hholds.inRange]
    rfl

/-- A ring of any capacity but zero, after any entries have been pushed.  It holds as many of them
as there is room for, none was written past its end, and whatever number of them is asked for, the
latest ones are found at once and listed in the order in which they were pushed. -/
theorem recent_pushes {capacity : Nat} (h : 1 ≤ capacity) (rs : List RetiredInstruction) :
    ∃ start t : TraceLog, ofCapacity? capacity = some start ∧ rs.foldl push start = t ∧
      rs.foldlM checkedPush start = some t ∧ t.size = min rs.length capacity ∧
      ∀ n, t.found n = (rs.rtake (min n t.size)).map some ∧
        t.recent n = rs.rtake (min n t.size) := by
  obtain ⟨hholds, hchecked, hcapacity⟩ := holds_foldl h rs
  refine ⟨{ capacity }, _, if_neg (by omega), rfl, hchecked, ?_, fun n =>
    ⟨hholds.found_eq n, hholds.recent_eq n⟩⟩
  rw [hholds.size, hcapacity]

/-- Five entries. -/
def fiveEntries : List RetiredInstruction :=
  (List.range 5).map fun k => ⟨4 * UInt64.ofNat k, 0, false⟩

/-- A ring of three has been filled and has gone around; the last three entries are left. -/
theorem recent_pushes_around :
    1 ≤ 3 ∧ ∃ start t : TraceLog, ofCapacity? 3 = some start ∧ fiveEntries.foldl push start = t ∧
      t.size = 3 ∧ t.recent 0 = [] ∧ t.recent 2 = fiveEntries.drop 3 ∧
        t.recent 4 = fiveEntries.drop 2 := by
  have hcapacity : 1 ≤ 3 := by decide
  obtain ⟨start, t, hstart, ht, -, hsize, hread⟩ := recent_pushes hcapacity fiveEntries
  have hthree : t.size = 3 := hsize
  refine ⟨hcapacity, start, t, hstart, ht, hthree, ?_, ?_, ?_⟩ <;>
  · rw [(hread _).2, hthree]
    decide

end TraceLog

end Console64
