import Console64.Bus.WriteLog

/-!
# What a write log covers

The log keeps ranges apart, grows the latest one, or collapses all of them into their
hull.  This file proves that in each of these cases it covers the new write and all
that it covered before, and reaches no further than the writes did.

## Key results

- `WriteLog.covers_note` / `WriteLog.covers_note_of_covers`: recording a write covers
  it and keeps what was covered
- `WriteLog.stop_note`: recording does not reach past the writes
-/

namespace Console64

/-! ## What a log covers -/

namespace ByteRange

/-- A byte lies in one of the ranges. -/
def Covered (ranges : List ByteRange) (a : Nat) : Prop := ∃ r ∈ ranges, r.contains a = true

/-- A range holds the bytes from its start to its end. -/
theorem contains_iff (r : ByteRange) (a : Nat) :
    r.contains a = true ↔ r.start ≤ a ∧ a < r.start + r.length := by
  simp only [contains, Bool.and_eq_true, decide_eq_true_eq]
  exact Iff.rfl

/-- A hull holds what its first range holds. -/
theorem contains_hull_left {r s : ByteRange} {a : Nat} (h : r.contains a = true) :
    (r.hull s).contains a = true := by
  rw [contains_iff] at h ⊢
  simp only [hull, stop]
  omega

/-- A hull holds what its second range holds. -/
theorem contains_hull_right {r s : ByteRange} {a : Nat} (h : s.contains a = true) :
    (r.hull s).contains a = true := by
  rw [contains_iff] at h ⊢
  simp only [hull, stop]
  omega

/-- A grown range holds what it held and the write that it was grown for. -/
theorem contains_extend {r w grown : ByteRange} (h : r.extend? w = some grown) {a : Nat}
    (ha : r.contains a = true ∨ w.contains a = true) : grown.contains a = true := by
  simp only [extend?] at h
  split at h
  case isFalse => exact nomatch h
  case isTrue hadjacent =>
    cases h
    simp only [contains_iff, stop, Bool.and_eq_true, decide_eq_true_eq] at ha hadjacent ⊢
    omega

/-- A range is grown to the hull of the two. -/
theorem extend_eq_hull {r w grown : ByteRange} (h : r.extend? w = some grown) :
    grown = r.hull w := by
  simp only [extend?] at h
  split at h
  case isFalse => exact nomatch h
  case isTrue hadjacent =>
    cases h
    simp only [Bool.and_eq_true, decide_eq_true_eq] at hadjacent
    rw [hull, Nat.min_eq_left hadjacent.1]

/-- A hull of several ranges holds what each of them holds. -/
theorem contains_foldl_hull {a : Nat} (rest : List ByteRange) (r : ByteRange)
    (h : Covered (r :: rest) a) : (rest.foldl hull r).contains a = true := by
  induction rest generalizing r with
  | nil =>
    obtain ⟨s, hs, ha⟩ := h
    rw [List.mem_singleton] at hs
    exact hs ▸ ha
  | cons s rest ih =>
    -- The fold goes on with the hull of the first two ranges
    apply ih
    obtain ⟨t, ht, ha⟩ := h
    simp only [List.mem_cons] at ht
    rcases ht with rfl | rfl | ht
    · exact ⟨_, List.mem_cons_self, contains_hull_left ha⟩
    · exact ⟨_, List.mem_cons_self, contains_hull_right ha⟩
    · exact ⟨t, List.mem_cons_of_mem _ ht, ha⟩

/-- What hulls inherit holds of the hull of several ranges. -/
theorem foldl_hull_of_forall {P : ByteRange → Prop} (hhull : ∀ r s, P r → P s → P (r.hull s))
    (rest : List ByteRange) (r : ByteRange) (hr : P r) (h : ∀ s ∈ rest, P s) :
    P (rest.foldl hull r) := by
  induction rest generalizing r with
  | nil => exact hr
  | cons s rest ih =>
    exact ih (r.hull s) (hhull r s hr (h s List.mem_cons_self))
      fun t ht => h t (List.mem_cons_of_mem _ ht)

end ByteRange

namespace WriteLog

/-- A byte lies in a recorded range. -/
def Covers (log : WriteLog) (a : Nat) : Prop := ByteRange.Covered log.ranges.toList a

/-- Collapsing keeps every byte covered. -/
private theorem covered_collapse {ranges : Array ByteRange} {a : Nat}
    (h : ByteRange.Covered ranges.toList a) :
    ByteRange.Covered (collapse ranges).toList a := by
  simp only [collapse]
  split
  · exact h
  · split
    case h_1 hnil =>
      rw [hnil] at h
      obtain ⟨r, hr, _⟩ := h
      exact nomatch hr
    -- The single range that is left is the hull of all of them
    case h_2 r rest hcons =>
      rw [hcons] at h
      exact ⟨_, List.mem_singleton_self _, ByteRange.contains_foldl_hull rest r h⟩

/-- What hulls inherit is kept by collapsing. -/
private theorem forall_collapse {P : ByteRange → Prop} (hhull : ∀ r s, P r → P s → P (r.hull s))
    {ranges : Array ByteRange} (h : ∀ r ∈ ranges.toList, P r) :
    ∀ r ∈ (collapse ranges).toList, P r := by
  simp only [collapse]
  split
  · exact h
  · split
    case h_1 => exact fun r hr => nomatch hr
    -- A hull inherits from the ranges that it is made of
    case h_2 r rest hcons =>
      rw [hcons] at h
      intro s hs
      rw [List.mem_singleton.mp hs]
      exact ByteRange.foldl_hull_of_forall hhull rest r (h r List.mem_cons_self)
        fun t ht => h t (List.mem_cons_of_mem _ ht)

/-- Collapsing leaves no more ranges than the limit. -/
private theorem size_collapse (ranges : Array ByteRange) : (collapse ranges).size ≤ limit := by
  simp only [collapse]
  split
  · assumption
  · split
    · exact Nat.zero_le _
    · exact Nat.le_of_ble_eq_true rfl

/-- Adding a write covers it, and keeps covered what was. -/
private theorem covered_insert (ranges : Array ByteRange) (w : ByteRange) {a : Nat}
    (h : ByteRange.Covered ranges.toList a ∨ w.contains a = true) :
    ByteRange.Covered (insert ranges w).toList a := by
  simp only [insert]
  split
  case h_1 grown hgrown =>
    obtain ⟨r, hback, hextend⟩ := Option.bind_eq_some_iff.mp hgrown
    obtain ⟨before, rfl⟩ := Array.back?_eq_some_iff.mp hback
    rw [Array.pop_push]
    simp only [Array.toList_push]
    -- The last range has grown, and those before it are what they were
    have hlast : r.contains a = true ∨ w.contains a = true →
        ByteRange.Covered (before.toList ++ [grown]) a := fun ha =>
      ⟨grown, List.mem_append_right _ (List.mem_singleton_self _),
        ByteRange.contains_extend hextend ha⟩
    rcases h with ⟨s, hs, ha⟩ | ha
    · rw [Array.toList_push, List.mem_append, List.mem_singleton] at hs
      rcases hs with hs | rfl
      · exact ⟨s, List.mem_append_left _ hs, ha⟩
      · exact hlast (.inl ha)
    · exact hlast (.inr ha)
  case h_2 =>
    -- The write is a range of its own, until there are too many
    apply covered_collapse
    rw [Array.toList_push]
    rcases h with ⟨s, hs, ha⟩ | ha
    · exact ⟨s, List.mem_append_left _ hs, ha⟩
    · exact ⟨w, List.mem_append_right _ (List.mem_singleton_self _), ha⟩

/-- What hulls inherit is kept by adding a write of which it holds. -/
private theorem forall_insert {P : ByteRange → Prop} (hhull : ∀ r s, P r → P s → P (r.hull s))
    {ranges : Array ByteRange} {w : ByteRange} (h : ∀ r ∈ ranges.toList, P r) (hw : P w) :
    ∀ r ∈ (insert ranges w).toList, P r := by
  simp only [insert]
  split
  -- The last range grows, or a new one is pushed and the log is perhaps collapsed
  case h_1 grown hgrown =>
    obtain ⟨r, hback, hextend⟩ := Option.bind_eq_some_iff.mp hgrown
    obtain ⟨before, rfl⟩ := Array.back?_eq_some_iff.mp hback
    rw [Array.pop_push, ByteRange.extend_eq_hull hextend]
    simp only [Array.toList_push, List.mem_append, List.mem_singleton] at h ⊢
    rintro s (hs | rfl)
    · exact h s (.inl hs)
    · exact hhull r w (h r (.inr rfl)) hw
  case h_2 =>
    apply forall_collapse hhull
    simp only [Array.toList_push, List.mem_append, List.mem_singleton]
    rintro s (hs | rfl)
    · exact h s hs
    · exact hw

/-- Adding a write to no more ranges than the limit leaves no more than that. -/
private theorem size_insert {ranges : Array ByteRange} (w : ByteRange)
    (h : ranges.size ≤ limit) : (insert ranges w).size ≤ limit := by
  simp only [insert]
  split
  case h_1 grown hgrown =>
    obtain ⟨r, hback, -⟩ := Option.bind_eq_some_iff.mp hgrown
    obtain ⟨before, rfl⟩ := Array.back?_eq_some_iff.mp hback
    rw [Array.pop_push, Array.size_push]
    rwa [Array.size_push] at h
  case h_2 => exact size_collapse _

/-- Recording a write keeps what was covered. -/
theorem covers_note_of_covers {log : WriteLog} {a : Nat} (w : ByteRange) (h : log.Covers a) :
    (log.note w).Covers a := by
  simp only [note]
  split
  · exact h
  · exact covered_insert _ w (.inl h)

/-- Recording a write covers it, as long as the log is watching. -/
theorem covers_note {log : WriteLog} {w : ByteRange} {a : Nat} (hwatch : log.watching = true)
    (h : w.contains a = true) : (log.note w).Covers a := by
  -- A range that holds a byte is not empty, so it is not passed over
  have hlength : w.length ≠ 0 := by
    rw [ByteRange.contains_iff] at h
    omega
  simp only [note, hwatch, hlength, decide_false, Bool.not_true, Bool.or_self, Bool.false_eq_true,
    ↓reduceIte]
  exact covered_insert _ w (.inr h)

/-- Recording does not start or stop the watch. -/
theorem watching_note (log : WriteLog) (w : ByteRange) :
    (log.note w).watching = log.watching := by
  simp only [note]
  split <;> rfl

/-- What hulls inherit is kept by recording a write of which it holds. -/
theorem forall_note {P : ByteRange → Prop} (hhull : ∀ r s, P r → P s → P (r.hull s))
    {log : WriteLog} {w : ByteRange} (h : ∀ r ∈ log.ranges.toList, P r)
    (hw : w.length ≠ 0 → P w) : ∀ r ∈ (log.note w).ranges.toList, P r := by
  simp only [note]
  split
  · exact h
  case isFalse hnoted =>
    simp only [Bool.or_eq_true, decide_eq_true_eq, not_or] at hnoted
    exact forall_insert hhull h (hw hnoted.1)

/-- Recording a write does not reach past it and what is recorded. -/
theorem stop_note {log : WriteLog} {w : ByteRange} {n : Nat}
    (h : ∀ r ∈ log.ranges.toList, r.stop ≤ n) (hw : w.stop ≤ n) :
    ∀ r ∈ (log.note w).ranges.toList, r.stop ≤ n := by
  refine forall_note (fun r s hr hs => ?_) h fun _ => hw
  simp only [ByteRange.hull, ByteRange.stop] at hr hs ⊢
  omega

/-- A log never holds more ranges than the limit. -/
theorem size_note {log : WriteLog} (w : ByteRange) (h : log.ranges.size ≤ limit) :
    (log.note w).ranges.size ≤ limit := by
  simp only [note]
  split
  · exact h
  · exact size_insert w h

/-! ## Many writes -/

/-- Record several writes, in order. -/
def noteAll (log : WriteLog) (ws : List ByteRange) : WriteLog := ws.foldl note log

/-- What is covered stays covered, and every byte of a recorded write is. -/
theorem covers_noteAll {log : WriteLog} {ws : List ByteRange} {a : Nat}
    (hwatch : log.watching = true) (h : log.Covers a ∨ ByteRange.Covered ws a) :
    (log.noteAll ws).Covers a := by
  induction ws generalizing log with
  | nil =>
    rcases h with h | ⟨w, hw, -⟩
    · exact h
    · exact nomatch hw
  | cons w ws ih =>
    refine ih ((watching_note log w).trans hwatch) ?_
    -- What was covered before stays covered, and the new range covers what it contains
    rcases h with h | ⟨w', hw', ha⟩
    · exact .inl (covers_note_of_covers w h)
    · rcases List.mem_cons.mp hw' with rfl | hmem
      · exact .inl (covers_note hwatch ha)
      · exact .inr ⟨w', hmem, ha⟩

/-- So it is with several of them. -/
theorem size_noteAll {log : WriteLog} (ws : List ByteRange) (h : log.ranges.size ≤ limit) :
    (log.noteAll ws).ranges.size ≤ limit := by
  induction ws generalizing log with
  | nil => exact h
  | cons w ws ih => exact ih (size_note w h)

/-- What hulls inherit is kept by recording writes of which it holds. -/
theorem forall_noteAll {P : ByteRange → Prop} (hhull : ∀ r s, P r → P s → P (r.hull s))
    {log : WriteLog} {ws : List ByteRange} (h : ∀ r ∈ log.ranges.toList, P r)
    (hws : ∀ w ∈ ws, w.length ≠ 0 → P w) : ∀ r ∈ (log.noteAll ws).ranges.toList, P r := by
  induction ws generalizing log with
  | nil => exact h
  | cons w ws ih =>
    simp only [List.forall_mem_cons] at hws
    exact ih (forall_note hhull h hws.1) hws.2

end WriteLog

end Console64
