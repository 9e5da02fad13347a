import Mathlib.Data.List.Induction

/-!
# Histories

What has begun in the course of a history, and has not ended since.

## Key results

- `since_congr`: the same in other words
- `since_append_singleton`: what the last event of a history does
- `since_append`: a history in two parts
- `Since.not_since`: two things of which each ends when the other one begins
-/

namespace Console64

variable {ε : Type} {begins : List ε → ε → Prop} {ends : ε → Prop}

/-- An event has begun something, in view of what came before it, and no event since then has
ended it. -/
def Since (begins : List ε → ε → Prop) (ends : ε → Prop) (es : List ε) : Prop :=
  ∃ before e rest, es = before ++ e :: rest ∧ begins before e ∧ ∀ e' ∈ rest, ¬ends e'

/-- Nothing has happened yet. -/
theorem not_since_nil : ¬Since begins ends [] := by
  rintro ⟨before, e, rest, hes, -⟩
  exact absurd hes (by simp)

/-- What begins and what ends it may be put in other words, as far as the history goes. -/
theorem since_congr {begins' : List ε → ε → Prop} {ends' : ε → Prop} {es : List ε}
    (hbegins : ∀ before e rest, es = before ++ e :: rest → (begins before e ↔ begins' before e))
    (hends : ∀ e, ends e ↔ ends' e) : Since begins ends es ↔ Since begins' ends' es := by
  refine exists_congr fun before => exists_congr fun e => exists_congr fun rest => ?_
  refine and_congr_right fun hes => and_congr (hbegins before e rest hes) ?_
  exact forall₂_congr fun e' _ => not_congr (hends e')

/-- The last event has begun it, or something begun before has not been ended by it. -/
theorem since_append_singleton {es : List ε} {last : ε} :
    Since begins ends (es ++ [last]) ↔
      begins es last ∨ (Since begins ends es ∧ ¬ends last) := by
  constructor
  · rintro ⟨before, e, rest, hes, hbegins, hrest⟩
    -- The event that began it is the last one, or there are others behind it
    rcases List.eq_nil_or_concat rest with rfl | ⟨rest', last', rfl⟩
    · obtain ⟨rfl, rfl⟩ : es = before ∧ last = e := by simpa using hes
      exact .inl hbegins
    · have hsnoc : es ++ [last] = (before ++ e :: rest') ++ [last'] := by simp [hes]
      obtain ⟨rfl, hlast⟩ := List.append_inj' hsnoc rfl
      cases hlast
      exact .inr ⟨⟨before, e, rest', rfl, hbegins, fun e' he' => hrest e' (by simp [he'])⟩,
        hrest last (by simp)⟩
  · rintro (hbegins | ⟨⟨before, e, rest, rfl, hbegins, hrest⟩, hlast⟩)
    · exact ⟨es, last, [], rfl, hbegins, fun e' he' => nomatch he'⟩
    · refine ⟨before, e, rest ++ [last], by simp, hbegins, fun e' he' => ?_⟩
      rcases List.mem_append.mp he' with hin | hin
      · exact hrest e' hin
      · rwa [List.mem_singleton.mp hin]

/-- In a history of two parts it has begun in the second one, or it has begun in the first one and
the second one has not ended it. -/
theorem since_append {begin : ε → Prop} {es es' : List ε} :
    Since (fun _ => begin) ends (es ++ es') ↔
      Since (fun _ => begin) ends es' ∨
        (Since (fun _ => begin) ends es ∧ ∀ e ∈ es', ¬ends e) := by
  induction es' using List.reverseRecOn with
  | nil => simp [not_since_nil]
  | append_singleton es' last ih =>
    rw [← List.append_assoc, since_append_singleton, since_append_singleton, ih]
    simp only [List.mem_append, List.mem_singleton, or_imp, forall_and, forall_eq]
    tauto

/-- Where each of two things ends when the other one begins, at most one of them is going on. -/
theorem Since.not_since {begins' : List ε → ε → Prop} {ends' : ε → Prop} {es : List ε}
    (h : Since begins ends es) (hfirst : ∀ before e, begins before e → ends' e)
    (hsecond : ∀ before e, begins' before e → ends e) (hne : ∀ e, ends e → ¬ends' e) :
    ¬Since begins' ends' es := by
  induction es using List.reverseRecOn with
  | nil => exact fun _ => not_since_nil h
  | append_singleton es last ih =>
    rw [since_append_singleton] at h ⊢
    have hbegins := hfirst es last
    have hbegins' := hsecond es last
    have hlast := hne last
    tauto

end Console64
