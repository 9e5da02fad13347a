import Console64.Bus.Transfer

/-!
# What a run may change, and what it cannot tell apart

The work on the bus and on the machine is done in `EStateM`, and a fault leaves the
state that it happened in.  A `Frame` fixes two relations on states: which changes a
run may make, and which differences between two states it must not notice.  Both are
inherited by whatever is composed of runs that respect them, so one lemma for each
way to compose runs is enough.

## Key results

- `Frame.respects_bind`: a sequence respects a frame when its parts do
- `Frame.respects_get`: so does what depends on the state, if only on a part of it
  that the frame cannot tell apart
- `Frame.Respects.weaken`: a run that may change less respects the wider frame
-/

namespace Console64

variable {ε σ α β : Type}

/-- The state that a run leaves, whether or not it ended in a fault. -/
def stateOf : EStateM.Result ε σ α → σ
  | .ok _ s => s
  | .error _ s => s

/-- It is the state at the end, -/
@[simp] theorem stateOf_ok (a : α) (s : σ) : stateOf (.ok a s : EStateM.Result ε σ α) = s := rfl

/-- and the one left by a fault. -/
@[simp] theorem stateOf_error (e : ε) (s : σ) :
    stateOf (.error e s : EStateM.Result ε σ α) = s := rfl

/-- The answer of a run, if it did not end in a fault. -/
def answerOf : EStateM.Result ε σ α → Option α
  | .ok a _ => some a
  | .error _ _ => none

/-- A run with an answer has succeeded. -/
theorem exists_ok_of_answerOf {r : EStateM.Result ε σ α} {a : α} (h : answerOf r = some a) :
    ∃ s, r = .ok a s := by
  cases r with
  | ok b s =>
    cases h
    exact ⟨s, rfl⟩
  | error e s => cases h

/-- Two runs ended alike: with one answer or one fault, in states that `same` relates. -/
def Agree (same : σ → σ → Prop) : EStateM.Result ε σ α → EStateM.Result ε σ α → Prop
  | .ok a s, .ok b t => a = b ∧ same s t
  | .error e s, .error f t => e = f ∧ same s t
  | _, _ => False

/-- Runs that agree may be continued under any relation that follows from theirs. -/
theorem Agree.mono {same same' : σ → σ → Prop} (h : ∀ s t, same s t → same' s t) :
    ∀ {x y : EStateM.Result ε σ α}, Agree same x y → Agree same' x y
  | .ok _ _, .ok _ _, ⟨ha, hs⟩ => ⟨ha, h _ _ hs⟩
  | .error _ _, .error _ _, ⟨he, hs⟩ => ⟨he, h _ _ hs⟩

/-- A sequence whose first part succeeds goes on with the second. -/
theorem bind_of_ok {x : EStateM ε σ α} {f : α → EStateM ε σ β} {s t : σ} {a : α}
    (h : x s = .ok a t) : (x >>= f) s = f a t := by
  show EStateM.bind x f s = _
  simp only [EStateM.bind, h]

/-- A sequence whose first part fails ends there. -/
theorem bind_of_error {x : EStateM ε σ α} {f : α → EStateM ε σ β} {s t : σ} {e : ε}
    (h : x s = .error e t) : (x >>= f) s = .error e t := by
  show EStateM.bind x f s = _
  simp only [EStateM.bind, h]

/-- What is attempted ends as a value: its answer, or its fault. -/
theorem bind_attempt_of_ok {x : BusM α} {f : Except BusError α → BusM β} {s t : Bus} {a : α}
    (h : x s = .ok a t) : (Bus.attempt x >>= f) s = f (.ok a) t :=
  bind_of_ok (by rw [Bus.attempt, h])

/-- Here it is the fault. -/
theorem bind_attempt_of_error {x : BusM α} {f : Except BusError α → BusM β} {s t : Bus}
    {e : BusError} (h : x s = .error e t) : (Bus.attempt x >>= f) s = f (.error e) t :=
  bind_of_ok (by rw [Bus.attempt, h])

/-- Sequences whose first parts end alike go on alike. -/
theorem bind_of_eq {x y : EStateM ε σ α} {f : α → EStateM ε σ β} {s t : σ} (h : x s = y t) :
    (x >>= f) s = (y >>= f) t := by
  show EStateM.bind x f s = EStateM.bind y f t
  simp only [EStateM.bind, h]

/-- A sequence that succeeds has a first part that does, and a second one after it. -/
theorem bind_eq_ok {x : EStateM ε σ α} {f : α → EStateM ε σ β} {s t : σ} {b : β}
    (h : (x >>= f) s = .ok b t) : ∃ a u, x s = .ok a u ∧ f a u = .ok b t := by
  cases hx : x s with
  | ok a u =>
    rw [bind_of_ok hx] at h
    exact ⟨a, u, rfl, h⟩
  | error e u =>
    rw [bind_of_error hx] at h
    exact nomatch h

/-- A sequence fails in its first part, or in its second after the first succeeded. -/
theorem bind_eq_error {x : EStateM ε σ α} {f : α → EStateM ε σ β} {s t : σ} {e : ε}
    (h : (x >>= f) s = .error e t) :
    x s = .error e t ∨ ∃ a u, x s = .ok a u ∧ f a u = .error e t := by
  cases hx : x s with
  | ok a u =>
    rw [bind_of_ok hx] at h
    exact .inr ⟨a, u, rfl, h⟩
  | error e' u =>
    rw [bind_of_error hx] at h
    cases h
    exact .inl rfl

/-- Forgetting the answer leaves the same state. -/
theorem stateOf_bind_pure (x : EStateM ε σ α) (b : β) (s : σ) :
    stateOf ((x >>= fun _ => pure b) s) = stateOf (x s) := by
  cases h : x s with
  | ok a t =>
    rw [bind_of_ok h]
    rfl
  | error e t =>
    rw [bind_of_error h]
    rfl

/-! ## Frames -/

/-- What runs may change, and what they cannot tell apart. -/
structure Frame (σ : Type) where
  /-- A run may lead from the one state to the other. -/
  change : σ → σ → Prop
  change_refl : ∀ s, change s s
  change_trans : ∀ {s t u}, change s t → change t u → change s u
  /-- The two states look alike. -/
  same : σ → σ → Prop

namespace Frame

variable {F : Frame σ}

/-- The run changes no more than the frame allows, and from states that look alike it
ends alike. -/
def Respects (F : Frame σ) (x : EStateM ε σ α) : Prop :=
  (∀ s, F.change s (stateOf (x s))) ∧ ∀ s t, F.same s t → Agree F.same (x s) (x t)

/-- What a run that respects the frame leaves when it succeeds. -/
theorem Respects.change_ok {x : EStateM ε σ α} (hx : F.Respects x) {s t : σ} {a : α}
    (h : x s = .ok a t) : F.change s t := by
  have := hx.1 s
  rwa [h] at this

/-- What a run that respects the frame leaves when it fails. -/
theorem Respects.change_error {x : EStateM ε σ α} (hx : F.Respects x) {s t : σ} {e : ε}
    (h : x s = .error e t) : F.change s t := by
  have := hx.1 s
  rwa [h] at this

/-- A success carries over to every state that looks alike. -/
theorem Respects.same_ok {x : EStateM ε σ α} (hx : F.Respects x) {s t s' : σ} {a : α}
    (hs : F.same s s') (h : x s = .ok a t) : ∃ t', x s' = .ok a t' ∧ F.same t t' := by
  have hagree := hx.2 s s' hs
  rw [h] at hagree
  cases hx' : x s' with
  | ok b t' =>
    rw [hx'] at hagree
    exact ⟨t', by rw [hagree.1], hagree.2⟩
  | error e t' =>
    rw [hx'] at hagree
    exact hagree.elim

/-- A fault carries over to every state that looks alike. -/
theorem Respects.same_error {x : EStateM ε σ α} (hx : F.Respects x) {s t s' : σ} {e : ε}
    (hs : F.same s s') (h : x s = .error e t) : ∃ t', x s' = .error e t' ∧ F.same t t' := by
  have hagree := hx.2 s s' hs
  rw [h] at hagree
  cases hx' : x s' with
  | ok b t' =>
    rw [hx'] at hagree
    exact hagree.elim
  | error f t' =>
    rw [hx'] at hagree
    exact ⟨t', by rw [hagree.1], hagree.2⟩

/-- A run that may change less respects the wider frame. -/
theorem Respects.weaken {G : Frame σ} {x : EStateM ε σ α} (hx : F.Respects x)
    (hchange : ∀ s t, F.change s t → G.change s t) (hsame : F.same = G.same) :
    G.Respects x :=
  ⟨fun s => hchange _ _ (hx.1 s), fun s t h => hsame ▸ hx.2 s t (hsame ▸ h)⟩

/-! ## Runs that respect a frame -/

/-- An answer changes nothing, -/
theorem respects_pure (a : α) : F.Respects (pure a : EStateM ε σ α) :=
  ⟨fun s => F.change_refl s, fun _ _ h => ⟨rfl, h⟩⟩

/-- and neither does a fault. -/
theorem respects_throw (e : ε) : F.Respects (throw e : EStateM ε σ α) :=
  ⟨fun s => F.change_refl s, fun _ _ h => ⟨rfl, h⟩⟩

/-- A sequence respects a frame when its parts do. -/
theorem respects_bind {x : EStateM ε σ α} {f : α → EStateM ε σ β} (hx : F.Respects x)
    (hf : ∀ a, F.Respects (f a)) : F.Respects (x >>= f) := by
  constructor
  · intro s
    cases h : x s with
    | ok a t =>
      rw [bind_of_ok h]
      exact F.change_trans (hx.change_ok h) ((hf a).1 t)
    | error e t =>
      rw [bind_of_error h]
      exact hx.change_error h
  · intro s s' hs
    cases h : x s with
    | ok a t =>
      -- The second parts start from states that look alike
      obtain ⟨t', h', ht⟩ := hx.same_ok hs h
      rw [bind_of_ok h, bind_of_ok h']
      exact (hf a).2 t t' ht
    | error e t =>
      obtain ⟨t', h', ht⟩ := hx.same_error hs h
      rw [bind_of_error h, bind_of_error h']
      exact ⟨rfl, ht⟩

/-- A change of the state, with an answer read from it. -/
theorem respects_modifyGet {f : σ → α × σ} (hchange : ∀ s, F.change s (f s).2)
    (hsame : ∀ s t, F.same s t → (f s).1 = (f t).1 ∧ F.same (f s).2 (f t).2) :
    F.Respects (fun s => .ok (f s).1 (f s).2 : EStateM ε σ α) :=
  ⟨hchange, hsame⟩

/-- A change of the state. -/
theorem respects_modify {f : σ → σ} (hchange : ∀ s, F.change s (f s))
    (hsame : ∀ s t, F.same s t → F.same (f s) (f t)) :
    F.Respects (modify f : EStateM ε σ PUnit) :=
  ⟨hchange, fun s t h => ⟨rfl, hsame s t h⟩⟩

/-- What is done with the state at hand must not depend on more of it than the frame
can tell apart. -/
theorem respects_get {f : σ → EStateM ε σ β} (hf : ∀ s, F.Respects (f s))
    (hsame : ∀ s t, F.same s t → f s = f t) : F.Respects (get >>= f) := by
  constructor
  · intro s
    exact (hf s).1 s
  · intro s t h
    -- Both runs do the same work, each on its own state
    show Agree F.same (f s s) (f t t)
    rw [hsame s t h]
    exact (hf t).2 s t h

/-- One run after the other. -/
theorem respects_forM {f : α → EStateM ε σ PUnit} (hf : ∀ a, F.Respects (f a)) :
    ∀ l : List α, F.Respects (l.forM f)
  | [] => respects_pure _
  | a :: l => respects_bind (hf a) fun _ => respects_forM hf l

/-- A fault under another name. -/
theorem respects_adaptExcept {ε' : Type} {f : ε → ε'} {x : EStateM ε σ α} (hx : F.Respects x) :
    F.Respects (EStateM.adaptExcept f x) := by
  constructor
  · intro s
    have := hx.1 s
    simp only [EStateM.adaptExcept]
    cases h : x s <;> rw [h] at this <;> exact this
  -- Renaming the fault leaves the states, on which the two runs agree
  · intro s t hs
    simp only [EStateM.adaptExcept]
    cases h : x s with
    | ok a u =>
      obtain ⟨u', h', hu⟩ := hx.same_ok hs h
      rw [h']
      exact ⟨rfl, hu⟩
    | error e u =>
      obtain ⟨u', h', hu⟩ := hx.same_error hs h
      rw [h']
      exact ⟨rfl, hu⟩

/-- A fault turned into an answer. -/
theorem respects_attempt {F : Frame Bus} {x : BusM α} (hx : F.Respects x) :
    F.Respects (Bus.attempt x) := by
  constructor
  · intro s
    have := hx.1 s
    simp only [Bus.attempt]
    cases h : x s <;> rw [h] at this <;> exact this
  -- As before: whether it answers or not is the same in both runs
  · intro s t hs
    simp only [Bus.attempt]
    cases h : x s with
    | ok a u =>
      obtain ⟨u', h', hu⟩ := hx.same_ok hs h
      rw [h']
      exact ⟨rfl, hu⟩
    | error e u =>
      obtain ⟨u', h', hu⟩ := hx.same_error hs h
      rw [h']
      exact ⟨rfl, hu⟩

end Frame

end Console64
