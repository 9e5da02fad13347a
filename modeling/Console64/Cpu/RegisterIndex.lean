/-! # Register numbers

Registers come in files of thirty-two; `replaceAt` is the one way in which an
element of a file changes. -/

namespace Console64

/-- The number of one of thirty-two registers. -/
abbrev RegisterIndex := Fin 32

/-- There is a register. -/
instance registerCount_neZero : @NeZero Nat Zero.ofOfNat0 32 := ⟨Nat.succ_ne_zero 31⟩

/-- `v` with the element at `i` replaced. -/
def replaceAt {α : Type} {n : Nat} (v : Vector α n) (i : Fin n) (x : α) : Vector α n :=
  v.set i.val x i.isLt

/-- The element at `i` is the new one, and the others are as they were. -/
@[simp] theorem get_replaceAt {α : Type} {n : Nat} (v : Vector α n) (i j : Fin n) (x : α) :
    (replaceAt v i x).get j = if i = j then x else v.get j := by
  change (v.set i.val x i.isLt)[j.val] = if i = j then x else v[j.val]
  rw [Vector.getElem_set]
  simp only [Fin.ext_iff]

end Console64
