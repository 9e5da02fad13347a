/-! # Access to the bus

Accesses in flight.  Reads may overlap reads, and writes may start further
writes, but a read and a write never overlap. -/

namespace Console64

/-- The accesses in flight. -/
structure Admission where
  readers : Nat := 0
  writers : Nat := 0
  deriving DecidableEq, Repr, Inhabited

namespace Admission

/-- Nothing is in flight. -/
def idle : Admission := {}

/-- Start a read, unless a write is in flight. -/
def startRead? (a : Admission) : Option Admission :=
  if a.writers = 0 then some { a with readers := a.readers + 1 } else none

/-- Start a write, unless a read is in flight. -/
def startWrite? (a : Admission) : Option Admission :=
  if a.readers = 0 then some { a with writers := a.writers + 1 } else none

/-- End a read, if there is one. -/
def endRead? (a : Admission) : Option Admission :=
  if a.readers = 0 then none else some { a with readers := a.readers - 1 }

/-- End a write, if there is one. -/
def endWrite? (a : Admission) : Option Admission :=
  if a.writers = 0 then none else some { a with writers := a.writers - 1 }

end Admission

end Console64
