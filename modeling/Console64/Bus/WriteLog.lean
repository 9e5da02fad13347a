/-! # Logs of memory writes

Where main memory may have changed since the log was last taken.  A write that
touches the latest range extends it, any other one opens a new range, and past
`limit` ranges everything collapses into their hull: the ranges always cover
every write. -/

namespace Console64

/-- A run of bytes. -/
structure ByteRange where
  start : Nat
  length : Nat
  deriving DecidableEq, Repr, Inhabited

namespace ByteRange

/-- First address past the run. -/
def stop (r : ByteRange) : Nat := r.start + r.length

/-- The runs share a byte. -/
def overlaps (r s : ByteRange) : Bool := r.start < s.stop && s.start < r.stop

/-- `address` lies in the run. -/
def contains (r : ByteRange) (address : Nat) : Bool := r.start ≤ address && address < r.stop

/-- The least run that holds both. -/
def hull (r s : ByteRange) : ByteRange :=
  let start := min r.start s.start
  ⟨start, max r.stop s.stop - start⟩

/-- The run grown to hold a write that starts inside it or right after it. -/
def extend? (r : ByteRange) (w : ByteRange) : Option ByteRange :=
  if r.start ≤ w.start && w.start ≤ r.stop then some ⟨r.start, max r.stop w.stop - r.start⟩
  else none

end ByteRange

/-- The ranges written, oldest first.  Nothing is recorded unless `watching`. -/
structure WriteLog where
  watching : Bool := false
  ranges : Array ByteRange := #[]
  deriving Repr

namespace WriteLog

/-- The most ranges that are kept apart. -/
def limit : Nat := 1024

/-- Start or stop recording; stopping forgets what was recorded. -/
def watch (log : WriteLog) (on : Bool) : WriteLog :=
  { watching := on, ranges := if on then log.ranges else #[] }

/-- One range that holds all of them, when there are more than the limit. -/
def collapse (ranges : Array ByteRange) : Array ByteRange :=
  if ranges.size ≤ limit then ranges
  else
    match ranges.toList with
    | [] => #[]
    | r :: rest => #[rest.foldl ByteRange.hull r]

/-- Add a write to the ranges. -/
def insert (ranges : Array ByteRange) (w : ByteRange) : Array ByteRange :=
  match ranges.back?.bind (·.extend? w) with
  | some grown => ranges.pop.push grown
  | none => collapse (ranges.push w)

/-- Record a write. -/
def note (log : WriteLog) (w : ByteRange) : WriteLog :=
  if w.length = 0 || !log.watching then log
  else { log with ranges := insert log.ranges w }

/-- The recorded ranges, and the log without them. -/
def take (log : WriteLog) : List ByteRange × WriteLog :=
  (log.ranges.toList, { log with ranges := #[] })

end WriteLog

end Console64
