/-!
# The state of the index in words

How far indexing has got is told by the number of files that wait and by how long ago
the last batch was finished.
-/
namespace CodeSearch

namespace Age

/-- The units of an age in seconds, the longest first. -/
def units : List (Nat × String) :=
  [(86400, "day"), (3600, "hour"), (60, "minute"), (1, "second")]

/-- An age in its longest unit that is not above it. -/
def describe (seconds : Nat) : String :=
  match units.find? fun u => u.1 ≤ seconds with
  | none => "just now"
  | some (unit, name) =>
      let count := seconds / unit
      count.repr ++ " " ++ name ++ (if count = 1 then "" else "s") ++ " ago"

end Age

/-- The number of files that wait, and the second in which the last batch was finished
unless one is running. -/
structure IndexStatus where
  pending : Nat
  lastIndexed : Option Int
  deriving DecidableEq, Repr

namespace IndexStatus

/-- The status in words at the second `now`. A batch finished in the future has no age. -/
def line (s : IndexStatus) (now : Int) : String :=
  "Number of pending files: " ++ s.pending.repr ++ ", last indexed: " ++
    match s.lastIndexed with
    | none => "in progress"
    | some done => Age.describe (now - done).toNat

end IndexStatus

end CodeSearch
