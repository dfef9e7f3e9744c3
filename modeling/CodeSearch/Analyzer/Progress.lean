import CodeSearch.Index.Status

/-!
# The progress of indexing

Several batches may be under way at once. What is counted are the files that they have
not got to yet and the batches themselves; the time at which the last of them finished is
known as long as none is under way.
-/
namespace CodeSearch

structure Progress where
  pending : Nat := 0
  running : Nat := 0
  lastIndexed : Option Int := none
  deriving DecidableEq, Repr

namespace Progress

/-- A batch of so many files begins. -/
def start (p : Progress) (total : Nat) : Progress where
  pending := p.pending + total
  running := p.running + 1
  lastIndexed := none

/-- One file of a batch is done. -/
def advance (p : Progress) : Progress :=
  { p with pending := p.pending - 1 }

/-- A batch ends at a time and leaves so many files undone. -/
def finish (p : Progress) (skipped : Nat) (now : Int) : Progress where
  pending := p.pending - skipped
  running := p.running - 1
  lastIndexed := if p.running - 1 = 0 then some now else p.lastIndexed

end Progress

end CodeSearch
