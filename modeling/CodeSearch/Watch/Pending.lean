/-!
# The pending set

Files that have changed wait together until none has changed for a while, or until a
caller who waits for them asks. They are then taken as one batch, in the order in which
they were first noted.
-/
namespace CodeSearch

/-- Two lists hold the same files, in whatever order. -/
def SameFiles (seen files : List String) : Prop :=
  ∀ file, file ∈ seen ↔ file ∈ files

namespace SameFiles

theorem nil : SameFiles [] [] :=
  fun _ => Iff.rfl

/-- One more file keeps its place if it is there already. -/
theorem insert {seen files : List String} (h : SameFiles seen files) (file : String) :
    SameFiles (seen.insert file) (if seen.contains file then files else files ++ [file]) := by
  intro other
  rw [List.mem_insert_iff, h other]
  by_cases hfile : file ∈ files
  · simp only [List.contains_iff_mem, h file, hfile, if_true]
    exact ⟨fun hmem => hmem.elim (fun heq => heq ▸ hfile) id, Or.inr⟩
  · simp [h file, hfile, or_comm]

end SameFiles

/-- Files that wait, with the callers who wait for them. Callers are numbers. -/
structure PendingSet where
  /-- How long nothing may happen before the files are taken. -/
  quiet : Nat
  files : List String := []
  /-- The same files as a set, in no order. -/
  seen : List String := []
  /-- When the last file was noted. -/
  last : Option Nat := none
  /-- The files are to be taken at once. -/
  urgent : Bool := false
  waiters : List Nat := []
  mem_seen : SameFiles seen files := by exact SameFiles.nil
  deriving DecidableEq, Repr

namespace PendingSet

/-- Note a file at a time. A file that waits already keeps its place. -/
def record (p : PendingSet) (file : String) (now : Nat) : PendingSet :=
  { p with
    files := if p.seen.contains file then p.files else p.files ++ [file]
    seen := p.seen.insert file
    last := some now
    mem_seen := p.mem_seen.insert file }

/-- Ask for the files on behalf of a caller. If none wait, the caller is answered at once,
which the second part says. -/
def request (p : PendingSet) (caller : Nat) : PendingSet × Bool :=
  if p.files.isEmpty then (p, true)
  else ({ p with waiters := p.waiters ++ [caller], urgent := true }, false)

def size (p : PendingSet) : Nat :=
  p.files.length

/-- When the files are to be taken, seen from a time. -/
def deadline? (p : PendingSet) (now : Nat) : Option Nat :=
  if p.files.isEmpty then none
  else if p.urgent then some now
  else p.last.map (· + p.quiet)

/-- Take the files, and the callers who wait for them. -/
def take (p : PendingSet) : (List String × List Nat) × PendingSet :=
  ((p.files, p.waiters), { quiet := p.quiet })

end PendingSet

end CodeSearch
