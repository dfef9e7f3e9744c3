import CodeSearch.Classification

/-!
# Extraction tables

What the chunks of a language are is written in a table: which kinds of nodes have
a name and how to find it, whose bodies hold further chunks, what is folded into
the chunk behind it, and what is left out.
-/
namespace CodeSearch

/-- How a kind of node is named: the query for its name, the query for the name it is
filed under, the query for the node its summary is taken from, and a marker that goes
in front of its own name but not into the names of what lies inside. -/
structure NamedKind where
  kind : String
  name : String
  parent : Option String := none
  summary : Option String := none
  marker : Option String := none
  deriving DecidableEq, Repr

structure Table where
  named : List NamedKind := []
  containers : List String := []
  folded : List String := []
  skipped : List String := []
  rules : List FileTypeRule := []
  deriving DecidableEq, Repr

namespace Table

/-- How a kind of node is named; the first entry counts. -/
def namedKind? (t : Table) (kind : String) : Option NamedKind :=
  t.named.find? (·.kind == kind)

/-- The body of the kind holds further chunks. -/
def isContainer (t : Table) (kind : String) : Bool :=
  t.containers.contains kind

/-- Nodes of the kind go into the chunk behind them. -/
def folds (t : Table) (kind : String) : Bool :=
  t.folded.contains kind

/-- Nodes of the kind are left out. -/
def skips (t : Table) (kind : String) : Bool :=
  t.skipped.contains kind

end Table

end CodeSearch
