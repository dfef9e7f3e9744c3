import CodeSearch.Chunk.Basic
import CodeSearch.Chunk.Outline
import CodeSearch.Digest
import CodeSearch.Syntax.Pattern

/-!
# Names of chunks

A node is named by its own text where the queries of the table find exactly one
name, and by its content otherwise. A chunk's path puts the name behind the scope
it lies in. Paths are unique within a file: the second chunk of a path is `path-2`,
or what the next free number gives.
-/
namespace CodeSearch

/-- How a node calls itself: by its content, or by a name, perhaps with the name it is
filed under in place of its scope and a marker in front. -/
inductive Label where
  | byContent
  | byName (name : String) (parent : Option String) (marker : Option String)
  deriving DecidableEq, Repr

namespace Naming

/-- What makes patterns of the text of a query, if it is well formed. -/
abbrev Compiler := String → Option (List Pattern)

def textOf (source : List Char) (n : Node) : String :=
  String.ofList (Text.slice source n.start n.stop)

/-- The text of the one node that a query captures. -/
def single? (compile : Compiler) (source : List Char) (query : String) (n : Node) :
    Option String := do
  match Pattern.captured (← compile query) n with
  | [only] => some (textOf source only)
  | _ => none

def labelOf (compile : Compiler) (t : Table) (source : List Char) (n : Node) : Label :=
  match t.namedKind? n.kind with
  | none => .byContent
  | some k =>
      match single? compile source k.name n with
      | none => .byContent
      | some name =>
          match k.parent with
          | none => .byName name none k.marker
          | some query =>
              match single? compile source query n with
              | none => .byContent
              | some parent => .byName name (some parent) k.marker

def summaryNode (compile : Compiler) (t : Table) (source : List Char) (n : Node) : Node :=
  match labelOf compile t source n with
  | .byContent => n
  | .byName .. =>
      (((t.namedKind? n.kind).bind (·.summary)).bind fun query =>
        (compile query).bind fun ps => (Pattern.captured ps n).head?).getD n

/-- A name behind its scope. -/
def join (scope name : String) : String :=
  if scope.isEmpty then name else ChunkId.ofParts scope name

def basePath (label : Label) (source : List Char) (scope : String) (n : Node) : String :=
  match label with
  | .byContent => join scope (Digest.ofText (textOf source n))
  | .byName name parent marker => join (parent.getD scope) (marker.getD "" ++ name)

/-- The scope of what lies inside a node that was given a path: that path, but for
marked nodes the path without the marker. -/
def innerScope (label : Label) (scope path : String) : String :=
  match label with
  | .byName name parent (some _) => join (parent.getD scope) name
  | _ => path

def numbered (path : String) (n : Nat) : String :=
  path ++ "-" ++ n.repr

/-- The path itself if it is free, and otherwise its first free number from two on. Of
one number more than there are paths taken, one is free. -/
def freePath (taken : List String) (path : String) : String :=
  if path ∈ taken then
    match (List.range' 2 (taken.length + 1)).find? fun n => numbered path n ∉ taken with
    | some n => numbered path n
    | none => path
  else path

end Naming

end CodeSearch
