import CodeSearch.FileType
import CodeSearch.Text.Span

/-!
# Chunks

A chunk is a fragment of one file that stands for itself: a declaration, a piece
of top-level code, or a comment on its own. Its path names it within the file, and
file and path together are its identifier.
-/
namespace CodeSearch

/-- A fragment of a file with its name, its place and the time it was read. -/
structure Chunk where
  file : String
  fileType : FileType
  path : String
  summary : String
  source : String
  start : Position
  stop : Position
  parsedAt : Int
  deriving DecidableEq, Repr, Inhabited

structure ChunkedFile where
  path : String
  chunks : List Chunk
  deriving DecidableEq, Repr, Inhabited

/-- What stands between the parts of an identifier. -/
def separator : String := "::"

namespace ChunkId

/-- The identifier of a path within a file. -/
def ofParts (file path : String) : String :=
  file ++ separator ++ path

/-- The characters before and behind the first separator. -/
def splitChars? : List Char → Option (List Char × List Char)
  | [] => none
  | ':' :: ':' :: cs => some ([], cs)
  | c :: cs => (splitChars? cs).map fun r => (c :: r.1, r.2)

/-- The file and the path of an identifier, parted at the first separator. -/
def split? (id : String) : Option (String × String) :=
  (splitChars? id.toList).map fun r => (String.ofList r.1, String.ofList r.2)

end ChunkId

namespace Chunk

def id (c : Chunk) : String :=
  ChunkId.ofParts c.file c.path

def lineRange (first last : Nat) : String :=
  if first = last then "line " ++ first.repr
  else "lines " ++ first.repr ++ "-" ++ last.repr

/-- The lines of a chunk in words. -/
def range (c : Chunk) : String :=
  lineRange c.start.line c.stop.line

end Chunk

end CodeSearch
