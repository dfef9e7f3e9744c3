import CodeSearch.Number.Integer
import CodeSearch.Search.Ranking
import CodeSearch.Store.Document

/-!
# Chunks as documents

A chunk is stored as a document: its source is the content, everything else stands in
the metadata. A document that some other program has stored may lack entries or have
unreadable ones; then it is corrupt, and the first fault in the order of the fields is
reported.
-/
namespace CodeSearch

structure CorruptDocument where
  id : String
  reason : String
  deriving DecidableEq, Repr

/-- The text of the error. -/
def CorruptDocument.message (e : CorruptDocument) : String :=
  "Corrupt document " ++ e.id ++ ": " ++ e.reason

structure CachedChunk where
  fileType : FileType
  path : String
  parsedAt : Int
  deriving DecidableEq, Repr

def Chunk.cached (c : Chunk) : CachedChunk :=
  ⟨c.fileType, c.path, c.parsedAt⟩

def Chunk.document (c : Chunk) : Document where
  id := c.id
  content := c.source
  metadata := .ofList [
    ("file", c.file), ("type", c.fileType.name), ("path", c.path), ("summary", c.summary),
    ("startLine", c.start.line.repr), ("startColumn", c.start.column.repr),
    ("endLine", c.stop.line.repr), ("endColumn", c.stop.column.repr),
    ("parsedAt", c.parsedAt.repr)]

namespace StoredDocument

def field (d : StoredDocument) (name : String) : Except CorruptDocument String :=
  match d.metadata.get? name with
  | some value => .ok value
  | none => .error ⟨d.id, "missing " ++ name⟩

def readField {α ε : Type} (d : StoredDocument) (name : String) (read : String → Except ε α)
    (message : ε → String) : Except CorruptDocument α := do
  match read (← d.field name) with
  | .ok value => return value
  | .error e => throw ⟨d.id, "bad " ++ name ++ ": " ++ message e⟩

def natField (d : StoredDocument) (name : String) : Except CorruptDocument Nat :=
  d.readField name (fun s => Integer.parseNat s.toList) Integer.Fault.message

def fileType (d : StoredDocument) : Except CorruptDocument FileType :=
  d.readField "type" FileType.parse FileType.UnknownName.message

/-- The time at which the chunk was read. -/
def parsedAt (d : StoredDocument) : Except CorruptDocument Int :=
  d.readField "parsedAt" (fun s => Integer.parseInt s.toList) Integer.Fault.message

def chunk (d : StoredDocument) : Except CorruptDocument Chunk := do
  let file ← d.field "file"
  let fileType ← d.fileType
  let path ← d.field "path"
  let summary ← d.field "summary"
  let startLine ← d.natField "startLine"
  let startColumn ← d.natField "startColumn"
  let stopLine ← d.natField "endLine"
  let stopColumn ← d.natField "endColumn"
  let parsedAt ← d.parsedAt
  return {
    file, fileType, path, summary, source := d.content
    start := ⟨startLine, startColumn⟩, stop := ⟨stopLine, stopColumn⟩, parsedAt }

/-- What is remembered of the chunk that a document keeps. -/
def cached (d : StoredDocument) : Except CorruptDocument CachedChunk := do
  let fileType ← d.fileType
  let path ← d.field "path"
  return ⟨fileType, path, ← d.parsedAt⟩

/-- A document as the hit of a search. Without a summary the line stays empty. -/
def hit (d : StoredDocument) (similarity : Single) : Except CorruptDocument Hit := do
  let fileType ← d.fileType
  let firstLine ← d.natField "startLine"
  let lastLine ← d.natField "endLine"
  return ⟨d.id, fileType, (d.metadata.get? "summary").getD "", firstLine, lastLine, similarity⟩

end StoredDocument

end CodeSearch
