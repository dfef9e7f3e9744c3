import CodeSearch.Store.Record
import CodeSearch.Text.Blank

/-!
# The document log

The log is a file with one record on each line. Replaying it from the top gives the
collection. Records are only ever appended, until the log has become long for what it
describes: then it is prepared anew in another file, which takes its place.

Appending is taken to succeed, and so is everything about a new file once it is prepared. Of
what a file system may refuse, only the preparing is considered, which fails if a directory
stands where the new file should. So no record is held back until a log that an append has
damaged is written anew.
-/
namespace CodeSearch

/-- The file of a log. `blocked` says that no new file can be prepared beside it,
because a directory stands there. -/
structure LogFile where
  bytes : ByteArray
  blocked : Bool := false

/-- What replaying a log gives: the collection, the number of records in it, and the
number of lines that hold neither a record nor only blanks. -/
structure Replay where
  documents : Catalog StoredDocument := .empty
  records : Nat := 0
  malformed : Nat := 0

namespace Replay

def step (r : Replay) (line : List Char) : Replay :=
  if Text.allBlank line then r
  else
    match Record.parse? line with
    | some record => { r with documents := record.apply r.documents, records := r.records + 1 }
    | none => { r with malformed := r.malformed + 1 }

def ofText (text : List Char) : Replay :=
  (Text.lines text).foldl step {}

/-- Replay the bytes of a file, if they are text. -/
def ofBytes (bytes : ByteArray) : Except StoreError Replay :=
  match String.fromUTF8? bytes with
  | some text => .ok (ofText text.toList)
  | none => .error (.io .notText)

end Replay

structure Log where
  file : LogFile
  records : Nat

namespace Log

/-- A log with fewer records is never written anew. -/
def leastRecords : Nat := 1024

def encode (records : List Record) : ByteArray :=
  (String.ofList (records.flatMap fun r => r.print ++ ['\n'])).toUTF8

def append (l : Log) (records : List Record) : Log where
  file := { l.file with bytes := l.file.bytes ++ encode records }
  records := l.records + records.length

/-- The log has many records, and most of them no longer count. -/
def isLong (l : Log) (live : Nat) : Bool :=
  leastRecords ≤ l.records && live * 2 < l.records

/-- Write the log anew, with one record for each document. -/
def renew (l : Log) (documents : Catalog StoredDocument) : Except StoreError Log :=
  if l.file.blocked then .error (.io .isDirectory)
  else .ok {
    file := { l.file with bytes := encode (documents.values.map .put) }
    records := documents.size }

/-- Write the log anew if it is long; where that fails it stays as it is. -/
def tidy (l : Log) (documents : Catalog StoredDocument) : Log :=
  if l.isLong documents.size then
    match l.renew documents with
    | .ok l => l
    | .error _ => l
  else l

/-- Open the log of a file. A log that is long or has malformed lines is written anew
at once. -/
def ofFile (file : LogFile) : Except StoreError (Catalog StoredDocument × Log) := do
  let r ← Replay.ofBytes file.bytes
  let l : Log := { file, records := r.records }
  if 0 < r.malformed || l.isLong r.documents.size then
    return (r.documents, ← l.renew r.documents)
  else return (r.documents, l)

end Log

end CodeSearch
