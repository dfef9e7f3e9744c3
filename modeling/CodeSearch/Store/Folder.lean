import CodeSearch.Disk.Changes
import CodeSearch.Store.Basic

/-!
# Stores on disk

A store is kept in a directory of its own, in which its log has a fixed name.
-/
namespace CodeSearch

namespace LogFile

def fileName : String := "documents.jsonl"

/-- The name under which a new log is prepared. -/
def draftName : String := "documents.jsonl.tmp"

/-- The log in a directory; an empty one if there is none yet. -/
def ofDisk (d : Disk) (directory : Location) : Except IoFault LogFile :=
  let blocked := d.isDirectory (directory ++ [draftName])
  match d.at? (directory ++ [fileName]) with
  | none => .ok ⟨.empty, blocked⟩
  | some .directory => .error .isDirectory
  | some (.file bytes _) => .ok ⟨bytes, blocked⟩

def save (f : LogFile) (d : Disk) (directory : Location) (now : Int) : Disk :=
  d.set (directory ++ [fileName]) (.file f.bytes now)

end LogFile

namespace Store

def save (s : Store) (d : Disk) (directory : Location) (now : Int) : Disk :=
  match s.log with
  | none => d
  | some l => l.file.save d directory now

/-- The store in the directory that a path leads to. The directory is made if it is
missing, which stays so even if its log cannot be used. -/
def openAt (d : Disk) (path : String) (embedder : Embedder) (now : Int) :
    Except StoreError (Store × Location) × Disk :=
  match d.makeAlong path with
  | .error fault => (.error (.io fault), d)
  | .ok (d, directory) =>
      match LogFile.ofDisk d directory with
      | .error fault => (.error (.io fault), d)
      | .ok file =>
          match ofFile file embedder with
          | .error e => (.error e, d)
          | .ok s => (.ok (s, directory), s.save d directory now)

end Store

end CodeSearch
