import CodeSearch.Disk.Fault
import CodeSearch.Path

/-!
# Disks

A disk is a finite tree of directories and files. It is kept flat: each thing on it
stands under its location, the names on the way from the top. The top itself is always
a directory.
-/
namespace CodeSearch

/-- The names on the way from the top of a disk. -/
abbrev Location := List String

namespace Location

def path (l : Location) : String :=
  "/" ++ "/".intercalate l

/-- The order of paths, which goes by their steps. -/
def precedes (a b : Location) : Bool :=
  !decide (b < a)

end Location

/-- A thing on a disk. Files know the second in which they were last written. -/
inductive DiskEntry where
  | directory
  | file (bytes : ByteArray) (modified : Int)

structure Disk where
  entries : List (Location × DiskEntry) := []

namespace Disk

def at? (d : Disk) (l : Location) : Option DiskEntry :=
  if l.isEmpty then some .directory else d.entries.lookup l

def isDirectory (d : Disk) (l : Location) : Bool :=
  match d.at? l with
  | some .directory => true
  | _ => false

def isFile (d : Disk) (l : Location) : Bool :=
  match d.at? l with
  | some (.file ..) => true
  | _ => false

/-- Go on from a location by one part of a path, which only a directory allows. -/
def step (d : Disk) (here : Location) (part : List Char) : Except IoFault Location :=
  match d.at? here with
  | none => .error .notFound
  | some (.file ..) => .error .notDirectory
  | some .directory =>
      if Path.isIdle part then .ok here
      else if part = ['.', '.'] then .ok here.dropLast
      else .ok (here ++ [String.ofList part])

/-- The location that a path leads to, whether or not something stands there. -/
def locate (d : Disk) (path : String) : Except IoFault Location :=
  if path.isEmpty then .error .notFound
  else (Path.parts path.toList).foldlM d.step []

def find (d : Disk) (path : String) : Except IoFault DiskEntry := do
  match d.at? (← d.locate path) with
  | some entry => return entry
  | none => throw .notFound

/-- A path leads to something. -/
def has (d : Disk) (path : String) : Bool :=
  (d.find path).isOk

/-- The text of the file that a path leads to. -/
def readText (d : Disk) (path : String) : Except IoFault String := do
  match ← d.find path with
  | .directory => throw .isDirectory
  | .file bytes _ =>
      match String.fromUTF8? bytes with
      | some text => return text
      | none => throw .notText

def bytes? (d : Disk) (l : Location) : Option ByteArray :=
  match d.at? l with
  | some (.file bytes _) => some bytes
  | _ => none

/-- The second in which the file that a path leads to was last written, if that is not
before the first one. -/
def modified? (d : Disk) (path : String) : Option Int :=
  match d.find path with
  | .ok (.file _ seconds) => if seconds < 0 then none else some seconds
  | _ => none

/-- All directories, the top included. -/
def directories (d : Disk) : List Location :=
  [] :: (d.entries.filter fun e => d.isDirectory e.1).map (·.1)

def files (d : Disk) : List Location :=
  (d.entries.filter fun e => d.isFile e.1).map (·.1)

end Disk

end CodeSearch
