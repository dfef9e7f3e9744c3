import CodeSearch.Disk.Basic

/-!
# Changes of a disk

Files are written, dated, moved and removed; directories are made. A change that the
disk does not allow is refused and leaves everything as it was.
-/
namespace CodeSearch

inductive DiskChange where
  | write (l : Location) (bytes : ByteArray) (modified : Int)
  | date (l : Location) (modified : Int)
  | makeDirectory (l : Location)
  | remove (l : Location)
  | move (source target : Location)

namespace Disk

/-- Put something at a location, in place of what is there. -/
def set (d : Disk) (l : Location) (e : DiskEntry) : Disk :=
  if (d.entries.lookup l).isSome then
    { entries := d.entries.map fun x => if x.1 = l then (l, e) else x }
  else { entries := d.entries ++ [(l, e)] }

/-- The directories on the way to a location, the location included. -/
def way (l : Location) : List Location :=
  (List.range' 1 l.length).map l.take

/-- Make a directory and those around it. -/
def makeDirectories (d : Disk) (l : Location) : Except IoFault Disk :=
  (way l).foldlM (fun d step =>
    match d.at? step with
    | none => .ok (d.set step .directory)
    | some .directory => .ok d
    | some (.file ..) => .error .notDirectory) d

/-- Write a file and make the directories around it. -/
def write (d : Disk) (l : Location) (bytes : ByteArray) (modified : Int) :
    Except IoFault Disk := do
  let d ← d.makeDirectories l.dropLast
  if d.isDirectory l then throw .isDirectory
  return d.set l (.file bytes modified)

/-- Give a file a new time. -/
def date (d : Disk) (l : Location) (modified : Int) : Except IoFault Disk :=
  match d.at? l with
  | none => .error .notFound
  | some .directory => .ok d
  | some (.file bytes _) => .ok (d.set l (.file bytes modified))

/-- Remove a file or a directory with all that is in it. -/
def remove (d : Disk) (l : Location) : Except IoFault Disk :=
  match d.at? l with
  | none => .error .notFound
  | some _ => .ok { entries := d.entries.filter fun x => !l.isPrefixOf x.1 }

/-- A directory has nothing in it. -/
def isBare (d : Disk) (l : Location) : Bool :=
  !d.entries.any fun x => l.isPrefixOf x.1 && x.1 != l

/-- Move a file or a directory to a place that is free, or to one held by something of
its kind that can make room. -/
def move (d : Disk) (source target : Location) : Except IoFault Disk :=
  match d.at? source, d.isDirectory target.dropLast with
  | none, _ => .error .notFound
  | _, false => .error .notFound
  | some e, true =>
      if source = target then .ok d
      else if source.isPrefixOf target then .error (.other "Invalid argument (os error 22)")
      else
        let moved : Disk := {
          entries := (d.entries.filter fun x => !target.isPrefixOf x.1).map fun x =>
            if source.isPrefixOf x.1 then (target ++ x.1.drop source.length, x.2) else x }
        match e, d.at? target with
        | _, none => .ok moved
        | .file .., some (.file ..) => .ok moved
        | .file .., some .directory => .error .isDirectory
        | .directory, some (.file ..) => .error .notDirectory
        | .directory, some .directory =>
            if d.isBare target then .ok moved
            else .error (.other "Directory not empty (os error 39)")

/-- Go on from a location by one part of a path, and make the directory that is missing. -/
def makeStep (x : Disk × Location) (part : List Char) : Except IoFault (Disk × Location) :=
  if Path.isIdle part then .ok x
  else
    match x.1.at? x.2 with
    | some .directory =>
        if part = ['.', '.'] then .ok (x.1, x.2.dropLast)
        else
          let l := x.2 ++ [String.ofList part]
          match x.1.at? l with
          | none => .ok (x.1.set l .directory, l)
          | some _ => .ok (x.1, l)
    | _ => .error .notDirectory

/-- Make all directories along a path, and tell the location that it leads to. -/
def makeAlong (d : Disk) (path : String) : Except IoFault (Disk × Location) := do
  let (d, l) ← (Path.parts path.toList).foldlM makeStep (d, [])
  if d.isDirectory l then return (d, l) else throw .fileExists

def change (d : Disk) : DiskChange → Except IoFault Disk
  | .write l bytes modified => d.write l bytes modified
  | .date l modified => d.date l modified
  | .makeDirectory l => d.makeDirectories l
  | .remove l => d.remove l
  | .move source target => d.move source target

end Disk

end CodeSearch
