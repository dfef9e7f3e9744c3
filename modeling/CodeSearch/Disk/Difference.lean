import CodeSearch.Disk.Changes

/-!
# The difference between two disks

What has to be done to one disk so that it becomes another one: what is gone is removed,
what is new is made, and files that are not the same are written again.
-/
namespace CodeSearch

namespace DiskEntry

/-- Two things are the same, content and time included. -/
def same : DiskEntry → DiskEntry → Bool
  | directory, directory => true
  | file b t, file c u => b == c && t == u
  | _, _ => false

/-- One of two things is a directory and the other is not. -/
def differsInKind : DiskEntry → DiskEntry → Bool
  | directory, file .. => true
  | file .., directory => true
  | _, _ => false

end DiskEntry

namespace Disk

/-- The things of a disk that another one lacks or has as something else. -/
def gone (old new : Disk) : List Location :=
  (old.entries.filter fun x =>
    match new.at? x.1 with
    | none => true
    | some e => e.differsInKind x.2).map (·.1)

/-- The change that puts a thing where a disk lacks it or has another one. -/
def missing? (old : Disk) (x : Location × DiskEntry) : Option DiskChange :=
  match x.2, old.at? x.1 with
  | .directory, some .directory => none
  | .directory, _ => some (.makeDirectory x.1)
  | .file bytes modified, some e =>
      if e.same (.file bytes modified) then none else some (.write x.1 bytes modified)
  | .file bytes modified, none => some (.write x.1 bytes modified)

/-- What makes one disk the other. Of what is gone only the outermost things are removed;
what is new comes in the order of its location. -/
def changesTo (old new : Disk) : List DiskChange :=
  let lost := old.gone new
  let outermost := lost.filter fun l => !lost.any fun m => m.isPrefixOf l && m != l
  outermost.map .remove ++
    (new.entries.mergeSort fun a b => Location.precedes a.1 b.1).filterMap old.missing?

end Disk

end CodeSearch
