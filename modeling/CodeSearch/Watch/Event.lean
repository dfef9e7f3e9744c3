import CodeSearch.Disk.Changes

/-!
# Events of a disk

A directory that is watched reports what happens to the things directly in it, and its
own going away. A directory made together with what is in it is reported only once: the
things in it come into being before anyone can watch it.

The system decides which events are delivered. `DiskEvent.ofChange` is one account of them, by
which a run on a given disk can be computed; `DiskEvent.Notifies` says what is assumed of any.
-/
namespace CodeSearch

inductive DiskEvent where
  | created (l : Location)
  | modified (l : Location)
  | removed (l : Location)
  | renamed (ls : List Location)
  deriving DecidableEq, Repr

namespace DiskEvent

def locations : DiskEvent → List Location
  | created l => [l]
  | modified l => [l]
  | removed l => [l]
  | renamed ls => ls

def sees (watched : List Location) (l : Location) : Bool :=
  !l.isEmpty && watched.contains l.dropLast

def ifSeen (watched : List Location) (l : Location) (e : DiskEvent) : List DiskEvent :=
  if sees watched l then [e] else []

/-- The outermost thing that has to be made for a location to be there. -/
def firstMissing? (d : Disk) (l : Location) : Option Location :=
  (Disk.way l).find? fun step => (d.at? step).isNone

def ofMaking (watched : List Location) (d : Disk) (l : Location) : List DiskEvent :=
  match firstMissing? d l with
  | some first => ifSeen watched first (.created first)
  | none => []

/-- The things at and below a location, what is in a directory before the directory. -/
def fromBelow (d : Disk) (l : Location) : List Location :=
  let inside := (d.entries.map (·.1)).filter l.isPrefixOf
  inside.mergeSort fun a b =>
    if a.isPrefixOf b then b.isPrefixOf a else if b.isPrefixOf a then true
    else Location.precedes a b

/-- What the removal of one thing reports: a watched directory tells of itself as well. -/
def ofRemoval (watched : List Location) (l : Location) : List DiskEvent :=
  (if watched.contains l then [.removed l] else []) ++ ifSeen watched l (.removed l)

/-- What moving a thing reports: the old place, the new one, and both together if both
are seen. A watched directory tells of itself last. -/
def ofMove (watched : List Location) (source target : Location) : List DiskEvent :=
  ifSeen watched source (.renamed [source]) ++ ifSeen watched target (.renamed [target]) ++
    (if sees watched source && sees watched target then [.renamed [source, target]] else []) ++
    (if watched.contains source then [.renamed [source]] else [])

/-- What a change of a disk reports. -/
def ofChange (watched : List Location) (d : Disk) : DiskChange → List DiskEvent
  | .write l _ _ =>
      if (d.at? l).isSome then ifSeen watched l (.modified l) else ofMaking watched d l
  | .date l _ => if d.isFile l then ifSeen watched l (.modified l) else []
  | .makeDirectory l => ofMaking watched d l
  | .remove l => (fromBelow d l).flatMap (ofRemoval watched)
  | .move source target => if source = target then [] else ofMove watched source target

end DiskEvent

end CodeSearch
