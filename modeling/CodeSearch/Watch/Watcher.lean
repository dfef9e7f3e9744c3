import CodeSearch.Scan
import CodeSearch.Watch.Event

/-!
# Watching a workspace

The watcher keeps an eye on every directory that a scan would get to. From the events of
these directories it tells which files of the workspace have changed. New directories are
watched from then on, and the files already in them count as changed.
-/
namespace CodeSearch

structure Watcher where
  root : Location
  excluded : List String
  watched : List Location
  rules : IgnoreRules

namespace Watcher

/-- The scan of a directory of the workspace. -/
def scannerOf (excluded : List String) (l : Location) : Scanner where
  root := l
  excluded

/-- Begin to watch a workspace. -/
def ofRoot (d : Disk) (root : Location) (excluded : List String) : Watcher where
  root
  excluded
  watched := (scannerOf excluded root).directories d
  rules := (scannerOf excluded root).ignoreRules d

/-- A name of a directory on the way from the workspace is hidden or known not to hold
sources. -/
def isUnscanned (steps : Location) : Bool :=
  steps.any fun name => isHidden name || unscannedNames.contains name

/-- A directory of the workspace is not left out. -/
def isRelevantDirectory (w : Watcher) (l : Location) : Bool :=
  w.root.isPrefixOf l && !isUnscanned (l.drop w.root.length) &&
    !(scannerOf w.excluded w.root).excludes l && !w.rules.isIgnored l true

/-- A file of the workspace can be indexed and is not left out. -/
def isRelevantFile (w : Watcher) (l : Location) : Bool :=
  (Language.ofPath? l.path).isSome && !l.isEmpty &&
    (l.dropLast == w.root || w.isRelevantDirectory l.dropLast) && !w.rules.isIgnored l false

/-- The name of a file in the index. -/
def nameOf (w : Watcher) (l : Location) : String :=
  Path.indexName w.root.path l.path

/-- Read the rules again. -/
def reloadRules (w : Watcher) (d : Disk) : Watcher :=
  { w with rules := (scannerOf w.excluded w.root).ignoreRules d }

/-- Stop watching a directory and everything below it. -/
def forget (w : Watcher) (l : Location) : Watcher :=
  { w with watched := w.watched.filter fun x => !l.isPrefixOf x }

def watch (w : Watcher) (ls : List Location) : Watcher :=
  { w with watched := w.watched ++ ls.filter fun l => !w.watched.contains l }

/-- Watch a new directory and those in it, and tell the files that are in them. -/
def watchNew (w : Watcher) (d : Disk) (l : Location) : Watcher × List String :=
  if !w.isRelevantDirectory l then (w, [])
  else
    let scanner := scannerOf w.excluded l
    (w.watch ((scanner.directories d).filter fun x => !w.rules.isIgnored x true),
      ((scanner.files d).filter fun x => !w.rules.isIgnored x false).map w.nameOf)

/-- Things of this kind may be new directories. -/
def makes : DiskEvent → Bool
  | .created _ => true
  | .renamed _ => true
  | _ => false

/-- Things of this kind may be directories that are gone. -/
def unmakes : DiskEvent → Bool
  | .removed _ => true
  | .renamed _ => true
  | _ => false

/-- Take in what an event says of one location. -/
def handleAt (w : Watcher) (d : Disk) (e : DiskEvent) (l : Location) : Watcher × List String :=
  if l.getLast? = some gitignoreName then (w.reloadRules d, [])
  else if makes e && d.isDirectory l then (w.forget l).watchNew d l
  else if unmakes e && w.watched.contains l then (w.forget l, [])
  else (w, if w.isRelevantFile l then [w.nameOf l] else [])

/-- Take in an event, and tell the files that have changed. -/
def handle (w : Watcher) (d : Disk) (e : DiskEvent) : Watcher × List String :=
  e.locations.foldl (fun (acc : Watcher × List String) l =>
    let r := acc.1.handleAt d e l
    (r.1, acc.2 ++ r.2)) (w, [])

end Watcher

end CodeSearch
