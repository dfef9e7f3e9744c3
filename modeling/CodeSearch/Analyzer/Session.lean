import CodeSearch.Analyzer.Basic
import CodeSearch.Embedding.Hashing
import CodeSearch.Store.Folder

/-!
# Analyzers with a store on disk

An analyzer is usually started on a store that lies in its workspace. The log of the
store is a file like any other: it is read when the analyzer starts, and it follows the
store from then on.
-/
namespace CodeSearch

structure Session where
  analyzer : Analyzer Store
  directory : Location

namespace Session

/-- Write the log of the store to the disk, unless its file has been taken away. -/
def save (x : Session) (s : Surroundings) : Disk :=
  if s.disk.isFile (x.directory ++ [LogFile.fileName]) then
    x.analyzer.index.store.save s.disk x.directory s.now
  else s.disk

/-- Read the log from the disk again, unless it is gone. The documents stay as they are. -/
def refresh (x : Session) (d : Disk) : Session :=
  match d.bytes? (x.directory ++ [LogFile.fileName]) with
  | none => x
  | some bytes =>
      let file : LogFile := ⟨bytes, d.isDirectory (x.directory ++ [LogFile.draftName])⟩
      let store := x.analyzer.index.store
      let log := store.log.map fun l => { l with file }
      { x with analyzer.index.store.log := log }

/-- Start an analyzer of the workspace at a path. What this does to the disk stays done
even if the start fails. -/
def start [QueryCompiler] (s : Surroundings) (path : String) (config : Config) :
    Except IndexError Session × Disk :=
  match Analyzer.rootOf s path with
  | .error e => (.error e, s.disk)
  | .ok root =>
      match Store.openAt s.disk (config.storePath root.path)
          (Hashing.embedder Hashing.defaultDimensions) s.now with
      | (.error e, disk) => (.error (.store e), disk)
      | (.ok (store, directory), disk) =>
          let s := { s with disk }
          match Analyzer.withStore s path config store with
          | .error e => (.error e, disk)
          | .ok analyzer =>
              let x : Session := ⟨analyzer, directory⟩
              (.ok x, x.save s)

end Session

end CodeSearch
