import CodeSearch.Analyzer.Progress
import CodeSearch.Chunk.File
import CodeSearch.Config
import CodeSearch.Index.Basic
import CodeSearch.Watch.Loop

/-!
# The analyzer

The analyzer keeps the index of a workspace in line with the files on disk. It compares
the two as a whole, takes in single files, and, if it watches the workspace, takes in
what has changed before it answers a search. What it needs of the world around it, the
disk, the clock and the trees of texts, is handed to each call; what makes patterns of
queries is the same at all times.
-/
namespace CodeSearch

/-- The world around an analyzer at one moment. -/
structure Surroundings where
  disk : Disk
  /-- Seconds since the epoch. -/
  now : Int
  grammar : Grammar
  /-- The directory from which paths are read. -/
  here : Location := []

structure Analyzer (σ : Type) where
  root : Location
  config : Config
  index : Index σ
  chunkers : List (Language × Chunker) := []
  progress : Progress := {}
  isClosed : Bool := false
  watch : Option WatchLoop := none

namespace Analyzer

variable {σ : Type} [DocumentStore σ] [QueryCompiler]

/-- The path of the store, which is never scanned or watched. -/
def storePath (a : Analyzer σ) : String :=
  a.config.storePath a.root.path

/-- The scan of the workspace. -/
def scanner (a : Analyzer σ) : Scanner where
  root := a.root
  excluded := [a.storePath]

/-- The chunker of a language, which is made when it is first needed. -/
def chunker (a : Analyzer σ) (l : Language) : Except ChunkError Chunker :=
  match a.chunkers.lookup l with
  | some k => .ok k
  | none => Chunker.create (some l)

/-- Keep a chunker for the next file. -/
def keep (a : Analyzer σ) (l : Language) (k : Chunker) : Analyzer σ :=
  { a with chunkers := (l, k) :: a.chunkers.filter fun x => x.1 != l }

/-- The chunks of a file on disk, or nothing if it is to be ignored. -/
def extract (a : Analyzer σ) (s : Surroundings) (file : String) :
    Except IndexError (Option ChunkedFile) × Analyzer σ :=
  match Language.ofPath? file with
  | none => (.error (.chunker .unsupportedLanguage), a)
  | some l =>
      match a.chunker l with
      | .error e => (.error (.chunker e), a)
      | .ok k =>
          match k.classify file with
          | .ignored => (.ok none, a.keep l k)
          | _ =>
              let r := k.chunkFile (s.grammar l) s.disk a.root file s.now
              match r.1 with
              | .error e => (.error (.chunker e), a.keep l r.2)
              | .ok chunked => (.ok (some chunked), a.keep l r.2)

def removeFile (a : Analyzer σ) (file : String) : Except IndexError Unit × Analyzer σ :=
  match a.index.remove file with
  | .error e => (.error (.store e), a)
  | .ok index => (.ok (), { a with index })

def replaceFile (a : Analyzer σ) (file : ChunkedFile) : Except IndexError Unit × Analyzer σ :=
  match a.index.replace file with
  | (.error e, index) => (.error (.store e), { a with index })
  | (.ok (), index) => (.ok (), { a with index })

/-- Bring the chunks of one file in line with the disk. -/
def processFile (a : Analyzer σ) (s : Surroundings) (file : String) :
    Except IndexError Unit × Analyzer σ :=
  if !Path.staysInside file then
    (.error (.invalidPath (file ++ " is outside the workspace")), a)
  else if !s.disk.has (Index.pathOf a.root file) then a.removeFile file
  else
    match a.extract s file with
    | (.error e, a) => (.error e, a)
    | (.ok (some chunked), a) => a.replaceFile chunked
    | (.ok none, a) => a.removeFile file

/-- Process one file of a batch, whatever becomes of it. -/
def processNext (s : Surroundings) (a : Analyzer σ) (file : String) : Analyzer σ :=
  let a := (a.processFile s file).2
  { a with progress := a.progress.advance }

/-- Bring the chunks of some files in line with the disk, in their order. A file that
fails does not keep the others back; after closing no file is processed. -/
def processFiles (a : Analyzer σ) (s : Surroundings) (files : List String) : Analyzer σ :=
  let a := { a with progress := a.progress.start files.length }
  if a.isClosed then { a with progress := a.progress.finish files.length s.now }
  else
    let a := files.foldl (processNext s) a
    { a with progress := a.progress.finish 0 s.now }

/-- The names of the files that a scan of the workspace finds. -/
def liveFiles (a : Analyzer σ) (s : Surroundings) : List String :=
  (a.scanner.files s.disk).map fun l => Path.indexName a.root.path l.path

/-- Forget some files that are neither among the live ones nor on disk, up to the first
failure. -/
def removeGone (s : Surroundings) (live : List String) :
    List String → Analyzer σ → Except IndexError Unit × Analyzer σ
  | [], a => (.ok (), a)
  | file :: files, a =>
      if live.contains file || s.disk.has (Index.pathOf a.root file) then
        removeGone s live files a
      else
        match a.removeFile file with
        | (.error e, a) => (.error e, a)
        | (.ok (), a) => removeGone s live files a

/-- Bring the whole index in line with the disk, and tell how many files had to be
processed. -/
def indexWorkspace (a : Analyzer σ) (s : Surroundings) : Except IndexError Nat × Analyzer σ :=
  let live := a.liveFiles s
  match removeGone s live a.index.files a with
  | (.error e, a) => (.error e, a)
  | (.ok (), a) =>
      let stale := live.filter (a.index.isStale s.disk ·)
      (.ok stale.length, a.processFiles s stale)

/-- Time as the watcher counts it. -/
def ticks (s : Surroundings) : Nat :=
  s.now.toNat

/-- A change of the disk that the watcher notices. -/
def observe (a : Analyzer σ) (s : Surroundings) (before : Disk) (c : DiskChange) : Analyzer σ :=
  { a with watch := a.watch.map fun w => w.observe before s.disk (ticks s) c }

/-- Process the batch that the loop has handed on, if there is one. -/
def handleBatch (a : Analyzer σ) (s : Surroundings) : Analyzer σ :=
  match a.watch with
  | none => a
  | some w =>
      match w.running with
      | none => a
      | some batch =>
          let a := a.processFiles s batch.files
          { a with watch := some (w.act s.disk (ticks s) .complete) }

/-- Take in all changes that have been reported, if the workspace is watched. -/
def flush (a : Analyzer σ) (s : Surroundings) : Analyzer σ :=
  match a.watch with
  | none => a
  | some w => { a with watch := some (w.flush s.disk (ticks s) 0) }.handleBatch s

/-- Take in what has been reported if nothing has changed for long enough. -/
def tick (a : Analyzer σ) (s : Surroundings) : Analyzer σ :=
  match a.watch with
  | none => a
  | some w => { a with watch := some (w.act s.disk (ticks s) .fire) }.handleBatch s

/-- The chunks most similar to a text, of the given types or else of those that the
settings name. -/
def search (a : Analyzer σ) (s : Surroundings) (query : String) (types : List FileType) :
    Except IndexError (List Hit) × Analyzer σ :=
  let a := a.flush s
  let o : SearchOptions := {
    minSimilarity := a.config.minSimilarity
    maxResults := a.config.maxResults
    fileTypes := if types.isEmpty then a.config.defaultFileTypes else types }
  (a.index.search query o, a)

/-- An identifier names a file that lies in the workspace. -/
def isChunkId (id : String) : Bool :=
  match ChunkId.split? id with
  | some (file, _) => Path.staysInside file
  | none => false

/-- The chunks most similar to a stored chunk, without itself. -/
def findSimilar (a : Analyzer σ) (s : Surroundings) (id : String) :
    Except IndexError (List Hit) × Analyzer σ :=
  if !isChunkId id then (.error (.invalidChunkId id), a)
  else
    let a := a.flush s
    let o : SearchOptions := {
      minSimilarity := a.config.minSimilarity * .ofNat 2
      maxResults := a.config.similarMaxResults
      excluded := some id }
    (a.index.findSimilar id o, a)

/-- What is said of the stored chunk of an identifier. -/
def storedSource (a : Analyzer σ) (id : String) : String :=
  match a.index.chunk? id with
  | .ok (some c) => c.source
  | .ok none => "<source not found for chunk>"
  | .error e => "<processing error: " ++ e.message ++ ">"

/-- The files that have been processed for one request, each with its error. -/
abbrev Refreshed := List (String × Option IndexError)

/-- Process a file unless that has been done for this request, and tell its error. -/
def refresh (a : Analyzer σ) (s : Surroundings) (done : Refreshed) (file : String) :
    Option IndexError × Refreshed × Analyzer σ :=
  match done.lookup file with
  | some e => (e, done, a)
  | none =>
      match a.processFile s file with
      | (.error e, a) => (some e, (file, some e) :: done, a)
      | (.ok (), a) => (none, (file, none) :: done, a)

/-- What is said of one identifier, once its file is in line with the disk. -/
def sourceOf (a : Analyzer σ) (s : Surroundings) (done : Refreshed) (id : String) :
    String × Refreshed × Analyzer σ :=
  match ChunkId.split? id with
  | none => ("<invalid chunk id>", done, a)
  | some (file, _) =>
      if !Path.staysInside file then ("<invalid chunk id>", done, a)
      else
        match a.refresh s done file with
        | (some e, done, a) => ("<processing error: " ++ e.message ++ ">", done, a)
        | (none, done, a) => (a.storedSource id, done, a)

/-- The blocks of some identifiers, behind the files that have been processed already. -/
def sourcesFrom (s : Surroundings) :
    Refreshed → Analyzer σ → List String → List String × Analyzer σ
  | _, a, [] => ([], a)
  | done, a, id :: ids =>
      let (text, done, a) := a.sourceOf s done id
      let (texts, a) := sourcesFrom s done a ids
      (("== " ++ id ++ " ==\n\n" ++ text ++ "\n\n") :: texts, a)

/-- The current sources of some chunks, each under its identifier. What is wrong with one
of them is told in its place. -/
def sources (a : Analyzer σ) (s : Surroundings) (ids : List String) : String × Analyzer σ :=
  let (texts, a) := sourcesFrom s [] a ids
  (String.join texts, a)

/-- How far indexing has got. Files that the watcher has noted count as waiting. -/
def status (a : Analyzer σ) : IndexStatus where
  pending := a.progress.pending + (a.watch.map fun w => w.pending.size).getD 0
  lastIndexed := a.progress.lastIndexed

/-- Stop: nothing is watched and no batch is processed any more. -/
def close (a : Analyzer σ) (s : Surroundings) : Analyzer σ :=
  { a with
    isClosed := true
    watch := a.watch.map fun w => w.close s.disk (ticks s) }

/-- The place that the path of a workspace leads to. -/
def rootOf (s : Surroundings) (path : String) : Except IndexError Location :=
  let refuse := fun (fault : IoFault) => IndexError.invalidPath (path ++ ": " ++ fault.message)
  match s.disk.locate (Path.join s.here.path path) with
  | .error fault => .error (refuse fault)
  | .ok l => if (s.disk.at? l).isSome then .ok l else .error (refuse .notFound)

/-- Watch the workspace from now on, if the settings say so. -/
def beginWatch (a : Analyzer σ) (s : Surroundings) : Analyzer σ :=
  if a.config.watch then
    { a with
      watch := some (.ofRoot s.disk a.root [a.storePath] a.config.debounceSeconds) }
  else a

/-- An analyzer of the workspace at a path, on top of a store. The index is brought in
line with the disk; a failure of that does not keep the analyzer from starting. -/
def withStore (s : Surroundings) (path : String) (config : Config) (store : σ) :
    Except IndexError (Analyzer σ) := do
  let root ← rootOf s path
  match Index.ofStore s.disk root store with
  | .error e => throw (.store e)
  | .ok index =>
      let a : Analyzer σ := { root, config, index }
      return ((a.beginWatch s).indexWorkspace s).2

end Analyzer

end CodeSearch
