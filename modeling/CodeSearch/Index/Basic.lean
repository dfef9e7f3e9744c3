import CodeSearch.Chunk.Chunker
import CodeSearch.Disk.Basic
import CodeSearch.Index.Metadata
import CodeSearch.Store.Basic

/-!
# The index of chunks

The index keeps the chunks of a workspace as documents of a store and remembers, for
each file, the type, the path and the reading time of its chunks. The chunks of a file
are only ever replaced together.
-/
namespace CodeSearch

inductive IndexError where
  | io (fault : IoFault)
  | chunker (cause : ChunkError)
  | store (cause : StoreError)
  | config
  | invalidPath (reason : String)
  | invalidChunkId (id : String)
  | chunkNotFound (id : String)
  | corrupt (document : CorruptDocument)
  | watcherStopped
  deriving DecidableEq, Repr

/-- What is wrong with a configuration file. -/
def configReason : String := "the file does not describe a configuration"

def IndexError.message : IndexError → String
  | io fault => "IO error: " ++ fault.message
  | chunker cause => "Chunker error: " ++ cause.message
  | store cause => "Vector store error: " ++ cause.message
  | config => "Invalid config: " ++ configReason
  | invalidPath reason => "Invalid workspace path: " ++ reason
  | invalidChunkId id => "Invalid chunk id: " ++ id
  | chunkNotFound id => "Chunk not found: " ++ id
  | corrupt document => document.message
  | watcherStopped => "Watcher stopped"

/-- The chunks of a workspace in a store, with what is remembered of them for each file. -/
structure Index (σ : Type) where
  root : Location
  store : σ
  cache : Catalog (List CachedChunk) := .empty

namespace Index

variable {σ : Type} [DocumentStore σ]

def pathOf (root : Location) (file : String) : String :=
  Path.join root.path file

def fileFilter (file : String) : Metadata :=
  .ofList [("file", file)]

/-- The identifiers of each file that has one. Identifiers without a file are left out. -/
def byFile (ids : List String) : Catalog (List String) :=
  ids.foldl (fun c id =>
    match ChunkId.split? id with
    | some (file, _) => c.insert file ((c.get? file).getD [] ++ [id])
    | none => c) .empty

/-- What is remembered of the documents of some identifiers. Unreadable ones are left
out. -/
def remembered (store : σ) (ids : List String) : List CachedChunk :=
  ids.filterMap fun id => (DocumentStore.get? store id).bind fun doc => doc.cached.toOption

/-- Take in one file of a store: remember its chunks, or drop them if it is gone. -/
def openFile (d : Disk) (x : Index σ) (file : String × List String) :
    Except StoreError (Index σ) :=
  if d.has (pathOf x.root file.1) then
    .ok { x with cache := x.cache.insert file.1 (remembered x.store file.2) }
  else do
    let (_, store) ← DocumentStore.delete x.store (fileFilter file.1)
    return { x with store }

/-- The index that a store holds. The chunks of files that are gone are dropped. -/
def ofStore (d : Disk) (root : Location) (store : σ) : Except StoreError (Index σ) :=
  (byFile (DocumentStore.ids store)).entries.foldlM (openFile d) { root, store }

/-- A file has to be read again: it is gone, has no chunks, or was written after they
were read. -/
def isStale (d : Disk) (x : Index σ) (file : String) : Bool :=
  match d.modified? (pathOf x.root file) with
  | none => true
  | some written =>
      match (((x.cache.get? file).getD []).map (·.parsedAt)).max? with
      | none => true
      | some parsedAt => parsedAt < written

/-- Forget the chunks of a file. -/
def remove (x : Index σ) (file : String) : Except StoreError (Index σ) := do
  let (_, store) ← DocumentStore.delete x.store (fileFilter file)
  return { x with store, cache := x.cache.erase file }

/-- Put chunks in place of those that a file has. If they cannot be taken in, the file is
left without any. -/
def replace (x : Index σ) (file : ChunkedFile) : Except StoreError Unit × Index σ :=
  match x.remove file.path with
  | .error e => (.error e, x)
  | .ok x =>
      if file.chunks.isEmpty then (.ok (), x)
      else
        match DocumentStore.add x.store (file.chunks.map Chunk.document) with
        | .error e => (.error e, x)
        | .ok store =>
            (.ok (), { x with store, cache := x.cache.insert file.path (file.chunks.map Chunk.cached) })

/-- The files with an entry, in order. -/
def files (x : Index σ) : List String :=
  x.cache.names

def cached (x : Index σ) (file : String) : List CachedChunk :=
  (x.cache.get? file).getD []

/-- The hit of a match above the floor, if its document is readable. -/
def hit? (x : Index σ) (o : SearchOptions) (m : Match) : Option Hit :=
  if m.similarity.below o.minSimilarity then none
  else (DocumentStore.get? x.store m.id).bind fun doc => (doc.hit m.similarity).toOption

/-- The best hits among some matches. -/
def rankMatches (x : Index σ) (o : SearchOptions) (found : List Match) : List Hit :=
  Hit.rank (found.filterMap (x.hit? o)) o

/-- The chunks most similar to a text. -/
def search (x : Index σ) (query : String) (o : SearchOptions) : Except IndexError (List Hit) :=
  match DocumentStore.query x.store query o.candidateCount with
  | .error e => .error (.store e)
  | .ok found => .ok (x.rankMatches o found)

/-- The chunks most similar to a stored chunk. -/
def findSimilar (x : Index σ) (id : String) (o : SearchOptions) : Except IndexError (List Hit) :=
  match DocumentStore.get? x.store id with
  | none => .error (.chunkNotFound id)
  | some doc =>
      match DocumentStore.queryVector x.store doc.embedding o.candidateCount with
      | .error e => .error (.store e)
      | .ok found => .ok (x.rankMatches o found)

/-- The stored chunk of an identifier. -/
def chunk? (x : Index σ) (id : String) : Except IndexError (Option Chunk) :=
  match DocumentStore.get? x.store id with
  | none => .ok none
  | some doc =>
      match doc.chunk with
      | .ok c => .ok (some c)
      | .error e => .error (.corrupt e)

end Index

end CodeSearch
