import CodeSearch.Store.Log

/-!
# The document store

The store embeds the documents that it takes in and answers which of them are most
similar to a text. Every change is written to the log before it is made, if there is a
log; appending to it is taken to succeed. A call that fails changes nothing.
-/
namespace CodeSearch

structure Match where
  id : String
  similarity : Single
  deriving DecidableEq, Repr

namespace Match

/-- More similar documents come first, equally similar ones in the order of their
identifiers. -/
def precedes (a b : Match) : Bool :=
  b.similarity.rank < a.similarity.rank ||
    (a.similarity.rank == b.similarity.rank && a.id ≤ b.id)

end Match

/-- What the index asks of a store of documents. A call that fails leaves the store
as it was. -/
class DocumentStore (σ : Type) where
  /-- Embed documents and take them in; a document of the same identifier is replaced. -/
  add : σ → List Document → Except StoreError σ
  /-- Drop the documents that match a filter and say how many there were. -/
  delete : σ → Metadata → Except StoreError (Nat × σ)
  /-- The document of an identifier. -/
  get? : σ → String → Option StoredDocument
  /-- All identifiers in order. -/
  ids : σ → List String
  /-- The documents most similar to a text, at most so many. -/
  query : σ → String → Nat → Except StoreError (List Match)
  /-- The documents most similar to a vector, at most so many. -/
  queryVector : σ → Embedding → Nat → Except StoreError (List Match)

structure Store where
  embedder : Embedder
  documents : Catalog StoredDocument := .empty
  log : Option Log := none

namespace Store

/-- An empty store without a log. -/
def inMemory (embedder : Embedder) : Store where
  embedder

def ofFile (file : LogFile) (embedder : Embedder) : Except StoreError Store := do
  let (documents, log) ← Log.ofFile file
  return { embedder, documents, log := some log }

/-- Write records to the log and apply them. -/
def commit (s : Store) (records : List Record) : Store :=
  let documents := records.foldl Record.apply s.documents
  { s with documents, log := s.log.map fun l => (l.append records).tidy documents }

/-- A vector has the size that the embedder promises. -/
def checkSize (s : Store) (x : Embedding) : Except StoreError Unit :=
  if x.length = s.embedder.dimensions then .ok ()
  else .error (.dimensionMismatch s.embedder.dimensions x.length)

/-- The embeddings of documents, one of the right size for each. -/
def embedAll (s : Store) (documents : List Document) : Except StoreError (List Embedding) := do
  let vectors ← s.embedder.embedBatch (documents.map (·.content))
  if vectors.length ≠ documents.length then
    throw (.embedding ("expected " ++ documents.length.repr ++ " embeddings, got " ++
      vectors.length.repr))
  vectors.forM s.checkSize
  return vectors

/-- Embed documents and take them in. -/
def add (s : Store) (documents : List Document) : Except StoreError Store :=
  if documents.isEmpty then .ok s
  else do
    let vectors ← s.embedAll documents
    return s.commit (List.zipWith (fun d x => .put { d with embedding := x }) documents vectors)

/-- The identifiers of the documents that match a filter. -/
def matching (s : Store) (filter : Metadata) : List String :=
  (s.documents.values.filter fun d => d.matchesFilter filter).map (·.id)

/-- Drop the documents that match a filter, which must have an entry. -/
def delete (s : Store) (filter : Metadata) : Except StoreError (Nat × Store) :=
  if filter.entries.isEmpty then
    .error (.invalidFilter "refusing to delete with an empty filter")
  else
    let ids := s.matching filter
    if ids.isEmpty then .ok (0, s) else .ok (ids.length, s.commit (ids.map .delete))

/-- Write the log anew, if there is one. -/
def compact (s : Store) : Except StoreError Store :=
  match s.log with
  | none => .ok s
  | some l => do return { s with log := some (← l.renew s.documents) }

/-- How similar each document is to a vector. -/
def matchesOf (s : Store) (x : Embedding) : List Match :=
  s.documents.values.map fun d => ⟨d.id, x.similarity d.embedding⟩

/-- The documents most similar to a vector, at most `count`. -/
def queryVector (s : Store) (x : Embedding) (count : Nat) : Except StoreError (List Match) := do
  s.checkSize x
  return ((s.matchesOf x).mergeSort Match.precedes).take count

/-- The documents most similar to a text, at most `count`. -/
def query (s : Store) (text : String) (count : Nat) : Except StoreError (List Match) := do
  s.queryVector (← s.embedder.embed text) count

instance : DocumentStore Store where
  add := add
  delete := delete
  get? s id := s.documents.get? id
  ids s := s.documents.names
  query := query
  queryVector := queryVector

end Store

end CodeSearch
