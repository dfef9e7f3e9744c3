import CodeSearch.Chunk.Basic
import CodeSearch.Number.Single

/-!
# Ranking

A search takes more candidates from the store than it has room for, because some are
of a type that is not wanted. The candidates are put in descending order of their
similarity and read from the top, until one lies below the floor or the room is full.
-/
namespace CodeSearch

structure SearchOptions where
  minSimilarity : Single
  maxResults : Nat
  fileTypes : List FileType := []
  excluded : Option String := none

structure Hit where
  id : String
  fileType : FileType
  summary : String
  firstLine : Nat
  lastLine : Nat
  similarity : Single
  deriving DecidableEq, Repr

namespace SearchOptions

/-- Numbers of candidates are kept in 64 bits. -/
def countLimit : Nat := UInt64.size

/-- How many candidates to ask the store for: room for all results in each wanted type,
and for the chunk that is left out. -/
def candidateCount (o : SearchOptions) : Nat :=
  (max o.fileTypes.length 1 * o.maxResults + o.excluded.toList.length) % countLimit

/-- Chunks of a type are wanted. -/
def allows (o : SearchOptions) (t : FileType) : Bool :=
  o.fileTypes.isEmpty || o.fileTypes.contains t

/-- A candidate above the floor is a result. -/
def admits (o : SearchOptions) (h : Hit) : Bool :=
  o.excluded != some h.id && o.allows h.fileType

end SearchOptions

namespace Hit

/-- At least as similar in the total order. -/
def atLeast (a b : Hit) : Bool :=
  b.similarity.rank ≤ a.similarity.rank

/-- Read candidates from the top while there is room and they do not lie below the
floor. -/
def collect (o : SearchOptions) : Nat → List Hit → List Hit
  | 0, _ => []
  | _, [] => []
  | room + 1, h :: hs =>
      if h.similarity.below o.minSimilarity then []
      else if o.admits h then h :: collect o room hs
      else collect o (room + 1) hs

/-- The results among some candidates. -/
def rank (candidates : List Hit) (o : SearchOptions) : List Hit :=
  collect o o.maxResults (candidates.mergeSort atLeast)

def line (h : Hit) : String :=
  h.id ++ " | " ++ h.summary ++ " [" ++ Chunk.lineRange h.firstLine h.lastLine ++ "]"

/-- Hits with newlines between them. -/
def listing (hits : List Hit) : String :=
  "\n".intercalate (hits.map line)

end Hit

end CodeSearch
