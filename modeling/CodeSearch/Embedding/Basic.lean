import CodeSearch.Disk.Fault
import CodeSearch.Number.Single

/-!
# Embeddings

An embedding is a vector that stands for a text; an embedder makes one for each text
of a batch. The similarity of two embeddings is the cosine of their angle, and zero
if one of them has no length.
-/
namespace CodeSearch

/-- A vector that stands for a text. -/
abbrev Embedding := List Single

namespace Embedding

/-- The sum of the products of the numbers that stand at one place. -/
def dot (x y : Embedding) : Single :=
  Single.sum (List.zipWith (· * ·) x y)

/-- The length of a vector. -/
def norm (x : Embedding) : Single :=
  (Single.sum (x.map fun a => a * a)).sqrt

/-- The cosine of the angle between two vectors. -/
def similarity (x y : Embedding) : Single :=
  if x.norm.isZero || y.norm.isZero then .zero else x.dot y / (x.norm * y.norm)

end Embedding

inductive StoreError where
  | io (fault : IoFault)
  | embedding (reason : String)
  | dimensionMismatch (expected actual : Nat)
  | invalidFilter (reason : String)
  deriving DecidableEq, Repr

def StoreError.message : StoreError → String
  | io fault => "IO error: " ++ fault.message
  | embedding reason => "Embedding error: " ++ reason
  | dimensionMismatch expected actual =>
      "Embedding dimension mismatch: expected " ++ expected.repr ++ ", got " ++ actual.repr
  | invalidFilter reason => "Invalid metadata filter: " ++ reason

structure Embedder where
  model : String
  dimensions : Nat
  embedBatch : List String → Except StoreError (List Embedding)

namespace Embedder

/-- The embedding of one text: the last of its batch. -/
def embed (e : Embedder) (text : String) : Except StoreError Embedding := do
  match (← e.embedBatch [text]).getLast? with
  | some x => return x
  | none => throw (.embedding "no embedding returned")

end Embedder

end CodeSearch
