import CodeSearch.Embedding.Basic
import CodeSearch.Embedding.Words

/-!
# Embedding by hashing

Each token of a text adds weight to the bucket of its own hash and half of it to the
buckets of its trigrams. The weight grows with the square root of the number of times
that the token occurs. The vector is brought to length one, unless it has none.
-/
namespace CodeSearch.Hashing

/-- The number of buckets if nothing else is asked for. -/
def defaultDimensions : Nat := 384

/-- The polynomial hash of the bytes of a text. -/
def hash (base : UInt64) (text : List Char) : UInt64 :=
  (String.ofList text).toUTF8.foldl (fun h b => h * base + b.toUInt64) 0

def bucket (dimensions : Nat) (base : UInt64) (text : List Char) : Nat :=
  (hash base text).toNat % dimensions

/-- The runs of three characters of a text. -/
def trigrams : List Char → List (List Char)
  | a :: b :: c :: cs => [a, b, c] :: trigrams (b :: c :: cs)
  | _ => []

def count (token : List Char) : List (List Char × Nat) → List (List Char × Nat)
  | [] => [(token, 1)]
  | e :: es => if e.1 = token then (token, e.2 + 1) :: es else e :: count token es

/-- The tokens, each once, with the number of times that they occur. -/
def counts (tokens : List (List Char)) : List (List Char × Nat) :=
  tokens.foldl (fun acc t => count t acc) []

def addAt (v : Array Single) (place : Nat) (x : Single) : Array Single :=
  v.modify place (· + x)

/-- Add the weight of a token that occurs `n` times. -/
def addToken (dimensions : Nat) (v : Array Single) (token : List Char) (n : Nat) : Array Single :=
  let weight := (Single.ofNat n).sqrt
  let half := weight * Single.ofRatio false 1 2
  (trigrams token).foldl (fun v t => addAt v (bucket dimensions 37 t) half)
    (addAt v (bucket dimensions 31 token) weight)

def weights (dimensions : Nat) (text : List Char) : Embedding :=
  ((counts (Words.tokens text)).foldl (fun v e => addToken dimensions v e.1 e.2)
    (Array.replicate dimensions Single.zero)).toList

/-- Bring a vector to length one, unless it has none. -/
def normalize (x : Embedding) : Embedding :=
  let length := x.norm
  if Single.zero.below length then x.map (· / length) else x

def embedding (dimensions : Nat) (text : String) : Embedding :=
  normalize (weights dimensions text.toList)

/-- The embedder with a number of buckets, of which there is at least one. -/
def embedder (dimensions : Nat) : Embedder where
  model := "hashing-v1"
  dimensions := max dimensions 1
  embedBatch texts := .ok (texts.map (embedding (max dimensions 1)))

end CodeSearch.Hashing
