/-!
# Glob patterns

A glob is a sequence of tokens that is matched against the bytes of a whole path.
Single wildcards never match a slash; a double star between slashes matches any
number of directories. A character class stands for single bytes, so a class of a
character outside ASCII matches one of its bytes and not the character.
-/
namespace CodeSearch

inductive Glob.Token where
  | literal (c : Char)
  | anyByte
  | anyInName
  | anyDirsInFront
  | anyDirsBetween
  | anyBehind
  | oneOf (negated : Bool) (ranges : List (Char × Char))
  | either (branches : List (List Glob.Token))
  deriving Repr, Inhabited

/-- A glob is the sequence of its tokens. -/
abbrev Glob := List Glob.Token

namespace Glob

def slash : UInt8 := 47

/-- The UTF-8 bytes of a character. -/
def bytesOf (c : Char) : List UInt8 :=
  c.toString.toUTF8.toList

/-- The byte ranges of one range of characters: the bytes of each end on their own,
and all bytes from the last one of the first end to the first one of the second. -/
def byteRanges (range : Char × Char) : List (UInt8 × UInt8) :=
  let low := bytesOf range.1
  let high := bytesOf range.2
  if range.1 = range.2 then low.map fun b => (b, b)
  else
    (low.dropLast.map fun b => (b, b)) ++ [(low.getLastD 0, high.headD 0)] ++
      (high.tail.map fun b => (b, b))

def inClass (negated : Bool) (ranges : List (Char × Char)) (b : UInt8) : Bool :=
  (ranges.flatMap byteRanges).any (fun r => r.1 ≤ b && b ≤ r.2) != negated

/-- All ends of a text, the whole of it first. -/
def tails : List UInt8 → List (List UInt8)
  | [] => [[]]
  | b :: bs => (b :: bs) :: tails bs

/-- What is left of a text after each of its slashes. -/
def afterSlashes : List UInt8 → List (List UInt8)
  | [] => []
  | b :: bs => if b = slash then bs :: afterSlashes bs else afterSlashes bs

/-- What is left of a text after any number of bytes other than a slash. -/
def withinName : List UInt8 → List (List UInt8)
  | [] => [[]]
  | b :: bs => (b :: bs) :: if b = slash then [] else withinName bs

/-- Drop a text from the front of another one. -/
def dropFront : List UInt8 → List UInt8 → Option (List UInt8)
  | [], bs => some bs
  | _ :: _, [] => none
  | p :: ps, b :: bs => if p = b then dropFront ps bs else none

/-- Keep one of all ends of a text that have the same length. -/
def distinct (ends : List (List UInt8)) : List (List UInt8) :=
  (ends.foldl (fun (acc : List (List UInt8) × List Nat) e =>
    if acc.2.contains e.length then acc else (e :: acc.1, e.length :: acc.2)) ([], [])).1.reverse

mutual

/-- A token that adds nothing to a pattern: branches without content. -/
def isVoid : Token → Bool
  | .either branches => areVoid branches
  | _ => false

/-- All branches add nothing. -/
def areVoid : List (List Token) → Bool
  | [] => true
  | ts :: rest => isVoidSeq ts && areVoid rest

/-- All tokens of a sequence add nothing. -/
def isVoidSeq : List Token → Bool
  | [] => true
  | t :: ts => isVoid t && isVoidSeq ts

end

mutual

/-- What can be left of a text after a token matched at its front. -/
def rests : Token → List UInt8 → List (List UInt8)
  | .literal c, bs => (dropFront (bytesOf c) bs).toList
  | .anyByte, bs =>
      match bs with
      | [] => []
      | b :: rest => if b = slash then [] else [rest]
  | .anyInName, bs => withinName bs
  | .anyDirsInFront, bs => bs :: afterSlashes bs
  | .anyDirsBetween, bs =>
      match bs with
      | [] => []
      | b :: rest => if b = slash then rest :: afterSlashes rest else []
  | .anyBehind, bs =>
      match bs with
      | [] => []
      | b :: rest => if b = slash then tails rest else []
  | .oneOf negated ranges, bs =>
      match bs with
      | [] => []
      | b :: rest => if inClass negated ranges b then [rest] else []
  | .either branches, bs => if areVoid branches then [bs] else restsOfAny branches bs

/-- What can be left after one of some branches; branches without content do not count. -/
def restsOfAny : List (List Token) → List UInt8 → List (List UInt8)
  | [], _ => []
  | ts :: more, bs => (if isVoidSeq ts then [] else restsOfSeq ts [bs]) ++ restsOfAny more bs

/-- What can be left after a sequence of tokens matched at the front of one of some texts. -/
def restsOfSeq : List Token → List (List UInt8) → List (List UInt8)
  | [], texts => texts
  | t :: ts, texts => restsOfSeq ts (distinct (texts.flatMap fun bs => rests t bs))

end

/-- A glob matches all of a path. A glob that is only a double star matches every path. -/
def isMatch (g : Glob) (path : String) : Bool :=
  match g with
  | [.anyDirsInFront] => true
  | g => (restsOfSeq g [path.toUTF8.toList]).any (·.isEmpty)

end Glob

end CodeSearch
