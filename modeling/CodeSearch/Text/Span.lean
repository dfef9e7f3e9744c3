/-!
# Byte offsets in text

Places in a source text are byte offsets into its UTF-8 form. A span can only be
cut out where both of its ends fall between characters. Lines and columns count
from one, and columns count bytes.
-/
namespace CodeSearch

structure Position where
  line : Nat
  column : Nat
  deriving DecidableEq, Repr, Inhabited

namespace Text

/-- The characters behind the first `n` bytes, if these are whole characters. -/
def dropBytes : Nat → List Char → Option (List Char)
  | 0, cs => some cs
  | _ + 1, [] => none
  | n + 1, c :: cs => if c.utf8Size ≤ n + 1 then dropBytes (n + 1 - c.utf8Size) cs else none

/-- The characters that make up the first `n` bytes, if these are whole characters. -/
def takeBytes : Nat → List Char → Option (List Char)
  | 0, _ => some []
  | _ + 1, [] => none
  | n + 1, c :: cs =>
      if c.utf8Size ≤ n + 1 then (takeBytes (n + 1 - c.utf8Size) cs).map (c :: ·) else none

/-- The characters between two byte offsets, if both fall between characters. -/
def slice? (cs : List Char) (start stop : Nat) : Option (List Char) :=
  if start ≤ stop then (dropBytes start cs).bind (takeBytes (stop - start)) else none

/-- The characters between two byte offsets, or nothing. -/
def slice (cs : List Char) (start stop : Nat) : List Char :=
  (slice? cs start stop).getD []

/-- The place `n` bytes behind the place `p`, at which the text starts. -/
def advance (p : Position) : Nat → List Char → Position
  | 0, _ => p
  | _ + 1, [] => p
  | n + 1, c :: cs =>
      if n + 1 < c.utf8Size then ⟨p.line, p.column + (n + 1)⟩
      else if c = '\n' then advance ⟨p.line + 1, 1⟩ (n + 1 - c.utf8Size) cs
      else advance ⟨p.line, p.column + c.utf8Size⟩ (n + 1 - c.utf8Size) cs

/-- The place of a byte offset in a text. -/
def positionAt (cs : List Char) (offset : Nat) : Position :=
  advance ⟨1, 1⟩ offset cs

end Text

end CodeSearch
