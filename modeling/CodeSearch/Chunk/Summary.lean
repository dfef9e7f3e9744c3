import CodeSearch.Text.Blank

/-!
# One-line summaries

The summary of a fragment is its first line that is not blank, trimmed. A line
of more than `Summary.limit` characters is cut so that the ellipsis still fits:
at the last blank before the cut, or hard where no blank occurs.
-/
namespace CodeSearch.Summary

open Text

/-- The greatest length of a summary, its ellipsis included. -/
def limit : Nat := 80

/-- What ends a summary that was cut. -/
def ellipsis : List Char := ['.', '.', '.']

/-- The first trimmed line that has a character left, or nothing. -/
def firstLine (text : List Char) : List Char :=
  (((lines text).map trim).find? (! ·.isEmpty)).getD []

/-- The characters up to the last blank, that blank included. -/
def throughLastBlank (cs : List Char) : List Char :=
  (cs.reverse.dropWhile (! isBlank ·)).reverse

/-- The part of a long line that is kept in front of the ellipsis. A word that
would be cut in two is left out, unless it is the only one. -/
def keep (line : List Char) : List Char :=
  let head := line.take (limit - ellipsis.length)
  let rest := line.drop (limit - ellipsis.length)
  let words := throughLastBlank head
  if rest.head?.any isBlank || words.isEmpty then trimEnd head else trimEnd words

def ofChars (text : List Char) : List Char :=
  let line := firstLine text
  if line.length ≤ limit then line else keep line ++ ellipsis

def summarize (text : String) : String :=
  String.ofList (ofChars text.toList)

end CodeSearch.Summary
