import CodeSearch.Text.Letter

/-!
# Words of source text

The words of a text are its runs of letters, digits and underscores. A word that is
put together from several, by underscores or by capital letters, stands for its parts
as well as for itself.
-/
namespace CodeSearch.Words

open CodeSearch.Text

/-- A character that can be part of a word. -/
def isWordChar (c : Char) : Bool :=
  isAlphanumeric c || c == '_'

/-- The runs of word characters behind the reversed characters `run`. -/
def runsFrom (run : List Char) : List Char → List (List Char)
  | [] => if run.isEmpty then [] else [run.reverse]
  | c :: cs =>
      if isWordChar c then runsFrom (c :: run) cs
      else if run.isEmpty then runsFrom [] cs
      else run.reverse :: runsFrom [] cs

/-- The runs of word characters of a text. -/
def runs (text : List Char) : List (List Char) :=
  runsFrom [] text

/-- A new part starts at a capital behind a small letter or a number, and at the
capital of the word behind an acronym. -/
def startsPart (previous : Option Char) (c : Char) (next : Option Char) : Bool :=
  isUpper c && previous.any fun p => isLower p || isNumber p || (isUpper p && next.any isLower)

/-- A finished part, unless it is empty. -/
def finished (part : List Char) : List (List Char) :=
  if part.isEmpty then [] else [part]

/-- The parts of a word behind the character `previous`; `part` is what the current
part has so far. -/
def splitFrom (previous : Option Char) (part : List Char) : List Char → List (List Char)
  | [] => finished part
  | c :: cs =>
      if c = '_' then finished part ++ splitFrom (some c) [] cs
      else if startsPart previous c cs.head? then
        finished part ++ splitFrom (some c) (lowerChar c) cs
      else splitFrom (some c) (part ++ lowerChar c) cs

/-- The parts of a word in lower case. -/
def split (word : List Char) : List (List Char) :=
  splitFrom none [] word

/-- Drop the underscores at both ends. -/
def bare (word : List Char) : List Char :=
  let front := word.dropWhile (· == '_')
  (front.reverse.dropWhile (· == '_')).reverse

/-- How many bytes a text takes. -/
def byteSize (cs : List Char) : Nat :=
  cs.foldl (fun n c => n + c.utf8Size) 0

/-- What a word stands for: its parts, if there are several, and itself. Single
letters stand for nothing. -/
def tokensOf (word : List Char) : List (List Char) :=
  let parts := split word
  let whole := lower (bare word)
  (if 1 < parts.length then parts.filter fun p => 1 < byteSize p else []) ++
    (if 1 < whole.length then [whole] else [])

def tokens (text : List Char) : List (List Char) :=
  (runs text).flatMap tokensOf

end CodeSearch.Words
