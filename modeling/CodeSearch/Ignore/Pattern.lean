import CodeSearch.Glob.Parser
import CodeSearch.Text.Blank

/-!
# Patterns of ignore files

An ignore file has a pattern on each line. A pattern with a slash in it, other than at
its end, belongs to the directory of the file; any other holds at every depth. A `!` in
front takes back what earlier patterns say, and a slash at the end restricts a pattern
to directories. The last pattern that matches decides. A bracket that is not closed
stands for itself. Lines that are no pattern are passed over.
-/
namespace CodeSearch.Ignore

inductive Verdict where
  | ignored
  | kept
  deriving DecidableEq, Repr

structure Pattern where
  glob : Glob
  verdict : Verdict
  directoriesOnly : Bool

/-- The characters that some editors put in front of a file. -/
def byteOrderMark : Char := Char.ofNat 0xFEFF

/-- A line without the blanks at its end, unless the last of them is escaped. -/
def content (line : List Char) : List Char :=
  if line.reverse.take 2 = [' ', '\\'] then line else Text.trimEnd line

/-- A line taken apart: what it says, whether it belongs to the directory of the file,
and the text of its glob, maybe with a slash at the end. -/
def front (line : List Char) : Verdict × Bool × List Char :=
  match line with
  | '\\' :: '!' :: cs => (.ignored, false, '!' :: cs)
  | '\\' :: '#' :: cs => (.ignored, false, '#' :: cs)
  | '!' :: '/' :: cs => (.kept, true, cs)
  | '!' :: cs => (.kept, false, cs)
  | '/' :: cs => (.ignored, true, cs)
  | cs => (.ignored, false, cs)

/-- Take the slash from the end of a glob, and the backslash that may escape it. -/
def dropSlash (glob : List Char) : List Char × Bool :=
  match glob.reverse with
  | '/' :: '\\' :: cs => (cs.reverse, true)
  | '/' :: cs => (cs.reverse, true)
  | _ => (glob, false)

/-- The glob of a pattern that holds at every depth. -/
def anywhere (glob : List Char) : List Char :=
  if "**/".toList.isPrefixOf glob || glob = "**".toList then glob else "**/".toList ++ glob

/-- A glob for all that is in a directory does not match the directory itself. -/
def strictlyInside (glob : List Char) : List Char :=
  if "/**".toList.isSuffixOf glob then glob ++ "/*".toList else glob

def Pattern.parse? (line : List Char) : Option Pattern :=
  if line.head? = some '#' then none
  else
    let line := content line
    if line.isEmpty then none
    else
      let (verdict, fixed, glob) := front line
      let (glob, directoriesOnly) := dropSlash glob
      let glob := if fixed || glob.contains '/' then glob else anywhere glob
      match Glob.parseLenient (String.ofList (strictlyInside glob)) with
      | .ok glob => some { glob, verdict, directoriesOnly }
      | .error _ => none

def patternsOfText (text : List Char) : List Pattern :=
  (Text.lines (text.dropWhile (· == byteOrderMark))).filterMap Pattern.parse?

/-- The bytes of a file line by line, each with its newline. -/
def byteLines : List UInt8 → List (List UInt8)
  | [] => []
  | b :: bs =>
      if b = 10 then [b] :: byteLines bs
      else match byteLines bs with
        | [] => [[b]]
        | l :: ls => (b :: l) :: ls

/-- The lines of a file up to the first that is no text. -/
def readable (bytes : ByteArray) : List Char :=
  let texts := (byteLines bytes.toList).map fun l => String.fromUTF8? ⟨l.toArray⟩
  (texts.takeWhile Option.isSome).flatMap fun t => (t.getD "").toList

def patternsOfFile (bytes : ByteArray) : List Pattern :=
  patternsOfText (readable bytes)

/-- What the last pattern that matches says of a path, given from the directory of the
file. -/
def verdict? (patterns : List Pattern) (path : String) (isDirectory : Bool) : Option Verdict :=
  (patterns.reverse.find? fun p =>
    p.glob.isMatch path && (!p.directoriesOnly || isDirectory)).map (·.verdict)

end CodeSearch.Ignore
