import CodeSearch.Json.Reader

/-!
# Words of a TOML document

Blanks, comments, line ends, keys and strings. Every reader takes a text and gives what
it has read with the rest, or nothing if the text is not well formed.
-/
namespace CodeSearch.Toml.Text

/-- A blank within a line. -/
def isBlank (c : Char) : Bool :=
  c == ' ' || c == '\t'

def skipBlanks (cs : List Char) : List Char :=
  cs.dropWhile isBlank

/-- A character that may stand in a comment or a literal string. -/
def isPlain (c : Char) : Bool :=
  c == '\t' || (0x20 ≤ c.toNat && c.toNat != 0x7F)

/-- Drop the newline in front of a text. -/
def newline? : List Char → Option (List Char)
  | '\n' :: cs => some cs
  | '\r' :: '\n' :: cs => some cs
  | _ => none

def skipComment : List Char → List Char
  | '#' :: cs => cs.dropWhile isPlain
  | cs => cs

/-- Drop the blanks and the comment at the end of a line, and its newline unless the
document ends. -/
def lineEnd? (cs : List Char) : Option (List Char) :=
  match skipComment (skipBlanks cs) with
  | [] => some []
  | cs => newline? cs

def skipLayout : Nat → List Char → List Char
  | 0, cs => cs
  | fuel + 1, cs =>
      match newline? (skipComment (skipBlanks cs)) with
      | some cs => skipLayout fuel cs
      | none => skipBlanks cs

def hexNumber? (digits : List Char) : Option Nat :=
  digits.foldlM (fun n c => (Json.Reader.hexValue? c).map (16 * n + ·)) 0

/-- The character with a code of some hexadecimal digits, and the rest. -/
def scalar? (size : Nat) (cs : List Char) : Option (Char × List Char) :=
  if cs.length < size then none
  else do
    let n ← hexNumber? (cs.take size)
    if n < 0xD800 || (0xDFFF < n && n < 0x110000) then
      return (Char.ofNat n, cs.drop size)
    else none

/-- The character of an escape behind its backslash, and the rest. -/
def escape? : List Char → Option (Char × List Char)
  | 'b' :: cs => some ('\x08', cs)
  | 't' :: cs => some ('\t', cs)
  | 'n' :: cs => some ('\n', cs)
  | 'f' :: cs => some ('\x0c', cs)
  | 'r' :: cs => some ('\r', cs)
  | '"' :: cs => some ('"', cs)
  | '\\' :: cs => some ('\\', cs)
  | 'u' :: cs => scalar? 4 cs
  | 'U' :: cs => scalar? 8 cs
  | _ => none

/-- What is read in front of some further text. -/
def before (text : List Char) (r : Option (List Char × List Char)) :
    Option (List Char × List Char) :=
  r.map fun r => (text ++ r.1, r.2)

/-- The characters of a string on one line behind its quote, and the rest. -/
def basic? : Nat → List Char → Option (List Char × List Char)
  | 0, _ => none
  | _, [] => none
  | fuel + 1, c :: cs =>
      if c = '"' then some ([], cs)
      else if c = '\\' then (escape? cs).bind fun e => before [e.1] (basic? fuel e.2)
      else if isPlain c then before [c] (basic? fuel cs)
      else none

/-- The characters of a literal string on one line behind its quote, and the rest. -/
def literal? (cs : List Char) : Option (List Char × List Char) :=
  let stop := fun c => c == '\'' || !isPlain c
  match cs.dropWhile (!stop ·) with
  | '\'' :: rest => some (cs.takeWhile (!stop ·), rest)
  | _ => none

/-- A backslash at the end of a line takes the newline and all blanks behind it away. -/
def joinLines? (fuel : Nat) (cs : List Char) : Option (List Char) :=
  (newline? (skipBlanks cs)).map fun cs =>
    let rec go : Nat → List Char → List Char
      | 0, cs => cs
      | n + 1, cs =>
          match newline? (skipBlanks cs) with
          | some cs => go n cs
          | none => skipBlanks cs
    go fuel cs

/-- The characters of a string on several lines behind its quotes, and the rest. One or
two quotes are characters of the string, also directly before the three that end it. -/
def multiline? (quote : Char) (escapes : Bool) : Nat → List Char → Option (List Char × List Char)
  | 0, _ => none
  | _, [] => none
  | fuel + 1, c :: cs =>
      if c = quote then
        let run := 1 + (cs.takeWhile (· == quote)).length
        let rest := cs.dropWhile (· == quote)
        if run < 3 then before (List.replicate run quote) (multiline? quote escapes fuel rest)
        else if run ≤ 5 then some (List.replicate (run - 3) quote, rest)
        else none
      else if escapes && c = '\\' then
        match joinLines? fuel cs with
        | some cs => multiline? quote escapes fuel cs
        | none => (escape? cs).bind fun e => before [e.1] (multiline? quote escapes fuel e.2)
      else
        match newline? (c :: cs) with
        | some cs => before ['\n'] (multiline? quote escapes fuel cs)
        | none => if isPlain c then before [c] (multiline? quote escapes fuel cs) else none

/-- The content of a string on several lines; a newline directly behind the opening
quotes does not belong to it. -/
def block? (quote : Char) (escapes : Bool) (cs : List Char) : Option (List Char × List Char) :=
  multiline? quote escapes (cs.length + 1) ((newline? cs).getD cs)

def string? : List Char → Option (String × List Char)
  | '"' :: '"' :: '"' :: cs => (block? '"' true cs).map fun r => (String.ofList r.1, r.2)
  | '\'' :: '\'' :: '\'' :: cs => (block? '\'' false cs).map fun r => (String.ofList r.1, r.2)
  | '"' :: cs => (basic? (cs.length + 1) cs).map fun r => (String.ofList r.1, r.2)
  | '\'' :: cs => (literal? cs).map fun r => (String.ofList r.1, r.2)
  | _ => none

/-- A character of a bare key. -/
def isBare (c : Char) : Bool :=
  c.isAlphanum || c == '_' || c == '-'

def keyPart? (cs : List Char) : Option (String × List Char) :=
  match cs with
  | '"' :: cs => (basic? (cs.length + 1) cs).map fun r => (String.ofList r.1, r.2)
  | '\'' :: cs => (literal? cs).map fun r => (String.ofList r.1, r.2)
  | cs =>
      let name := cs.takeWhile isBare
      if name.isEmpty then none else some (String.ofList name, cs.dropWhile isBare)

/-- How many parts a key may have, and how deep values may be nested. -/
def depthLimit : Nat := 79

/-- The parts of a key with dots between them, and the rest; there are at most so many. -/
def key? : Nat → List Char → Option (List String × List Char)
  | 0, _ => none
  | fuel + 1, cs => do
      let (name, cs) ← keyPart? (skipBlanks cs)
      match skipBlanks cs with
      | '.' :: cs =>
          let (names, cs) ← key? fuel cs
          return (name :: names, cs)
      | cs => return ([name], cs)

end CodeSearch.Toml.Text
