import CodeSearch.Text.LetterTable

/-!
# Letters, digits and lower case

Character classes over all of Unicode. ASCII is decided here; everything above
it by the tables. Lower case follows the default mapping, under which one letter
can become two, and a capital sigma at the end of a word becomes the final form.
-/
namespace CodeSearch.Text

/-- The row of a table covers the code point `n`. -/
def inRow (n : Nat) (row : Nat × Nat × Nat) : Bool :=
  row.1 ≤ n && n ≤ row.2.1 && (n - row.1) % row.2.2 == 0

/-- Some row of a table covers the character. -/
def inTable (table : Array (Nat × Nat × Nat)) (c : Char) : Bool :=
  table.any (inRow c.toNat)

/-- A letter, a letter-like mark or a number. -/
def isAlphanumeric (c : Char) : Bool :=
  if c.toNat < 0x80 then c.isAlphanum else inTable Table.alphanumeric c

/-- A character in upper case. -/
def isUpper (c : Char) : Bool :=
  if c.toNat < 0x80 then c.isUpper else inTable Table.uppercase c

/-- A character in lower case. -/
def isLower (c : Char) : Bool :=
  if c.toNat < 0x80 then c.isLower else inTable Table.lowercase c

/-- A digit or another number. -/
def isNumber (c : Char) : Bool :=
  if c.toNat < 0x80 then c.isDigit else inTable Table.number c

/-- A character that has a case, or is one of two forms. -/
def isCased (c : Char) : Bool :=
  if c.toNat < 0x80 then c.isAlpha else inTable Table.cased c

/-- A character that is looked through when the end of a word is sought. -/
def isCaseIgnorable (c : Char) : Bool :=
  if c.toNat < 0x80 then
    c == '\'' || c == '.' || c == ':' || c == '^' || c.toNat == 0x60
  else inTable Table.caseIgnorable c

/-- The lower case of one character. -/
def lowerChar (c : Char) : List Char :=
  if c.toNat < 0x80 then [c.toLower]
  else if c.toNat = 0x130 then ['i', '\u0307']
  else
    match Table.lowering.find? fun row => inRow c.toNat (row.1, row.2.1, row.2.2.1) with
    | some row => [Char.ofNat (row.2.2.2 + (c.toNat - row.1))]
    | none => [c]

/-- The first character that is not looked through has a case. -/
def casedNext (cs : List Char) : Bool :=
  (cs.dropWhile isCaseIgnorable).head?.any isCased

/-- The lower case of the characters behind `before`, which is reversed. -/
def lowerFrom (before : List Char) : List Char → List Char
  | [] => []
  | c :: cs =>
      let image :=
        if c = 'Σ' then [if casedNext before && !casedNext cs then 'ς' else 'σ'] else lowerChar c
      image ++ lowerFrom (c :: before) cs

def lower (cs : List Char) : List Char :=
  lowerFrom [] cs

/-- The ASCII letters of a text in lower case, everything else as it is. -/
def lowerAscii (cs : List Char) : List Char :=
  cs.map Char.toLower

end CodeSearch.Text
