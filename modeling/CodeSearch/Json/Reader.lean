import CodeSearch.Json.Basic

/-!
# Reading JSON

The grammar is the strict one: no control characters inside strings, no surrogates
that stand alone, no zeros in front of a number, and nothing but blanks behind the
value. Numbers that are infinite in 64 bits are refused, and so are values nested
deeper than `Reader.depthLimit`.
-/
namespace CodeSearch.Json.Reader

/-- How deep arrays and objects may be nested. -/
def depthLimit : Nat := 127

/-- The four characters that may stand between the words. -/
def isGap (c : Char) : Bool :=
  c == ' ' || c == '\t' || c == '\n' || c == '\r'

def skip (cs : List Char) : List Char :=
  cs.dropWhile isGap

/-- The value of a hexadecimal digit. -/
def hexValue? (c : Char) : Option Nat :=
  if '0' ≤ c ∧ c ≤ '9' then some (c.toNat - 48)
  else if 'a' ≤ c ∧ c ≤ 'f' then some (c.toNat - 87)
  else if 'A' ≤ c ∧ c ≤ 'F' then some (c.toNat - 55)
  else none

/-- The value of four hexadecimal digits in front of a text, and the rest. -/
def hexWord? : List Char → Option (Nat × List Char)
  | a :: b :: c :: d :: cs => do
      let n := 4096 * (← hexValue? a) + 256 * (← hexValue? b) + 16 * (← hexValue? c) + (← hexValue? d)
      return (n, cs)
  | _ => none

/-- The character of an escape behind its `u`, and the rest. Two surrogates make one
character. -/
def unicode? (cs : List Char) : Option (Char × List Char) := do
  let (n, cs) ← hexWord? cs
  if 0xDC00 ≤ n ∧ n ≤ 0xDFFF then none
  else if 0xD800 ≤ n ∧ n ≤ 0xDBFF then
    match cs with
    | '\\' :: 'u' :: cs =>
        let (m, cs) ← hexWord? cs
        if 0xDC00 ≤ m ∧ m ≤ 0xDFFF then
          return (Char.ofNat (0x10000 + (n - 0xD800) * 0x400 + (m - 0xDC00)), cs)
        else none
    | _ => none
  else return (Char.ofNat n, cs)

/-- The character of an escape behind its backslash, and the rest. -/
def escape? : List Char → Option (Char × List Char)
  | '"' :: cs => some ('"', cs)
  | '\\' :: cs => some ('\\', cs)
  | '/' :: cs => some ('/', cs)
  | 'b' :: cs => some ('\x08', cs)
  | 'f' :: cs => some ('\x0c', cs)
  | 'n' :: cs => some ('\n', cs)
  | 'r' :: cs => some ('\r', cs)
  | 't' :: cs => some ('\t', cs)
  | 'u' :: cs => unicode? cs
  | _ => none

/-- The characters of a string behind its opening quote, and the rest. -/
def chars? : Nat → List Char → Option (List Char × List Char)
  | 0, _ => none
  | _, [] => none
  | fuel + 1, c :: cs =>
      if c = '"' then some ([], cs)
      else if c = '\\' then do
        let (e, cs) ← escape? cs
        let (text, cs) ← chars? fuel cs
        return (e :: text, cs)
      else if c.toNat < 0x20 then none
      else do
        let (text, cs) ← chars? fuel cs
        return (c :: text, cs)

/-- The string behind an opening quote, and the rest. -/
def string? (cs : List Char) : Option (String × List Char) :=
  (chars? cs.length cs).map fun r => (String.ofList r.1, r.2)

/-- The natural number of some digits. -/
def natOf (digits : List Char) : Nat :=
  digits.foldl (fun n c => 10 * n + (c.toNat - 48)) 0

/-- The digits in front of a text, and the rest. -/
def digits (cs : List Char) : List Char × List Char :=
  (cs.takeWhile Char.isDigit, cs.dropWhile Char.isDigit)

/-- The digits behind the point, if there is one. -/
def fraction? : List Char → Option (List Char × List Char)
  | '.' :: cs =>
      let r := digits cs
      if r.1.isEmpty then none else some r
  | cs => some ([], cs)

/-- The exponent, zero if there is none. -/
def exponent? : List Char → Option (Int × List Char)
  | c :: cs =>
      if c = 'e' || c = 'E' then
        let minus := cs.head? = some '-'
        let r := digits (if minus || cs.head? = some '+' then cs.tail else cs)
        if r.1.isEmpty then none
        else some (if minus then -(natOf r.1 : Int) else natOf r.1, r.2)
      else some (0, c :: cs)
  | [] => some (0, [])

/-- The number in front of a text, and the rest. -/
def number? (cs : List Char) : Option (Decimal × List Char) := do
  let negative := cs.head? = some '-'
  let (whole, cs) := digits (if negative then cs.tail else cs)
  if whole.isEmpty || (1 < whole.length && whole.head? = some '0') then none
  let (behind, cs) ← fraction? cs
  let (exponent, cs) ← exponent? cs
  let d : Decimal := ⟨negative, natOf (whole ++ behind), exponent - behind.length⟩
  if d.fitsDouble then return (d, cs) else none

/-- Drop a word from the front of a text. -/
def word? : List Char → List Char → Option (List Char)
  | [], cs => some cs
  | _ :: _, [] => none
  | w :: ws, c :: cs => if w = c then word? ws cs else none

mutual

/-- The value in front of a text, and the rest. -/
def value? (depth : Nat) : Nat → List Char → Option (Json × List Char)
  | 0, _ => none
  | fuel + 1, cs =>
      match skip cs with
      | [] => none
      | c :: rest =>
          if c = 'n' then (word? "ull".toList rest).map fun cs => (.null, cs)
          else if c = 't' then (word? "rue".toList rest).map fun cs => (.bool true, cs)
          else if c = 'f' then (word? "alse".toList rest).map fun cs => (.bool false, cs)
          else if c = '"' then (string? rest).map fun r => (.string r.1, r.2)
          else if c = '[' then
            match depth, skip rest with
            | 0, _ => none
            | _ + 1, ']' :: cs => some (.array [], cs)
            | depth + 1, cs => (items? depth fuel cs).map fun r => (.array r.1, r.2)
          else if c = '{' then
            match depth, skip rest with
            | 0, _ => none
            | _ + 1, '}' :: cs => some (.object [], cs)
            | depth + 1, cs => (members? depth fuel cs).map fun r => (.object r.1, r.2)
          else (number? (c :: rest)).map fun r => (.number r.1, r.2)

/-- The items of an array from one of them to the closing bracket, and the rest. -/
def items? (depth : Nat) : Nat → List Char → Option (List Json × List Char)
  | 0, _ => none
  | fuel + 1, cs => do
      let (item, cs) ← value? depth fuel cs
      match skip cs with
      | ']' :: cs => return ([item], cs)
      | ',' :: cs =>
          let (items, cs) ← items? depth fuel cs
          return (item :: items, cs)
      | _ => none

/-- The members of an object from one of them to the closing brace, and the rest. -/
def members? (depth : Nat) : Nat → List Char → Option (List (String × Json) × List Char)
  | 0, _ => none
  | fuel + 1, cs => do
      match skip cs with
      | '"' :: cs =>
          let (name, cs) ← string? cs
          match skip cs with
          | ':' :: cs =>
              let (value, cs) ← value? depth fuel cs
              match skip cs with
              | '}' :: cs => return ([(name, value)], cs)
              | ',' :: cs =>
                  let (members, cs) ← members? depth fuel cs
                  return ((name, value) :: members, cs)
              | _ => none
          | _ => none
      | _ => none

end

def parse? (text : List Char) : Option Json := do
  let (j, rest) ← value? depthLimit (2 * text.length + 2) text
  if (skip rest).isEmpty then some j else none

end CodeSearch.Json.Reader
