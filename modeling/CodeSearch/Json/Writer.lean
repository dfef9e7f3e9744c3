import CodeSearch.Json.Basic

/-!
# Writing JSON

Values are written on one line without blanks. In strings the quote, the backslash
and control characters are escaped and everything else stands as it is. A single is
written by its shortest numeral, always with a point or an exponent, and `null` if it
is not finite.
-/
namespace CodeSearch.Json.Writer

def hexDigit (n : Nat) : Char :=
  "0123456789abcdef".toList.getD n '0'

/-- A character within a string. -/
def ofChar (c : Char) : List Char :=
  if c = '"' then ['\\', '"']
  else if c = '\\' then ['\\', '\\']
  else if c = '\x08' then ['\\', 'b']
  else if c = '\x0c' then ['\\', 'f']
  else if c = '\n' then ['\\', 'n']
  else if c = '\r' then ['\\', 'r']
  else if c = '\t' then ['\\', 't']
  else if c.toNat < 0x20 then ['\\', 'u', '0', '0', hexDigit (c.toNat / 16), hexDigit (c.toNat % 16)]
  else [c]

def ofString (s : String) : List Char :=
  '"' :: (s.toList.flatMap ofChar ++ ['"'])

/-- The digits of a natural number. -/
def ofNat (n : Nat) : List Char :=
  Nat.toDigits 10 n

/-- The digits of a numeral, the zeros at its end taken off. -/
def plainDigits (d : Decimal) : List Char × Int :=
  let ds := ofNat d.digits
  let zeros := ds.length - (ds.reverse.dropWhile (· == '0')).length
  if d.digits = 0 then (['0'], 0) else (ds.take (ds.length - zeros), d.exponent + zeros)

/-- A numeral with a point or an exponent: with a point while the place of the first
digit lies between the fifth behind the point and the thirteenth before it. -/
def ofDecimal (d : Decimal) : List Char :=
  let (ds, exponent) := plainDigits d
  let place : Int := ds.length + exponent
  let body :=
    if 0 ≤ exponent && place ≤ 13 then ds ++ List.replicate exponent.toNat '0' ++ ['.', '0']
    else if 0 < place && place ≤ 13 then ds.take place.toNat ++ '.' :: ds.drop place.toNat
    else if -5 ≤ place && place ≤ 0 then
      '0' :: '.' :: (List.replicate (-place).toNat '0' ++ ds)
    else
      let power := place - 1
      let shown := (if power < 0 then ['-'] else []) ++ ofNat power.natAbs
      (ds.take 1 ++ (if ds.length = 1 then [] else '.' :: ds.drop 1)) ++ 'e' :: shown
  if d.negative then '-' :: body else body

/-- A single, `null` if it is not finite. -/
def ofSingle (x : Single) : List Char :=
  if x.isFinite then ofDecimal (.shortest x) else "null".toList

def commas (texts : List (List Char)) : List Char :=
  List.intercalate [','] texts

/-- An array of written items. -/
def ofItems (items : List (List Char)) : List Char :=
  '[' :: (commas items ++ [']'])

/-- An object of names and written values. -/
def ofMembers (members : List (String × List Char)) : List Char :=
  '{' :: (commas (members.map fun m => ofString m.1 ++ ':' :: m.2) ++ ['}'])

end CodeSearch.Json.Writer
