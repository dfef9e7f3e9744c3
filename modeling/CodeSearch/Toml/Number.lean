import CodeSearch.Number.Integer
import CodeSearch.Toml.Basic
import CodeSearch.Toml.Text

/-!
# Numbers, dates and times of a TOML document

Underscores may stand between digits. Integers have 64 bits; a float must not round to
the positive infinity of 64 bits. Dates are those of the calendar.
-/
namespace CodeSearch.Toml.Number

/-- Digits of a kind with single underscores between them, and the rest. -/
def digits? (isDigit : Char → Bool) : List Char → Option (List Char × List Char)
  | [] => none
  | c :: cs =>
      if !isDigit c then none
      else match cs with
        | '_' :: cs => (digits? isDigit cs).map fun r => (c :: r.1, r.2)
        | d :: cs =>
            if isDigit d then (digits? isDigit (d :: cs)).map fun r => (c :: r.1, r.2)
            else some ([c], d :: cs)
        | [] => some ([c], [])

/-- The sign in front of a number, and the rest. -/
def sign : List Char → Bool × List Char
  | '-' :: cs => (true, cs)
  | '+' :: cs => (false, cs)
  | cs => (false, cs)

/-- Decimal digits without zeros in front, and the rest. -/
def whole? : List Char → Option (List Char × List Char)
  | '0' :: cs => some (['0'], cs)
  | cs => digits? Char.isDigit cs

/-- A number of 64 bits with a sign. -/
def fitted? (n : Int) : Option Toml :=
  if -(Integer.greatest : Int) - 1 ≤ n ∧ n ≤ Integer.greatest then some (.integer n) else none

/-- The number of digits in a base that is not ten, and the rest. -/
def based? (base : Nat) (isDigit : Char → Bool) (cs : List Char) : Option (Toml × List Char) := do
  let (ds, cs) ← digits? isDigit cs
  let n := ds.foldl (fun n c => base * n + (Json.Reader.hexValue? c).getD 0) 0
  return (← fitted? n, cs)

def integer? : List Char → Option (Toml × List Char)
  | '0' :: 'x' :: cs => based? 16 (fun c => (Json.Reader.hexValue? c).isSome) cs
  | '0' :: 'o' :: cs => based? 8 (fun c => '0' ≤ c && c ≤ '7') cs
  | '0' :: 'b' :: cs => based? 2 (fun c => c == '0' || c == '1') cs
  | cs => do
      let (negative, cs) := sign cs
      let (ds, cs) ← whole? cs
      let n : Int := Json.Reader.natOf ds
      return (← fitted? (if negative then -n else n), cs)

/-- The exponent behind its letter, and the rest. -/
def exponent? (cs : List Char) : Option (Int × List Char) := do
  let (negative, cs) := sign cs
  let (ds, cs) ← digits? Char.isDigit cs
  let n : Int := Json.Reader.natOf ds
  return (if negative then -n else n, cs)

/-- The digits behind the point, if there is one, and the exponent, if there is one; at
least one of the two is there. -/
def behind? : List Char → Option (List Char × Int × List Char)
  | '.' :: cs => do
      let (ds, cs) ← digits? Char.isDigit cs
      match cs with
      | 'e' :: cs | 'E' :: cs => (exponent? cs).map fun r => (ds, r)
      | cs => return (ds, 0, cs)
  | 'e' :: cs | 'E' :: cs => (exponent? cs).map fun r => ([], r)
  | _ => none

/-- A float in digits, and the rest. -/
def decimal? (cs : List Char) : Option (Toml × List Char) := do
  let (negative, cs) := sign cs
  let (front, cs) ← whole? cs
  let (back, exponent, cs) ← behind? cs
  let d : Decimal := ⟨negative, Json.Reader.natOf (front ++ back), exponent - back.length⟩
  if d.fitsDouble || negative then return (.float d.toSingle, cs) else none

/-- A float in letters, and the rest. -/
def special? (cs : List Char) : Option (Toml × List Char) :=
  let (negative, cs) := sign cs
  match cs with
  | 'i' :: 'n' :: 'f' :: cs => some (.float (.ofMagnitude negative Single.infinite), cs)
  | 'n' :: 'a' :: 'n' :: cs => some (.float (.ofMagnitude negative 0x7FC00000), cs)
  | _ => none

/-- The number of exactly so many digits, and the rest. -/
def fixed? (size : Nat) (cs : List Char) : Option (Nat × List Char) :=
  let ds := cs.take size
  if ds.length = size && ds.all Char.isDigit then some (Json.Reader.natOf ds, cs.drop size)
  else none

/-- Two digits up to a limit, and the rest. -/
def pair? (low high : Nat) (cs : List Char) : Option (Nat × List Char) := do
  let (n, cs) ← fixed? 2 cs
  if low ≤ n && n ≤ high then return (n, cs) else none

/-- Drop a character from the front of a text. -/
def mark? (c : Char) : List Char → Option (List Char)
  | d :: cs => if c = d then some cs else none
  | [] => none

def daysOf (year month : Nat) : Nat :=
  if month = 2 then
    if year % 4 = 0 && (year % 100 != 0 || year % 400 = 0) then 29 else 28
  else if month = 4 || month = 6 || month = 9 || month = 11 then 30
  else 31

def date? (cs : List Char) : Option (List Char) := do
  let (year, cs) ← fixed? 4 cs
  let (month, cs) ← pair? 1 12 (← mark? '-' cs)
  let (_, cs) ← pair? 1 (daysOf year month) (← mark? '-' cs)
  return cs

/-- Drop a time of day. -/
def time? (cs : List Char) : Option (List Char) := do
  let (_, cs) ← pair? 0 23 cs
  let (_, cs) ← pair? 0 59 (← mark? ':' cs)
  let (_, cs) ← pair? 0 60 (← mark? ':' cs)
  match cs with
  | '.' :: d :: rest => if d.isDigit then return rest.dropWhile Char.isDigit else return cs
  | cs => return cs

/-- Drop the distance from the zero meridian, if it is given. -/
def zone (cs : List Char) : List Char :=
  match cs with
  | 'Z' :: rest | 'z' :: rest => rest
  | '+' :: rest | '-' :: rest =>
      let r := do
        let (_, rest) ← pair? 0 23 rest
        let (_, rest) ← pair? 0 59 (← mark? ':' rest)
        return rest
      r.getD cs
  | cs => cs

/-- A date, a time, or both, and the rest. -/
def moment? (cs : List Char) : Option (Toml × List Char) :=
  match date? cs with
  | some rest =>
      match rest with
      | c :: more =>
          if c = 'T' || c = 't' || c = ' ' then
            match time? more with
            | some rest => some (.moment, zone rest)
            | none => some (.moment, rest)
          else some (.moment, rest)
      | [] => some (.moment, [])
  | none => (time? cs).map fun rest => (.moment, rest)

/-- A number, a date or a time, and the rest. -/
def value? (cs : List Char) : Option (Toml × List Char) :=
  (moment? cs).or ((decimal? cs).or ((special? cs).or (integer? cs)))

end CodeSearch.Toml.Number
