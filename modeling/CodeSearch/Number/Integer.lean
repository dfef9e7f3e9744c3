/-!
# Reading whole numbers

A whole number is written with decimal digits behind an optional sign, and it has to fit
into 64 bits. A number that may not be negative has no minus sign either. The first
fault from the left is the one that counts.
-/
namespace CodeSearch.Integer

inductive Fault where
  | empty
  | invalidDigit
  | tooLarge
  | tooSmall
  deriving DecidableEq, Repr

def Fault.message : Fault → String
  | empty => "cannot parse integer from empty string"
  | invalidDigit => "invalid digit found in string"
  | tooLarge => "number too large to fit in target type"
  | tooSmall => "number too small to fit in target type"

/-- Read digits behind the number `n`, which may grow up to a limit. -/
def digitsFrom (limit : Nat) (beyond : Fault) (n : Nat) : List Char → Except Fault Nat
  | [] => .ok n
  | c :: cs =>
      if !c.isDigit then .error .invalidDigit
      else
        let m := 10 * n + (c.toNat - 48)
        if limit < m then .error beyond else digitsFrom limit beyond m cs

/-- Read digits, of which there is at least one. -/
def digits (limit : Nat) (beyond : Fault) (cs : List Char) : Except Fault Nat :=
  if cs.isEmpty then .error .invalidDigit else digitsFrom limit beyond 0 cs

/-- The greatest number of 64 bits without a sign. -/
def greatestNat : Nat := 18446744073709551615

/-- The greatest number of 64 bits with a sign; the least one lies one further from zero. -/
def greatest : Nat := 9223372036854775807

/-- Read a number of 64 bits without a sign. -/
def parseNat (text : List Char) : Except Fault Nat :=
  match text with
  | [] => .error .empty
  | '+' :: cs => digits greatestNat .tooLarge cs
  | cs => digits greatestNat .tooLarge cs

/-- Read a number of 64 bits with a sign. -/
def parseInt (text : List Char) : Except Fault Int :=
  match text with
  | [] => .error .empty
  | '+' :: cs => (digits greatest .tooLarge cs).map Int.ofNat
  | '-' :: cs => (digits (greatest + 1) .tooSmall cs).map fun n => -(n : Int)
  | cs => (digits greatest .tooLarge cs).map Int.ofNat

end CodeSearch.Integer
