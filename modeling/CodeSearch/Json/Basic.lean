import CodeSearch.Number.Decimal

/-!
# JSON values

Numbers are kept as the numerals they were written as, and the members of an object
in their order, repeated names included.
-/
namespace CodeSearch

inductive Json where
  | null
  | bool (b : Bool)
  | number (d : Decimal)
  | string (s : String)
  | array (items : List Json)
  | object (members : List (String × Json))
  deriving Inhabited, Repr

namespace Json

def string? : Json → Option String
  | string s => some s
  | _ => none

end Json

end CodeSearch
