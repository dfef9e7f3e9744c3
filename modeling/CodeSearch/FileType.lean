import CodeSearch.Text.Blank
import CodeSearch.Text.Letter

/-!
# Types of files

Every file of a workspace is source code, a test, documentation, or ignored.
-/
namespace CodeSearch

inductive FileType where
  | src
  | tests
  | docs
  | ignored
  deriving DecidableEq, Repr, Inhabited

namespace FileType

def name : FileType → String
  | src => "src"
  | tests => "tests"
  | docs => "docs"
  | ignored => "ignore"

def ofName? (text : String) : Option FileType :=
  if text = "src" then some src
  else if text = "tests" then some tests
  else if text = "docs" then some docs
  else if text = "ignore" then some ignored
  else none

@[simp] theorem ofName?_name (t : FileType) : ofName? t.name = some t := by
  cases t <;> rfl

/-- A name that is no type, trimmed and in lower case. -/
structure UnknownName where
  name : String
  deriving DecidableEq, Repr

/-- The text of the error. -/
def UnknownName.message (e : UnknownName) : String :=
  "unknown file type '" ++ e.name ++ "'"

/-- Read a type; blanks around its name and the case of ASCII letters are free. -/
def parse (text : String) : Except UnknownName FileType :=
  let name := String.ofList (Text.lowerAscii (Text.trim text.toList))
  match ofName? name with
  | some t => .ok t
  | none => .error ⟨name⟩

end FileType

end CodeSearch
