import CodeSearch.Language.Tables
import CodeSearch.Path
import CodeSearch.Text.Letter

/-!
# Supported languages

The language of a file follows from the extension of its name.
-/
namespace CodeSearch

inductive Language where
  | go
  | javaScript
  | python
  | rust
  | typeScript
  | tsx
  deriving DecidableEq, Repr, Inhabited

namespace Language

/-- All languages, in their usual order. -/
def all : List Language :=
  [go, javaScript, python, rust, typeScript, tsx]

def name : Language → String
  | go => "go"
  | javaScript => "javascript"
  | python => "python"
  | rust => "rust"
  | typeScript => "typescript"
  | tsx => "tsx"

def nameOrUnknown (language : Option Language) : String :=
  (language.map name).getD "unknown"

/-- The extensions of a language, without a dot. -/
def extensions : Language → List String
  | go => ["go"]
  | javaScript => ["js", "jsx", "mjs", "cjs"]
  | python => ["py"]
  | rust => ["rs"]
  | typeScript => ["ts"]
  | tsx => ["tsx"]

/-- The language of an extension; its case is free. -/
def ofExtension? (extension : List Char) : Option Language :=
  all.find? (·.extensions.contains (String.ofList (Text.lower extension)))

/-- The language of the file that a path names. -/
def ofPath? (path : String) : Option Language :=
  (Path.extension? path).bind ofExtension?

def table : Language → Table
  | go => .go
  | javaScript => .javaScript
  | python => .python
  | rust => .rust
  | typeScript => .typeScript
  | tsx => .typeScript

end Language

end CodeSearch
