import CodeSearch.FileType
import CodeSearch.Glob.Parser

/-!
# Classification of files

A rule gives a type to all paths that its glob matches. The rules shared by all
languages come first, those of a language after them; the first rule that matches
decides, and a path that none matches is source code.
-/
namespace CodeSearch

structure FileTypeRule where
  pattern : String
  fileType : FileType
  deriving DecidableEq, Repr

namespace FileTypeRule

def shared : List FileTypeRule := [
  ⟨"**/tests/**", .tests⟩,
  ⟨"**/test/**", .tests⟩,
  ⟨"**/testdata/**", .tests⟩,
  ⟨"docs/**", .docs⟩,
  ⟨"doc/**", .docs⟩,
  ⟨".git/**", .ignored⟩,
  ⟨"coverage/**", .ignored⟩,
  ⟨".coverage/**", .ignored⟩]

end FileTypeRule

structure InvalidRule where
  pattern : String
  fault : Glob.Fault
  deriving DecidableEq, Repr

/-- The text of the error. -/
def InvalidRule.message (e : InvalidRule) : String :=
  "Invalid file type rule '" ++ e.pattern ++ "': error parsing glob '" ++ e.pattern ++ "': " ++
    e.fault.message

structure Classifier where
  rules : List (Glob × FileType)

namespace Classifier

def readRule (rule : FileTypeRule) : Except InvalidRule (Glob × FileType) :=
  match Glob.parse rule.pattern with
  | .ok g => .ok (g, rule.fileType)
  | .error fault => .error ⟨rule.pattern, fault⟩

/-- The classifier of the shared rules and those of a language. -/
def ofRules (rules : List FileTypeRule) : Except InvalidRule Classifier := do
  return ⟨← (FileTypeRule.shared ++ rules).mapM readRule⟩

/-- Drop every `./` in front of a path. -/
def dropHere : List Char → List Char
  | '.' :: '/' :: cs => dropHere cs
  | cs => cs

/-- The form of a path that the rules are matched against: slashes in place of
backslashes and no `./` in front. -/
def plainPath (path : String) : String :=
  String.ofList (dropHere (path.toList.map fun c => if c = '\\' then '/' else c))

def classify (k : Classifier) (path : String) : FileType :=
  ((k.rules.find? fun rule => rule.1.isMatch (plainPath path)).map (·.2)).getD .src

end Classifier

end CodeSearch
