/-!
# Paths

A path is a text whose parts stand between slashes. Empty parts, and parts that
are a single dot, say nothing, except a dot in front of a relative path. Two
paths are compared, cut and ordered by their components, not by their text.
-/
namespace CodeSearch

inductive Component where
  | root
  | current
  | parent
  | normal (name : String)
  deriving DecidableEq, Repr, Inhabited

namespace Path

/-- The texts between the slashes of a path, empty ones included. -/
def parts (path : List Char) : List (List Char) :=
  path.foldr (fun c acc =>
    if c = '/' then [] :: acc
    else match acc with
      | [] => [[c]]
      | part :: rest => (c :: part) :: rest) [[]]

/-- A part that says nothing behind the front of a path. -/
def isIdle (part : List Char) : Bool :=
  part.isEmpty || part == ['.']

def stepOf (part : List Char) : Component :=
  if part = ['.', '.'] then .parent else .normal (String.ofList part)

/-- The steps of the parts behind the front of a path. -/
def steps (ps : List (List Char)) : List Component :=
  (ps.filter (! isIdle ·)).map stepOf

def components (path : String) : List Component :=
  match parts path.toList with
  | [] => []
  | front :: rest =>
      if path.toList.head? = some '/' then .root :: steps rest
      else if front = ['.'] then .current :: steps rest
      else steps (front :: rest)

/-- A path that does not depend on where one stands. -/
def isAbsolute (path : String) : Bool :=
  path.toList.head? = some '/'

/-- The path `inner` seen from the directory `base`. -/
def join (base inner : String) : String :=
  if isAbsolute inner then inner
  else if base.isEmpty then inner
  else if base.toList.getLast? = some '/' then base ++ inner
  else base ++ "/" ++ inner

/-- The steps of `path` start with those of `base`. -/
def isUnder (path base : String) : Bool :=
  (components base).isPrefixOf (components path)

/-- The name of the last step, if that is a name. -/
def fileName? (path : String) : Option String :=
  match (components path).getLast? with
  | some (.normal name) => some name
  | _ => none

/-- What stands behind the last dot of a name, if anything stands before it. -/
def extensionOf? (name : List Char) : Option (List Char) :=
  let behind := name.reverse.takeWhile (· != '.')
  let before := name.reverse.dropWhile (· != '.')
  if before.length ≤ 1 then none else some behind.reverse

/-- The extension of the file that a path names. -/
def extension? (path : String) : Option (List Char) :=
  (fileName? path).bind fun name => extensionOf? name.toList

/-- The path without its last step. -/
def parent (steps : List String) : List String :=
  steps.dropLast

/-- Drop the idle parts in front of a path. -/
def dropIdle : List (List Char) → List (List Char)
  | [] => []
  | p :: ps => if isIdle p then dropIdle ps else p :: ps

/-- The text of some parts with slashes between them. -/
def ofParts (ps : List (List Char)) : List Char :=
  List.intercalate ['/'] ps

/-- Drop the parts that `count` steps take, with the idle parts between them. -/
def dropSteps : Nat → List (List Char) → List (List Char)
  | 0, ps => ps
  | _ + 1, [] => []
  | n + 1, p :: ps => if isIdle p then dropSteps (n + 1) ps else dropSteps n ps

/-- Drop the idle parts at the end of a path. -/
def dropIdleEnd (ps : List (List Char)) : List (List Char) :=
  (dropIdle ps.reverse).reverse

/-- The whole path without idle parts at its end; its front stays. -/
def withoutIdleEnd (path : String) : List Char :=
  match parts path.toList with
  | [] => []
  | p :: ps =>
      if isIdle p then
        let rest := dropIdleEnd ps
        if p.isEmpty && rest.isEmpty then path.toList.take 1 else ofParts (p :: rest)
      else ofParts (dropIdleEnd (p :: ps))

/-- The text of `path` behind the steps of `base`, without slashes at its ends,
if the steps of `path` start with those of `base`. -/
def relative? (base path : String) : Option String :=
  if ! isUnder path base then none
  else
    match components base with
    | [] => some (String.ofList (withoutIdleEnd path))
    | first :: others =>
        let ps := parts path.toList
        let rest := match first with
          | .root | .current => dropSteps others.length ps.tail
          | _ => dropSteps (others.length + 1) ps
        some (String.ofList (ofParts (dropIdleEnd (dropIdle rest))))

/-- The name of a file as the index keeps it: relative to the workspace if it
lies there, and with slashes in place of backslashes. -/
def indexName (root path : String) : String :=
  ((relative? root path).getD path).map fun c => if c = '\\' then '/' else c

/-- A path that stays below the directory it is read from: not empty, not
absolute and without a step upwards. -/
def staysInside (path : String) : Bool :=
  !path.isEmpty && (components path).all fun
    | .normal _ => true
    | .current => true
    | _ => false

end Path

end CodeSearch
