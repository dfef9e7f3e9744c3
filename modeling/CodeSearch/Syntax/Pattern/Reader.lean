import CodeSearch.Syntax.Pattern

/-!
# Reading patterns

A query is a row of patterns: `(kind child ...)`, `(_ child ...)` for any named
node, `[a b]` for either, `field:` in front of a pattern, `.` in front of a child
that must adjoin, and `@name` behind a pattern to capture its node. These are the
forms that the tables use. Predicates, quantifiers and unnamed nodes are not read,
and a name is taken as it stands: which kinds and fields there are is for a grammar
to say.
-/
namespace CodeSearch.Pattern

inductive Word where
  | openNode
  | closeNode
  | openBranches
  | closeBranches
  | adjoin
  | capture (name : List Char)
  | field (name : List Char)
  | name (name : List Char)
  deriving DecidableEq, Repr

/-- Characters that separate words. -/
def isGap (c : Char) : Bool :=
  c == ' ' || c == '\t' || c == '\n' || c == '\r'

/-- A character that may begin a name. -/
def isNameStart (c : Char) : Bool :=
  c.isAlphanum || c == '_' || c == '-'

/-- A character that may go on with a name. -/
def isNamePart (c : Char) : Bool :=
  isNameStart c || c == '.'

/-- Cut a query into words. `none` if a character belongs to no word. -/
def words? : List Char → Option (List Word)
  | [] => some []
  | c :: cs =>
      if isGap c then words? cs
      else if c = '(' then (words? cs).map (.openNode :: ·)
      else if c = ')' then (words? cs).map (.closeNode :: ·)
      else if c = '[' then (words? cs).map (.openBranches :: ·)
      else if c = ']' then (words? cs).map (.closeBranches :: ·)
      else if c = '.' then (words? cs).map (.adjoin :: ·)
      else if c = '@' then
        if cs.head?.any isNameStart then
          (words? (cs.dropWhile isNamePart)).map (.capture (cs.takeWhile isNamePart) :: ·)
        else none
      else if isNameStart c then
        let name := c :: cs.takeWhile isNamePart
        let behind := (cs.dropWhile isNamePart).dropWhile isGap
        if behind.head? = some ':' then (words? behind.tail).map (.field name :: ·)
        else (words? behind).map (.name name :: ·)
      else none
termination_by cs => cs.length
decreasing_by
  all_goals
    simp only [List.length_cons, List.length_tail]
    try have := (List.dropWhile_sublist isNamePart (l := cs)).length_le
    try have := (List.dropWhile_sublist isGap (l := cs.dropWhile isNamePart)).length_le
    omega

/-- The captures in front of some words, and the words behind them. -/
def captures : List Word → Nat × List Word
  | .capture _ :: ws => let r := captures ws; (r.1 + 1, r.2)
  | ws => (0, ws)

def inField (f : String) : Pattern → Pattern
  | .node _ a n k ps => .node (some f) a n k ps
  | .either _ a n ps => .either (some f) a n ps

def adjoined : Pattern → Pattern
  | .node f _ n k ps => .node f true n k ps
  | .either f _ n ps => .either f true n ps

mutual

/-- Read one pattern with its captures, and the words behind it. The fuel bounds the
number of words. -/
def read : Nat → List Word → Option (Pattern × List Word)
  | 0, _ => none
  | fuel + 1, .openNode :: .name k :: ws => do
      let kind := String.ofList k
      let (children, ws) ← readChildren fuel ws
      let (n, ws) := captures ws
      return (.node none false n (if kind = "_" then none else some kind) children, ws)
  | fuel + 1, .openBranches :: ws => do
      let (branches, ws) ← readBranches fuel ws
      if branches.isEmpty then none
      let (n, ws) := captures ws
      return (.either none false n branches, ws)
  | fuel + 1, .field f :: ws => do
      let (p, ws) ← read fuel ws
      return (p.inField (String.ofList f), ws)
  | _ + 1, _ => none

/-- Read the children of a node up to its closing bracket. -/
def readChildren : Nat → List Word → Option (List Pattern × List Word)
  | 0, _ => none
  | _ + 1, .closeNode :: ws => some ([], ws)
  | fuel + 1, .adjoin :: ws => do
      let (p, ws) ← read fuel ws
      let (ps, ws) ← readChildren fuel ws
      return (p.adjoined :: ps, ws)
  | fuel + 1, ws => do
      let (p, ws) ← read fuel ws
      let (ps, ws) ← readChildren fuel ws
      return (p :: ps, ws)

/-- Read branches up to their closing bracket. -/
def readBranches : Nat → List Word → Option (List Pattern × List Word)
  | 0, _ => none
  | _ + 1, .closeBranches :: ws => some ([], ws)
  | fuel + 1, ws => do
      let (p, ws) ← read fuel ws
      let (ps, ws) ← readBranches fuel ws
      return (p :: ps, ws)

end

/-- Read patterns up to the end of the words. -/
def readAll : Nat → List Word → Option (List Pattern)
  | _, [] => some []
  | 0, _ => none
  | fuel + 1, ws => do
      let (p, rest) ← read (2 * ws.length + 1) ws
      let ps ← readAll fuel rest
      return p :: ps

/-- The patterns of a query, or nothing if it is not well formed. -/
def parse? (text : String) : Option (List Pattern) := do
  let ws ← words? text.toList
  readAll ws.length ws

end CodeSearch.Pattern
