import CodeSearch.Glob.Basic

/-!
# Reading glob patterns

The reader keeps the tokens of the branch that is open at the moment, reversed,
and below it the groups that are open around it. A double star only crosses
directories where it stands alone between slashes or ends of the pattern.
-/
namespace CodeSearch.Glob

inductive Fault where
  | unclosedClass
  | invalidRange (low high : Char)
  | unclosedGroup
  | unopenedGroup
  | danglingEscape
  deriving DecidableEq, Repr

def Fault.message : Fault → String
  | .unclosedClass => "unclosed character class; missing ']'"
  | .invalidRange low high =>
      "invalid range; '" ++ low.toString ++ "' > '" ++ high.toString ++ "'"
  | .unclosedGroup => "unclosed alternate group; missing '\x7d' (maybe escape '\x7b' with '[\x7b]'?)"
  | .unopenedGroup => "unopened alternate group; missing '\x7b' (maybe escape '\x7d' with '[\x7d]'?)"
  | .danglingEscape => "dangling '\\'"

/-- A group whose end is not yet read: its finished branches and the tokens around
it, all reversed. -/
structure OpenGroup where
  done : List (List Token)
  around : List Token

/-- What becomes of a bracket that no other one closes: it is a fault, or it stands for
itself. Once one has stood for itself, so do all that follow. -/
inductive Brackets where
  | strict
  | lenient
  | plain
  deriving DecidableEq, Repr

/-- Where the reader stands: the reversed tokens of the branch, the open groups
from the inside out, the character just read, and what brackets mean. -/
structure Reading where
  tokens : List Token := []
  groups : List OpenGroup := []
  last : Option Char := none
  brackets : Brackets := .strict

def Reading.push (r : Reading) (t : Token) : Reading :=
  { r with tokens := t :: r.tokens }

/-- The two wildcards that a double star means inside a name. -/
def Reading.pushStars (r : Reading) : Reading :=
  (r.push .anyInName).push .anyInName

/-- The open class while it is read: its reversed ranges, whether a character was
read yet, and whether a dash waits for the end of a range. -/
structure OpenClass where
  ranges : List (Char × Char) := []
  first : Bool := true
  dash : Bool := false

/-- Take one more character into a class. -/
def OpenClass.add (k : OpenClass) (c : Char) : Except Fault OpenClass :=
  match k.dash, k.ranges with
  | true, r :: rs =>
      if c < r.1 then .error (.invalidRange r.1 c)
      else .ok ⟨(r.1, c) :: rs, false, false⟩
  | _, rs => .ok ⟨(c, c) :: rs, false, false⟩

/-- Read a class behind its bracket: its ranges and the text behind it. -/
def readClass (k : OpenClass) : List Char → Except Fault (List (Char × Char) × List Char)
  | [] => .error .unclosedClass
  | c :: cs =>
      if c = ']' && !k.first then
        .ok ((if k.dash then ('-', '-') :: k.ranges else k.ranges).reverse, cs)
      else if c = '-' && !k.first && !k.dash then
        readClass { k with dash := true } cs
      else do
        readClass (← k.add c) cs

theorem readClass_length {k : OpenClass} {cs : List Char} {r : List (Char × Char) × List Char}
    (h : readClass k cs = .ok r) : r.2.length < cs.length + 1 := by
  induction cs generalizing k with
  | nil => simp [readClass] at h
  | cons c cs ih =>
      unfold readClass at h
      split at h
      · cases h; simp only [List.length_cons]; omega
      · split at h
        · have := ih h; simp; omega
        · cases hk : k.add c with
          | error e => simp [hk, bind, Except.bind] at h
          | ok k' =>
              simp only [hk, bind, Except.bind] at h
              have := ih h
              simp; omega

/-- A double star that crosses directories behind other tokens of its branch. It takes the
token in front of it with it, which is mostly a slash, unless that is a double star. -/
def Reading.star (r : Reading) (behind : Bool) : Reading :=
  match r.tokens with
  | .anyDirsInFront :: _ => r
  | .anyBehind :: _ => r
  | _ :: ts => { r with tokens := (if behind then .anyBehind else .anyDirsBetween) :: ts }
  | [] => r

/-- A double star that follows may cross directories: it stands behind a slash or, within
a group, behind a comma or a brace. -/
def Reading.mayCross (r : Reading) : Bool :=
  r.last = some '/' || (!r.groups.isEmpty && (r.last = some ',' || r.last = some '{'))

/-- Read the tokens of a pattern. -/
def read (r : Reading) : List Char → Except Fault Reading
  | [] => .ok r
  | '?' :: cs => read { r.push .anyByte with last := some '?' } cs
  | '\\' :: [] => .error .danglingEscape
  | '\\' :: c :: cs => read { r.push (.literal c) with last := some c } cs
  | '{' :: cs =>
      read { r with tokens := [], groups := ⟨[], r.tokens⟩ :: r.groups, last := some '{' } cs
  | '}' :: cs =>
      match r.groups with
      | [] => .error .unopenedGroup
      | g :: gs =>
          let branches := (r.tokens.reverse :: g.done).reverse
          read { r with tokens := .either branches :: g.around, groups := gs, last := some '}' } cs
  | ',' :: cs =>
      match r.groups with
      | [] => read { r.push (.literal ',') with last := some ',' } cs
      | g :: gs =>
          read { r with tokens := [], groups := ⟨r.tokens.reverse :: g.done, g.around⟩ :: gs,
                        last := some ',' } cs
  | '[' :: cs =>
      let negated := cs.head? = some '!' || cs.head? = some '^'
      let inner := if negated then cs.tail else cs
      if r.brackets = .plain then read { r.push (.literal '[') with last := some '[' } cs
      else match h : readClass {} inner with
      | .error e =>
          if e = .unclosedClass ∧ r.brackets = .lenient then
            read { r.push (.literal '[') with last := some '[', brackets := .plain } cs
          else .error e
      | .ok k =>
          have : k.2.length < cs.length + 1 := by
            have := readClass_length h
            have : inner.length ≤ cs.length := by
              simp only [inner]; split <;> simp
            omega
          read { r.push (.oneOf negated k.1) with last := some ']' } k.2
  | '*' :: '*' :: cs =>
      if r.tokens.isEmpty then
        match cs with
        | [] => read { r.push .anyDirsInFront with last := some '*' } []
        | '/' :: rest => read { r.push .anyDirsInFront with last := some '/' } rest
        | cs => read { r.pushStars with last := some '*' } cs
      else if !r.mayCross then read { r.pushStars with last := some '*' } cs
      else
        match cs with
        | [] => read { r.star true with last := some '*' } []
        | '/' :: rest => read { r.star false with last := some '/' } rest
        | c :: rest =>
            if (c = ',' || c = '}') && !r.groups.isEmpty then
              read { r.star true with last := some '*' } (c :: rest)
            else read { r.pushStars with last := some '*' } (c :: rest)
  | '*' :: cs => read { r.push .anyInName with last := some '*' } cs
  | c :: cs => read { r.push (.literal c) with last := some c } cs
termination_by cs => cs.length

/-- The glob that has been read at the end of a pattern. -/
def Reading.finish (r : Reading) : Except Fault Glob :=
  if r.groups.isEmpty then .ok r.tokens.reverse else .error .unclosedGroup

def parse (text : String) : Except Fault Glob := do
  (← read {} text.toList).finish

/-- Read a glob in which a bracket need not be closed. -/
def parseLenient (text : String) : Except Fault Glob := do
  (← read { brackets := .lenient } text.toList).finish

end CodeSearch.Glob
