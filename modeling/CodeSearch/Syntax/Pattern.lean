import CodeSearch.Syntax.Tree

/-!
# Patterns of syntax trees

A pattern describes a node and, in order and with gaps, some of its named
children. Every way to fit the children counts as a match of its own, and a match
is the list of the nodes that the pattern captures.
-/
namespace CodeSearch

/-- A pattern of nodes. `field` is the field the node must fill, `adjoining` asks
that no named child is passed over before it, and `captures` is how often the node
is captured. -/
inductive Pattern where
  | node (field : Option String) (adjoining : Bool) (captures : Nat) (kind : Option String)
      (children : List Pattern)
  | either (field : Option String) (adjoining : Bool) (captures : Nat)
      (branches : List Pattern)
  deriving Repr, Inhabited

namespace Pattern

def field : Pattern → Option String
  | .node field .. => field
  | .either field .. => field

def adjoining : Pattern → Bool
  | .node _ adjoining .. => adjoining
  | .either _ adjoining .. => adjoining

/-- A node is of a kind; without a kind, it is any named node that is no error. -/
def fitsKind (kind : Option String) (n : Node) : Bool :=
  n.named && match kind with
    | some k => n.kind == k
    | none => !n.error

/-- A node fills a field; without a field, it is any node. -/
def fillsField (field : Option String) (n : Node) : Bool :=
  field.all fun f => n.field == some f

/-- The children that may fit next, each with the children behind it. The search for
a child with a field ends at an unnamed child that fills the same field. -/
def candidates (field : Option String) (adjoining : Bool) : List Node → List (Node × List Node)
  | [] => []
  | n :: ns =>
      if !n.named then
        if field.isSome && fillsField field n then [] else candidates field adjoining ns
      else
        (if fillsField field n then [(n, ns)] else []) ++
          if adjoining then [] else candidates field adjoining ns

mutual

def matchesAt : Pattern → Node → List (List Node)
  | .node _ _ captures kind children, n =>
      if fitsKind kind n then
        (matchesAmong children n.children).map (List.replicate captures n ++ ·)
      else []
  | .either _ _ captures branches, n =>
      (matchesOfAny branches n).map (List.replicate captures n ++ ·)

def matchesOfAny : List Pattern → Node → List (List Node)
  | [], _ => []
  | p :: ps, n =>
      (if fillsField p.field n then matchesAt p n else []) ++ matchesOfAny ps n

/-- All matches of some patterns, in order, among some neighbouring children. -/
def matchesAmong : List Pattern → List Node → List (List Node)
  | [], _ => [[]]
  | p :: ps, ns =>
      (candidates p.field p.adjoining ns).flatMap fun c =>
        (matchesAt p c.1).flatMap fun front => (matchesAmong ps c.2).map (front ++ ·)

end

/-- The nodes captured at a node by some patterns, match by match. -/
def captured (ps : List Pattern) (n : Node) : List Node :=
  ps.flatMap fun p => (matchesAt p n).flatten

end Pattern

end CodeSearch
