/-!
# Syntax trees

A node covers a range of bytes of the source. Named nodes are the constructs of
the language; unnamed ones are keywords and punctuation. Extra nodes, such as
comments, may stand anywhere. A tree is listed in preorder, each node with its
depth.
-/
namespace CodeSearch

structure Node where
  kind : String
  field : Option String := none
  start : Nat
  stop : Nat
  named : Bool := true
  extra : Bool := false
  missing : Bool := false
  error : Bool := false
  children : List Node := []

namespace Node

instance : Inhabited Node := ⟨{ kind := "", start := 0, stop := 0 }⟩

/-- The children that are constructs of the language. -/
def namedChildren (n : Node) : List Node :=
  n.children.filter (·.named)

/-- The first child that fills a field; extra nodes do not count. -/
def childByField? (n : Node) (field : String) : Option Node :=
  n.children.find? fun c => c.field == some field && !c.extra

theorem mem_of_childByField? {n c : Node} {field : String} (h : n.childByField? field = some c) :
    c ∈ n.children :=
  List.mem_of_find?_eq_some h

theorem sizeOf_lt_of_mem {n c : Node} (h : c ∈ n.children) : sizeOf c < sizeOf n := by
  have := List.sizeOf_lt_of_mem h
  cases n
  simp only [Node.mk.sizeOf_spec]
  simp only at this
  omega

/-- Put one more node in front of a listing whose nodes already have their children:
the nodes that lie deeper become its own. -/
def adopt (row : Nat × Node) (listing : List (Nat × Node)) : List (Nat × Node) :=
  let below := listing.takeWhile fun r => row.1 < r.1
  let rest := listing.dropWhile fun r => row.1 < r.1
  (row.1, { row.2 with children := below.map (·.2) }) :: rest

/-- The tree of a listing in preorder, each node without children and with its depth. -/
def ofPreorder? (rows : List (Nat × Node)) : Option Node :=
  (rows.foldr adopt []).head?.map (·.2)

end Node

end CodeSearch
