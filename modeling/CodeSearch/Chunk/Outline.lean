import CodeSearch.Language.Table
import CodeSearch.Syntax.Tree

/-!
# The outline of a tree

Which nodes make up the chunks of a file depends on the kinds of the nodes alone.
The named children of a level fall into groups: folded nodes with the node behind
them, and folded nodes on their own where a skipped node or the end of the level
follows. The body of a container is a level of its own, nested in the container's
group.
-/
namespace CodeSearch

/-- Neighbouring nodes that make up one chunk: folded nodes and the node behind them.
`alone` says that the node itself is a folded one. -/
structure Group where
  lead : List Node := []
  node : Node
  alone : Bool := false

inductive Section where
  | mk (group : Group) (nested : List Section)

namespace Group

def lone (n : Node) : Group :=
  { node := n, alone := true }

def first (g : Group) : Node :=
  g.lead.headD g.node

/-- The groups of a level of which the folded nodes `lead` are already read. -/
def ofLevel (t : Table) (lead : List Node) : List Node → List Group
  | [] => lead.map lone
  | n :: ns =>
      if t.skips n.kind then lead.map lone ++ ofLevel t [] ns
      else if t.folds n.kind then ofLevel t (lead ++ [n]) ns
      else { lead := lead, node := n } :: ofLevel t [] ns

theorem node_mem_of_mem_ofLevel {t : Table} {lead ns : List Node} {g : Group}
    (h : g ∈ ofLevel t lead ns) : g.node ∈ lead ∨ g.node ∈ ns := by
  have alone {lead : List Node} (h : g ∈ lead.map lone) : g.node ∈ lead := by
    obtain ⟨n, hn, rfl⟩ := List.mem_map.1 h
    exact hn
  induction ns generalizing lead with
  | nil => exact .inl (alone h)
  | cons n ns ih =>
      unfold ofLevel at h
      split at h
      · rcases List.mem_append.1 h with h | h
        · exact .inl (alone h)
        · rcases ih h with h | h
          · simp at h
          · exact .inr (List.mem_cons_of_mem _ h)
      · split at h
        · rcases ih h with h | h
          · rcases List.mem_append.1 h with h | h
            · exact .inl h
            · simp only [List.mem_singleton] at h
              exact .inr (h ▸ List.mem_cons_self)
          · exact .inr (List.mem_cons_of_mem _ h)
        · rcases List.mem_cons.1 h with h | h
          · subst h; exact .inr List.mem_cons_self
          · rcases ih h with h | h
            · simp at h
            · exact .inr (List.mem_cons_of_mem _ h)

end Group

namespace Table

/-- The node whose body counts for a container: what it declares or defines, if it is
a wrapper, which then must be of a container kind as well. -/
def bodyOwner? (t : Table) (n : Node) : Option Node :=
  if !t.isContainer n.kind then none
  else
    match (n.childByField? "declaration").or (n.childByField? "definition") with
    | none => some n
    | some inner => if t.isContainer inner.kind then some inner else none

/-- The node whose named children are the chunks inside a container. -/
def body? (t : Table) (n : Node) : Option Node :=
  (t.bodyOwner? n).bind (·.childByField? "body")

theorem sizeOf_body_lt {t : Table} {n b : Node} (h : t.body? n = some b) :
    sizeOf b < sizeOf n := by
  obtain ⟨owner, ho, hb⟩ := Option.bind_eq_some_iff.1 h
  have hb := Node.sizeOf_lt_of_mem (Node.mem_of_childByField? hb)
  suffices sizeOf owner ≤ sizeOf n by omega
  unfold bodyOwner? at ho
  split at ho
  · cases ho
  · cases hi : (n.childByField? "declaration").or (n.childByField? "definition") with
    | none =>
        simp only [hi, Option.some.injEq] at ho
        exact ho ▸ Nat.le_refl _
    | some inner =>
        simp only [hi] at ho
        split at ho
        · have same : inner = owner := by simpa using ho
          have : inner ∈ n.children := by
            rcases Option.or_eq_some_iff.1 hi with h | ⟨_, h⟩
            · exact Node.mem_of_childByField? h
            · exact Node.mem_of_childByField? h
          exact same ▸ Nat.le_of_lt (Node.sizeOf_lt_of_mem this)
        · cases ho

/-- The level of chunks inside a group. A folded node on its own holds none. -/
def bodyOf? (t : Table) (g : Group) : Option Node :=
  if g.alone then none else t.body? g.node

/-- The groups of the level whose nodes are the named children of `scope`. -/
def level (t : Table) (scope : Node) : List Group :=
  Group.ofLevel t [] scope.namedChildren

theorem sizeOf_bodyOf_lt {t : Table} {scope b : Node} {g : Group} (hg : g ∈ t.level scope)
    (hb : t.bodyOf? g = some b) : sizeOf b < sizeOf scope := by
  have hn : g.node ∈ scope.children := by
    rcases Group.node_mem_of_mem_ofLevel hg with h | h
    · simp at h
    · exact (List.mem_filter.1 h).1
  have := Node.sizeOf_lt_of_mem hn
  unfold bodyOf? at hb
  split at hb
  · cases hb
  · have := sizeOf_body_lt hb
    omega

/-- The sections of the level below a node. -/
def outline (t : Table) (scope : Node) : List Section :=
  (t.level scope).attach.map fun g =>
    .mk g.1 <|
      match _h : t.bodyOf? g.1 with
      | none => []
      | some body => outline t body
termination_by sizeOf scope
decreasing_by exact sizeOf_bodyOf_lt g.2 (by assumption)

end Table

end CodeSearch
