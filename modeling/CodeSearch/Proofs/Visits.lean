import CodeSearch.Chunk.Extraction
import Mathlib.Data.List.Basic

/-!
# The visits of an extraction

An extraction visits the groups of a level in order, and behind each group those of its
body. Every visit makes one chunk, and what is visited depends on the tree alone. A chunk
asks for a path by the scope that it is visited in, and takes that path or the first
free one with a number.
-/
namespace CodeSearch

namespace Table

def nested (t : Table) (g : Group) : List Section :=
  match t.bodyOf? g with
  | none => []
  | some body => t.outline body

/-- The sections of a level are its groups with what is inside them. -/
lemma outline_eq (t : Table) (scope : Node) :
    t.outline scope = (t.level scope).map fun g => .mk g (t.nested g) := by
  rw [outline]
  simp only [nested]
  conv_rhs => rw [← List.attach_map_subtype_val (t.level scope), List.map_map]
  refine List.map_congr_left fun g _ => ?_
  simp only [Function.comp_apply, Section.mk.injEq, true_and]
  split <;> simp_all

end Table

namespace Extraction

structure Visit where
  group : Group
  scope : String
  path : String

variable (x : Extraction)

def chunkOfVisit (v : Visit) : Chunk :=
  x.chunkOf v.group v.path

/-- The path that a visit asks for. -/
def wanted (v : Visit) : String :=
  Naming.basePath (x.labelOf v.group) x.source v.scope v.group.node

/-- The scope of what is visited inside a group. -/
def scopeInside (v : Visit) : String :=
  Naming.innerScope (x.labelOf v.group) v.scope v.path

/-- The groups of a level are visited in order, each once, and what is inside a group
directly after it. -/
inductive Visits : String → List Group → List Visit → Prop
  | nil {scope : String} : Visits scope [] []
  | leaf {scope : String} {g : Group} {gs : List Group} {v : Visit} {vs : List Visit}
      (hgroup : v.group = g) (hscope : v.scope = scope) (hbody : x.table.bodyOf? g = none)
      (hrest : Visits scope gs vs) : Visits scope (g :: gs) (v :: vs)
  | container {scope : String} {g : Group} {gs : List Group} {body : Node} {v : Visit}
      {inside vs : List Visit} (hgroup : v.group = g) (hscope : v.scope = scope)
      (hbody : x.table.bodyOf? g = some body)
      (hinside : Visits (x.scopeInside v) (x.table.level body) inside)
      (hrest : Visits scope gs vs) : Visits scope (g :: gs) (v :: (inside ++ vs))

/-- Each visit is given the path that it asks for or the first free one with a number,
where `taken` are the paths given before. -/
def Resolves : List String → List Visit → Prop
  | _, [] => True
  | taken, v :: vs => v.path = Naming.freePath taken (x.wanted v) ∧ Resolves (v.path :: taken) vs

lemma resolves_append (taken : List String) (us vs : List Visit) :
    x.Resolves taken (us ++ vs) ↔
      x.Resolves taken us ∧ x.Resolves ((us.map (·.path)).reverse ++ taken) vs := by
  induction us generalizing taken with
  | nil => simp [Resolves]
  | cons u us ih => simp [Resolves, ih, and_assoc]

structure Accounts (scope : String) (taken : List String) (groups : List Group)
    (visits : List Visit) (result : List Chunk × List String) : Prop where
  visited : x.Visits scope groups visits
  resolved : x.Resolves taken visits
  chunks : result.1 = visits.map x.chunkOfVisit
  taken : result.2 = (visits.map (·.path)).reverse ++ taken

/-- The chunks of some sections of a level are made by visits to their groups. Inside a
level the induction is on its groups; what is inside a group is a smaller level. -/
lemma exists_accounts (node : Node) (scope : String) (taken : List String) (groups : List Group)
    (hgroups : ∀ g ∈ groups, g ∈ x.table.level node) :
    ∃ visits, x.Accounts scope taken groups visits
      (x.ofSections scope taken (groups.map fun g => .mk g (x.table.nested g))) := by
  induction groups generalizing taken with
  | nil => exact ⟨[], .nil, trivial, rfl, rfl⟩
  | cons g groups ih =>
    rw [List.forall_mem_cons] at hgroups
    set v : Visit :=
      ⟨g, scope, Naming.freePath taken (Naming.basePath (x.labelOf g) x.source scope g.node)⟩
    have hfront : x.ofSection scope taken (.mk g (x.table.nested g)) =
        (x.chunkOfVisit v :: (x.ofSections (x.scopeInside v) (v.path :: taken)
            (x.table.nested g)).1,
          (x.ofSections (x.scopeInside v) (v.path :: taken) (x.table.nested g)).2) := by
      rw [ofSection]
      rfl
    rw [List.map_cons, ofSections]
    simp only [hfront]
    cases hbody : x.table.bodyOf? g with
    | none =>
      have hnested : x.table.nested g = [] := by rw [Table.nested, hbody]
      obtain ⟨vs, hvs⟩ := ih (v.path :: taken) hgroups.2
      simp only [hnested, ofSections]
      refine ⟨v :: vs, .leaf rfl rfl hbody hvs.visited, ⟨rfl, hvs.resolved⟩, ?_, ?_⟩
      · simp [hvs.chunks]
      · simp [hvs.taken]
    | some body =>
      -- the body is smaller than the node of the level, so its groups are accounted for first
      have hsize := Table.sizeOf_bodyOf_lt hgroups.1 hbody
      have hnested : x.table.nested g =
          (x.table.level body).map fun g => .mk g (x.table.nested g) := by
        rw [Table.nested, hbody, ← Table.outline_eq]
      obtain ⟨inside, hinside⟩ := exists_accounts body (x.scopeInside v) (v.path :: taken)
        (x.table.level body) fun g hg => hg
      rw [← hnested] at hinside
      obtain ⟨vs, hvs⟩ := ih ((inside.map (·.path)).reverse ++ v.path :: taken) hgroups.2
      simp only [hinside.taken, hinside.chunks]
      refine ⟨v :: (inside ++ vs), .container rfl rfl hbody hinside.visited hvs.visited,
        ⟨rfl, ?_⟩, ?_, ?_⟩
      · exact (x.resolves_append _ inside vs).mpr ⟨hinside.resolved, hvs.resolved⟩
      · simp [hvs.chunks]
      · simp [hvs.taken]
termination_by sizeOf node

/-- The chunks of a tree are made by visits to the groups of its levels. -/
theorem exists_visits (root : Node) : ∃ visits, x.Visits "" (x.table.level root) visits ∧
    x.Resolves [] visits ∧ x.chunks root = visits.map x.chunkOfVisit := by
  obtain ⟨visits, h⟩ := x.exists_accounts root "" [] (x.table.level root) fun g hg => hg
  rw [← Table.outline_eq] at h
  exact ⟨visits, h.visited, h.resolved, h.chunks⟩

end Extraction

end CodeSearch
