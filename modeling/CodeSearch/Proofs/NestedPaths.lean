import CodeSearch.Proofs.Visits
import CodeSearch.Syntax.Pattern.Reader

/-!
# Paths of nested chunks

The chunks around a chunk are those of the containers whose bodies it lies in. Each of them has a
scope, which stands in front of the paths of all chunks inside it. That is its path, with the
number that it may have been given, unless the container is marked: then it is the path without
marker and number. So a path spells out what a chunk is nested in, from the outermost container
inwards, as long as no node is filed under another name.
-/
namespace CodeSearch

namespace Naming

variable {a b c : String}

/-- A path starts with a scope and a separator behind it. An empty scope stands in front of
nothing. -/
def IsWithin (scope path : String) : Prop :=
  scope ≠ "" → (scope ++ separator).toList <+: path.toList

instance (scope path : String) : Decidable (IsWithin scope path) :=
  inferInstanceAs (Decidable (_ → _))

lemma prefix_append (a b : String) : a.toList <+: (a ++ b).toList := by
  rw [String.toList_append]
  exact List.prefix_append _ _

lemma IsWithin.trans (h : IsWithin a b) (h' : IsWithin b c) : IsWithin a c := by
  intro ha
  have hb : b ≠ "" := by
    rintro rfl
    simpa [separator] using h ha
  exact ((h ha).trans (prefix_append b separator)).trans (h' hb)

lemma isWithin_join (scope name : String) : IsWithin scope (join scope name) := by
  intro hscope
  rw [join, if_neg (by simpa using hscope), ChunkId.ofParts]
  exact prefix_append _ _

lemma IsWithin.freePath (h : IsWithin a b) (taken : List String) :
    IsWithin a (freePath taken b) := by
  intro ha
  unfold Naming.freePath
  split
  · split
    · rw [numbered, String.append_assoc]
      exact (h ha).trans (prefix_append _ _)
    · exact h ha
  · exact h ha

end Naming

namespace Table

/-- The query for the name that a kind of node is filed under. -/
def parentQuery? (t : Table) (kind : String) : Option String :=
  (t.namedKind? kind).bind (·.parent)

end Table

namespace Extraction

open Naming

/-- A visit with the visits to the containers around it, the outermost first. -/
structure Nesting where
  around : List Visit
  visit : Visit

/-- The scope inside some containers, each in the one before it, of which the first is visited
in a scope. -/
def scopeWithin (x : Extraction) (scope : String) (around : List Visit) : String :=
  around.foldl (fun _ v => x.scopeInside v) scope

/-- The groups of a level inside some containers are visited in order, and inside a group those of
its body, with the group as one more container around them. -/
inductive Nestings (x : Extraction) : List Visit → List Group → List Nesting → Prop
  | nil {around : List Visit} : Nestings x around [] []
  | leaf {around : List Visit} {g : Group} {gs : List Group} {v : Visit} {ns : List Nesting}
      (hgroup : v.group = g) (hscope : v.scope = x.scopeWithin "" around)
      (hbody : x.table.bodyOf? g = none) (hrest : Nestings x around gs ns) :
      Nestings x around (g :: gs) (⟨around, v⟩ :: ns)
  | container {around : List Visit} {g : Group} {gs : List Group} {body : Node} {v : Visit}
      {inside ns : List Nesting} (hgroup : v.group = g)
      (hscope : v.scope = x.scopeWithin "" around) (hbody : x.table.bodyOf? g = some body)
      (hinside : Nestings x (around ++ [v]) (x.table.level body) inside)
      (hrest : Nestings x around gs ns) :
      Nestings x around (g :: gs) (⟨around, v⟩ :: (inside ++ ns))

/-- The scope path of a container that is visited in a scope: its path, or its bare name behind
the scope if it is marked. -/
def scopePath (x : Extraction) (scope : String) (v : Visit) : String :=
  match x.labelOf v.group with
  | .byName name _ (some _) => join scope name
  | _ => v.path

/-- The scope paths of some containers, each in the one before it. -/
def scopePaths (x : Extraction) (scope : String) : List Visit → List String
  | [] => []
  | v :: vs => x.scopePath scope v :: scopePaths x (x.scopePath scope v) vs

/-- Each visit is to something inside the one before it, and the first is made in a scope. -/
def IsNested (x : Extraction) (scope : String) : List Visit → Prop
  | [] => True
  | v :: vs => v.scope = scope ∧ IsNested x (x.scopeInside v) vs

variable {x : Extraction} {scope : String} {v : Visit} {around visits : List Visit}
  {groups : List Group} {nestings : List Nesting}

lemma isNested_concat : x.IsNested scope (around ++ [v]) ↔
    x.IsNested scope around ∧ v.scope = x.scopeWithin scope around := by
  induction around generalizing scope with
  | nil => simp [IsNested, scopeWithin]
  | cons u us ih => simp [IsNested, ih, scopeWithin, and_assoc]

lemma Visits.exists_nestings (h : x.Visits scope groups visits) :
    ∀ around, x.scopeWithin "" around = scope →
      ∃ nestings, x.Nestings around groups nestings ∧ nestings.map (·.visit) = visits := by
  induction h with
  | nil => exact fun around _ => ⟨[], .nil, rfl⟩
  | leaf hgroup hscope hbody _ ih =>
    intro around haround
    obtain ⟨ns, hns, rfl⟩ := ih around haround
    exact ⟨_, .leaf hgroup (hscope.trans haround.symm) hbody hns, rfl⟩
  | @container scope g gs body v inside vs hgroup hscope hbody _ _ ihinside ihrest =>
    intro around haround
    obtain ⟨within, hwithin, rfl⟩ := ihinside (around ++ [v]) (by simp [scopeWithin])
    obtain ⟨ns, hns, rfl⟩ := ihrest around haround
    refine ⟨_, .container hgroup (hscope.trans haround.symm) hbody hwithin hns, ?_⟩
    rw [List.map_cons, List.map_append]

lemma Nestings.isNested (h : x.Nestings around groups nestings) (haround : x.IsNested "" around) :
    ∀ n ∈ nestings, x.IsNested "" (n.around ++ [n.visit]) := by
  induction h with
  | nil => simp
  | leaf _ hscope _ _ ih =>
    rw [List.forall_mem_cons]
    exact ⟨isNested_concat.mpr ⟨haround, hscope⟩, ih haround⟩
  | container _ hscope _ _ _ ihinside ihrest =>
    have hfirst := isNested_concat.mpr ⟨haround, hscope⟩
    rw [List.forall_mem_cons, List.forall_mem_append]
    exact ⟨hfirst, ihinside hfirst, ihrest haround⟩

/-- What holds of all visits holds of those around one of them. -/
lemma Nestings.forall_around {p : Visit → Prop} (h : x.Nestings around groups nestings)
    (haround : ∀ u ∈ around, p u) (hvisits : ∀ u ∈ nestings.map (·.visit), p u) :
    ∀ n ∈ nestings, ∀ u ∈ n.around ++ [n.visit], p u := by
  have hwith {around : List Visit} {v : Visit} (haround : ∀ u ∈ around, p u) (hv : p v) :
      ∀ u ∈ around ++ [v], p u := by
    rw [List.forall_mem_append, List.forall_mem_singleton]
    exact ⟨haround, hv⟩
  induction h with
  | nil => simp
  | leaf _ _ _ _ ih =>
    rw [List.map_cons, List.forall_mem_cons] at hvisits
    exact List.forall_mem_cons.mpr ⟨hwith haround hvisits.1, ih haround hvisits.2⟩
  | container _ _ _ _ _ ihinside ihrest =>
    rw [List.map_cons, List.map_append, List.forall_mem_cons, List.forall_mem_append] at hvisits
    obtain ⟨hv, hinside, hrest⟩ := hvisits
    refine List.forall_mem_cons.mpr ⟨hwith haround hv, List.forall_mem_append.mpr ⟨?_, ?_⟩⟩
    · exact ihinside (hwith haround hv) hinside
    · exact ihrest haround hrest

lemma exists_freePath_of_resolves {taken : List String} (h : x.Resolves taken visits) :
    ∀ v ∈ visits, ∃ used, v.path = freePath used (x.wanted v) := by
  induction visits generalizing taken with
  | nil => simp
  | cons v vs ih =>
    rw [List.forall_mem_cons]
    exact ⟨⟨taken, h.1⟩, ih h.2⟩

/-- A node of a kind without a query for it is not filed under another name. -/
lemma parent_labelOf {name : String} {parent marker : Option String} {g : Group}
    (hquery : x.table.parentQuery? g.node.kind = none)
    (hlabel : x.labelOf g = .byName name parent marker) : parent = none := by
  unfold labelOf Naming.labelOf at hlabel
  split at hlabel
  · cases hlabel
  split at hlabel
  · cases hlabel
  next k hk =>
  have hparent : k.parent = none := by simpa [Table.parentQuery?, hk] using hquery
  rw [hparent] at hlabel
  split at hlabel
  · cases hlabel
  · simp only [Label.byName.injEq] at hlabel
    exact hlabel.2.1.symm

/-- Such a node asks for a path in its scope, and gets one. -/
lemma isWithin_path (hquery : x.table.parentQuery? v.group.node.kind = none)
    (hpath : ∃ used, v.path = freePath used (x.wanted v)) : IsWithin v.scope v.path := by
  obtain ⟨used, hpath⟩ := hpath
  rw [hpath]
  refine IsWithin.freePath ?_ used
  unfold wanted basePath
  cases hlabel : x.labelOf v.group with
  | byContent => exact isWithin_join _ _
  | byName name parent marker =>
    obtain rfl := parent_labelOf hquery hlabel
    exact isWithin_join _ _

/-- The scope that it hands down is its scope path. -/
lemma scopeInside_eq (hquery : x.table.parentQuery? v.group.node.kind = none) :
    x.scopeInside v = x.scopePath v.scope v := by
  unfold scopeInside innerScope scopePath
  cases hlabel : x.labelOf v.group with
  | byContent => rfl
  | byName name parent marker =>
    obtain rfl := parent_labelOf hquery hlabel
    cases marker <;> rfl

lemma isWithin_scopePath (hquery : x.table.parentQuery? v.group.node.kind = none)
    (hpath : ∃ used, v.path = freePath used (x.wanted v)) :
    IsWithin v.scope (x.scopePath v.scope v) := by
  unfold scopePath
  split
  · exact isWithin_join _ _
  · exact isWithin_path hquery hpath

/-- Each scope path lies within the one before it, and the path of the innermost visit within
the last one. -/
lemma isChain_scopePaths (hnested : x.IsNested scope (around ++ [v]))
    (hquery : ∀ u ∈ around ++ [v], x.table.parentQuery? u.group.node.kind = none)
    (hpath : ∀ u ∈ around ++ [v], ∃ used, u.path = freePath used (x.wanted u)) :
    (scope :: (x.scopePaths scope around ++ [v.path])).IsChain IsWithin := by
  induction around generalizing scope with
  | nil =>
    obtain ⟨rfl, -⟩ := hnested
    simpa [scopePaths] using isWithin_path (hquery v (by simp)) (hpath v (by simp))
  | cons u us ih =>
    obtain ⟨rfl, hnested⟩ := hnested
    rw [List.cons_append, List.forall_mem_cons] at hquery hpath
    rw [scopeInside_eq hquery.1] at hnested
    rw [scopePaths, List.cons_append, List.isChain_cons_cons]
    exact ⟨isWithin_scopePath hquery.1 hpath.1, ih hnested hquery.2 hpath.2⟩

/-- The chunks of a tree are made by visits to the groups of its levels, inside the containers
whose bodies these levels are. Where no node is filed under another name, the path of a chunk
starts with the scope paths of all containers around it, and so does each of these scope paths
with those of the containers further out. -/
theorem paths_spell_out_nesting (x : Extraction) (root : Node) : ∃ nestings : List Nesting,
    x.Nestings [] (x.table.level root) nestings ∧
    x.chunks root = nestings.map (fun n => x.chunkOfVisit n.visit) ∧
    ∀ n ∈ nestings,
      (∀ v ∈ n.around ++ [n.visit], x.table.parentQuery? v.group.node.kind = none) →
      (x.scopePaths "" n.around ++ [n.visit.path]).Pairwise IsWithin := by
  obtain ⟨visits, hvisits, hresolves, hchunks⟩ := x.exists_visits root
  obtain ⟨nestings, hnestings, rfl⟩ := hvisits.exists_nestings [] rfl
  refine ⟨nestings, hnestings, by rw [hchunks, List.map_map]; rfl, fun n hn hquery => ?_⟩
  have hpath := hnestings.forall_around (by simp) (exists_freePath_of_resolves hresolves) n hn
  have hchain := isChain_scopePaths (hnestings.isNested trivial n hn) hquery hpath
  have : Trans IsWithin IsWithin IsWithin := ⟨IsWithin.trans⟩
  exact (List.isChain_iff_pairwise.mp hchain).of_cons

/-- A node with its name in front of its body. -/
def namedNode (kind : String) (start : ℕ) (body : List Node) : Node where
  kind := kind
  start := start
  stop := 5
  children := [
    { kind := "id", field := some "name", start := start, stop := start + 1 },
    { kind := "body", field := some "body", start := start + 1, stop := 5, children := body }]

def fnNode : Node := namedNode "fn" 4 []

/-- A marked container with the function. -/
def implNode : Node := namedNode "impl" 2 [fnNode]

/-- A container with the marked one. -/
def modNode : Node := namedNode "mod" 0 [implNode]

/-- The tree of a source with the containers. -/
def markedRoot : Node := { kind := "file", start := 0, stop := 5, children := [modNode] }

def markedExtraction : Extraction where
  table := {
    named := [
      { kind := "mod", name := "(mod name: (id) @name)" },
      { kind := "impl", name := "(impl name: (id) @name)", marker := some "impl " },
      { kind := "fn", name := "(fn name: (id) @name)" }]
    containers := ["mod", "impl"] }
  compile := Pattern.parse?
  source := "m P f".toList
  file := "a.rs"
  fileType := .src
  parsedAt := 0

lemma Nestings.of_container {g : Group} {body : Node} (h : x.Nestings around [g] nestings)
    (hbody : x.table.bodyOf? g = some body) : ∃ v inside, v.group = g ∧
      nestings = ⟨around, v⟩ :: inside ∧
      x.Nestings (around ++ [v]) (x.table.level body) inside := by
  cases h with
  | leaf _ _ hnone _ =>
    rw [hbody] at hnone
    cases hnone
  | container hgroup _ hsome hinside hrest =>
    obtain rfl := Option.some.inj (hbody.symm.trans hsome)
    cases hrest
    exact ⟨_, _, hgroup, by rw [List.append_nil], hinside⟩

lemma Nestings.of_leaf {g : Group} (h : x.Nestings around [g] nestings)
    (hbody : x.table.bodyOf? g = none) : ∃ v, v.group = g ∧ nestings = [⟨around, v⟩] := by
  cases h with
  | leaf hgroup _ _ hrest =>
    cases hrest
    exact ⟨_, hgroup, rfl⟩
  | container _ _ hsome _ _ =>
    rw [hbody] at hsome
    cases hsome

/-- The path of the function has the scope paths of both containers in front. -/
theorem function_spells_out_containers : ∃ m p f : Visit,
    markedExtraction.Nestings [] (markedExtraction.table.level markedRoot)
      [⟨[], m⟩, ⟨[m], p⟩, ⟨[m, p], f⟩] ∧
    (∀ v ∈ [m, p, f], markedExtraction.table.parentQuery? v.group.node.kind = none) ∧
    p.path = "m::impl P" ∧ markedExtraction.scopePaths "" [m, p] = ["m", "m::P"] ∧
    f.path = "m::P::f" ∧ ["m", "m::P", "m::P::f"].Pairwise IsWithin := by
  obtain ⟨nestings, hnestings, hchunks, hwithin⟩ :=
    paths_spell_out_nesting markedExtraction markedRoot
  obtain ⟨m, inside, hm, rfl, hmod⟩ := hnestings.of_container (g := { node := modNode }) rfl
  obtain ⟨p, inside, hp, rfl, himpl⟩ := hmod.of_container (g := { node := implNode }) rfl
  obtain ⟨f, hf, rfl⟩ := himpl.of_leaf (g := { node := fnNode }) rfl
  have hpaths : (markedExtraction.chunks markedRoot).map (·.path) =
      ["m", "m::impl P", "m::P::f"] := by decide +kernel
  rw [hchunks] at hpaths
  simp only [List.map_cons, List.map_nil, List.cons.injEq] at hpaths
  obtain ⟨hmpath, hppath, hfpath, -⟩ := hpaths
  have hquery : ∀ v ∈ [m, p, f], markedExtraction.table.parentQuery? v.group.node.kind = none := by
    simp only [List.forall_mem_cons, hm, hp, hf]
    decide
  have hlabels : markedExtraction.labelOf { node := modNode } = .byName "m" none none ∧
      markedExtraction.labelOf { node := implNode } = .byName "P" none (some "impl ") := by
    decide +kernel
  have hscopes : markedExtraction.scopePaths "" [m, p] = ["m", "m::P"] := by
    have hmscope : markedExtraction.scopePath "" m = "m" := by
      rw [scopePath, hm, hlabels.1]
      exact hmpath
    rw [scopePaths, scopePaths, scopePaths, hmscope, scopePath, hp, hlabels.2]
    rfl
  have hspelt := hwithin ⟨[m, p], f⟩ (by simp) hquery
  rw [hscopes] at hspelt
  refine ⟨m, p, f, hnestings, hquery, hppath, hscopes, hfpath, ?_⟩
  exact (show f.path = "m::P::f" from hfpath) ▸ hspelt

end Extraction

end CodeSearch
