import CodeSearch.Proofs.Groups
import CodeSearch.Proofs.Segments
import CodeSearch.Proofs.TextPlaces

/-!
# Nested spans

A chunk spans from the start of the first node of its group to the end of the last. In a tree
whose nodes lie in order and apart, the spans of the chunks do so as well, except that a
container spans what is nested in it.
-/
namespace CodeSearch

namespace Node

/-- Something holds of a node and of everything below it. -/
inductive Everywhere (p : Node → Prop) : Node → Prop
  | intro {n : Node} (here : p n) (below : ∀ c ∈ n.children, Everywhere p c) : Everywhere p n

/-- The children of a node lie in its range, and they start in order. -/
@[mk_iff]
structure HasOrderedChildren (n : Node) : Prop where
  range : n.start ≤ n.stop
  inside : ∀ c ∈ n.children, n.start ≤ c.start ∧ c.stop ≤ n.stop
  ordered : n.children.Pairwise fun a b => a.start ≤ b.start

/-- Each of them also ends before the next one starts. -/
@[mk_iff]
structure HasDisjointChildren (n : Node) : Prop extends n.HasOrderedChildren where
  disjoint : n.children.Pairwise fun a b => a.stop ≤ b.start

variable {p q : Node → Prop} {n c : Node}

lemma Everywhere.here (h : n.Everywhere p) : p n := by
  cases h
  assumption

lemma Everywhere.child (h : n.Everywhere p) (hc : c ∈ n.children) : c.Everywhere p := by
  cases h with
  | intro _ below => exact below c hc

lemma everywhere_mk {kind : String} {field : Option String} {start stop : ℕ}
    {named extra missing error : Bool} {children : List Node} :
    (mk kind field start stop named extra missing error children).Everywhere p ↔
      p (mk kind field start stop named extra missing error children) ∧
        ∀ c ∈ children, c.Everywhere p :=
  ⟨fun h => ⟨h.here, fun _ hc => h.child hc⟩, fun h => .intro h.1 h.2⟩

lemma Everywhere.mono (h : n.Everywhere p) (hpq : ∀ n, p n → q n) : n.Everywhere q := by
  induction h with
  | intro here _ ih => exact .intro (hpq _ here) ih

end Node

namespace Group

def start (g : Group) : ℕ :=
  g.first.start

/-- Where the chunk of a group ends. -/
def stop (g : Group) : ℕ :=
  g.node.stop

lemma first_mem_nodes (g : Group) : g.first ∈ g.nodes :=
  List.mem_of_mem_head? g.head?_nodes

lemma node_mem_nodes (g : Group) : g.node ∈ g.nodes :=
  List.mem_of_mem_getLast? g.getLast?_nodes

end Group

namespace Table

variable (t : Table) {scope b n : Node} {g : Group} {p : Node → Prop}

/-- The groups of a level hold children of its node, in their order. -/
lemma sublist_children (scope : Node) :
    ((t.level scope).flatMap Group.nodes).Sublist scope.children := by
  obtain ⟨pieces, h⟩ := exists_pieces (t := t) [] scope.namedChildren (by simp)
  rw [List.nil_append] at h
  have hnodes : (t.level scope).flatMap Group.nodes =
      scope.namedChildren.filter fun n => !t.skips n.kind := h.flatMap_groups
  rw [hnodes]
  exact List.filter_sublist.trans List.filter_sublist

variable {t}

lemma mem_children (hg : g ∈ t.level scope) (hn : n ∈ g.nodes) : n ∈ scope.children :=
  (t.sublist_children scope).subset (List.mem_flatMap_of_mem hg hn)

/-- What holds of the children of a node in their order holds inside each group of its level
and from group to group. -/
lemma pairwise_nodes {R : Node → Node → Prop} (h : scope.children.Pairwise R) :
    (∀ g ∈ t.level scope, g.nodes.Pairwise R) ∧
      (t.level scope).Pairwise fun g g' => ∀ m ∈ g.nodes, ∀ n ∈ g'.nodes, R m n :=
  List.pairwise_flatMap.mp (h.sublist (t.sublist_children scope))

/-- A group starts no later than its last node. -/
lemma start_le (h : scope.HasOrderedChildren) (hg : g ∈ t.level scope) :
    g.start ≤ g.node.start := by
  have hnodes := (pairwise_nodes h.ordered).1 g hg
  rw [Group.start, Group.first]
  rw [Group.nodes, List.pairwise_append] at hnodes
  cases hlead : g.lead with
  | nil => exact le_rfl
  | cons first lead => exact hnodes.2.2 first (by simp [hlead]) g.node (by simp)

/-- The body of a container is a child of the container or of what it wraps. -/
lemma exists_owner (h : t.bodyOf? g = some b) :
    ∃ owner, (owner = g.node ∨ owner ∈ g.node.children) ∧ b ∈ owner.children := by
  unfold bodyOf? at h
  split at h
  · cases h
  obtain ⟨owner, howner, hbody⟩ := Option.bind_eq_some_iff.mp h
  refine ⟨owner, ?_, Node.mem_of_childByField? hbody⟩
  unfold bodyOwner? at howner
  split at howner
  · cases howner
  split at howner
  · exact .inl (Option.some.inj howner).symm
  · next inner hinner =>
    split at howner
    · obtain rfl := Option.some.inj howner
      rcases Option.or_eq_some_iff.mp hinner with h | ⟨-, h⟩
      · exact .inr (Node.mem_of_childByField? h)
      · exact .inr (Node.mem_of_childByField? h)
    · cases howner

lemma everywhere_body (h : g.node.Everywhere p) (hb : t.bodyOf? g = some b) : b.Everywhere p := by
  obtain ⟨owner, rfl | howner, hmem⟩ := exists_owner hb
  · exact h.child hmem
  · exact (h.child howner).child hmem

/-- The body of a container lies in its range. -/
lemma body_inside (h : g.node.Everywhere Node.HasOrderedChildren) (hb : t.bodyOf? g = some b) :
    g.node.start ≤ b.start ∧ b.stop ≤ g.node.stop := by
  obtain ⟨owner, rfl | howner, hmem⟩ := exists_owner hb
  · exact h.here.inside b hmem
  · have houter := h.here.inside owner howner
    have hinner := (h.child howner).here.inside b hmem
    omega

end Table

/-- A group with its address: its number in its level, behind the numbers of the groups that
it lies in. -/
structure Place where
  address : List ℕ
  group : Group

namespace Place

/-- The place seen from outside the group with a number. -/
def below (n : ℕ) (p : Place) : Place :=
  ⟨n :: p.address, p.group⟩

/-- One place comes in front of another one. Its span holds that of the other if the other
lies in its group, and ends in front of it if not. -/
structure Nests (p q : Place) : Prop where
  before : p.address < q.address
  holds : p.address <+: q.address → p.group.start ≤ q.group.start ∧ q.group.stop ≤ p.group.stop
  apart : ¬ p.address <+: q.address → p.group.stop ≤ q.group.start

lemma Nests.below {p q : Place} (h : p.Nests q) (n : ℕ) : (p.below n).Nests (q.below n) where
  before := List.cons_lt_cons_iff.mpr (.inr ⟨rfl, h.before⟩)
  holds hprefix := h.holds (List.cons_prefix_cons.mp hprefix).2
  apart hprefix := h.apart fun h => hprefix (List.cons_prefix_cons.mpr ⟨rfl, h⟩)

end Place

/-- The group at an address. Each number leads on through the body of the group before. -/
def Table.groupAt? (t : Table) (scope : Node) : List ℕ → Option Group
  | [] => none
  | n :: rest => (t.level scope)[n]?.bind fun g =>
      if rest.isEmpty then some g else (t.bodyOf? g).bind fun body => t.groupAt? body rest

namespace Section

def group : Section → Group
  | .mk g _ => g

mutual

/-- The places of a section, seen from its own group. -/
def places : Section → List Place
  | .mk g nested => ⟨[], g⟩ :: placesOfAll 0 nested

/-- The places of sections of which the first has a number. -/
def placesOfAll (n : ℕ) : List Section → List Place
  | [] => []
  | s :: ss => s.places.map (Place.below n) ++ placesOfAll (n + 1) ss

end

mutual

lemma map_group_places : ∀ s : Section, s.places.map (·.group) = s.groups
  | .mk g nested => by rw [places, groups, List.map_cons, map_group_placesOfAll 0 nested]

lemma map_group_placesOfAll (n : ℕ) :
    ∀ ss : List Section, (placesOfAll n ss).map (·.group) = groupsOfAll ss
  | [] => rfl
  | s :: ss => by
    rw [placesOfAll, groupsOfAll, List.map_append, List.map_map, map_group_placesOfAll (n + 1) ss,
      ← map_group_places s]
    rfl

end

lemma exists_of_mem_placesOfAll {n : ℕ} {ss : List Section} {p : Place}
    (hp : p ∈ placesOfAll n ss) :
    ∃ (m : ℕ) (s : Section), ss[m]? = some s ∧ ∃ q ∈ s.places, Place.below (n + m) q = p := by
  induction ss generalizing n with
  | nil => cases hp
  | cons s ss ih =>
    rcases List.mem_append.mp hp with hp | hp
    · obtain ⟨q, hq, rfl⟩ := List.mem_map.mp hp
      exact ⟨0, s, rfl, q, hq, rfl⟩
    · obtain ⟨m, s', hs', q, hq, rfl⟩ := ih hp
      exact ⟨m + 1, s', hs', q, hq, by rw [Nat.add_right_comm, Nat.add_assoc]⟩

mutual

/-- A section lies between two offsets, and what is nested in it lies in its own span. -/
def Lies (low high : ℕ) : Section → Prop
  | .mk g nested => low ≤ g.start ∧ g.start ≤ g.stop ∧ g.stop ≤ high ∧ AllLie g.start g.stop nested

/-- Sections lie between two offsets, one behind the other. -/
def AllLie (low high : ℕ) : List Section → Prop
  | [] => True
  | s :: ss => s.Lies low high ∧ AllLie s.group.stop high ss

end

lemma AllLie.mono {low low' high high' : ℕ} {ss : List Section} (h : AllLie low high ss)
    (hlow : low' ≤ low) (hhigh : high ≤ high') : AllLie low' high' ss := by
  induction ss generalizing low low' with
  | nil => trivial
  | cons s ss ih =>
    obtain ⟨g, nested⟩ := s
    obtain ⟨⟨hstart, hspan, hstop, hnested⟩, hrest⟩ := h
    exact ⟨⟨hlow.trans hstart, hspan, hstop.trans hhigh, hnested⟩, ih hrest le_rfl⟩

/-- Places whose spans lie between two offsets, each nested in those before it or behind
them. -/
structure Laid (low high : ℕ) (ps : List Place) : Prop where
  within : ∀ p ∈ ps, low ≤ p.group.start ∧ p.group.start ≤ p.group.stop ∧ p.group.stop ≤ high
  nest : ps.Pairwise Place.Nests

mutual

lemma laid_places {low high : ℕ} :
    ∀ s : Section, s.Lies low high → Laid s.group.start s.group.stop s.places
  | .mk g nested, ⟨_, hspan, _, hnested⟩ => by
    have hinside := laid_placesOfAll 0 nested hnested
    refine ⟨List.forall_mem_cons.mpr ⟨⟨le_rfl, hspan, le_rfl⟩, hinside.within⟩,
      List.pairwise_cons.mpr ⟨fun q hq => ?_, hinside.nest⟩⟩
    obtain ⟨m, s, -, r, -, rfl⟩ := exists_of_mem_placesOfAll hq
    obtain ⟨hstart, -, hstop⟩ := hinside.within _ hq
    exact ⟨List.nil_lt_cons _ _, fun _ => ⟨hstart, hstop⟩, fun h => absurd List.nil_prefix h⟩

lemma laid_placesOfAll {low high : ℕ} (n : ℕ) :
    ∀ ss : List Section, AllLie low high ss → Laid low high (placesOfAll n ss)
  | [], _ => ⟨by simp [placesOfAll], by simp [placesOfAll]⟩
  | s :: ss, ⟨hs, hss⟩ => by
    have hfront := laid_places s hs
    have hback := laid_placesOfAll (n + 1) ss hss
    obtain ⟨hlow, hspan, hhigh⟩ : low ≤ s.group.start ∧ s.group.start ≤ s.group.stop ∧
        s.group.stop ≤ high := by
      obtain ⟨g, nested⟩ := s
      exact ⟨hs.1, hs.2.1, hs.2.2.1⟩
    refine ⟨fun p hp => ?_, List.pairwise_append.mpr ⟨?_, hback.nest, fun p hp q hq => ?_⟩⟩
    · rcases List.mem_append.mp hp with hp | hp
      · obtain ⟨q, hq, rfl⟩ := List.mem_map.mp hp
        obtain ⟨hstart, hq, hstop⟩ := hfront.within q hq
        exact ⟨hlow.trans hstart, hq, hstop.trans hhigh⟩
      · obtain ⟨hstart, hp, hstop⟩ := hback.within p hp
        exact ⟨(hlow.trans hspan).trans hstart, hp, hstop⟩
    · exact List.pairwise_map.mpr (hfront.nest.imp fun h => h.below n)
    · -- the number in front of the address is greater behind the section
      obtain ⟨p, hsection, rfl⟩ := List.mem_map.mp hp
      have hstart := (hback.within q hq).1
      have hstop := (hfront.within p hsection).2.2
      obtain ⟨m, s', -, r, -, rfl⟩ := exists_of_mem_placesOfAll hq
      have hless : n < n + 1 + m := by omega
      refine ⟨List.cons_lt_cons_iff.mpr (.inl hless), fun h => ?_, fun _ => hstop.trans hstart⟩
      exact absurd (List.cons_prefix_cons.mp h).1 hless.ne

end

end Section

namespace Table

variable {t : Table}

lemma allLie_map {low high : ℕ} {gs : List Group} (hlow : ∀ g ∈ gs, low ≤ g.start)
    (hgs : ∀ g ∈ gs, g.start ≤ g.stop ∧ g.stop ≤ high ∧
      Section.AllLie g.start g.stop (t.nested g))
    (hordered : gs.Pairwise fun g g' => g.stop ≤ g'.start) :
    Section.AllLie low high (gs.map fun g => .mk g (t.nested g)) := by
  induction gs generalizing low with
  | nil => trivial
  | cons g gs ih =>
    rw [List.forall_mem_cons] at hlow hgs
    rw [List.pairwise_cons] at hordered
    obtain ⟨⟨hspan, hhigh, hnested⟩, hgs⟩ := hgs
    exact ⟨⟨hlow.1, hspan, hhigh, hnested⟩, ih hordered.1 hgs hordered.2⟩

/-- The sections of a tree in order lie one behind the other. The induction is on the levels,
of which the body of a group is a smaller one. -/
lemma allLie_outline {scope : Node} (h : scope.Everywhere Node.HasDisjointChildren) :
    Section.AllLie scope.start scope.stop (t.outline scope) := by
  have hchild {n : Node} (hn : n ∈ scope.children) : n.Everywhere Node.HasOrderedChildren :=
    (h.child hn).mono fun _ h => h.toHasOrderedChildren
  have hfirst {g : Group} (hg : g ∈ t.level scope) := mem_children hg g.first_mem_nodes
  have hlast {g : Group} (hg : g ∈ t.level scope) := mem_children hg g.node_mem_nodes
  rw [outline_eq]
  refine allLie_map (fun g hg => (h.here.inside _ (hfirst hg)).1) (fun g hg => ?_) ?_
  · have hstart : g.start ≤ g.node.start := start_le h.here.toHasOrderedChildren hg
    have hstop : g.node.start ≤ g.stop := (hchild (hlast hg)).here.range
    refine ⟨hstart.trans hstop, (h.here.inside _ (hlast hg)).2, ?_⟩
    rw [nested]
    split
    · trivial
    · next body hbody =>
      have hsize := sizeOf_bodyOf_lt hg hbody
      obtain ⟨hlow, hhigh⟩ := body_inside (hchild (hlast hg)) hbody
      have hlevel : Section.AllLie body.start body.stop (t.outline body) :=
        allLie_outline (everywhere_body (h.child (hlast hg)) hbody)
      exact hlevel.mono (hstart.trans hlow) hhigh
  · exact (pairwise_nodes h.here.disjoint).2.imp fun h =>
      h _ (Group.node_mem_nodes _) _ (Group.first_mem_nodes _)
termination_by sizeOf scope

lemma groupAt?_of_mem (scope : Node) {p : Place}
    (hp : p ∈ Section.placesOfAll 0 (t.outline scope)) :
    t.groupAt? scope p.address = some p.group := by
  obtain ⟨m, s, hs, q, hq, rfl⟩ := Section.exists_of_mem_placesOfAll hp
  rw [outline_eq, List.getElem?_map, Option.map_eq_some_iff] at hs
  obtain ⟨g, hg, rfl⟩ := hs
  rw [Nat.zero_add, Place.below, groupAt?, hg, Option.bind_some]
  rcases List.mem_cons.mp hq with rfl | hq
  · rfl
  · rw [nested] at hq
    split at hq
    · cases hq
    · next body hbody =>
      have hsize := sizeOf_bodyOf_lt (List.mem_of_getElem? hg) hbody
      have hgroup := groupAt?_of_mem body hq
      obtain ⟨k, s, -, r, -, rfl⟩ := Section.exists_of_mem_placesOfAll hq
      rw [if_neg (by simp [Place.below]), hbody]
      exact hgroup
termination_by sizeOf scope

end Table

namespace Extraction

/-- In a tree in order the chunks come in the order of their starts. Each one ends in front of
a later one, unless that is nested in it; then it spans the later one. -/
theorem chunk_spans_nest (x : Extraction) {root : Node}
    (hroot : root.Everywhere Node.HasDisjointChildren) :
    ∃ places : List Place,
      (x.chunks root).map Chunk.segment = places.map (fun p => x.segmentOf p.group) ∧
      (∀ p ∈ places, x.table.groupAt? root p.address = some p.group) ∧
      places.Pairwise Place.Nests ∧
      (x.chunks root).Pairwise fun c d =>
        c.start ≤ d.start ∧ (c.stop ≤ d.start ∨ d.stop ≤ c.stop) := by
  have hlaid := Section.laid_placesOfAll 0 _ (Table.allLie_outline (t := x.table) hroot)
  set places := Section.placesOfAll 0 (x.table.outline root)
  have hsegments : (x.chunks root).map Chunk.segment =
      places.map fun p => x.segmentOf p.group := by
    rw [segments_chunks, ← Section.map_group_placesOfAll 0, List.map_map]
    rfl
  have hpositions : (places.map fun p => x.segmentOf p.group).Pairwise fun c d =>
      c.start ≤ d.start ∧ (c.stop ≤ d.start ∨ d.stop ≤ c.stop) := by
    rw [List.pairwise_map]
    refine hlaid.nest.imp_of_mem fun {p q} hp hq hnests => ?_
    by_cases hprefix : p.address <+: q.address
    · obtain ⟨hstart, hstop⟩ := hnests.holds hprefix
      exact ⟨Text.positionAt_mono hstart _, .inr (Text.positionAt_mono hstop _)⟩
    · have hstop := hnests.apart hprefix
      have hspan := (hlaid.within p hp).2.1
      exact ⟨Text.positionAt_mono (hspan.trans hstop) _, .inl (Text.positionAt_mono hstop _)⟩
  refine ⟨places, hsegments, fun p hp => Table.groupAt?_of_mem root hp, hlaid.nest, ?_⟩
  rw [← hsegments, List.pairwise_map] at hpositions
  exact hpositions

/-- A decorated class with a method, behind a comment. -/
def decoratedClass : Node where
  kind := "module"
  start := 0
  stop := 71
  children := [
    { kind := "comment", start := 0, stop := 9 },
    { kind := "decorated_definition", start := 10, stop := 70, children := [
      { kind := "decorator", start := 10, stop := 20 },
      { kind := "class_definition", field := some "definition", start := 21, stop := 70
        children := [
          { kind := "block", field := some "body", start := 38, stop := 70, children := [
            { kind := "function_definition", start := 38, stop := 70 }] }] }] }]

/-- The class is read by a table for which the wrapper and the class hold chunks. -/
def classReading : Extraction where
  table := { containers := ["decorated_definition", "class_definition"], folded := ["comment"] }
  compile := fun _ => none
  source :=
    "# a point\n@dataclass\nclass Point:\n    def norm(self):\n        return 0\n".toList
  file := "geo.py"
  fileType := .src
  parsedAt := 0

theorem decoratedClass_spans_nest : decoratedClass.Everywhere Node.HasDisjointChildren ∧
    ∃ places : List Place,
      (classReading.chunks decoratedClass).map Chunk.segment =
        places.map (fun p => classReading.segmentOf p.group) ∧
      (∀ p ∈ places, classReading.table.groupAt? decoratedClass p.address = some p.group) ∧
      places.Pairwise Place.Nests ∧
      (classReading.chunks decoratedClass).Pairwise fun c d =>
        c.start ≤ d.start ∧ (c.stop ≤ d.start ∨ d.stop ≤ c.stop) := by
  have hordered : decoratedClass.Everywhere Node.HasDisjointChildren := by
    simp [decoratedClass, Node.everywhere_mk, Node.hasDisjointChildren_iff,
      Node.hasOrderedChildren_iff]
  exact ⟨hordered, chunk_spans_nest classReading hordered⟩

end Extraction

end CodeSearch
