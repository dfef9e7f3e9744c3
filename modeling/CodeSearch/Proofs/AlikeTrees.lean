import CodeSearch.Chunk.Chunker
import CodeSearch.Proofs.Visits
import Mathlib.Data.List.Forall2
import Mathlib.Tactic.MkIffOfInductiveProp

/-!
# Alike trees

Two nodes of two sources are alike if their trees have the same shape and the same texts,
wherever these stand in the sources. A pattern captures alike nodes in alike trees. So alike
nodes have the same label, and what is nested in them has the same paths and summaries. What
becomes of queries that no node is asked makes no difference.
-/
namespace CodeSearch

open List (Forall₂)

namespace Node

/-- Two nodes of two sources are of one kind and in the same role, and have the same text. -/
@[mk_iff]
structure Resembles (cs ds : List Char) (n m : Node) : Prop where
  kind : n.kind = m.kind
  field : n.field = m.field
  named : n.named = m.named
  extra : n.extra = m.extra
  error : n.error = m.error
  text : Naming.textOf cs n = Naming.textOf ds m

/-- They resemble each other, and so does, in order, everything below them. -/
inductive Alike (cs ds : List Char) : Node → Node → Prop
  | intro {n m : Node} (here : n.Resembles cs ds m)
      (children : Forall₂ (Alike cs ds) n.children m.children) : Alike cs ds n m

variable {cs ds : List Char} {n m : Node}

lemma Alike.here (h : n.Alike cs ds m) : n.Resembles cs ds m := by
  cases h
  assumption

lemma Alike.children (h : n.Alike cs ds m) : Forall₂ (Alike cs ds) n.children m.children := by
  cases h
  assumption

lemma alike_iff :
    n.Alike cs ds m ↔ n.Resembles cs ds m ∧ Forall₂ (Alike cs ds) n.children m.children :=
  ⟨fun h => ⟨h.here, h.children⟩, fun h => .intro h.1 h.2⟩

end Node

section Patterns

variable {cs ds : List Char} {n m : Node} {ns ms : List Node}

namespace Pattern

lemma fitsKind_eq (h : n.Resembles cs ds m) (kind : Option String) :
    fitsKind kind n = fitsKind kind m := by
  simp only [fitsKind, h.named, h.kind, h.error]

lemma fillsField_eq (h : n.Resembles cs ds m) (field : Option String) :
    fillsField field n = fillsField field m := by
  simp only [fillsField, h.field]

/-- Of alike children, alike ones may fit next, with alike ones behind them. -/
lemma candidates_alike (field : Option String) (adjoining : Bool)
    (h : Forall₂ (Node.Alike cs ds) ns ms) :
    Forall₂ (fun c d => c.1.Alike cs ds d.1 ∧ Forall₂ (Node.Alike cs ds) c.2 d.2)
      (candidates field adjoining ns) (candidates field adjoining ms) := by
  induction h with
  | nil => exact .nil
  | @cons n m ns ms hnm hrest ih =>
    simp only [candidates, ← hnm.here.named, ← fillsField_eq hnm.here field]
    split
    · split
      · exact .nil
      · exact ih
    · refine List.rel_append ?_ ?_
      · split
        · exact .cons ⟨hnm, hrest⟩ .nil
        · exact .nil
      · split
        · exact .nil
        · exact ih

lemma map_replicate_alike {fronts backs : List (List Node)} (count : ℕ) (h : n.Alike cs ds m)
    (hfronts : Forall₂ (Forall₂ (Node.Alike cs ds)) fronts backs) :
    Forall₂ (Forall₂ (Node.Alike cs ds)) (fronts.map (List.replicate count n ++ ·))
      (backs.map (List.replicate count m ++ ·)) := by
  refine List.rel_map (fun _ _ h' => List.rel_append ?_ h') hfronts
  induction count with
  | zero => exact .nil
  | succ count ih => exact .cons h ih

mutual

lemma matchesAt_alike : ∀ (p : Pattern) {n m : Node}, n.Alike cs ds m →
    Forall₂ (Forall₂ (Node.Alike cs ds)) (matchesAt p n) (matchesAt p m)
  | .node _ _ captures kind children, n, m, h => by
    simp only [matchesAt, fitsKind_eq h.here kind]
    split
    · exact map_replicate_alike captures h (matchesAmong_alike children h.children)
    · exact .nil
  | .either _ _ captures branches, n, m, h => by
    simp only [matchesAt]
    exact map_replicate_alike captures h (matchesOfAny_alike branches h)

lemma matchesOfAny_alike : ∀ (ps : List Pattern) {n m : Node}, n.Alike cs ds m →
    Forall₂ (Forall₂ (Node.Alike cs ds)) (matchesOfAny ps n) (matchesOfAny ps m)
  | [], _, _, _ => by
    simp only [matchesOfAny]
    exact .nil
  | p :: ps, n, m, h => by
    simp only [matchesOfAny, fillsField_eq h.here p.field]
    refine List.rel_append ?_ (matchesOfAny_alike ps h)
    split
    · exact matchesAt_alike p h
    · exact .nil

lemma matchesAmong_alike : ∀ (ps : List Pattern) {ns ms : List Node},
    Forall₂ (Node.Alike cs ds) ns ms →
    Forall₂ (Forall₂ (Node.Alike cs ds)) (matchesAmong ps ns) (matchesAmong ps ms)
  | [], _, _, _ => by
    simp only [matchesAmong]
    exact .cons .nil .nil
  | p :: ps, ns, ms, h => by
    simp only [matchesAmong]
    refine List.rel_flatMap (candidates_alike p.field p.adjoining h) fun c d hcd => ?_
    refine List.rel_flatMap (matchesAt_alike p hcd.1) fun front front' hfront => ?_
    exact List.rel_map (fun _ _ hback => List.rel_append hfront hback)
      (matchesAmong_alike ps hcd.2)

end

theorem captured_alike (ps : List Pattern) (h : n.Alike cs ds m) :
    Forall₂ (Node.Alike cs ds) (captured ps n) (captured ps m) := by
  induction ps with
  | nil => exact .nil
  | cons p ps ih =>
    simp only [captured, List.flatMap_cons] at ih ⊢
    exact List.rel_append (List.rel_flatten (matchesAt_alike p h)) ih

end Pattern

namespace Naming

variable (compile : Compiler) (t : Table)

lemma single?_eq (h : n.Alike cs ds m) (query : String) :
    single? compile cs query n = single? compile ds query m := by
  simp only [single?]
  cases hps : compile query with
  | none => rfl
  | some ps =>
    simp only [Option.bind_eq_bind, Option.bind_some]
    match Pattern.captured ps n, Pattern.captured ps m, Pattern.captured_alike ps h with
    | _, _, .nil => rfl
    | _, _, .cons honly .nil => exact congrArg some honly.here.text
    | _, _, .cons _ (.cons _ _) => rfl

/-- Alike nodes call themselves the same. -/
theorem labelOf_eq (h : n.Alike cs ds m) : labelOf compile t cs n = labelOf compile t ds m := by
  simp only [labelOf, h.here.kind, single?_eq compile h]

lemma text_summaryNode_eq (h : n.Alike cs ds m) :
    textOf cs (summaryNode compile t cs n) = textOf ds (summaryNode compile t ds m) := by
  rw [summaryNode, summaryNode, labelOf_eq compile t h, h.here.kind]
  split
  · exact h.here.text
  · cases hps : ((t.namedKind? m.kind).bind (·.summary)).bind compile with
    | none =>
      simp only [Option.bind_eq_none_iff] at hps
      cases hquery : (t.namedKind? m.kind).bind (·.summary) with
      | none => exact h.here.text
      | some query =>
        simp only [Option.bind_some, hps query hquery, Option.bind_none]
        exact h.here.text
    | some ps =>
      obtain ⟨query, hquery, hps⟩ := Option.bind_eq_some_iff.mp hps
      simp only [hquery, Option.bind_some, hps]
      match Pattern.captured ps n, Pattern.captured ps m, Pattern.captured_alike ps h with
      | _, _, .nil => exact h.here.text
      | _, _, .cons hfirst _ => exact hfirst.here.text

end Naming

end Patterns

section Outlines

structure Group.Alike (cs ds : List Char) (g g' : Group) : Prop where
  lead : Forall₂ (Node.Alike cs ds) g.lead g'.lead
  node : g.node.Alike cs ds g'.node
  alone : g.alone = g'.alone

inductive Section.Alike (cs ds : List Char) : Section → Section → Prop
  | mk {g g' : Group} {nested nested' : List Section} (group : g.Alike cs ds g')
      (inside : Forall₂ (Alike cs ds) nested nested') : Alike cs ds (.mk g nested) (.mk g' nested')

variable {cs ds : List Char} {n m : Node} {g g' : Group}

lemma Node.Alike.childByField? (h : n.Alike cs ds m) (field : String) :
    Option.Rel (Alike cs ds) (n.childByField? field) (m.childByField? field) := by
  have hchildren := h.children
  simp only [Node.childByField?]
  generalize n.children = ns at hchildren ⊢
  generalize m.children = ms at hchildren ⊢
  induction hchildren with
  | nil => exact .none
  | cons hcd _ ih =>
    simp only [List.find?_cons, hcd.here.field, hcd.here.extra]
    split
    · exact .some hcd
    · exact ih

lemma Group.ofLevel_alike {t : Table} {lead lead' ns ms : List Node}
    (hlead : Forall₂ (Node.Alike cs ds) lead lead') (h : Forall₂ (Node.Alike cs ds) ns ms) :
    Forall₂ (Group.Alike cs ds) (ofLevel t lead ns) (ofLevel t lead' ms) := by
  have alone {lead lead' : List Node} (hlead : Forall₂ (Node.Alike cs ds) lead lead') :
      Forall₂ (Group.Alike cs ds) (lead.map lone) (lead'.map lone) :=
    List.rel_map (fun _ _ hnm => ⟨.nil, hnm, rfl⟩) hlead
  induction h generalizing lead lead' with
  | nil => exact alone hlead
  | cons hnm _ ih =>
    simp only [ofLevel, ← hnm.here.kind]
    split
    · exact List.rel_append (alone hlead) (ih .nil)
    · split
      · exact ih (List.rel_append hlead (.cons hnm .nil))
      · exact .cons ⟨hlead, hnm, rfl⟩ (ih .nil)

namespace Table

variable (t : Table)

lemma level_alike (h : n.Alike cs ds m) :
    Forall₂ (Group.Alike cs ds) (t.level n) (t.level m) :=
  Group.ofLevel_alike .nil
    (List.rel_filter (fun _ _ hcd => iff_of_eq (congrArg (· = true) hcd.here.named)) h.children)

lemma bodyOwner?_alike (h : n.Alike cs ds m) :
    Option.Rel (Node.Alike cs ds) (t.bodyOwner? n) (t.bodyOwner? m) := by
  have hinner : Option.Rel (Node.Alike cs ds)
      ((n.childByField? "declaration").or (n.childByField? "definition"))
      ((m.childByField? "declaration").or (m.childByField? "definition")) := by
    match n.childByField? "declaration", m.childByField? "declaration",
      h.childByField? "declaration" with
    | _, _, .none => exact h.childByField? "definition"
    | _, _, .some hcd => exact .some hcd
  simp only [bodyOwner?, ← h.here.kind]
  split
  · exact .none
  · match (n.childByField? "declaration").or (n.childByField? "definition"),
      (m.childByField? "declaration").or (m.childByField? "definition"), hinner with
    | _, _, .none => exact .some h
    | _, _, .some hcd =>
      simp only [← hcd.here.kind]
      split
      · exact .some hcd
      · exact .none

lemma bodyOf?_alike (h : g.Alike cs ds g') :
    Option.Rel (Node.Alike cs ds) (t.bodyOf? g) (t.bodyOf? g') := by
  simp only [bodyOf?, body?, ← h.alone]
  split
  · exact .none
  · match t.bodyOwner? g.node, t.bodyOwner? g'.node, t.bodyOwner?_alike h.node with
    | _, _, .none => exact .none
    | _, _, .some howner => exact howner.childByField? "body"

/-- Alike groups of a level make alike sections. Inside a level the induction is on its groups;
what is inside a group is a smaller level. -/
lemma sections_alike (node : Node) {gs gs' : List Group} (h : Forall₂ (Group.Alike cs ds) gs gs')
    (hgs : ∀ g ∈ gs, g ∈ t.level node) :
    Forall₂ (Section.Alike cs ds) (gs.map fun g => .mk g (t.nested g))
      (gs'.map fun g => .mk g (t.nested g)) := by
  induction h with
  | nil => exact .nil
  | @cons g g' gs gs' hg _ ih =>
    rw [List.forall_mem_cons] at hgs
    refine .cons (.mk hg ?_) (ih hgs.2)
    have hbodies := t.bodyOf?_alike hg
    rw [nested, nested]
    generalize hbody : t.bodyOf? g = inner at hbodies ⊢
    generalize t.bodyOf? g' = inner' at hbodies ⊢
    cases hbodies with
    | none => exact .nil
    | @some body body' hrel =>
      have hsize := sizeOf_bodyOf_lt hgs.1 hbody
      simp only [outline_eq]
      exact sections_alike body (t.level_alike hrel) fun _ => id
termination_by sizeOf node

theorem outline_alike (h : n.Alike cs ds m) :
    Forall₂ (Section.Alike cs ds) (t.outline n) (t.outline m) := by
  rw [outline_eq, outline_eq]
  exact t.sections_alike n (t.level_alike h) fun _ => id

/-- Groups with alike bodies have alike sections inside. -/
lemma nested_alike (h : Option.Rel (Node.Alike cs ds) (t.bodyOf? g) (t.bodyOf? g')) :
    Forall₂ (Section.Alike cs ds) (t.nested g) (t.nested g') := by
  rw [nested, nested]
  generalize t.bodyOf? g = inner, t.bodyOf? g' = inner' at h ⊢
  cases h with
  | none => exact .nil
  | some hbody => exact t.outline_alike hbody

end Table

end Outlines

/-- Two compilers make the same of every query that a table has nodes asked. -/
def Table.CompiledAlike (t : Table) (compile compile' : Naming.Compiler) : Prop :=
  ∀ kind, ∀ query ∈ Chunker.queriesOf t kind, compile query = compile' query

namespace Naming

variable {t : Table} {compile compile' : Compiler}

lemma single?_congr {query : String} (h : compile query = compile' query) (cs : List Char)
    (n : Node) : single? compile cs query n = single? compile' cs query n := by
  rw [single?, single?, h]

/-- A node is asked the queries of its kind only. -/
lemma labelOf_congr (h : t.CompiledAlike compile compile') (cs : List Char) (n : Node) :
    labelOf compile t cs n = labelOf compile' t cs n := by
  have hqueries := h n.kind
  rw [Chunker.queriesOf] at hqueries
  rw [labelOf, labelOf]
  cases hk : t.namedKind? n.kind with
  | none => rfl
  | some k =>
    simp only [hk, List.mem_cons, List.mem_append, forall_eq_or_imp] at hqueries
    simp only [single?_congr hqueries.1]
    cases hparent : k.parent with
    | none => rfl
    | some query => simp only [single?_congr (hqueries.2 query (.inl (by simp [hparent])))]

lemma summaryNode_congr (h : t.CompiledAlike compile compile') (cs : List Char) (n : Node) :
    summaryNode compile t cs n = summaryNode compile' t cs n := by
  have hqueries := h n.kind
  rw [Chunker.queriesOf] at hqueries
  rw [summaryNode, summaryNode, labelOf_congr h]
  cases hk : t.namedKind? n.kind with
  | none => rfl
  | some k =>
    simp only [hk, List.mem_cons, List.mem_append, forall_eq_or_imp] at hqueries
    cases hsummary : k.summary with
    | none => simp only [Option.bind_some, hsummary, Option.bind_none]
    | some query =>
      simp only [Option.bind_some, hsummary,
        hqueries.2 query (.inr (by simp [hsummary]))]

end Naming

/-- What a chunk is called and how it is summed up. -/
def Chunk.title (c : Chunk) : String × String :=
  (c.path, c.summary)

namespace Extraction

variable {x x' : Extraction}

lemma labelOf_eq {g g' : Group} (htable : x.table = x'.table)
    (hcompile : x.table.CompiledAlike x.compile x'.compile)
    (h : g.Alike x.source x'.source g') : x.labelOf g = x'.labelOf g' := by
  simp only [labelOf, h.alone, ← htable, Naming.labelOf_congr hcompile,
    Naming.labelOf_eq _ _ h.node]

lemma title_chunkOf_eq {g g' : Group} (htable : x.table = x'.table)
    (hcompile : x.table.CompiledAlike x.compile x'.compile)
    (h : g.Alike x.source x'.source g') (path : String) :
    (x.chunkOf g path).title = (x'.chunkOf g' path).title := by
  refine Prod.ext rfl ?_
  simp only [Chunk.title, chunkOf, summaryNode, h.alone, ← htable,
    Naming.summaryNode_congr hcompile]
  split
  · rw [h.node.here.text]
  · rw [Naming.text_summaryNode_eq _ _ h.node]

lemma basePath_eq {g g' : Group} (h : g.Alike x.source x'.source g') (label : Label)
    (scope : String) : Naming.basePath label x.source scope g.node =
      Naming.basePath label x'.source scope g'.node := by
  cases label with
  | byContent => rw [Naming.basePath, h.node.here.text, Naming.basePath]
  | byName => rfl

mutual

lemma titles_ofSection (htable : x.table = x'.table)
    (hcompile : x.table.CompiledAlike x.compile x'.compile)
    (scope : String) (taken : List String) : ∀ {s s' : Section}, s.Alike x.source x'.source s' →
      (x.ofSection scope taken s).1.map Chunk.title =
        (x'.ofSection scope taken s').1.map Chunk.title ∧
      (x.ofSection scope taken s).2 = (x'.ofSection scope taken s').2
  | .mk g nested, .mk g' nested', h => by
    cases h with
    | mk hgroup hinside =>
      simp only [ofSection, List.map_cons, labelOf_eq htable hcompile hgroup, basePath_eq hgroup,
        title_chunkOf_eq htable hcompile hgroup]
      have hnested := titles_ofSections htable hcompile
        (Naming.innerScope (x'.labelOf g') scope
          (Naming.freePath taken (Naming.basePath (x'.labelOf g') x'.source scope g'.node)))
        (Naming.freePath taken (Naming.basePath (x'.labelOf g') x'.source scope g'.node) :: taken)
        hinside
      rw [hnested.1, hnested.2]
      exact ⟨rfl, rfl⟩

/-- Alike sections have chunks of the same paths and summaries, and take the same paths. -/
lemma titles_ofSections (htable : x.table = x'.table)
    (hcompile : x.table.CompiledAlike x.compile x'.compile)
    (scope : String) (taken : List String) :
    ∀ {ss ss' : List Section}, Forall₂ (Section.Alike x.source x'.source) ss ss' →
      (x.ofSections scope taken ss).1.map Chunk.title =
        (x'.ofSections scope taken ss').1.map Chunk.title ∧
      (x.ofSections scope taken ss).2 = (x'.ofSections scope taken ss').2
  | [], [], _ => ⟨rfl, rfl⟩
  | s :: ss, s' :: ss', .cons h hrest => by
    have hfront := titles_ofSection htable hcompile scope taken h
    have hback := titles_ofSections htable hcompile scope (x'.ofSection scope taken s').2 hrest
    simp only [ofSections, List.map_append, hfront.1, hfront.2, hback.1, hback.2, and_self]

end

end Extraction

end CodeSearch
