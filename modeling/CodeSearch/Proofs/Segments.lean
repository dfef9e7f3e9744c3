import CodeSearch.Proofs.CurrentChunks
import CodeSearch.Proofs.Visits

/-!
# Segments

A chunk without its path and its summary is a segment: a stretch of the source with its place
and the type of its file. Where a source is cut into segments depends on the kinds of its nodes
alone. How a table names the nodes, and whether its queries can be read or find anything, shows
in paths and summaries only.
-/
namespace CodeSearch

/-- What a chunk is, apart from how it is called and summed up. -/
structure Segment where
  file : String
  fileType : FileType
  source : String
  start : Position
  stop : Position
  parsedAt : ℤ
  deriving DecidableEq, Repr

def Chunk.segment (c : Chunk) : Segment :=
  ⟨c.file, c.fileType, c.source, c.start, c.stop, c.parsedAt⟩

mutual

/-- The groups of a section in the order in which they are visited. -/
def Section.groups : Section → List Group
  | .mk g nested => g :: Section.groupsOfAll nested

/-- The groups of some sections in the order in which they are visited. -/
def Section.groupsOfAll : List Section → List Group
  | [] => []
  | s :: ss => s.groups ++ Section.groupsOfAll ss

end

namespace Table

/-- A table with other names for the kinds of nodes, and with the same containers, folded and
skipped kinds and rules. -/
def withNames (t : Table) (names : List NamedKind) : Table :=
  { t with named := names }

variable (t : Table) (names : List NamedKind)

lemma ofLevel_withNames (lead ns : List Node) :
    Group.ofLevel (t.withNames names) lead ns = Group.ofLevel t lead ns := by
  induction ns generalizing lead with
  | nil => rfl
  | cons n ns ih =>
    have hskips : (t.withNames names).skips n.kind = t.skips n.kind := rfl
    have hfolds : (t.withNames names).folds n.kind = t.folds n.kind := rfl
    simp only [Group.ofLevel, hskips, hfolds, ih]

/-- The outline of a tree does not depend on names. The induction is on the levels, of which
the body of a group is a smaller one. -/
lemma outline_withNames (scope : Node) : (t.withNames names).outline scope = t.outline scope := by
  have hlevel : (t.withNames names).level scope = t.level scope := t.ofLevel_withNames names [] _
  rw [outline_eq, outline_eq, hlevel]
  refine List.map_congr_left fun g hg => ?_
  have hbody : (t.withNames names).bodyOf? g = t.bodyOf? g := rfl
  rw [nested, nested, hbody]
  cases h : t.bodyOf? g with
  | none => rfl
  | some body =>
    have hsize := sizeOf_bodyOf_lt hg h
    dsimp only
    rw [outline_withNames body]
termination_by sizeOf scope

end Table

namespace Extraction

def segmentOf (x : Extraction) (g : Group) : Segment where
  file := x.file
  fileType := x.fileType
  source := String.ofList (Text.slice x.source g.first.start g.node.stop)
  start := Text.positionAt x.source g.first.start
  stop := Text.positionAt x.source g.node.stop
  parsedAt := x.parsedAt

mutual

lemma segments_ofSection (x : Extraction) (scope : String) (taken : List String) :
    ∀ s : Section, (x.ofSection scope taken s).1.map Chunk.segment = s.groups.map x.segmentOf
  | .mk g nested => by
    simp only [ofSection, Section.groups, List.map_cons, segments_ofSections x _ _ nested]
    rfl

lemma segments_ofSections (x : Extraction) (scope : String) (taken : List String) :
    ∀ ss : List Section, (x.ofSections scope taken ss).1.map Chunk.segment =
      (Section.groupsOfAll ss).map x.segmentOf
  | [] => by simp only [ofSections, Section.groupsOfAll, List.map_nil]
  | s :: ss => by
    simp only [ofSections, Section.groupsOfAll, List.map_append, segments_ofSection x _ _ s,
      segments_ofSections x _ _ ss]

end

/-- The segments of a tree are those of the groups of its outline. -/
theorem segments_chunks (x : Extraction) (root : Node) :
    (x.chunks root).map Chunk.segment =
      (Section.groupsOfAll (x.table.outline root)).map x.segmentOf :=
  x.segments_ofSections "" [] (x.table.outline root)

end Extraction

/-- A source with the tree that a grammar finds in it, and the time at which it is read. -/
structure SourceFile where
  path : String
  source : String
  tree : Node
  now : ℤ

namespace SourceFile

/-- Where a source is cut, by the rules for the types of files and a table without names. -/
def cut (rules : Classifier) (t : Table) (f : SourceFile) : Except ChunkError (List Segment) :=
  if rules.classify f.path = .ignored then .error (.ignored f.path)
  else
    let x : Extraction := {
      table := t, compile := fun _ => none, source := f.source.toList
      file := f.path, fileType := rules.classify f.path, parsedAt := f.now }
    .ok ((Section.groupsOfAll (t.outline f.tree)).map x.segmentOf)

/-- A table cuts a source at the same places whatever its names are. -/
lemma cut_withNames (rules : Classifier) (t : Table) (names : List NamedKind) (f : SourceFile) :
    f.cut rules (t.withNames names) = f.cut rules t := by
  rw [cut, cut, t.outline_withNames names]
  rfl

end SourceFile

namespace Chunker

/-- Cut one source after another, with what the chunker has learned of its queries. -/
def chunkEach : Chunker → List SourceFile → List (Except ChunkError ChunkedFile)
  | _, [] => []
  | k, f :: fs =>
      let r := k.chunkSource f.path f.source f.tree f.now
      r.1 :: chunkEach r.2 fs

/-- The segments of each source, or why it has none. -/
def segmentsOfEach (k : Chunker) (fs : List SourceFile) :
    List (Except ChunkError (List Segment)) :=
  (k.chunkEach fs).map fun r => r.map fun chunked => chunked.chunks.map Chunk.segment

/-- What a chunker has learned of its queries makes no difference to where it cuts. -/
lemma segments_chunkSource (k : Chunker) (f : SourceFile) :
    ((k.chunkSource f.path f.source f.tree f.now).1.map fun chunked =>
      chunked.chunks.map Chunk.segment) = f.cut k.classifier k.table := by
  have hclass : k.classify f.path = k.classifier.classify f.path := rfl
  unfold chunkSource SourceFile.cut
  rw [hclass]
  split
  · next h => rw [if_pos h]; rfl
  · next h =>
    rw [if_neg h]
    simp only [Except.map, Extraction.segments_chunks, (k.agreesWith_foldl_remember _).table]
    rfl

lemma segmentsOfEach_eq (k : Chunker) (fs : List SourceFile) :
    k.segmentsOfEach fs = fs.map (SourceFile.cut k.classifier k.table) := by
  induction fs generalizing k with
  | nil => rfl
  | cons f fs ih =>
    obtain ⟨htable, hrules, -⟩ := k.agreesWith_chunkSource f.path f.source f.tree f.now
    have hrest := ih (k.chunkSource f.path f.source f.tree f.now).2
    rw [htable, hrules] at hrest
    rw [List.map_cons, ← k.segments_chunkSource f, ← hrest]
    rfl

/-- A chunker cuts by the rules of its table, if they can be read, and by its table without
names. -/
lemma segments_ofTable (compile : Naming.Compiler) (t : Table) (names : List NamedKind)
    (fs : List SourceFile) :
    ((ofTable compile (t.withNames names)).map fun k => k.segmentsOfEach fs) =
      match Classifier.ofRules t.rules with
      | .ok rules => .ok (fs.map (SourceFile.cut rules t))
      | .error rule => .error (.invalidRule rule) := by
  have hrules : (t.withNames names).rules = t.rules := rfl
  rw [ofTable, hrules]
  cases Classifier.ofRules t.rules with
  | error rule => rfl
  | ok rules =>
    simp only [Except.map, segmentsOfEach_eq]
    refine congrArg Except.ok (List.map_congr_left fun f _ => ?_)
    exact f.cut_withNames rules t names

/-- Tables that differ in names only cut all sources into the same segments. -/
theorem names_leave_segments (compile : Naming.Compiler) (t : Table)
    (names names' : List NamedKind) (fs : List SourceFile) :
    ((ofTable compile (t.withNames names)).map fun k => k.segmentsOfEach fs) =
      (ofTable compile (t.withNames names')).map fun k => k.segmentsOfEach fs := by
  rw [segments_ofTable, segments_ofTable]

end Chunker

end CodeSearch
