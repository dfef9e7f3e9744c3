import CodeSearch.Proofs.AlikeTrees
import CodeSearch.Proofs.ChunkPositions

/-!
# Appended code

Where code is appended to a source, its tree gets more nodes behind the ones that it has. An
extraction goes through the nodes in order, and reads of the source only what the nodes cover.
So it makes the same chunks as before, and further ones behind them, unless the last node was
still waiting for the one behind it.
-/
namespace CodeSearch

open List (Forall₂)

namespace Text

variable {n m : ℕ} {cs : List Char}

lemma dropBytes_append_of_le (h : n ≤ size cs) (more : List Char) :
    dropBytes n (cs ++ more) = (dropBytes n cs).map (· ++ more) := by
  induction cs generalizing n with
  | nil =>
    obtain rfl := Nat.le_zero.mp h
    cases more <;> rfl
  | cons c cs ih =>
    rw [size_cons] at h
    rcases Nat.eq_zero_or_pos n with rfl | hn
    · rfl
    rw [List.cons_append, dropBytes_cons _ _ hn, dropBytes_cons _ _ hn]
    split
    · exact ih (by omega)
    · rfl

lemma takeBytes_append_of_le (h : n ≤ size cs) (more : List Char) :
    takeBytes n (cs ++ more) = takeBytes n cs := by
  induction cs generalizing n with
  | nil =>
    obtain rfl := Nat.le_zero.mp h
    cases more <;> rfl
  | cons c cs ih =>
    rw [size_cons] at h
    rcases Nat.eq_zero_or_pos n with rfl | hn
    · rfl
    rw [List.cons_append, takeBytes_cons _ _ hn, takeBytes_cons _ _ hn]
    split
    · rw [ih (by omega)]
    · rfl

lemma size_of_dropBytes {rest : List Char} (h : dropBytes n cs = some rest) :
    n + size rest = size cs := by
  obtain ⟨front, back, rfl, rfl⟩ := isBoundary_iff.mpr (by rw [h]; rfl)
  rw [dropBytes_append, Option.some.injEq] at h
  rw [← h, size_append]

/-- What ends inside a text is cut out of it as before when more text follows. -/
lemma slice_append_of_le (h : m ≤ size cs) (more : List Char) :
    slice (cs ++ more) n m = slice cs n m := by
  rw [slice, slice, slice?, slice?]
  split
  · next hnm =>
    rw [dropBytes_append_of_le (hnm.trans h)]
    cases hrest : dropBytes n cs with
    | none => rfl
    | some rest =>
      have hsize := size_of_dropBytes hrest
      rw [Option.map_some, Option.bind_some, Option.bind_some,
        takeBytes_append_of_le (by omega)]
  · rfl

lemma advance_append_of_le (p : Position) (h : n ≤ size cs) (more : List Char) :
    advance p n (cs ++ more) = advance p n cs := by
  induction cs generalizing p n with
  | nil =>
    obtain rfl := Nat.le_zero.mp h
    cases more <;> rfl
  | cons c cs ih =>
    rw [size_cons] at h
    cases n with
    | zero => rfl
    | succ n => simp only [List.cons_append, advance, ih _ (show n + 1 - c.utf8Size ≤ _ by omega)]

/-- The places inside a text stay when more text follows. -/
lemma positionAt_append_of_le (h : n ≤ size cs) (more : List Char) :
    positionAt (cs ++ more) n = positionAt cs n :=
  advance_append_of_le _ h more

end Text

/-- The range of a node starts and ends inside a text. -/
@[mk_iff]
structure Node.Within (cs : List Char) (n : Node) : Prop where
  start : n.start ≤ Text.size cs
  stop : n.stop ≤ Text.size cs

/-- A tree inside a text is alike to itself when more text follows. -/
lemma Node.Everywhere.alike {cs : List Char} {n : Node} (h : n.Everywhere (Node.Within cs))
    (more : List Char) : n.Alike cs (cs ++ more) n := by
  induction h with
  | intro here _ ih =>
    refine .intro ⟨rfl, rfl, rfl, rfl, rfl, ?_⟩ (List.forall₂_same.mpr ih)
    rw [Naming.textOf, Naming.textOf, Text.slice_append_of_le here.stop]

/-- Where the last node of a level does not wait, further nodes make groups of their own. -/
lemma Group.ofLevel_append {t : Table} {lead ns : List Node} (more : List Node)
    (hlead : ∀ m ∈ lead, t.waits m = true)
    (hlast : ∀ n ∈ (lead ++ ns).getLast?, t.waits n = false) :
    ofLevel t lead (ns ++ more) = ofLevel t lead ns ++ ofLevel t [] more := by
  induction ns generalizing lead with
  | nil =>
    have hnone : lead = [] := by
      by_contra hne
      have hwaits := hlead _ (List.getLast_mem hne)
      rw [hlast _ (by simp [List.getLast?_eq_getLast_of_ne_nil hne])] at hwaits
      cases hwaits
    subst hnone
    rfl
  | cons n ns ih =>
    have hrest : ∀ m ∈ ([] ++ ns).getLast?, t.waits m = false := by
      intro m hm
      refine hlast m ?_
      cases ns with
      | nil => cases hm
      | cons => simpa [List.getLast?_append] using hm
    simp only [List.cons_append, ofLevel]
    by_cases hskip : t.skips n.kind = true
    · rw [if_pos hskip, if_pos hskip, ih (by simp) hrest, List.append_assoc]
    rw [if_neg hskip, if_neg hskip]
    by_cases hfold : t.folds n.kind = true
    · have hwaits : t.waits n = true := by simp [Table.waits, hskip, hfold]
      rw [if_pos hfold, if_pos hfold]
      refine ih (fun m hm => ?_) (by simpa using hlast)
      rcases List.mem_append.mp hm with hm | hm
      · exact hlead m hm
      · rwa [List.mem_singleton.mp hm]
    · rw [if_neg hfold, if_neg hfold, ih (by simp) hrest]
      rfl

lemma Chunk.eq_of_titles_of_segments {cs ds : List Chunk}
    (htitle : cs.map title = ds.map title) (hsegment : cs.map segment = ds.map segment) :
    cs = ds := by
  have hboth : Function.Injective fun c : Chunk => (c.title, c.segment) := by
    intro c d h
    obtain ⟨⟨hpath, hsummary⟩, hsegment⟩ : (c.path = d.path ∧ c.summary = d.summary) ∧
      c.segment = d.segment := by simpa [title] using h
    cases c
    cases d
    simp_all [Chunk.segment]
  refine hboth.list_map ?_
  have hzip (l : List Chunk) :
      l.map (fun c => (c.title, c.segment)) = (l.map title).zip (l.map segment) :=
    List.zip_map'.symm
  rw [hzip, hzip, htitle, hsegment]

namespace Extraction

def append (more : List Char) (x : Extraction) : Extraction :=
  { x with source := x.source ++ more }

variable (x : Extraction) {root root' : Node}

/-- Sections in front are gone through first, whatever follows them. -/
lemma ofSections_isPrefix (scope : String) (taken : List String) (ss more : List Section) :
    (x.ofSections scope taken ss).1 <+: (x.ofSections scope taken (ss ++ more)).1 := by
  induction ss generalizing taken with
  | nil => exact List.nil_prefix
  | cons s ss ih =>
    simp only [List.cons_append, ofSections]
    exact (List.prefix_append_right_inj _).mpr (ih _)

/-- The segments of the groups of a tree inside the source are not moved. -/
lemma segmentOf_append (hroot : root.Everywhere (Node.Within x.source)) (more : List Char)
    {g : Group} (hg : g ∈ Section.groupsOfAll (x.table.outline root)) :
    (x.append more).segmentOf g = x.segmentOf g := by
  rw [← Section.map_group_placesOfAll 0] at hg
  obtain ⟨p, hp, rfl⟩ := List.mem_map.mp hg
  obtain ⟨node, hnode, hlevel⟩ :=
    Table.exists_level_of_groupAt? hroot (Table.groupAt?_of_mem root hp)
  have hfirst := (hnode.child (Table.mem_children hlevel p.group.first_mem_nodes)).here
  have hlast := (hnode.child (Table.mem_children hlevel p.group.node_mem_nodes)).here
  simp only [segmentOf, append, Text.slice_append_of_le hlast.stop,
    Text.positionAt_append_of_le hfirst.start, Text.positionAt_append_of_le hlast.stop]

lemma chunks_append (hroot : root.Everywhere (Node.Within x.source)) (more : List Char) :
    (x.append more).chunks root = x.chunks root := by
  refine Chunk.eq_of_titles_of_segments ?_ ?_
  · have halike : Forall₂ (Section.Alike x.source (x.source ++ more)) (x.table.outline root)
        (x.table.outline root) := x.table.outline_alike (hroot.alike more)
    have htable : x.table = (x.append more).table := rfl
    have hcompile : x.table.CompiledAlike x.compile (x.append more).compile := fun _ _ _ => rfl
    exact (titles_ofSections htable hcompile "" [] halike).1.symm
  · rw [segments_chunks, segments_chunks]
    exact List.map_congr_left fun g hg => x.segmentOf_append hroot more hg

/-- Where code is appended, the chunks that were there come first and are the same, whenever
they are read. -/
theorem appended_code_keeps_chunks (more : List Char) (later : ℤ) (extra : List Node)
    (hroot : root.Everywhere (Node.Within x.source))
    (hchildren : root'.namedChildren = root.namedChildren ++ extra)
    (hlast : ∀ n ∈ root.namedChildren.getLast?, x.table.waits n = false) :
    (x.chunks root).map (Chunk.readAt later) <+: ((x.append more).readAt later).chunks root' := by
  have hlevel : x.table.level root' = x.table.level root ++ Group.ofLevel x.table [] extra := by
    rw [Table.level, hchildren]
    exact Group.ofLevel_append extra (by simp) hlast
  rw [chunks_readAt, ← x.chunks_append hroot more]
  refine List.IsPrefix.map _ ?_
  have houtline : (x.append more).table.outline root' = x.table.outline root ++
      (Group.ofLevel x.table [] extra).map fun g => .mk g (x.table.nested g) := by
    rw [Table.outline_eq, Table.outline_eq, ← List.map_append, ← hlevel]
    rfl
  rw [chunks, chunks, houtline]
  exact (x.append more).ofSections_isPrefix "" [] _ _

section Twins

/-- A function `run` that starts at an offset. -/
def runItem (offset : ℕ) : Node where
  kind := "function_item"
  start := offset
  stop := offset + 11
  children := [
    { kind := "identifier", field := some "name", start := offset + 3, stop := offset + 6 },
    { kind := "parameters", field := some "parameters", start := offset + 6, stop := offset + 8 },
    { kind := "block", field := some "body", start := offset + 9, stop := offset + 11 }]

/-- A file with one of them, or with several. -/
def runsTree (offsets : List ℕ) : Node where
  kind := "source_file"
  start := 0
  stop := 12 * offsets.length
  children := offsets.map runItem

def runReading : Extraction where
  table := Language.rust.table
  compile := Pattern.parse?
  source := "fn run() \x7b\x7d\n".toList
  file := "src/lib.rs"
  fileType := .src
  parsedAt := 0

/-- A second function of the same name is appended: the first one keeps its path. -/
theorem first_run_keeps_name : (runsTree [0]).Everywhere (Node.Within runReading.source) ∧
    ((runReading.append runReading.source).chunks (runsTree [0, 12])).map (·.path) =
      ["run", "run-2"] ∧
    (runReading.chunks (runsTree [0])).map (Chunk.readAt 7) <+:
      ((runReading.append runReading.source).readAt 7).chunks (runsTree [0, 12]) := by
  have hinside : (runsTree [0]).Everywhere (Node.Within runReading.source) := by
    simp [runsTree, runItem, Node.everywhere_mk, Node.within_iff]
    decide
  refine ⟨hinside, by decide +kernel, ?_⟩
  have hchildren :
      (runsTree [0, 12]).namedChildren = (runsTree [0]).namedChildren ++ [runItem 12] :=
    rfl
  have hlast : ∀ n ∈ (runsTree [0]).namedChildren.getLast?, runReading.table.waits n = false := by
    decide +kernel
  exact runReading.appended_code_keeps_chunks _ 7 [runItem 12] hinside hchildren hlast

end Twins

end Extraction

end CodeSearch
