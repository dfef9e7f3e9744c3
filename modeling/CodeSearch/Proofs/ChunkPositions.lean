import CodeSearch.Proofs.NestedSpans
import CodeSearch.Proofs.TextPlaces

/-!
# Positions of chunks

A chunk tells its lines and columns and its source, and these agree: the offsets of its places
can be found again in the text of the file, and what stands between them is the source.
-/
namespace CodeSearch

/-- The range of the node starts and ends between characters of a text, and its children
start in order and lie in it. -/
@[mk_iff]
structure Node.Fits (cs : List Char) (n : Node) : Prop extends n.HasOrderedChildren where
  start : Text.IsBoundary cs n.start
  stop : Text.IsBoundary cs n.stop

namespace Table

variable {t : Table} {p : Node → Prop} {g : Group}

/-- A group at an address is one of a level in the tree, for the node of which holds what holds
everywhere. -/
lemma exists_level_of_groupAt? {scope : Node} {address : List ℕ} (h : scope.Everywhere p)
    (hg : t.groupAt? scope address = some g) : ∃ node, node.Everywhere p ∧ g ∈ t.level node := by
  induction address generalizing scope with
  | nil => cases hg
  | cons n rest ih =>
    obtain ⟨outer, houter, hg⟩ := Option.bind_eq_some_iff.mp hg
    have hmem : outer ∈ t.level scope := List.mem_of_getElem? houter
    split at hg
    · obtain rfl := Option.some.inj hg
      exact ⟨scope, h, hmem⟩
    · obtain ⟨body, hbody, hg⟩ := Option.bind_eq_some_iff.mp hg
      exact ih (everywhere_body (h.child (mem_children hmem outer.node_mem_nodes)) hbody) hg

end Table

namespace Extraction

variable (x : Extraction) {root : Node} {c : Chunk}

lemma exists_groupAt?_of_mem (hc : c ∈ x.chunks root) :
    ∃ address g, x.table.groupAt? root address = some g ∧ c.segment = x.segmentOf g := by
  have hsegment : c.segment ∈ (x.chunks root).map Chunk.segment := List.mem_map_of_mem hc
  rw [segments_chunks, ← Section.map_group_placesOfAll 0, List.map_map] at hsegment
  obtain ⟨p, hp, heq⟩ := List.mem_map.mp hsegment
  exact ⟨p.address, p.group, Table.groupAt?_of_mem root hp, heq.symm⟩

/-- A group whose span lies between two boundaries stands in the text as its segment tells. -/
lemma exists_text_of_segmentOf {g : Group} (hstart : Text.IsBoundary x.source g.start)
    (hstop : Text.IsBoundary x.source g.stop) (hspan : g.start ≤ g.stop) :
    ∃ front back, x.source = front ++ ((x.segmentOf g).source.toList ++ back) ∧
      (x.segmentOf g).start = Text.endOf front ∧
      (x.segmentOf g).stop = Text.endOf (front ++ (x.segmentOf g).source.toList) := by
  obtain ⟨front, middle, back, htext, hfront, hmiddle⟩ := hstart.exists_middle hstop hspan
  have hsource : (x.segmentOf g).source.toList = middle := by
    have hslice : Text.slice? x.source g.start g.stop = some middle := by
      rw [htext, hfront, hmiddle]
      exact Text.slice?_append front middle back
    change (String.ofList (Text.slice x.source g.start g.stop)).toList = middle
    rw [String.toList_ofList, Text.slice, hslice]
    rfl
  refine ⟨front, back, by rw [hsource, htext], ?_, ?_⟩
  · change Text.positionAt x.source g.start = _
    rw [htext, hfront, Text.positionAt_append]
  · change Text.positionAt x.source g.stop = _
    rw [hsource, htext, hmiddle, ← List.append_assoc, Text.positionAt_append]

/-- The places of a chunk lead back to its source. They are those behind the text in front of
it and behind its own, and the text between their offsets is its source. -/
theorem positions_lead_to_source (hroot : root.Everywhere (Node.Fits x.source))
    (hc : c ∈ x.chunks root) :
    (∃ front back, x.source = front ++ (c.source.toList ++ back) ∧
      c.start = Text.endOf front ∧ c.stop = Text.endOf (front ++ c.source.toList)) ∧
    Text.slice? x.source (Text.offsetAt x.source c.start) (Text.offsetAt x.source c.stop) =
      some c.source.toList ∧
    c.start ≤ c.stop ∧ c.stop.line = c.start.line + c.source.toList.count '\n' := by
  obtain ⟨address, g, hg, hsegment⟩ := x.exists_groupAt?_of_mem hc
  obtain ⟨node, hnode, hlevel⟩ := Table.exists_level_of_groupAt? hroot hg
  have hfirst := (hnode.child (Table.mem_children hlevel g.first_mem_nodes)).here
  have hlast := (hnode.child (Table.mem_children hlevel g.node_mem_nodes)).here
  have hspan : g.start ≤ g.stop :=
    (Table.start_le hnode.here.toHasOrderedChildren hlevel).trans hlast.range
  have htext := x.exists_text_of_segmentOf hfirst.start hlast.stop hspan
  rw [← hsegment] at htext
  obtain ⟨front, back, hsource, hstart, hstop⟩ : ∃ front back,
    x.source = front ++ (c.source.toList ++ back) ∧
      c.start = Text.endOf front ∧ c.stop = Text.endOf (front ++ c.source.toList) := htext
  have horder : (x.segmentOf g).start ≤ (x.segmentOf g).stop :=
    Text.positionAt_mono hspan x.source
  rw [← hsegment] at horder
  have hoffsetStart : Text.offsetAt x.source c.start = Text.size front := by
    rw [hsource, hstart, Text.offsetAt_endOf]
  have hoffsetStop : Text.offsetAt x.source c.stop = Text.size (front ++ c.source.toList) := by
    rw [hsource, hstop, ← List.append_assoc, Text.offsetAt_endOf]
  refine ⟨⟨front, back, hsource, hstart, hstop⟩, ?_, horder, ?_⟩
  · rw [hoffsetStart, hoffsetStop, hsource, Text.slice?_append]
  · rw [hstart, hstop, Text.endOf, Text.endOf, List.count_append, Nat.add_assoc]

/-- A function behind a comment that takes in the newline behind it. -/
def lengthTree : Node where
  kind := "source_file"
  start := 0
  stop := 27
  children := [
    { kind := "line_comment", start := 0, stop := 12 },
    { kind := "function_item", start := 12, stop := 26 }]

/-- The text of the function, in which two letters take two bytes. -/
def lengthReading : Extraction where
  table := { folded := ["line_comment"] }
  compile := fun _ => none
  source := "/// größe\nfn länge() {}\n".toList
  file := "src/lib.rs"
  fileType := .src
  parsedAt := 0

theorem length_leads_to_source : lengthTree.Everywhere (Node.Fits lengthReading.source) ∧
    ∃ c ∈ lengthReading.chunks lengthTree, c.start = ⟨1, 1⟩ ∧ c.stop = ⟨2, 15⟩ ∧
      (∃ front back, lengthReading.source = front ++ (c.source.toList ++ back) ∧
        c.start = Text.endOf front ∧ c.stop = Text.endOf (front ++ c.source.toList)) ∧
      Text.slice? lengthReading.source (Text.offsetAt lengthReading.source c.start)
        (Text.offsetAt lengthReading.source c.stop) = some c.source.toList ∧
      c.start ≤ c.stop ∧ c.stop.line = c.start.line + c.source.toList.count '\n' := by
  have hfits : lengthTree.Everywhere (Node.Fits lengthReading.source) := by
    simp [lengthTree, Node.everywhere_mk, Node.fits_iff, Node.hasOrderedChildren_iff]
    decide
  have hmem : lengthReading.segmentOf
      { lead := [lengthTree.children[0]], node := lengthTree.children[1] } ∈
        (lengthReading.chunks lengthTree).map Chunk.segment := by
    rw [segments_chunks, Table.outline_eq]
    exact List.mem_cons_self
  obtain ⟨c, hc, hsegment⟩ := List.mem_map.mp hmem
  have hstart : c.start = ⟨1, 1⟩ := congrArg Segment.start hsegment
  have hstop : c.stop = ⟨2, 15⟩ := congrArg Segment.stop hsegment
  exact ⟨hfits, c, hc, hstart, hstop, positions_lead_to_source lengthReading hfits hc⟩

end Extraction

end CodeSearch
