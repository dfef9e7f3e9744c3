import CodeSearch.Chunk.Chunker
import CodeSearch.Proofs.LogTails
import CodeSearch.Proofs.ReadBackChunks
import CodeSearch.Proofs.Segments

/-!
# Hits on lines

A listing has a line for each hit if every hit is on one line. Summaries always are. A path is
if the texts are that label its node and the nodes around it. These are taken from the source
as they stand there, so they need not be.
-/
namespace CodeSearch

namespace Text

/-- A text without a newline. -/
def IsLine (s : String) : Prop :=
  '\n' ∉ s.toList

instance (s : String) : Decidable (IsLine s) :=
  inferInstanceAs (Decidable (¬ _))

lemma isLine_append {a b : String} : IsLine (a ++ b) ↔ IsLine a ∧ IsLine b := by
  simp [IsLine]

lemma isLine_repr (n : ℕ) : IsLine n.repr := by
  intro h
  rw [Nat.toList_repr] at h
  exact absurd (Nat.isDigit_of_mem_toDigits (by decide) (by decide) h) (by decide)

/-- Trimming only drops characters. -/
lemma trim_subset (cs : List Char) : trim cs ⊆ cs := by
  intro c hc
  have hstart : c ∈ (trimStart cs).reverse :=
    (List.dropWhile_sublist _).subset (List.mem_reverse.mp hc)
  exact (List.dropWhile_sublist _).subset (List.mem_reverse.mp hstart)

lemma dropReturn_subset (cs : List Char) : dropReturn cs ⊆ cs := by
  unfold dropReturn
  split
  · exact List.dropLast_subset cs
  · exact List.Subset.refl cs

lemma newline_not_mem_of_mem_lines {cs line : List Char} (h : line ∈ lines cs) : '\n' ∉ line := by
  have hfrom (cs before : List Char) (hbefore : '\n' ∉ before) (h : line ∈ linesFrom before cs) :
      '\n' ∉ line := by
    induction cs generalizing before with
    | nil =>
      rw [linesFrom] at h
      split at h
      · cases h
      · obtain rfl := List.mem_singleton.mp h
        simpa using hbefore
    | cons c cs ih =>
      rw [linesFrom] at h
      split at h
      · rcases List.mem_cons.mp h with rfl | h
        · exact fun hmem => hbefore (List.mem_reverse.mp (dropReturn_subset _ hmem))
        · exact ih [] (by simp) h
      · next hc => exact ih (c :: before) (by simp [hbefore, Ne.symm hc]) h
  exact hfrom cs [] (by simp) h

lemma length_linesFrom_newline (before cs : List Char) :
    (linesFrom before (cs ++ ['\n'])).length = cs.count '\n' + 1 := by
  induction cs generalizing before with
  | nil => simp [linesFrom]
  | cons c cs ih =>
    rw [List.cons_append, linesFrom, List.count_cons]
    by_cases hc : c = '\n'
    · rw [if_pos hc, List.length_cons, ih, hc]
      rfl
    · rw [if_neg hc, ih]
      simp [hc]

/-- Behind the last newline there is one more line, if there is anything. -/
lemma length_lines_concat (cs : List Char) {c : Char} (hc : c ≠ '\n') :
    (lines (cs ++ [c])).length = cs.count '\n' + 1 := by
  have hfrom (before : List Char) : (linesFrom before (cs ++ [c])).length = cs.count '\n' + 1 := by
    induction cs generalizing before with
    | nil => simp [linesFrom, hc]
    | cons d cs ih =>
      rw [List.cons_append, linesFrom, List.count_cons]
      by_cases hd : d = '\n'
      · rw [if_pos hd, List.length_cons, ih, hd]
        rfl
      · rw [if_neg hd, ih]
        simp [hd]
  exact hfrom []

/-- Texts that end in a bracket, with newlines between them, have a line for each of them and
one more for each newline in them. -/
lemma length_lines_intercalate {texts : List (List Char)}
    (h : ∀ t ∈ texts, t.getLast? = some ']') :
    (lines (['\n'].intercalate texts)).length =
      texts.length + (texts.map (·.count '\n')).sum := by
  induction texts with
  | nil => rfl
  | cons t texts ih =>
    rw [List.forall_mem_cons] at h
    cases texts with
    | nil =>
      obtain ⟨front, rfl⟩ := List.getLast?_eq_some_iff.mp h.1
      rw [List.intercalate_singleton, length_lines_concat front (by decide)]
      simp [Nat.add_comm]
    | cons u texts =>
      have hfront : lines (t ++ '\n' :: ['\n'].intercalate (u :: texts)) =
          linesFrom [] (t ++ ['\n']) ++ lines (['\n'].intercalate (u :: texts)) :=
        linesFrom_newline [] t _
      rw [List.intercalate_cons_cons, List.append_assoc, List.singleton_append, hfront,
        List.length_append, length_linesFrom_newline, ih h.2]
      simp only [List.length_cons, List.map_cons, List.sum_cons]
      omega

lemma lines_intercalate {texts : List (List Char)} (h : ∀ t ∈ texts, t.getLast? = some ']')
    (hline : ∀ t ∈ texts, '\n' ∉ t) : lines (['\n'].intercalate texts) = texts := by
  induction texts with
  | nil => rfl
  | cons t texts ih =>
    rw [List.forall_mem_cons] at h hline
    cases texts with
    | nil =>
      have hne : t ≠ [] := by
        rintro rfl
        cases h.1
      rw [List.intercalate_singleton, lines_of_not_mem hline.1, if_neg hne]
    | cons u texts =>
      have hfirst := linesFrom_append hline.1 [] (['\n'].intercalate (u :: texts))
      have hreturn : dropReturn t = t := by simp [dropReturn, h.1]
      rw [List.reverse_nil, List.nil_append, hreturn] at hfirst
      rw [List.intercalate_cons_cons, List.append_assoc, List.singleton_append, lines, hfirst]
      exact congrArg _ (ih h.2 hline.2)

end Text

open Text (IsLine isLine_append isLine_repr)

namespace Summary

lemma newline_not_mem_firstLine (text : List Char) : '\n' ∉ firstLine text := by
  unfold firstLine
  cases hfind : ((Text.lines text).map Text.trim).find? (! ·.isEmpty) with
  | none => simp
  | some line =>
    obtain ⟨whole, hwhole, rfl⟩ := List.mem_map.mp (List.mem_of_find?_eq_some hfind)
    exact fun hmem => Text.newline_not_mem_of_mem_lines hwhole (Text.trim_subset whole hmem)

lemma keep_subset (line : List Char) : keep line ⊆ line := by
  have hhead : line.take (limit - ellipsis.length) ⊆ line := List.take_subset _ _
  have hend (cs : List Char) : Text.trimEnd cs ⊆ cs := fun c hc =>
    List.mem_reverse.mp ((List.dropWhile_sublist _).subset (List.mem_reverse.mp hc))
  have hwords (cs : List Char) : throughLastBlank cs ⊆ cs := fun c hc =>
    List.mem_reverse.mp ((List.dropWhile_sublist _).subset (List.mem_reverse.mp hc))
  unfold keep
  dsimp only
  split
  · exact List.Subset.trans (hend _) hhead
  · exact List.Subset.trans (hend _) (List.Subset.trans (hwords _) hhead)

lemma isLine_summarize (text : String) : IsLine (summarize text) := by
  have hline := newline_not_mem_firstLine text.toList
  rw [IsLine, summarize, String.toList_ofList, ofChars]
  split
  · exact hline
  · rw [List.mem_append, not_or]
    exact ⟨fun hmem => hline (keep_subset _ hmem), by decide⟩

end Summary

namespace Digest

lemma isLine_ofText (text : String) : IsLine (ofText text) := by
  have hdigit (n : UInt32) : hexDigit n ≠ '\n' := by
    intro h
    rw [hexDigit, List.getD_eq_getElem?_getD] at h
    cases hget : "0123456789abcdef".toList[n.toNat]? with
    | none =>
      rw [hget] at h
      exact absurd h (by decide)
    | some c =>
      rw [hget, Option.getD_some] at h
      exact absurd (h ▸ List.mem_of_getElem? hget) (by decide)
  have hword (w : UInt32) : '\n' ∉ hexWord w := by
    simp [hexWord, Ne.symm (hdigit _)]
  simp [IsLine, ofText, hword]

end Digest

namespace Label

def texts : Label → List String
  | byContent => []
  | byName name parent marker => name :: (parent.toList ++ marker.toList)

def IsLine (l : Label) : Prop :=
  ∀ t ∈ l.texts, Text.IsLine t

end Label

namespace Naming

lemma isLine_join (scope name : String) :
    IsLine (join scope name) ↔ IsLine scope ∧ IsLine name := by
  unfold join
  split
  · next hempty =>
    obtain rfl := String.isEmpty_iff.mp hempty
    exact (and_iff_right (by decide)).symm
  · have hseparator : IsLine separator := by decide
    simp [ChunkId.ofParts, isLine_append, hseparator]

lemma isLine_freePath (taken : List String) (path : String) :
    IsLine (freePath taken path) ↔ IsLine path := by
  unfold freePath
  split
  · split
    · have hdash : IsLine "-" := by decide
      simp [numbered, isLine_append, hdash, isLine_repr]
    · rfl
  · rfl

/-- A path asked for in a scope on one line is on one line exactly if its label is. -/
lemma isLine_basePath {scope : String} (hscope : IsLine scope) (label : Label)
    (source : List Char) (n : Node) : IsLine (basePath label source scope n) ↔ label.IsLine := by
  cases label with
  | byContent =>
    rw [basePath, isLine_join]
    exact iff_of_true ⟨hscope, Digest.isLine_ofText _⟩ fun t ht => by cases ht
  | byName name parent marker =>
    have hempty : IsLine "" := by decide
    rw [basePath, isLine_join, isLine_append, Label.IsLine, Label.texts]
    cases parent <;> cases marker <;> simp [hscope, hempty, and_comm, and_left_comm]

/-- The scope of what lies inside a node is on one line if the node's label and path are. -/
lemma isLine_innerScope {scope path : String} (hscope : IsLine scope) {label : Label}
    (hlabel : label.IsLine) (hpath : IsLine path) : IsLine (innerScope label scope path) := by
  unfold innerScope
  split
  · next name parent marker =>
    rw [Label.IsLine, Label.texts, List.forall_mem_cons] at hlabel
    rw [isLine_join]
    refine ⟨?_, hlabel.1⟩
    cases parent with
    | none => exact hscope
    | some parent => exact hlabel.2 parent (by simp)
  · exact hpath

end Naming

namespace Extraction

variable (x : Extraction)

mutual

lemma isLine_ofSection {scope : String} (hscope : IsLine scope) (taken : List String) :
    ∀ s : Section, (∀ c ∈ (x.ofSection scope taken s).1, IsLine c.path) ↔
      ∀ g ∈ s.groups, (x.labelOf g).IsLine
  | .mk g nested => by
    set label := x.labelOf g with hlabel
    set path := Naming.freePath taken (Naming.basePath label x.source scope g.node) with hpath
    have hown : IsLine path ↔ label.IsLine := by
      rw [hpath, Naming.isLine_freePath, Naming.isLine_basePath hscope]
    have hchunks : (x.ofSection scope taken (.mk g nested)).1 = x.chunkOf g path ::
        (x.ofSections (Naming.innerScope label scope path) (path :: taken) nested).1 := by
      rw [ofSection]
    rw [hchunks, Section.groups, List.forall_mem_cons, List.forall_mem_cons, ← hlabel, ← hown]
    refine and_congr_right fun hline => ?_
    exact isLine_ofSections (Naming.isLine_innerScope hscope (hown.mp hline) hline) _ nested

lemma isLine_ofSections {scope : String} (hscope : IsLine scope) (taken : List String) :
    ∀ ss : List Section, (∀ c ∈ (x.ofSections scope taken ss).1, IsLine c.path) ↔
      ∀ g ∈ Section.groupsOfAll ss, (x.labelOf g).IsLine
  | [] => by simp [ofSections, Section.groupsOfAll]
  | s :: ss => by
    rw [ofSections, Section.groupsOfAll, List.forall_mem_append, List.forall_mem_append,
      isLine_ofSection hscope taken s, isLine_ofSections hscope _ ss]

end

/-- The paths of a tree are on one line exactly if the texts are that label its groups. -/
lemma isLine_paths (root : Node) : (∀ c ∈ x.chunks root, IsLine c.path) ↔
    ∀ g ∈ Section.groupsOfAll (x.table.outline root), (x.labelOf g).IsLine :=
  x.isLine_ofSections (by decide) [] _

lemma isLine_summary {root : Node} {c : Chunk} (hc : c ∈ x.chunks root) : IsLine c.summary := by
  obtain ⟨visits, -, -, hchunks⟩ := x.exists_visits root
  rw [hchunks] at hc
  obtain ⟨v, -, rfl⟩ := List.mem_map.mp hc
  exact Summary.isLine_summarize _

end Extraction

namespace Chunk

/-- A chunk that is made of a file whose name is on one line. -/
def IsExtracted (c : Chunk) : Prop :=
  IsLine c.file ∧ ∃ x root, c ∈ Extraction.chunks x root

def listed (c : Chunk) : String :=
  c.id ++ " | " ++ c.summary ++ " [" ++ c.range ++ "]"

lemma getLast?_listed (c : Chunk) : c.listed.toList.getLast? = some ']' := by
  rw [listed, String.toList_append]
  exact List.getLast?_concat

lemma isLine_range (c : Chunk) : IsLine c.range := by
  have hline : IsLine "line " := by decide
  have hlines : IsLine "lines " := by decide
  have hdash : IsLine "-" := by decide
  unfold range lineRange
  split
  · simp [isLine_append, hline, isLine_repr]
  · simp [isLine_append, hlines, hdash, isLine_repr]

/-- The newlines of a listed chunk are those of its path. -/
lemma count_listed {c : Chunk} (hc : c.IsExtracted) :
    c.listed.toList.count '\n' = c.path.toList.count '\n' := by
  obtain ⟨hfile, x, root, hmem⟩ := hc
  have hcount {s : String} (hs : IsLine s) : s.toList.count '\n' = 0 := List.count_eq_zero.mpr hs
  have hseparator : IsLine separator := by decide
  have hbar : IsLine " | " := by decide
  have hopen : IsLine " [" := by decide
  have hclose : IsLine "]" := by decide
  simp only [listed, id, ChunkId.ofParts, String.toList_append, List.count_append, hcount hfile,
    hcount hseparator, hcount hbar, hcount hopen, hcount hclose, hcount (x.isLine_summary hmem),
    hcount c.isLine_range, Nat.zero_add, Nat.add_zero]

lemma isLine_listed {c : Chunk} (hc : c.IsExtracted) : IsLine c.listed ↔ IsLine c.path := by
  rw [IsLine, IsLine, ← List.count_eq_zero, ← List.count_eq_zero, count_listed hc]

end Chunk

namespace Hit

variable {h : Hit} {c : Chunk} {hits : List Hit} {chunks : List Chunk}

/-- A hit that a search makes of the document of a chunk. -/
def IsOn (h : Hit) (c : Chunk) : Prop :=
  ∃ e, StoredDocument.hit ⟨c.document, e⟩ h.similarity = .ok h

lemma exists_isOn (hfits : c.Fits) : ∃ h : Hit, h.IsOn c :=
  ⟨⟨c.id, c.fileType, c.summary, c.start.line, c.stop.line, .zero⟩, [],
    StoredDocument.hit_of_chunk rfl hfits .zero⟩

lemma line_eq_listed (hon : h.IsOn c) : h.line = c.listed := by
  obtain ⟨e, hhit⟩ := hon
  obtain ⟨fileType, -, hhit⟩ := Except.bind_eq_ok.mp hhit
  obtain ⟨first, hfirst, hhit⟩ := Except.bind_eq_ok.mp hhit
  obtain ⟨last, hlast, hhit⟩ := Except.bind_eq_ok.mp hhit
  have hsummary : c.document.metadata.get? "summary" = some c.summary := by
    rw [Chunk.get?_metadata]
    rfl
  have hfields := Except.pure_eq_ok.mp hhit
  rw [hsummary, StoredDocument.natField_of_chunk rfl "startLine" rfl hfirst,
    StoredDocument.natField_of_chunk rfl "endLine" rfl hlast] at hfields
  rw [← hfields]
  rfl

lemma toList_listing (hon : List.Forall₂ IsOn hits chunks) :
    (listing hits).toList = ['\n'].intercalate (chunks.map fun c => c.listed.toList) := by
  have hlines : hits.map line = chunks.map Chunk.listed := by
    induction hon with
    | nil => rfl
    | cons hon _ ih => rw [List.map_cons, List.map_cons, line_eq_listed hon, ih]
  rw [listing, String.toList_intercalate, hlines, List.map_map]
  rfl

/-- Hits on chunks of files whose names are on one line are listed with a line for each of them
and one more for each newline in their paths: nothing for no hits, and identifier, summary and
range of each hit on a line of its own exactly if all paths are on one line. Summaries always
are, and the paths of a tree are exactly if the texts are that label its groups. -/
theorem listing_has_line_for_each_hit (hon : List.Forall₂ IsOn hits chunks)
    (hchunks : ∀ c ∈ chunks, c.IsExtracted) :
    (Text.lines (listing hits).toList).length =
      hits.length + (chunks.map fun c => c.path.toList.count '\n').sum ∧
    ((∀ c ∈ chunks, IsLine c.path) ↔
      Text.lines (listing hits).toList = chunks.map fun c => c.listed.toList) ∧
    (hits = [] → listing hits = "") ∧
    ∀ (x : Extraction) (root : Node), (∀ c ∈ x.chunks root, IsLine c.summary) ∧
      ((∀ c ∈ x.chunks root, IsLine c.path) ↔
        ∀ g ∈ Section.groupsOfAll (x.table.outline root), (x.labelOf g).IsLine) := by
  have hlast : ∀ t ∈ chunks.map fun c => c.listed.toList, t.getLast? = some ']' := by
    intro t ht
    obtain ⟨c, -, rfl⟩ := List.mem_map.mp ht
    exact c.getLast?_listed
  have hcounts : (chunks.map fun c => c.listed.toList).map (·.count '\n') =
      chunks.map fun c => c.path.toList.count '\n' := by
    rw [List.map_map]
    exact List.map_congr_left fun c hc => Chunk.count_listed (hchunks c hc)
  have hlength := Text.length_lines_intercalate hlast
  rw [hcounts, List.length_map, ← hon.length_eq, ← toList_listing hon] at hlength
  refine ⟨hlength, ⟨fun hpaths => ?_, fun hlines => ?_⟩, ?_, fun x root => ?_⟩
  · rw [toList_listing hon]
    refine Text.lines_intercalate hlast fun t ht => ?_
    obtain ⟨c, hc, rfl⟩ := List.mem_map.mp ht
    exact (Chunk.isLine_listed (hchunks c hc)).mpr (hpaths c hc)
  · rw [hlines, List.length_map, ← hon.length_eq] at hlength
    have hsum : (chunks.map fun c => c.path.toList.count '\n').sum = 0 := by omega
    intro c hc
    have hzero := List.sum_eq_zero_iff.mp hsum _ (List.mem_map_of_mem hc)
    exact List.count_eq_zero.mp hzero
  · rintro rfl
    rfl
  · exact ⟨fun c hc => x.isLine_summary hc, x.isLine_paths root⟩

section Items

/-- An `impl` block of a type on three lines, and a function. -/
def itemsSource : String :=
  "impl Pair<\n    u8,\n> \x7b\x7d\nfn run() \x7b\x7d\n"

def itemsTree : Node where
  kind := "source_file"
  start := 0
  stop := 36
  children := [
    { kind := "impl_item", start := 0, stop := 23
      children := [
        { kind := "generic_type", field := some "type", start := 5, stop := 20
          children := [
            { kind := "type_identifier", field := some "type", start := 5, stop := 9 },
            { kind := "type_arguments", field := some "type_arguments", start := 9, stop := 20
              children := [{ kind := "primitive_type", start := 15, stop := 17 }] }] },
        { kind := "declaration_list", field := some "body", start := 21, stop := 23 }] },
    { kind := "function_item", start := 24, stop := 35
      children := [
        { kind := "identifier", field := some "name", start := 27, stop := 30 },
        { kind := "parameters", field := some "parameters", start := 30, stop := 32 },
        { kind := "block", field := some "body", start := 33, stop := 35 }] }]

def itemsExtraction : Extraction where
  table := Language.rust.table
  compile := Pattern.parse?
  source := itemsSource.toList
  file := "src/a.rs"
  fileType := .src
  parsedAt := 0

def pairChunk : Chunk where
  file := "src/a.rs"
  fileType := .src
  path := "impl Pair<\n    u8,\n>"
  summary := "impl Pair<"
  source := "impl Pair<\n    u8,\n> \x7b\x7d"
  start := ⟨1, 1⟩
  stop := ⟨3, 5⟩
  parsedAt := 0

def runChunk : Chunk where
  file := "src/a.rs"
  fileType := .src
  path := "run"
  summary := "fn run() \x7b\x7d"
  source := "fn run() \x7b\x7d"
  start := ⟨4, 1⟩
  stop := ⟨4, 12⟩
  parsedAt := 0

lemma chunks_items : itemsExtraction.chunks itemsTree = [pairChunk, runChunk] := by
  decide +kernel

lemma isExtracted_items : ∀ c ∈ [pairChunk, runChunk], c.IsExtracted := by
  intro c hc
  have hfile : ∀ c ∈ [pairChunk, runChunk], IsLine c.file := by decide
  exact ⟨hfile c hc, itemsExtraction, itemsTree, by rwa [chunks_items]⟩

/-- The function has a line of its own. -/
theorem run_is_listed_on_line : runChunk.IsExtracted ∧ IsLine runChunk.path ∧
    ∃ h : Hit, h.IsOn runChunk ∧
      Text.lines (listing [h]).toList = ["src/a.rs::run | fn run() \x7b\x7d [line 4]".toList] := by
  obtain ⟨h, hon⟩ := exists_isOn (c := runChunk) (by constructor <;> decide)
  have hextracted : ∀ c ∈ [runChunk], c.IsExtracted :=
    fun c hc => isExtracted_items c (List.mem_cons_of_mem _ hc)
  have hline : ∀ c ∈ [runChunk], IsLine c.path := by decide
  obtain ⟨-, hlines, -, -⟩ := listing_has_line_for_each_hit (.cons hon .nil) hextracted
  exact ⟨hextracted _ List.mem_cons_self, hline _ List.mem_cons_self, h, hon, hlines.mp hline⟩

/-- The `impl` block goes by its whole type, so a hit on it takes three lines. -/
theorem long_type_takes_three_lines : pairChunk.IsExtracted ∧ ¬IsLine pairChunk.path ∧
    ∃ h : Hit, h.IsOn pairChunk ∧ (Text.lines (listing [h]).toList).length = 3 := by
  obtain ⟨h, hon⟩ := exists_isOn (c := pairChunk) (by constructor <;> decide)
  refine ⟨isExtracted_items _ List.mem_cons_self, by decide, h, hon, ?_⟩
  rw [toList_listing (.cons hon .nil)]
  decide +kernel

end Items

end Hit

end CodeSearch
