import CodeSearch.Proofs.ChunkNames
import CodeSearch.Proofs.ConfinedPaths
import CodeSearch.Proofs.ScannedFiles

/-!
# Faithful names

Under which name the index keeps a scanned file, whether that name leads back to the file, and
whether the identifiers of its chunks can be parted again. Both fail for names that a disk
allows: a backslash is written as a slash, and an identifier is parted at its first separator,
which may stand in the name of the file.
-/
namespace CodeSearch

open Analyzer (PlainBelow)

instance (name : String) : Decidable (IsName name) :=
  decidable_of_iff (name ≠ "" ∧ name ≠ "." ∧ name ≠ ".." ∧ '/' ∉ name.toList)
    ⟨fun h => ⟨h.1, h.2.1, h.2.2.1, h.2.2.2⟩,
      fun h => ⟨h.ne_empty, h.ne_current, h.ne_parent, h.slash_notMem⟩⟩

/-- A disk as it can be: everything stands in a directory, under a name that is one. -/
structure Disk.IsProper (d : Disk) : Prop where
  tree : d.IsTree
  names : ∀ e ∈ d.entries, ∀ name ∈ e.1, IsName name

namespace Disk.IsProper

variable {d : Disk} {l : Location}

lemma isName (hd : d.IsProper) (hl : (d.at? l).isSome = true) : ∀ name ∈ l, IsName name := by
  unfold Disk.at? at hl
  split at hl
  · next hempty => simp [List.isEmpty_iff.mp hempty]
  · obtain ⟨entry, hentry⟩ := Option.isSome_iff_exists.mp hl
    obtain ⟨before, after, hentries, -⟩ := List.lookup_eq_some_iff.mp hentry
    exact hd.names (l, entry) (by simp [hentries])

lemma locate_path (hd : d.IsProper) (hl : (d.at? l).isSome = true) (hne : l ≠ []) :
    d.locate l.path = .ok l := by
  have hnames := hd.isName hl
  have hpath : l.path.isEmpty = false := by
    rw [Bool.eq_false_iff, ne_eq, String.isEmpty_iff, ← String.toList_eq_nil_iff,
      Location.toList_path]
    simp
  have htop : d.step [] [] = .ok [] := by simp [Disk.step, Disk.at?, Path.isIdle]
  rw [Disk.locate, hpath, Location.parts_path hnames hne]
  simp only [Bool.false_eq_true, if_false, List.foldlM_cons, htop]
  exact hd.tree.foldlM_step hnames hl

end Disk.IsProper

namespace Path

/-- What becomes of a character in the name of a file in the index. -/
def unslashed (c : Char) : Char :=
  if c = '\\' then '/' else c

lemma map_unslashed_eq_iff {cs : List Char} : cs.map unslashed = cs ↔ '\\' ∉ cs := by
  induction cs with
  | nil => simp
  | cons c cs ih =>
    have hc : unslashed c = c ↔ '\\' ≠ c := by
      unfold unslashed
      split
      · next h => simp [h]
      · next h => simp [Ne.symm h]
    rw [List.map_cons, List.cons.injEq, hc, ih, List.mem_cons, not_or]

lemma backslash_notMem_map_unslashed (cs : List Char) : '\\' ∉ cs.map unslashed := by
  intro hmem
  obtain ⟨c, -, hc⟩ := List.mem_map.mp hmem
  unfold unslashed at hc
  split at hc
  · exact absurd hc (by decide)
  · next h => exact h hc

end Path

namespace Location

variable {root rel : Location} {file : String}

/-- What stands before the names of a file in its path. -/
def front (root : Location) : String :=
  if root = [] then "/" else root.path ++ "/"

lemma pathOf_eq (hroot : ∀ name ∈ root, IsName name) (hfile : Path.isAbsolute file = false) :
    Index.pathOf root file = root.front ++ file := by
  have hempty : root.path.isEmpty = false := by
    rw [Bool.eq_false_iff, ne_eq, String.isEmpty_iff, ← String.toList_eq_nil_iff, toList_path]
    simp
  rw [Index.pathOf, Path.join, hfile, hempty, front]
  simp only [Bool.false_eq_true, ↓reduceIte]
  by_cases hnil : root = []
  · subst hnil
    rfl
  · rw [if_neg (getLast?_path_ne hroot hnil), if_neg hnil]

lemma path_append (hroot : ∀ name ∈ root, IsName name) (hrel : ∀ name ∈ rel, IsName name)
    (hne : rel ≠ []) : path (root ++ rel) = root.front ++ rel.relative := by
  rw [← pathOf_relative hroot hrel hne, pathOf_eq hroot (isAbsolute_relative hrel hne)]

/-- The name of a file in the index: slashes stand between its names, and within them for
backslashes. -/
lemma toList_indexName (hroot : ∀ name ∈ root, IsName name) (hrel : ∀ name ∈ rel, IsName name)
    (hne : rel ≠ []) : (Path.indexName root.path (path (root ++ rel))).toList =
      rel.relative.toList.map Path.unslashed := by
  rw [Path.indexName_eq, relative?_path hroot hrel (by simp [hne]), Option.getD_some,
    String.toList_ofList]
  rfl

lemma backslash_notMem_relative_iff :
    '\\' ∉ rel.relative.toList ↔ ∀ name ∈ rel, '\\' ∉ name.toList := by
  rw [toList_relative]
  induction rel with
  | nil => simp
  | cons name rel ih =>
    cases rel with
    | nil => simp
    | cons next rel =>
      rw [List.map_cons, List.map_cons, List.intercalate_cons_cons, ← List.map_cons,
        List.append_assoc, List.mem_append, List.singleton_append, List.mem_cons, not_or, not_or,
        ih]
      simp

end Location

namespace Scanner

variable {s : Scanner} {d : Disk} {l l' : Location}

/-- The name of a file in the index. -/
def nameOf (s : Scanner) (l : Location) : String :=
  Path.indexName s.root.path l.path

lemma exists_below (hd : d.IsProper) (hroot : d.isDirectory s.root = true) (hl : l ∈ s.files d) :
    (∀ name ∈ s.root, IsName name) ∧
      ∃ rel : Location, l = s.root ++ rel ∧ rel ≠ [] ∧ ∀ name ∈ rel, IsName name := by
  obtain ⟨hfile, hreaches, -⟩ := mem_files_iff.mp hl
  obtain ⟨rel, hrel⟩ := (reaches_iff.mp hreaches).1
  have hnames := hd.isName (Disk.isSome_of_isFile hfile)
  rw [← hrel] at hnames
  refine ⟨fun name h => hnames name (List.mem_append_left _ h), rel, hrel.symm, ?_,
    fun name h => hnames name (List.mem_append_right _ h)⟩
  rintro rfl
  rw [List.append_nil] at hrel
  rw [Disk.isFile, ← hrel, Disk.at?_of_isDirectory hroot] at hfile
  cases hfile

/-- The name of a file in a supported language does not end in the middle of a separator. -/
lemma getLast?_nameOf_ne (hd : d.IsProper) (hroot : d.isDirectory s.root = true)
    (hl : l ∈ s.files d) : (s.nameOf l).toList.getLast? ≠ some ':' := by
  obtain ⟨hrootNames, rel, rfl, hne, hrel⟩ := exists_below hd hroot hl
  have hlast := Language.getLast?_ne_colon (mem_files_iff.mp hl).2.2
  rw [Location.path_append hrootNames hrel hne, String.toList_append, List.getLast?_append] at hlast
  rw [nameOf, Location.toList_indexName hrootNames hrel hne, List.getLast?_map]
  intro hcolon
  obtain ⟨c, hc, hcolon⟩ := Option.map_eq_some_iff.mp hcolon
  rw [hc, Option.some_or] at hlast
  unfold Path.unslashed at hcolon
  split at hcolon
  · exact absurd hcolon (by decide)
  · exact hlast (congrArg some hcolon)

/-- Read from the root, the name of a file is its path exactly if no backslash was written as a
slash. -/
lemma pathOf_nameOf_iff (hd : d.IsProper) (hroot : d.isDirectory s.root = true)
    (hl : l ∈ s.files d) :
    Index.pathOf s.root (s.nameOf l) = l.path ↔ PlainBelow s.root l := by
  obtain ⟨hrootNames, rel, rfl, hne, hrel⟩ := exists_below hd hroot hl
  have hname := Location.toList_indexName hrootNames hrel hne
  have hplain : PlainBelow s.root (s.root ++ rel) ↔ '\\' ∉ rel.relative.toList := by
    rw [Location.backslash_notMem_relative_iff, PlainBelow, List.drop_left]
    exact forall₂_congr fun name h => and_iff_right (hrel name h)
  rw [hplain, ← Path.map_unslashed_eq_iff, ← hname, String.toList_inj, ← nameOf]
  have hpath := Location.path_append hrootNames hrel hne
  constructor
  · intro hsame
    cases habsolute : Path.isAbsolute (s.nameOf (s.root ++ rel)) with
    | false =>
      rw [Location.pathOf_eq hrootNames habsolute, hpath] at hsame
      have hlists := congrArg String.toList hsame
      rw [String.toList_append, String.toList_append, List.append_cancel_left_eq] at hlists
      exact String.toList_inj.mp hlists
    | true =>
      -- the path of the file would be a name of the index, in which there are no backslashes
      rw [Index.pathOf, Path.join, if_pos habsolute] at hsame
      have hnone := Path.backslash_notMem_map_unslashed rel.relative.toList
      rw [← hname, ← nameOf, hsame, hpath, String.toList_append, List.mem_append, not_or] at hnone
      rw [← String.toList_inj, nameOf, hname]
      exact Path.map_unslashed_eq_iff.mpr hnone.2
  · intro hsame
    rw [hsame, Location.pathOf_relative hrootNames hrel hne]

lemma locate_nameOf (hd : d.IsProper) (hroot : d.isDirectory s.root = true) (hl : l ∈ s.files d)
    (hplain : PlainBelow s.root l) : d.locate (Index.pathOf s.root (s.nameOf l)) = .ok l := by
  rw [(pathOf_nameOf_iff hd hroot hl).mpr hplain]
  obtain ⟨-, rel, rfl, hne, -⟩ := exists_below hd hroot hl
  exact hd.locate_path (Disk.isSome_of_isFile (mem_files_iff.mp hl).1) (by simp [hne])

/-- The identifiers of the chunks of a file can be parted again exactly if its name has no
separator in it. -/
lemma split?_nameOf_iff (hd : d.IsProper) (hroot : d.isDirectory s.root = true)
    (hl : l ∈ s.files d) :
    (∀ path, ChunkId.split? (ChunkId.ofParts (s.nameOf l) path) = some (s.nameOf l, path)) ↔
      ChunkId.Separable (s.nameOf l) :=
  ⟨fun h => ChunkId.separable_of_split? (h ""),
    fun h path => ChunkId.split?_ofParts h (getLast?_nameOf_ne hd hroot hl) path⟩

/-- What a scan lists goes under faithful names. The name of a file below the root without a
backslash is its path from there and leads to the file, so that no other such file has it. An
identifier tells its file and its path exactly if the name of the file has no separator in it,
and chunks of different files with such names never share one. -/
theorem scanned_names_are_faithful (hd : d.IsProper) (hroot : d.isDirectory s.root = true)
    (hl : l ∈ s.files d) (hl' : l' ∈ s.files d) (hne : l ≠ l') :
    (PlainBelow s.root l → Index.pathOf s.root (s.nameOf l) = l.path ∧
      d.locate (Index.pathOf s.root (s.nameOf l)) = .ok l) ∧
    (PlainBelow s.root l → PlainBelow s.root l' → s.nameOf l ≠ s.nameOf l') ∧
    ((∀ path, ChunkId.split? (ChunkId.ofParts (s.nameOf l) path) = some (s.nameOf l, path)) ↔
      ChunkId.Separable (s.nameOf l)) ∧
    (s.nameOf l ≠ s.nameOf l' →
      ChunkId.Separable (s.nameOf l) → ChunkId.Separable (s.nameOf l') →
      ∀ path path', ChunkId.ofParts (s.nameOf l) path ≠ ChunkId.ofParts (s.nameOf l') path') := by
  have hsplit := split?_nameOf_iff hd hroot hl
  have hsplit' := split?_nameOf_iff hd hroot hl'
  refine ⟨fun hplain => ?_, fun hplain hplain' hname => ?_, hsplit,
    fun hname hseparable hseparable' path path' hid => ?_⟩
  · exact ⟨(pathOf_nameOf_iff hd hroot hl).mpr hplain, locate_nameOf hd hroot hl hplain⟩
  · have hthere := locate_nameOf hd hroot hl hplain
    rw [hname, locate_nameOf hd hroot hl' hplain'] at hthere
    exact hne (Except.ok.inj hthere).symm
  · have hparts := hsplit.mpr hseparable path
    rw [hid, hsplit'.mpr hseparable' path'] at hparts
    exact hname (Prod.mk.inj (Option.some.inj hparts)).1.symm

/-- A workspace in which two names differ in a slash and a backslash, and one goes on behind a
separator where another one ends. -/
def twinDisk : Disk where
  entries := [(["work"], .directory), (["work", "a"], .directory),
    (["work", "a", "b.rs"], .file "fn b() {}".toUTF8 1),
    (["work", "a\\b.rs"], .file "fn b() {}".toUTF8 1),
    (["work", "c.rs"], .file "fn c() {}".toUTF8 1),
    (["work", "c.rs::d.rs"], .file "fn d() {}".toUTF8 1)]

def twinScanner : Scanner where
  root := ["work"]

lemma isProper_twinDisk : twinDisk.IsProper :=
  ⟨Disk.isTree_of_entries (by decide), by decide⟩

lemma mem_files_twinDisk (hl : l ∈ twinDisk.files) : l ∈ twinScanner.files twinDisk := by
  have hrules : IgnoreFiles.ofDisk twinDisk = Watcher.rawIgnoreFiles twinDisk :=
    Watcher.ofDisk_eq_raw (by decide) (by decide) (by decide)
  have hall : ∀ l ∈ twinDisk.files,
      twinScanner.reaches (Watcher.rawIgnoreFiles twinDisk) l false = true ∧
        (Language.ofPath? l.path).isSome = true := by
    decide +kernel
  rw [mem_files_iff, hrules]
  exact ⟨Disk.mem_files_iff.mp hl, hall l hl⟩

lemma nameOf_twinScanner {name : String} (h : String.ofList (((Path.relative? "/work" l.path).getD
    l.path).toList.map Path.unslashed) = name) : twinScanner.nameOf l = name := by
  rw [nameOf, Path.indexName_eq]
  exact h

theorem twins_apart :
    twinDisk.IsProper ∧ twinDisk.isDirectory twinScanner.root = true ∧
    ["work", "a", "b.rs"] ∈ twinScanner.files twinDisk ∧
    ["work", "c.rs"] ∈ twinScanner.files twinDisk ∧
    twinScanner.nameOf ["work", "a", "b.rs"] ≠ twinScanner.nameOf ["work", "c.rs"] ∧
    twinDisk.locate (Index.pathOf twinScanner.root (twinScanner.nameOf ["work", "a", "b.rs"])) =
      .ok ["work", "a", "b.rs"] ∧
    ∀ path path', ChunkId.ofParts (twinScanner.nameOf ["work", "a", "b.rs"]) path ≠
      ChunkId.ofParts (twinScanner.nameOf ["work", "c.rs"]) path' := by
  have hroot : twinDisk.isDirectory twinScanner.root = true := by decide
  have hb : ["work", "a", "b.rs"] ∈ twinScanner.files twinDisk := mem_files_twinDisk (by decide)
  have hc : ["work", "c.rs"] ∈ twinScanner.files twinDisk := mem_files_twinDisk (by decide)
  obtain ⟨hleads, hdiffer, -, hapart⟩ :=
    scanned_names_are_faithful isProper_twinDisk hroot hb hc (by decide)
  have hplain : PlainBelow twinScanner.root ["work", "a", "b.rs"] := by
    unfold PlainBelow
    decide
  have hplain' : PlainBelow twinScanner.root ["work", "c.rs"] := by
    unfold PlainBelow
    decide
  have hname := hdiffer hplain hplain'
  have hb' : twinScanner.nameOf ["work", "a", "b.rs"] = "a/b.rs" := nameOf_twinScanner (by decide)
  have hc' : twinScanner.nameOf ["work", "c.rs"] = "c.rs" := nameOf_twinScanner (by decide)
  refine ⟨isProper_twinDisk, hroot, hb, hc, hname, (hleads hplain).2, hapart hname ?_ ?_⟩
  · rw [hb']
    decide
  · rw [hc']
    decide

/-- Two files have one name, which leads to one of them only; and the identifier of a chunk is
parted in the name of its file, so that it is that of a chunk of another file. -/
theorem twins_confused :
    twinDisk.IsProper ∧ twinDisk.isDirectory twinScanner.root = true ∧
    (∀ l ∈ [["work", "a", "b.rs"], ["work", "a\\b.rs"], ["work", "c.rs"], ["work", "c.rs::d.rs"]],
      l ∈ twinScanner.files twinDisk) ∧
    twinScanner.nameOf ["work", "a\\b.rs"] = twinScanner.nameOf ["work", "a", "b.rs"] ∧
    twinDisk.locate (Index.pathOf twinScanner.root (twinScanner.nameOf ["work", "a\\b.rs"])) =
      .ok ["work", "a", "b.rs"] ∧
    ChunkId.split? (ChunkId.ofParts (twinScanner.nameOf ["work", "c.rs::d.rs"]) "d") =
      some ("c.rs", "d.rs::d") ∧
    ChunkId.ofParts (twinScanner.nameOf ["work", "c.rs::d.rs"]) "d" =
      ChunkId.ofParts (twinScanner.nameOf ["work", "c.rs"]) "d.rs::d" := by
  have hb : twinScanner.nameOf ["work", "a", "b.rs"] = "a/b.rs" := nameOf_twinScanner (by decide)
  have hb' : twinScanner.nameOf ["work", "a\\b.rs"] = "a/b.rs" := nameOf_twinScanner (by decide)
  have hc : twinScanner.nameOf ["work", "c.rs"] = "c.rs" := nameOf_twinScanner (by decide)
  have hd : twinScanner.nameOf ["work", "c.rs::d.rs"] = "c.rs::d.rs" :=
    nameOf_twinScanner (by decide)
  rw [hb, hb', hc, hd]
  refine ⟨isProper_twinDisk, by decide, fun l hl => mem_files_twinDisk ?_, rfl, by decide,
    by decide, by decide⟩
  revert l
  decide

end Scanner

end CodeSearch
