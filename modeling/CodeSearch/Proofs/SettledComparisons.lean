import CodeSearch.Proofs.EditedIndex

/-!
# Comparisons that settle

A comparison with the disk forgets the files that are gone and takes in those that have to be
read again. If none of them fails, nothing is left to be done: a second comparison with the same
disk looks once more at the files without chunks, and changes neither store nor cache. A closed
analyzer takes nothing in.
-/
namespace CodeSearch

namespace Index

/-- Neither the cache nor the store has anything of a file. -/
structure Lacks (x : Index Store) (file : String) : Prop where
  cache : x.cache.get? file = none
  store : ∀ id d, x.store.documents.get? id = some d → d.metadata.get? "file" ≠ some file

/-- What is remembered of a file are some chunks. If there are none, the index lacks the file. -/
def Remembers (x : Index Store) (file : String) (chunks : List Chunk) : Prop :=
  if chunks = [] then x.Lacks file else x.cache.get? file = some (chunks.map Chunk.cached)

/-- A change spares a file: it is remembered as before, and if it was lacking, it still is. -/
structure Spares (x : Index Store) (file : String) (y : Index Store) : Prop where
  cache : y.cache.get? file = x.cache.get? file
  lacks : x.Lacks file → y.Lacks file

variable {x y z : Index Store} {file other : String} {chunks : List Chunk}

lemma Spares.trans (h : x.Spares file y) (h' : y.Spares file z) : x.Spares file z :=
  ⟨h'.cache.trans h.cache, h'.lacks ∘ h.lacks⟩

lemma Spares.remembers (h : x.Spares file y) (hx : x.Remembers file chunks) :
    y.Remembers file chunks := by
  unfold Remembers at hx ⊢
  split
  · next hnil => exact h.lacks (by rwa [if_pos hnil] at hx)
  · next hne =>
    rw [if_neg hne] at hx
    exact h.cache.trans hx

lemma Edit.remembers (h : x.Edit file chunks y) : y.Remembers file chunks := by
  have hcache := h.cache file
  rw [if_pos rfl] at hcache
  unfold Remembers
  split
  · next hnil =>
    rw [if_pos hnil] at hcache
    obtain ⟨documents, hdocuments, hstored⟩ := h.stored
    obtain rfl : documents = [] := by simpa [hnil] using hdocuments
    refine ⟨hcache, fun id d hd => ?_⟩
    rw [hstored] at hd
    rcases Contents.refile_cases hd with ⟨hmem, -⟩ | ⟨-, hfile⟩
    · cases hmem
    · exact hfile
  · next hne => rwa [if_neg hne] at hcache

/-- The other files are spared by an edit, since the chunks that it puts in are of its own. -/
lemma Edit.spares (h : x.Edit file chunks y) (hchunks : ∀ c ∈ chunks, c.file = file)
    (hne : other ≠ file) : x.Spares other y where
  cache := by rw [h.cache, if_neg hne]
  lacks hx := by
    refine ⟨by rw [h.cache, if_neg hne, hx.cache], fun id d hd => ?_⟩
    obtain ⟨documents, hdocuments, hstored⟩ := h.stored
    rw [hstored] at hd
    rcases Contents.refile_cases hd with ⟨hmem, -⟩ | ⟨hold, -⟩
    · have hmem : d.toDocument ∈ chunks.map Chunk.document :=
        hdocuments ▸ List.mem_map_of_mem hmem
      obtain ⟨c, hc, heq⟩ := List.mem_map.mp hmem
      have hfile : c.document.metadata.get? "file" = some c.file := by
        rw [Chunk.document, Catalog.get?_ofList]
        rfl
      rw [← heq, hfile, hchunks c hc]
      exact fun h => hne (Option.some.inj h).symm
    · exact hx.store id d hold

lemma Lacks.cached_eq (h : x.Lacks file) : x.cached file = [] := by
  rw [cached, h.cache]
  rfl

/-- Where nothing is to be forgotten, nothing changes. -/
lemma Lacks.remove_eq (h : x.Lacks file) : x.remove file = .ok x := by
  have hfilter : (fileFilter file).entries ≠ [] := by
    have hentries : (fileFilter file).entries = [("file", file)] := rfl
    simp [hentries]
  have hnone : x.store.matching (fileFilter file) = [] := by
    refine List.map_eq_nil_iff.mpr (List.filter_eq_nil_iff.mpr fun d hd => ?_)
    obtain ⟨id, hid⟩ := (Catalog.mem_values_iff _ _).mp hd
    simpa [Document.matches_fileFilter] using h.store id d hid
  have hdelete : DocumentStore.delete x.store (fileFilter file) = .ok (0, x.store) := by
    change x.store.delete (fileFilter file) = _
    rw [Store.delete_eq, if_neg hfilter, if_pos hnone]
  have hcache : x.cache.erase file = x.cache := by
    refine Catalog.ext_get? fun name => ?_
    rw [Catalog.get?_erase]
    split
    · next hname => rw [hname, h.cache]
    · rfl
  rw [remove, hdelete]
  exact congrArg (fun cache => Except.ok { x with cache }) hcache

lemma Lacks.replace_eq {call : ChunkedFile} (h : x.Lacks call.path) (hnil : call.chunks = []) :
    x.replace call = (.ok (), x) := by
  rw [replace, h.remove_eq]
  exact if_pos (by simpa using hnil)

section Staleness

variable {d : Disk}

/-- A file need not be read again if it is there and its last chunk was read no earlier than it
was written. -/
lemma isStale_eq_false_iff : x.isStale d file = false ↔
    ∃ written parsedAt, d.modified? (pathOf x.root file) = some written ∧
      ((x.cached file).map (·.parsedAt)).max? = some parsedAt ∧ written ≤ parsedAt := by
  rw [isStale, cached]
  cases d.modified? (pathOf x.root file) with
  | none => simp
  | some written =>
    cases (((x.cache.get? file).getD []).map (·.parsedAt)).max? with
    | none => simp
    | some parsedAt => simp

lemma cached_ne_nil_of_isStale (h : x.isStale d file = false) : x.cached file ≠ [] := by
  obtain ⟨_, _, _, hmax, _⟩ := isStale_eq_false_iff.mp h
  intro hnil
  rw [hnil] at hmax
  cases hmax

lemma mem_files_of_cached (h : x.cached file ≠ []) : file ∈ x.files := by
  rw [files, Catalog.mem_names_iff]
  cases hcache : x.cache.get? file with
  | none => exact absurd (by rw [cached, hcache]; rfl) h
  | some _ => rfl

end Staleness

end Index

namespace Analyzer

variable {a b : Analyzer Store} {s : Surroundings} {file : String}

lemma SameWorkspace.liveFiles_eq (h : a.SameWorkspace b) (s : Surroundings) :
    b.liveFiles s = a.liveFiles s := by
  rw [liveFiles, liveFiles, scanner, scanner, storePath, storePath, h.root, h.config]

lemma removeGone_eq_self {live files : List String}
    (h : ∀ file ∈ files, file ∈ live ∨ s.disk.has (Index.pathOf a.root file) = true) :
    removeGone s live files a = (.ok (), a) := by
  induction files with
  | nil => rfl
  | cons first files ih =>
    rw [List.forall_mem_cons] at h
    rw [removeGone, if_pos (by simpa using h.1), ih h.2]

section Settling

variable [QueryCompiler]

section Batches

lemma Kept.persists_processNext (ha : a.Kept) (s : Surroundings) (file : String) :
    a.Persists (processNext s a file) :=
  ha.persists_foldl s [file]

/-- A file without chunks that the index lacks leaves no trace, also if it fails. -/
lemma Kept.index_processFile (ha : a.Kept) (hlacks : a.index.Lacks file)
    (hnone : currentChunks s.grammar s.disk a.root file s.now = []) :
    (a.processFile s file).2.index = a.index := by
  obtain ⟨⟨chunkers, heq⟩, -, hreads⟩ := ha.chunkers.readFile s file
  rw [processFile_eq]
  cases hread : a.readFile s file with
  | mk outcome b =>
    rw [hread] at heq hreads
    obtain rfl : b = { a with chunkers } := heq
    cases outcome with
    | error e => rfl
    | ok reading =>
      have hreading := hreads reading rfl
      have hchunks := hreading.chunks.trans hnone
      cases reading with
      | none => simp only [Analyzer.settleFile, Analyzer.removeFile, hlacks.remove_eq]
      | some x =>
        have hpath : x.path = file := hreading.path x rfl
        simp only [Analyzer.settleFile, replaceFile, (hpath ▸ hlacks).replace_eq hchunks]

lemma Kept.index_foldl (ha : a.Kept) {files : List String}
    (hlacks : ∀ file ∈ files, a.index.Lacks file)
    (hnone : ∀ file ∈ files, currentChunks s.grammar s.disk a.root file s.now = []) :
    (files.foldl (processNext s) a).index = a.index := by
  induction files generalizing a with
  | nil => rfl
  | cons first files ih =>
    rw [List.forall_mem_cons] at hlacks hnone
    have hnext := ha.persists_processNext s first
    have hindex : (processNext s a first).index = a.index :=
      ha.index_processFile hlacks.1 hnone.1
    rw [List.foldl_cons, ih hnext.kept (hindex ▸ hlacks.2) (hnext.root ▸ hnone.2), hindex]

lemma Kept.index_processFiles (ha : a.Kept) {files : List String}
    (hlacks : ∀ file ∈ files, a.index.Lacks file)
    (hnone : ∀ file ∈ files, currentChunks s.grammar s.disk a.root file s.now = []) :
    (a.processFiles s files).index = a.index := by
  have hstarted : (a.started files).Kept := ha.congr rfl rfl rfl
  unfold processFiles
  dsimp only
  split
  · rfl
  · exact hstarted.index_foldl hlacks hnone

end Batches

section Comparisons

/-- If every file is listed or on disk, only the files are taken in that have to be read again. -/
lemma indexWorkspace_of_stays
    (h : ∀ file ∈ a.index.files,
      file ∈ a.liveFiles s ∨ s.disk.has (Index.pathOf a.root file) = true) :
    a.indexWorkspace s = (.ok ((a.liveFiles s).filter (a.index.isStale s.disk ·)).length,
      a.processFiles s ((a.liveFiles s).filter (a.index.isStale s.disk ·))) ∧
    a.staleFiles s = if a.isClosed then [] else
      (a.liveFiles s).filter (a.index.isStale s.disk ·) := by
  have hgone := removeGone_eq_self h
  constructor
  · rw [indexWorkspace]
    dsimp only
    rw [hgone]
  · rw [staleFiles, hgone]

/-- The scanned files of which the index has no chunks. -/
def chunkless (a : Analyzer Store) (s : Surroundings) : List String :=
  (a.liveFiles s).filter fun file => a.index.cached file = []

/-- The index is in line with the disk: its files are there, and every scanned file need not be
read again or has no chunks. -/
structure InLine (a : Analyzer Store) (s : Surroundings) : Prop where
  exist : ∀ file ∈ a.index.files, s.disk.has (Index.pathOf a.root file) = true
  scanned : ∀ file ∈ a.liveFiles s, a.index.isStale s.disk file = false ∨
    a.index.Lacks file ∧ currentChunks s.grammar s.disk a.root file s.now = []

lemma InLine.isStale_iff (h : a.InLine s) (hfile : file ∈ a.liveFiles s) :
    a.index.isStale s.disk file = true ↔ a.index.cached file = [] := by
  rcases h.scanned file hfile with hfresh | ⟨hlacks, -⟩
  · simp [hfresh, Index.cached_ne_nil_of_isStale hfresh]
  · refine iff_of_true ?_ hlacks.cached_eq
    by_contra hfresh
    exact Index.cached_ne_nil_of_isStale (Bool.eq_false_iff.mpr hfresh) hlacks.cached_eq

/-- The scanned files without chunks are those that a comparison takes in again. -/
lemma InLine.filter_isStale (h : a.InLine s) :
    (a.liveFiles s).filter (a.index.isStale s.disk ·) = a.chunkless s := by
  refine List.filter_congr fun file hfile => ?_
  rw [Bool.eq_iff_iff, h.isStale_iff hfile, decide_eq_true_iff]

lemma InLine.lacks_of_chunkless (h : a.InLine s) (hfile : file ∈ a.chunkless s) :
    a.index.Lacks file ∧ ∀ now, currentChunks s.grammar s.disk a.root file now = [] := by
  obtain ⟨hlive, hnil⟩ := List.mem_filter.mp hfile
  rcases h.scanned file hlive with hfresh | ⟨hlacks, hnone⟩
  · exact absurd (of_decide_eq_true hnil) (Index.cached_ne_nil_of_isStale hfresh)
  · refine ⟨hlacks, fun now => ?_⟩
    rw [currentChunks_readAt s.grammar s.disk a.root file s.now now, hnone]
    rfl

lemma InLine.current (h : a.InLine s) (hfile : file ∈ a.liveFiles s)
    (hne : currentChunks s.grammar s.disk a.root file s.now ≠ []) :
    file ∈ a.index.files ∧ a.index.isStale s.disk file = false := by
  have hfresh := (h.scanned file hfile).resolve_right fun hlacks => hne hlacks.2
  exact ⟨Index.mem_files_of_cached (Index.cached_ne_nil_of_isStale hfresh), hfresh⟩

lemma Kept.indexWorkspace_eq (ha : a.Kept) (s : Surroundings) : ∃ index,
    Analyzer.removeGone s (a.liveFiles s) a.index.files a = (.ok (), { a with index }) ∧
    Kept { a with index } ∧
    (∀ file ∈ index.files, file ∈ a.index.files ∧
      (file ∈ a.liveFiles s ∨ s.disk.has (Index.pathOf a.root file) = true)) ∧
    a.indexWorkspace s = (.ok ((a.liveFiles s).filter (index.isStale s.disk ·)).length,
      processFiles { a with index } s ((a.liveFiles s).filter (index.isStale s.disk ·))) ∧
    a.staleFiles s = if a.isClosed then [] else
      (a.liveFiles s).filter (index.isStale s.disk ·) := by
  obtain ⟨index, hgone, hkept, hfiles⟩ := ha.removeGone s (a.liveFiles s) a.index.files
  refine ⟨index, hgone, hkept, fun file hfile => ?_, ?_, ?_⟩
  · obtain ⟨hold, hstays⟩ := hfiles file hfile
    exact ⟨hold, hstays hold⟩
  · rw [indexWorkspace]
    dsimp only
    rw [hgone]
  · rw [staleFiles, hgone]

/-- Another comparison with the same disk, at any time, changes nothing. -/
lemma InLine.repeated (h : b.InLine s) (hb : b.Kept) (hopen : b.isClosed = false) (later : ℤ) :
    ∃ c, b.indexWorkspace { s with now := later } = (.ok (b.chunkless s).length, c) ∧
      c.index = b.index ∧ b.staleFiles { s with now := later } = b.chunkless s := by
  obtain ⟨hrun, hstale⟩ := indexWorkspace_of_stays (s := { s with now := later })
    fun file hfile => .inr (h.exist file hfile)
  have hfilter : (b.liveFiles { s with now := later }).filter (b.index.isStale s.disk ·) =
      b.chunkless s := h.filter_isStale
  rw [hfilter] at hrun hstale
  refine ⟨_, hrun, ?_, ?_⟩
  · exact hb.index_processFiles (fun file hfile => (h.lacks_of_chunkless hfile).1)
      fun file hfile => (h.lacks_of_chunkless hfile).2 later
  · rw [hstale, if_neg (by simp [hopen])]

end Comparisons

end Settling

attribute [local instance] QueryCompiler.plain

end Analyzer

end CodeSearch
