import CodeSearch.Proofs.ChunkSources
import CodeSearch.Proofs.EditedIndex
import CodeSearch.Proofs.RunningBatches

/-!
# Failing files

A file of a batch that cannot be read fails before anything of it is put into the index. So a
batch leaves the store and the cache as it would without its failing files, apart from the times
at which the others are read, and counts down as if none of them failed. A failing file keeps its
chunks, except those whose identifiers are taken by chunks of other files.
-/
namespace CodeSearch

/-- The document without the time at which its chunk was read. -/
def StoredDocument.timeless (d : StoredDocument) : StoredDocument :=
  { d with toDocument := d.toDocument.timeless }

/-- What is remembered of a chunk without the time at which it was read. -/
def CachedChunk.timeless (c : CachedChunk) : CachedChunk :=
  { c with parsedAt := 0 }

namespace Contents

/-- The documents without the times at which their chunks were read. -/
def untimed (m : Contents) : Contents := fun id =>
  (m id).map StoredDocument.timeless

lemma file_timeless (d : StoredDocument) :
    d.timeless.metadata.get? "file" = d.metadata.get? "file" := by
  rw [StoredDocument.timeless, Document.timeless, Catalog.get?_erase, if_neg (by decide)]

lemma untimed_refile (m : Contents) (file : String) (documents : List StoredDocument) :
    (m.refile file documents).untimed =
      m.untimed.refile file (documents.map StoredDocument.timeless) := by
  have hid (id : String) : (fun d : StoredDocument => d.id == id) ∘ StoredDocument.timeless =
      fun d => d.id == id := rfl
  have hfile : (fun d : StoredDocument => !d.matchesFilter (Index.fileFilter file)) ∘
      StoredDocument.timeless = fun d => !d.matchesFilter (Index.fileFilter file) := by
    funext d
    simp only [Function.comp_apply, Document.matches_fileFilter, file_timeless]
  funext id
  simp only [untimed, refile, put, drop, Option.map_or, ← List.map_reverse, List.find?_map, hid,
    Option.filter_map, hfile]

end Contents

namespace Store

/-- Which embeddings a store makes of documents depends on its embedder and on their texts. -/
lemma embedAll_congr {s s' : Store} {documents documents' : List Document}
    (hembedder : s'.embedder = s.embedder)
    (hcontent : documents'.map (·.content) = documents.map (·.content)) :
    s'.embedAll documents' = s.embedAll documents := by
  have hlength : documents'.length = documents.length := by
    simpa using congrArg List.length hcontent
  have hsize : s'.checkSize = s.checkSize := by
    funext x
    rw [checkSize, checkSize, hembedder]
  rw [embedAll, embedAll, hembedder, hcontent, hlength, hsize]

lemma add_eq {s : Store} {documents : List Document} (hne : documents ≠ []) :
    s.add documents = match s.embedAll documents with
      | .ok vectors => .ok (s.commit ((embedded documents vectors).map .put))
      | .error e => .error e := by
  rw [add, if_neg (by simpa using hne)]
  cases s.embedAll documents with
  | error e => rfl
  | ok vectors => simp [embedded, List.map_zipWith]

end Store

namespace Index

/-- The documents that an index makes of some chunks: each with its embedding, or none if the
chunks are refused. -/
def documentsOf (x : Index Store) (chunks : List Chunk) : List StoredDocument :=
  match x.store.embedAll (chunks.map Chunk.document) with
  | .ok vectors => Store.embedded (chunks.map Chunk.document) vectors
  | .error _ => []

def cachedOf (x : Index Store) (chunks : List Chunk) : Option (List CachedChunk) :=
  if chunks = [] then none
  else
    match x.store.embedAll (chunks.map Chunk.document) with
    | .ok _ => some (chunks.map Chunk.cached)
    | .error _ => none

/-- Store and cache have of a file what the index makes of some chunks, in place of what they
had. -/
structure Replaces (x : Index Store) (file : String) (chunks : List Chunk) (y : Index Store) :
    Prop where
  root : y.root = x.root
  embedder : y.store.embedder = x.store.embedder
  stored : y.store.documents.get? =
    Contents.refile x.store.documents.get? file (x.documentsOf chunks)
  cache : ∀ name, y.cache.get? name =
    if name = file then x.cachedOf chunks else x.cache.get? name

/-- The index with some chunks in place of those that it has of a file. -/
def takeIn (x : Index Store) (file : String) (chunks : List Chunk) : Index Store :=
  (x.replace ⟨file, chunks⟩).2

variable {x y x' y' : Index Store} {file : String} {chunks : List Chunk}

lemma documentsOf_nil (x : Index Store) : x.documentsOf [] = [] := by
  rw [documentsOf]
  split <;> rfl

lemma replaces_of_remove (hx : x.store.documents.Keyed) (file : String) :
    ∃ y, x.remove file = .ok y ∧ x.Replaces file [] y := by
  obtain ⟨count, store, hdelete, hstored⟩ := exists_delete hx file
  refine ⟨{ x with store, cache := x.cache.erase file }, ?_, rfl,
    Store.embedder_of_delete hdelete, ?_, fun name => ?_⟩
  · rw [remove, hdelete]
    rfl
  · rw [documentsOf_nil]
    exact hstored
  · rw [Catalog.get?_erase, cachedOf, if_pos rfl]

lemma replaces_takeIn (hx : x.store.documents.Keyed) (file : String) (chunks : List Chunk) :
    x.Replaces file chunks (x.takeIn file chunks) := by
  obtain ⟨y, hremove, hy⟩ := replaces_of_remove hx file
  rw [takeIn, replace, hremove]
  dsimp only
  by_cases hnil : chunks = []
  · rw [if_pos (by simpa using hnil), hnil]
    exact hy
  rw [if_neg (by simpa using hnil)]
  have hembed : y.store.embedAll (chunks.map Chunk.document) =
      x.store.embedAll (chunks.map Chunk.document) := Store.embedAll_congr hy.embedder rfl
  have hadd : DocumentStore.add y.store (chunks.map Chunk.document) = _ :=
    Store.add_eq (by simpa using hnil)
  have hstored := hy.stored
  rw [documentsOf_nil, Contents.refile_nil] at hstored
  rw [hadd, hembed]
  cases hvectors : x.store.embedAll (chunks.map Chunk.document) with
  | error e =>
    refine ⟨hy.root, hy.embedder, ?_, fun name => ?_⟩
    · rw [documentsOf, hvectors, Contents.refile_nil]
      exact hstored
    · rw [cachedOf, hvectors, if_neg hnil, hy.cache, cachedOf, if_pos rfl]
  | ok vectors =>
    refine ⟨hy.root, hy.embedder, ?_, fun name => ?_⟩
    · have hput := Record.foldl_put_holds (fun id => congrFun hstored id)
        (Store.embedded (chunks.map Chunk.document) vectors)
      rw [documentsOf, hvectors]
      exact funext hput
    · rw [cachedOf, hvectors, if_neg hnil, Catalog.get?_insert]
      split
      · rfl
      · next hname => rw [hy.cache, if_neg hname]

lemma Replaces.keyed (h : x.Replaces file chunks y) (hx : x.store.documents.Keyed) :
    y.store.documents.Keyed := by
  intro id d hd
  rw [h.stored] at hd
  rcases Contents.refile_cases hd with ⟨-, hid⟩ | ⟨hold, -⟩
  · exact hid
  · exact hx id d hold

/-- Two indexes of one workspace have the same documents and remember the same, apart from the
times at which chunks were read. -/
structure SameButTimes (x y : Index Store) : Prop where
  root : y.root = x.root
  embedder : y.store.embedder = x.store.embedder
  stored : Contents.untimed y.store.documents.get? = Contents.untimed x.store.documents.get?
  cache : ∀ name, (y.cache.get? name).map (·.map CachedChunk.timeless) =
    (x.cache.get? name).map (·.map CachedChunk.timeless)

lemma SameButTimes.refl (x : Index Store) : x.SameButTimes x :=
  ⟨rfl, rfl, rfl, fun _ => rfl⟩

lemma embedAll_readAt (h : x.SameButTimes y) (chunks : List Chunk) (now : ℤ) :
    y.store.embedAll ((chunks.map (Chunk.readAt now)).map Chunk.document) =
      x.store.embedAll (chunks.map Chunk.document) := by
  refine Store.embedAll_congr h.embedder ?_
  rw [List.map_map, List.map_map, List.map_map]
  rfl

lemma timeless_embedded (chunks : List Chunk) (now : ℤ) (vectors : List Embedding) :
    (Store.embedded ((chunks.map (Chunk.readAt now)).map Chunk.document) vectors).map
        StoredDocument.timeless =
      (Store.embedded (chunks.map Chunk.document) vectors).map StoredDocument.timeless := by
  have htimeless (documents : List Document) :
      (Store.embedded documents vectors).map StoredDocument.timeless =
        Store.embedded (documents.map Document.timeless) vectors := by
    rw [Store.embedded, Store.embedded, List.map_zipWith, List.zipWith_map_left]
    rfl
  have hchunk : (Document.timeless ∘ Chunk.document) ∘ Chunk.readAt now =
      Document.timeless ∘ Chunk.document :=
    funext fun c => c.timeless_document_readAt now
  rw [htimeless, htimeless, List.map_map, List.map_map, List.map_map, hchunk]

/-- Taking in chunks of a file and the same chunks read at another time leaves it so. -/
lemma SameButTimes.replaces (h : x.SameButTimes y) (now : ℤ) (hx : x.Replaces file chunks x')
    (hy : y.Replaces file (chunks.map (Chunk.readAt now)) y') : x'.SameButTimes y' where
  root := by rw [hx.root, hy.root, h.root]
  embedder := by rw [hx.embedder, hy.embedder, h.embedder]
  stored := by
    have hdocuments : (y.documentsOf (chunks.map (Chunk.readAt now))).map
        StoredDocument.timeless = (x.documentsOf chunks).map StoredDocument.timeless := by
      rw [documentsOf, documentsOf, embedAll_readAt h]
      cases x.store.embedAll (chunks.map Chunk.document) with
      | error e => rfl
      | ok vectors => exact timeless_embedded chunks now vectors
    rw [hx.stored, hy.stored, Contents.untimed_refile, Contents.untimed_refile, h.stored,
      hdocuments]
  cache name := by
    rw [hx.cache, hy.cache]
    split
    · by_cases hnil : chunks = []
      · rw [hnil]
        rfl
      rw [cachedOf, cachedOf, embedAll_readAt h, if_neg hnil, if_neg (by simpa using hnil)]
      cases x.store.embedAll (chunks.map Chunk.document) with
      | error e => rfl
      | ok vectors =>
        simp only [Option.map_some, List.map_map]
        rfl
    · exact h.cache name

/-- What an index has of a file is left alone, except documents under some identifiers, which
may be gone. -/
structure SparesBut (x : Index Store) (file : String) (taken : String → Prop) (y : Index Store) :
    Prop where
  cache : y.cache.get? file = x.cache.get? file
  stored : ∀ id, ¬taken id → Contents.ofFile y.store.documents.get? file id =
    Contents.ofFile x.store.documents.get? file id
  old : ∀ id d, Contents.ofFile y.store.documents.get? file id = some d →
    Contents.ofFile x.store.documents.get? file id = some d

variable {z : Index Store} {taken : String → Prop}

lemma SparesBut.refl (x : Index Store) (file : String) (taken : String → Prop) :
    x.SparesBut file taken x :=
  ⟨rfl, fun _ _ => rfl, fun _ _ => id⟩

lemma SparesBut.trans (h : x.SparesBut file taken y) (h' : y.SparesBut file taken z) :
    x.SparesBut file taken z where
  cache := h'.cache.trans h.cache
  stored id hid := (h'.stored id hid).trans (h.stored id hid)
  old id d hd := h.old id d (h'.old id d hd)

lemma exists_chunk_of_mem_documentsOf {d : StoredDocument} (hd : d ∈ x.documentsOf chunks) :
    ∃ c ∈ chunks, d.toDocument = c.document := by
  rw [documentsOf] at hd
  split at hd
  · rw [Store.embedded, ← List.map_uncurry_zip_eq_zipWith] at hd
    obtain ⟨⟨d', vector⟩, hpair, rfl⟩ := List.mem_map.mp hd
    obtain ⟨c, hc, rfl⟩ := List.mem_map.mp (List.of_mem_zip hpair).1
    exact ⟨c, hc, rfl⟩
  · cases hd

lemma toDocument_documentsOf (h : x.store.embedder.Takes (chunks.map Chunk.document)) :
    (x.documentsOf chunks).map (·.toDocument) = chunks.map Chunk.document := by
  rcases h with hnil | ⟨vectors, hfits⟩
  · rw [List.map_eq_nil_iff.mp hnil, documentsOf_nil]
    rfl
  · rw [documentsOf, Store.embedAll_eq_ok.mpr hfits]
    dsimp only
    rw [Store.embedded, ← List.map_uncurry_zip_eq_zipWith, List.map_map]
    exact List.map_fst_zip hfits.2.1.ge

/-- Taking in another file takes no more than the identifiers of its chunks. -/
lemma Replaces.sparesBut {other : String} (h : x.Replaces other chunks y) (hne : file ≠ other)
    (hchunks : ∀ c ∈ chunks, c.file = other ∧ taken c.id) : x.SparesBut file taken y := by
  have hnew {d : StoredDocument} (hd : d ∈ x.documentsOf chunks) :
      d.metadata.get? "file" = some other ∧ taken d.id := by
    obtain ⟨c, hc, heq⟩ := exists_chunk_of_mem_documentsOf hd
    obtain ⟨hfile, htaken⟩ := hchunks c hc
    rw [heq, c.get?_file_document, hfile]
    exact ⟨rfl, htaken⟩
  refine ⟨by rw [h.cache, if_neg hne], fun id hid => ?_, fun id d hd => ?_⟩
  · have hnone : ((x.documentsOf chunks).reverse.find? fun d => d.id == id) = none := by
      rw [List.find?_eq_none]
      rintro d hd hdid
      rw [List.mem_reverse] at hd
      exact hid (beq_iff_eq.mp hdid ▸ (hnew hd).2)
    rw [h.stored, Contents.ofFile, Contents.refile, Contents.put, hnone, Option.none_or]
    exact congrFun (Contents.ofFile_drop_of_ne _ hne) id
  · rw [h.stored, Contents.ofFile, Option.filter_eq_some_iff] at hd
    obtain ⟨hstored, hfile⟩ := hd
    rcases Contents.refile_cases hstored with ⟨hmem, -⟩ | ⟨hold, -⟩
    · have hother := (hnew hmem).1
      rw [beq_iff_eq.mp hfile] at hother
      exact absurd (Option.some.inj hother) hne
    · rw [Contents.ofFile, hold, Option.filter_some, if_pos hfile]

/-- It does take these identifiers if the embedder takes the chunks. -/
lemma Replaces.ofFile_eq_none {other : String} (h : x.Replaces other chunks y)
    (hne : file ≠ other) (htakes : x.store.embedder.Takes (chunks.map Chunk.document))
    (hchunks : ∀ c ∈ chunks, c.file = other) {c : Chunk} (hc : c ∈ chunks) :
    Contents.ofFile y.store.documents.get? file c.id = none := by
  have hmem : c.document ∈ (x.documentsOf chunks).map (·.toDocument) := by
    rw [toDocument_documentsOf htakes]
    exact List.mem_map_of_mem hc
  obtain ⟨d, hd, hdocument⟩ := List.mem_map.mp hmem
  rw [h.stored, Contents.ofFile, Contents.refile, Contents.put]
  cases hfind : (x.documentsOf chunks).reverse.find? fun d => d.id == c.id with
  | none =>
    have hid : d.id = c.id := congrArg Document.id hdocument
    exact absurd (beq_iff_eq.mpr hid) (List.find?_eq_none.mp hfind d (List.mem_reverse.mpr hd))
  | some d' =>
    obtain ⟨c', hc', hdocument'⟩ := exists_chunk_of_mem_documentsOf
      (List.mem_reverse.mp (List.mem_of_find?_eq_some hfind))
    rw [Option.some_or, Option.filter_eq_none_iff]
    intro e he
    obtain rfl := Option.some.inj he
    rw [hdocument', c'.get?_file_document, hchunks c' hc']
    simpa using hne.symm

/-- All is left alone if the identifiers that are taken are not in use. -/
lemma SparesBut.ofFile_eq (h : x.SparesBut file taken y)
    (hfree : ∀ id, taken id → Contents.ofFile x.store.documents.get? file id = none) :
    Contents.ofFile y.store.documents.get? file =
      Contents.ofFile x.store.documents.get? file := by
  funext id
  by_cases htaken : taken id
  · rw [hfree id htaken, Option.eq_none_iff_forall_ne_some]
    intro d hd
    have hold := h.old id d hd
    rw [hfree id htaken] at hold
    cases hold
  · exact h.stored id htaken

variable [QueryCompiler]

/-- The index with some files taken in as they stand on a disk, one after the other. -/
def takeInAll (s : Surroundings) (x : Index Store) (files : List String) : Index Store :=
  files.foldl (fun x file =>
    x.takeIn file (currentChunks s.grammar s.disk x.root file s.now)) x

lemma SameButTimes.takeInAll (h : x.SameButTimes y) (hx : x.store.documents.Keyed)
    (hy : y.store.documents.Keyed) (s : Surroundings) (now : ℤ) (files : List String) :
    (x.takeInAll s files).SameButTimes (y.takeInAll { s with now } files) := by
  induction files generalizing x y with
  | nil => exact h
  | cons file files ih =>
    have hone := replaces_takeIn hx file (currentChunks s.grammar s.disk x.root file s.now)
    have hsame : currentChunks s.grammar s.disk y.root file now =
        (currentChunks s.grammar s.disk x.root file s.now).map (Chunk.readAt now) := by
      rw [h.root, currentChunks_readAt s.grammar s.disk x.root file s.now now]
    have hone' := replaces_takeIn hy file (currentChunks s.grammar s.disk y.root file now)
    refine ih (h.replaces now hone ?_) (hone.keyed hx) (hone'.keyed hy)
    dsimp only
    rwa [hsame] at hone' ⊢

lemma sparesBut_takeInAll (hx : x.store.documents.Keyed) (s : Surroundings) {files : List String}
    (hfiles : ∀ other ∈ files, file ≠ other ∧
      ∀ c ∈ currentChunks s.grammar s.disk x.root other s.now, taken c.id) :
    x.SparesBut file taken (x.takeInAll s files) := by
  induction files generalizing x with
  | nil => exact .refl x file taken
  | cons other files ih =>
    rw [List.forall_mem_cons] at hfiles
    have hone := replaces_takeIn hx other (currentChunks s.grammar s.disk x.root other s.now)
    have hspares := hone.sparesBut hfiles.1.1 fun c hc =>
      ⟨(file_of_mem_currentChunks hc).1, hfiles.1.2 c hc⟩
    refine hspares.trans (ih (hone.keyed hx) ?_)
    rw [hone.root]
    exact hfiles.2

/-- The identifiers of their chunks are lost to a file if the embedder takes the chunks. -/
lemma ofFile_takeInAll_eq_none (hx : x.store.documents.Keyed) (s : Surroundings)
    {files : List String} (hne : ∀ other ∈ files, file ≠ other)
    (htakes : ∀ other ∈ files, x.store.embedder.Takes
      ((currentChunks s.grammar s.disk x.root other s.now).map Chunk.document))
    {other : String} (hother : other ∈ files) {c : Chunk}
    (hc : c ∈ currentChunks s.grammar s.disk x.root other s.now) :
    Contents.ofFile (x.takeInAll s files).store.documents.get? file c.id = none := by
  induction files generalizing x with
  | nil => cases hother
  | cons first files ih =>
    rw [List.forall_mem_cons] at hne htakes
    have hone := replaces_takeIn hx first (currentChunks s.grammar s.disk x.root first s.now)
    rcases List.mem_cons.mp hother with rfl | hother
    · have hnone := hone.ofFile_eq_none hne.1 htakes.1
        (fun c hc => (file_of_mem_currentChunks hc).1) hc
      -- the files behind it give the file nothing back
      have hrest : SparesBut _ file (fun _ => True) _ := sparesBut_takeInAll (hone.keyed hx) s
        fun other hother => ⟨hne.2 other hother, fun _ _ => trivial⟩
      rw [Option.eq_none_iff_forall_ne_some]
      intro d hd
      have hold := hrest.old c.id d hd
      rw [hnone] at hold
      cases hold
    · refine ih (hone.keyed hx) hne.2 ?_ hother ?_
      · rw [hone.embedder, hone.root]
        exact htakes.2
      · rwa [hone.root]

end Index

namespace Analyzer

lemma index_settleFile (a : Analyzer Store) {file : String} {reading : Option ChunkedFile}
    (hpath : ∀ x ∈ reading, x.path = file) :
    (a.settleFile file reading).2.index =
      a.index.takeIn file ((reading.map (·.chunks)).getD []) := by
  cases reading with
  | none =>
    rw [settleFile, removeFile, Index.takeIn, Index.replace]
    dsimp only
    cases a.index.remove file with
    | error e => rfl
    | ok index => rfl
  | some x =>
    obtain rfl : x.path = file := hpath x rfl
    rw [settleFile, replaceFile, Index.takeIn]
    split <;> next h => exact (congrArg Prod.snd h).symm

section Failures

variable [QueryCompiler]

/-- A file of a batch fails before anything is put into the index: its path does not stay in the
workspace, or it stands on the disk and cannot be cut into chunks. -/
def fails (d : Disk) (root : Location) (file : String) : Bool :=
  !Path.staysInside file || (readingFault? d root file).isSome

def unfailing (d : Disk) (root : Location) (files : List String) : List String :=
  files.filter fun file => !fails d root file

variable {a : Analyzer Store} {s : Surroundings} {file : String}

lemma ne_of_mem_unfailing {d : Disk} {root : Location} {files : List String} {other : String}
    (hfails : fails d root file = true) (hother : other ∈ unfailing d root files) :
    file ≠ other := by
  rintro rfl
  have hreads := (List.mem_filter.mp hother).2
  rw [hfails] at hreads
  cases hreads

/-- The reading of a file fails exactly if the disk says so, whatever chunkers are kept. -/
lemma ChunkersFit.isOk_readFile (ha : a.ChunkersFit) (s : Surroundings) (file : String) :
    (a.readFile s file).1.isOk = !fails s.disk a.root file := by
  cases hinside : Path.staysInside file with
  | false => simp [Analyzer.readFile, fails, hinside, Except.isOk, Except.toBool]
  | true =>
    have hfault := ha.fault_readFile s hinside
    rw [fails, hinside]
    cases hcause : readingFault? s.disk a.root file with
    | some e =>
      rw [hcause] at hfault
      rw [show (a.readFile s file).1 = .error e from hfault]
      rfl
    | none =>
      rw [hcause] at hfault
      obtain ⟨reading, hreading⟩ := hfault
      rw [hreading]
      rfl

/-- A failing file leaves the index as it is; of any other one, the current chunks are taken
in. -/
lemma Kept.index_processNext_eq (ha : a.Kept) (s : Surroundings) (file : String) :
    (Analyzer.processNext s a file).index =
      if fails s.disk a.root file then a.index
      else a.index.takeIn file (currentChunks s.grammar s.disk a.root file s.now) := by
  have hok := ha.chunkers.isOk_readFile s file
  obtain ⟨⟨chunkers, hread⟩, -, hcurrent⟩ := ha.chunkers.readFile s file
  rw [Analyzer.processNext, processFile_eq]
  cases hreading : a.readFile s file with
  | mk outcome b =>
    rw [hreading] at hok hread hcurrent
    obtain rfl : b = { a with chunkers } := hread
    cases outcome with
    | error e =>
      rw [if_pos (by simpa [Except.isOk, Except.toBool] using hok)]
    | ok reading =>
      have hchunks := hcurrent reading rfl
      rw [if_neg (by simpa [Except.isOk, Except.toBool] using hok), ← hchunks.chunks]
      exact index_settleFile { a with chunkers } hchunks.path

lemma Kept.index_foldl_eq (ha : a.Kept) (s : Surroundings) (files : List String) :
    (files.foldl (Analyzer.processNext s) a).index =
      a.index.takeInAll s (unfailing s.disk a.root files) := by
  induction files generalizing a with
  | nil => rfl
  | cons file files ih =>
    have hone := ha.index_processNext_eq s file
    have hnext : a.Persists (Analyzer.processNext s a file) := ha.persists_foldl s [file]
    rw [List.foldl_cons, ih hnext.kept, hnext.root, hone, unfailing, unfailing, List.filter_cons]
    cases hfails : fails s.disk a.root file with
    | true => rfl
    | false =>
      rw [if_neg (by simp), if_pos (by simp), ← ha.root]
      rfl

/-- What a batch leaves in the index is made of the files that do not fail. -/
lemma Kept.index_processFiles_eq (ha : a.Kept) (hopen : a.isClosed = false) (s : Surroundings)
    (files : List String) :
    (a.processFiles s files).index = a.index.takeInAll s (unfailing s.disk a.root files) := by
  have hstarted : Kept { a with progress := a.progress.start files.length } :=
    ha.congr rfl rfl rfl
  rw [Analyzer.processFiles, if_neg (by simp [hopen])]
  exact hstarted.index_foldl_eq s files

/-- The files of a batch are counted down, whether they fail or not. -/
lemma progress_foldl (a : Analyzer Store) (s : Surroundings) (files : List String) :
    (files.foldl (Analyzer.processNext s) a).progress =
      { a.progress with pending := a.progress.pending - files.length } := by
  induction files generalizing a with
  | nil => rfl
  | cons file files ih =>
    obtain ⟨chunkers, index, hnext⟩ := a.exists_processNext s file
    rw [List.foldl_cons, ih, hnext, Progress.advance, List.length_cons, Nat.sub_sub, Nat.add_comm]

lemma progress_processFiles (hopen : a.isClosed = false) (s : Surroundings)
    (files : List String) :
    (a.processFiles s files).progress =
      { a.progress with
        lastIndexed := if a.progress.running = 0 then some s.now else none } := by
  rw [Analyzer.processFiles, if_neg (by simp [hopen])]
  dsimp only
  rw [progress_foldl]
  simp [Progress.start, Progress.finish]

/-- The identifier is that of a current chunk of a file that does not fail. -/
def IsTaken (s : Surroundings) (root : Location) (files : List String) (id : String) : Prop :=
  ∃ file ∈ unfailing s.disk root files,
    ∃ c ∈ currentChunks s.grammar s.disk root file s.now, c.id = id

/-- Chunks of other files take no identifiers of a file if they can be told from its own. -/
lemma ofFile_eq_none_of_isTaken {files : List String} (ha : a.stored.Filed)
    (hnames : ∀ other ∈ unfailing s.disk a.root files, ChunkId.Separable other)
    (hfails : fails s.disk a.root file = true) {id : String}
    (hid : IsTaken s a.root files id) : a.stored.ofFile file id = none := by
  obtain ⟨other, hother, c, hc, rfl⟩ := hid
  obtain ⟨rfl, hlanguage⟩ := file_of_mem_currentChunks hc
  rw [Contents.ofFile, Option.filter_eq_none_iff]
  intro d hd hfile
  obtain ⟨hdid, owner, howner⟩ := ha c.id d hd
  have hnew := Chunk.document_belongsTo (hnames c.file hother) hlanguage
  have hsame : c.file = file := by
    have hold := howner.2
    rw [beq_iff_eq.mp hfile] at hold
    rw [Option.some.inj hold]
    exact hnew.file_eq howner hdid.symm
  exact ne_of_mem_unfailing hfails hother hsame.symm

/-- What failing files do to a batch, to themselves and to what is counted. -/
structure IsolatesFailures (a : Analyzer Store) (s : Surroundings) (files : List String) : Prop
    where
  /-- The files that fail are those that cannot be read. -/
  failing : ∀ file, fails s.disk a.root file = !(a.readFile s file).1.isOk
  /-- The batch without its failing files leaves the same index, with the same log. -/
  index : (a.processFiles s files).index =
    (a.processFiles s (unfailing s.disk a.root files)).index
  /-- It also does so at another time, apart from the times of reading. -/
  untimed : ∀ now, (a.processFiles s files).index.SameButTimes
    (a.processFiles { s with now } (unfailing s.disk a.root files)).index
  /-- A failing file keeps what is remembered of it and the chunks whose identifiers are not
  taken, and gets no other ones. -/
  spared : ∀ file ∈ files, fails s.disk a.root file = true →
    a.index.SparesBut file (IsTaken s a.root files) (a.processFiles s files).index
  /-- A chunk whose identifier is taken makes room for the other one. -/
  taken : (∀ other ∈ unfailing s.disk a.root files, a.index.store.embedder.Takes
      ((currentChunks s.grammar s.disk a.root other s.now).map Chunk.document)) →
    ∀ file ∈ files, fails s.disk a.root file = true → ∀ id, IsTaken s a.root files id →
      (a.processFiles s files).stored.ofFile file id = none
  /-- It keeps all its chunks if they can be told from those of other files. -/
  untouched : a.stored.Filed →
    (∀ other ∈ unfailing s.disk a.root files, ChunkId.Separable other) →
    ∀ file ∈ files, fails s.disk a.root file = true →
      (a.processFiles s files).stored.ofFile file = a.stored.ofFile file
  /-- No file is left to be counted, and the batch has ended. -/
  progress : (a.processFiles s files).progress =
    { a.progress with
      lastIndexed := if a.progress.running = 0 then some s.now else none }

/-- Files of a batch that cannot be read leave no trace in the index, wherever they stand in the
batch and however often, and the counters go on as if they could be read. -/
theorem failing_files_are_isolated (ha : a.Kept) (hopen : a.isClosed = false) (s : Surroundings)
    (files : List String) : IsolatesFailures a s files := by
  have hindex := ha.index_processFiles_eq hopen s files
  have hall : unfailing s.disk a.root (unfailing s.disk a.root files) =
      unfailing s.disk a.root files := by
    rw [unfailing, unfailing, List.filter_filter]
    simp
  have hspared : ∀ file ∈ files, fails s.disk a.root file = true →
      a.index.SparesBut file (IsTaken s a.root files) (a.processFiles s files).index := by
    intro file _ hfails
    rw [hindex]
    refine Index.sparesBut_takeInAll ha.keyed s fun other hother =>
      ⟨ne_of_mem_unfailing hfails hother, fun c hc => ?_⟩
    rw [ha.root] at hc
    exact ⟨other, hother, c, hc, rfl⟩
  refine ⟨fun file => ?_, ?_, fun now => ?_, hspared, fun htakes file _ hfails id hid => ?_,
    fun hfiled hnames file hfile hfails => ?_, progress_processFiles hopen s files⟩
  · rw [ha.chunkers.isOk_readFile, Bool.not_not]
  · rw [hindex, ha.index_processFiles_eq hopen, hall]
  · rw [hindex, ha.index_processFiles_eq hopen, hall]
    exact (Index.SameButTimes.refl a.index).takeInAll ha.keyed ha.keyed s now _
  · obtain ⟨other, hother, c, hc, rfl⟩ := hid
    rw [← ha.root] at hc htakes
    rw [stored, hindex]
    exact Index.ofFile_takeInAll_eq_none ha.keyed s
      (fun _ => ne_of_mem_unfailing hfails) (by rwa [ha.root] at htakes ⊢) hother hc
  · exact (hspared file hfile hfails).ofFile_eq fun id hid =>
      ofFile_eq_none_of_isTaken hfiled hnames hfails hid

end Failures

section Notes

/-- A module `m` with a function `f`. -/
def moduleGrammar : Grammar := fun _ text =>
  { kind := "source_file", start := 0, stop := text.utf8ByteSize
    children := [
      { kind := "mod_item", start := 0, stop := 19
        children := [
          { kind := "identifier", field := some "name", start := 4, stop := 5 },
          { kind := "declaration_list", field := some "body", start := 6, stop := 19
            children := [
              { kind := "function_item", start := 8, stop := 17
                children := [
                  { kind := "identifier", field := some "name", start := 11
                    stop := 12 }] }] }] }] }

/-- A file with the module, and one that cannot be read and has the name of the module. -/
def moduleWorkspace : Surroundings where
  disk := ⟨[(["work"], .directory),
    (["work", "a.rs"], .file "mod m { fn f() {} }".toUTF8 1),
    (["work", "a.rs::m"], .file "notes".toUTF8 1)]⟩
  now := 2
  grammar := moduleGrammar

/-- A document of the file that cannot be read. -/
def noteDocument : StoredDocument where
  id := "a.rs::m::f"
  content := "note"
  metadata := .ofList [("file", "a.rs::m")]
  embedding := [.zero, .zero]

def noteAnalyzer : Analyzer Store where
  root := ["work"]
  config := {}
  index := {
    root := ["work"]
    store := {
      embedder := .ofTable .empty 2
      documents := .ofList [(noteDocument.id, noteDocument)] } }

attribute [local instance] QueryCompiler.plain

lemma kept_noteAnalyzer : noteAnalyzer.Kept := by
  refine ⟨rfl, fun id d hd => ?_, by simp [ChunkersFit, noteAnalyzer]⟩
  have hentry : [(noteDocument.id, noteDocument)].lookup id = some d := hd
  rw [List.lookup_cons] at hentry
  split at hentry
  · next heq =>
    obtain rfl := Option.some.inj hentry
    exact (beq_iff_eq.mp heq).symm
  · cases hentry

theorem unreadable_notes_are_isolated :
    noteAnalyzer.Kept ∧ noteAnalyzer.isClosed = false ∧
    unfailing moduleWorkspace.disk noteAnalyzer.root ["../a.rs", "a.rs::m", "a.rs", "a.rs::m"] =
      ["a.rs"] ∧
    IsolatesFailures noteAnalyzer moduleWorkspace ["../a.rs", "a.rs::m", "a.rs", "a.rs::m"] :=
  ⟨kept_noteAnalyzer, rfl, by decide +kernel,
    failing_files_are_isolated kept_noteAnalyzer rfl moduleWorkspace _⟩

/-- A file that cannot be read loses its document to a function of another file, which has the
same identifier. -/
theorem unreadable_notes_are_replaced :
    noteAnalyzer.Kept ∧ noteAnalyzer.isClosed = false ∧
    fails moduleWorkspace.disk noteAnalyzer.root "a.rs::m" = true ∧
    (noteAnalyzer.stored.ofFile "a.rs::m" "a.rs::m::f").isSome = true ∧
    (noteAnalyzer.processFiles moduleWorkspace ["a.rs::m", "a.rs"]).stored.ofFile "a.rs::m"
      "a.rs::m::f" = none :=
  ⟨kept_noteAnalyzer, rfl, by decide +kernel, by decide +kernel, by decide +kernel⟩

end Notes

end Analyzer

end CodeSearch
