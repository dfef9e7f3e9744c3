import CodeSearch.Proofs.ScannedFiles

/-!
# Edits of the index

Whatever an analyzer is asked for, its index changes file by file: store and cache lose what
they have of a file, and perhaps take in its current chunks. So an analyzer that was started on
any store keeps its documents in order, and its index belongs to its workspace.
-/
namespace CodeSearch

namespace Index

/-- Store and cache have some chunks in place of those that they had of a file. -/
structure Edit (x : Index Store) (file : String) (chunks : List Chunk) (y : Index Store) : Prop
    where
  root : y.root = x.root
  stored : ∃ documents : List StoredDocument,
    documents.map (·.toDocument) = chunks.map Chunk.document ∧
    y.store.documents.get? = Contents.refile x.store.documents.get? file documents
  cache : ∀ name, y.cache.get? name =
    if name = file then (if chunks = [] then none else some (chunks.map Chunk.cached))
    else x.cache.get? name

variable {x y : Index Store} {file : String} {chunks : List Chunk}

lemma Edit.keyed (h : x.Edit file chunks y) (hx : x.store.documents.Keyed) :
    y.store.documents.Keyed := by
  obtain ⟨documents, -, hstored⟩ := h.stored
  intro id d hd
  rw [hstored] at hd
  rcases Contents.refile_cases hd with ⟨-, hid⟩ | ⟨hold, -⟩
  · exact hid
  · exact hx id d hold

lemma Edit.mem_files_of_nil (h : x.Edit file [] y) {other : String} (hother : other ∈ y.files) :
    other ≠ file ∧ other ∈ x.files := by
  rw [files, Catalog.mem_names_iff, h.cache, if_pos rfl] at hother
  rw [files, Catalog.mem_names_iff]
  split at hother
  · cases hother
  · next hne => exact ⟨hne, hother⟩

lemma exists_edit_of_remove (hx : x.store.documents.Keyed) (file : String) :
    ∃ y, x.remove file = .ok y ∧ x.Edit file [] y := by
  obtain ⟨store, hremove, hstored⟩ := exists_remove hx file
  refine ⟨_, hremove, rfl, ⟨[], rfl, hstored⟩, fun name => ?_⟩
  rw [Catalog.get?_erase, if_pos rfl]

/-- Chunks are put in place of those that a file has, or the file is left without any. -/
lemma edit_replace (hx : x.store.documents.Keyed) (call : ChunkedFile) :
    (∃ y, x.replace call = (.ok (), y) ∧ x.Edit call.path call.chunks y) ∨
    ∃ e y, x.replace call = (.error e, y) ∧ x.Edit call.path [] y := by
  obtain ⟨y, hremove, hedit⟩ := exists_edit_of_remove hx call.path
  unfold replace
  rw [hremove]
  dsimp only
  by_cases hnil : call.chunks = []
  · rw [if_pos (by simpa using hnil)]
    exact .inl ⟨y, rfl, hnil ▸ hedit⟩
  · rw [if_neg (by simpa using hnil)]
    cases hadd : DocumentStore.add y.store (call.chunks.map Chunk.document) with
    | error e => exact .inr ⟨e, y, rfl, hedit⟩
    | ok store =>
      obtain ⟨documents, hdocuments, hholds⟩ := Store.exists_put_of_add hadd
      obtain ⟨none, hnone, hstored⟩ := hedit.stored
      obtain rfl : none = [] := List.map_eq_nil_iff.mp hnone
      refine .inl ⟨_, rfl, hedit.root, ⟨documents, hdocuments, ?_⟩, fun name => ?_⟩
      · have hput : store.documents.get? = Contents.put y.store.documents.get? documents :=
          funext hholds
        rw [hstored, Contents.refile_nil] at hput
        exact hput
      · rw [Catalog.get?_insert, if_neg hnil]
        split
        · rfl
        · next hname => rw [hedit.cache name, if_neg hname]

end Index

namespace Analyzer

variable [QueryCompiler]

/-- The index is one of the workspace, its documents stand under their identifiers, and the
chunkers are those of their languages. -/
structure Kept (a : Analyzer Store) : Prop where
  root : a.index.root = a.root
  keyed : a.index.store.documents.Keyed
  chunkers : a.ChunkersFit

structure Persists (a b : Analyzer Store) : Prop extends a.SameWorkspace b where
  kept : b.Kept

variable {a b c : Analyzer Store}

lemma Persists.trans (h : a.Persists b) (h' : b.Persists c) : a.Persists c :=
  ⟨h.toSameWorkspace.trans h'.toSameWorkspace, h'.kept⟩

lemma Kept.persists_self (ha : a.Kept) : a.Persists a :=
  ⟨.refl a, ha⟩

lemma Kept.congr (ha : a.Kept) (hroot : b.root = a.root) (hindex : b.index = a.index)
    (hchunkers : b.chunkers = a.chunkers) : b.Kept := by
  refine ⟨by rw [hindex, hroot, ha.root], hindex ▸ ha.keyed, ?_⟩
  rw [ChunkersFit, hchunkers]
  exact ha.chunkers

lemma Kept.edit (ha : a.Kept) {file : String} {chunks : List Chunk} {index : Index Store}
    (h : a.index.Edit file chunks index) : Kept { a with index } :=
  ⟨h.root.trans ha.root, h.keyed ha.keyed, ha.chunkers⟩

lemma Kept.removeFile (ha : a.Kept) (file : String) : ∃ index,
    a.removeFile file = (.ok (), { a with index }) ∧ a.index.Edit file [] index := by
  obtain ⟨index, hremove, hedit⟩ := Index.exists_edit_of_remove ha.keyed file
  exact ⟨index, by rw [Analyzer.removeFile, hremove], hedit⟩

/-- What was read of a file is put into the index, or the file is left without chunks. -/
lemma Kept.settleFile (ha : a.Kept) {file : String} {reading : Option ChunkedFile}
    (hpath : ∀ x ∈ reading, x.path = file) :
    (∃ index, a.settleFile file reading = (.ok (), { a with index }) ∧
      a.index.Edit file ((reading.map (·.chunks)).getD []) index) ∨
    ∃ e index, a.settleFile file reading = (.error e, { a with index }) ∧
      a.index.Edit file [] index := by
  cases reading with
  | none => exact .inl (ha.removeFile file)
  | some x =>
    obtain rfl : x.path = file := hpath x rfl
    rw [Analyzer.settleFile, replaceFile]
    rcases Index.edit_replace ha.keyed x with ⟨index, h, hedit⟩ | ⟨e, index, h, hedit⟩
    · exact .inl ⟨index, by rw [h], hedit⟩
    · exact .inr ⟨.store e, index, by rw [h], hedit⟩

/-- What processing a file comes to: the index has its current chunks, or the call fails and the
index has of the file what it had, or nothing. -/
lemma Kept.processFile (ha : a.Kept) (s : Surroundings) (file : String) :
    (∃ chunkers index, a.processFile s file = (.ok (), { a with chunkers, index }) ∧
      Kept { a with chunkers, index } ∧
      a.index.Edit file (currentChunks s.grammar s.disk a.root file s.now) index) ∨
    ∃ e chunkers index, a.processFile s file = (.error e, { a with chunkers, index }) ∧
      Kept { a with chunkers, index } ∧ (index = a.index ∨ a.index.Edit file [] index) := by
  obtain ⟨⟨chunkers, heq⟩, hfit, hreads⟩ := ha.chunkers.readFile s file
  rw [processFile_eq]
  cases hread : a.readFile s file with
  | mk outcome b =>
    rw [hread] at heq hfit hreads
    obtain rfl : b = { a with chunkers } := heq
    have hb : Kept { a with chunkers } := ⟨ha.root, ha.keyed, hfit⟩
    cases outcome with
    | error e => exact .inr ⟨e, chunkers, a.index, rfl, hb, .inl rfl⟩
    | ok reading =>
      have hreading := hreads reading rfl
      rw [← hreading.chunks]
      rcases hb.settleFile hreading.path with ⟨index, h, hedit⟩ | ⟨e, index, h, hedit⟩
      · exact .inl ⟨chunkers, index, h, hb.edit hedit, hedit⟩
      · exact .inr ⟨e, chunkers, index, h, hb.edit hedit, .inr hedit⟩

lemma Kept.persists_processFile (ha : a.Kept) (s : Surroundings) (file : String) :
    a.Persists (a.processFile s file).2 := by
  rcases ha.processFile s file with ⟨chunkers, index, h, hb, -⟩ | ⟨e, chunkers, index, h, hb, -⟩
  · rw [h]
    exact ⟨⟨rfl, rfl, rfl⟩, hb⟩
  · rw [h]
    exact ⟨⟨rfl, rfl, rfl⟩, hb⟩

lemma Kept.persists_foldl (ha : a.Kept) (s : Surroundings) (files : List String) :
    a.Persists (files.foldl (processNext s) a) := by
  induction files generalizing a with
  | nil => exact ha.persists_self
  | cons file files ih =>
    have hone := ha.persists_processFile s file
    have hnext : a.Persists (processNext s a file) :=
      ⟨⟨hone.root, hone.config, hone.isClosed⟩, hone.kept.congr rfl rfl rfl⟩
    exact hnext.trans (ih hnext.kept)

lemma Kept.persists_processFiles (ha : a.Kept) (s : Surroundings) (files : List String) :
    a.Persists (a.processFiles s files) := by
  unfold Analyzer.processFiles
  dsimp only
  split
  · exact ⟨⟨rfl, rfl, rfl⟩, ha.congr rfl rfl rfl⟩
  · have hstarted : Kept { a with progress := a.progress.start files.length } :=
      ha.congr rfl rfl rfl
    have h := hstarted.persists_foldl s files
    exact ⟨⟨h.root, h.config, h.isClosed⟩, h.kept.congr rfl rfl rfl⟩

/-- Files can always be forgotten. Nothing but the index changes by it, and of the files that
were looked at, it keeps those that are listed or on disk. -/
lemma Kept.removeGone (ha : a.Kept) (s : Surroundings) (live files : List String) :
    ∃ index, Analyzer.removeGone s live files a = (.ok (), { a with index }) ∧
      Kept { a with index } ∧ ∀ file ∈ index.files, file ∈ a.index.files ∧
        (file ∈ files → file ∈ live ∨ s.disk.has (Index.pathOf a.root file) = true) := by
  induction files generalizing a with
  | nil => exact ⟨a.index, rfl, ha, fun file hfile => ⟨hfile, by simp⟩⟩
  | cons first files ih =>
    rw [Analyzer.removeGone]
    split
    · next hstays =>
      obtain ⟨index, hgone, hkept, hfiles⟩ := ih ha
      refine ⟨index, hgone, hkept, fun file hfile => ⟨(hfiles file hfile).1, fun hmem => ?_⟩⟩
      rcases List.mem_cons.mp hmem with rfl | hmem
      · simpa using hstays
      · exact (hfiles file hfile).2 hmem
    · obtain ⟨index, hremove, hedit⟩ := ha.removeFile first
      rw [hremove]
      obtain ⟨index', hgone, hkept, hfiles⟩ := ih (ha.edit hedit)
      refine ⟨index', hgone, hkept, fun file hfile => ?_⟩
      obtain ⟨hold, hlisted⟩ := hfiles file hfile
      obtain ⟨hne, hbefore⟩ := hedit.mem_files_of_nil hold
      refine ⟨hbefore, fun hmem => ?_⟩
      exact hlisted ((List.mem_cons.mp hmem).resolve_left hne)

lemma Kept.persists_indexWorkspace (ha : a.Kept) (s : Surroundings) :
    a.Persists (a.indexWorkspace s).2 := by
  obtain ⟨index, hgone, hkept, -⟩ := ha.removeGone s (a.liveFiles s) a.index.files
  unfold Analyzer.indexWorkspace
  dsimp only
  rw [hgone]
  have hfiles := hkept.persists_processFiles s
    ((a.liveFiles s).filter (index.isStale s.disk ·))
  exact ⟨⟨hfiles.root, hfiles.config, hfiles.isClosed⟩, hfiles.kept⟩

lemma Kept.sourceOf (ha : a.Kept) (s : Surroundings) (done : Refreshed) (id : String) :
    (a.sourceOf s done id).2.2.Kept := by
  have hrefresh (file : String) : (a.refresh s done file).2.2.Kept := by
    have hfile := (ha.persists_processFile s file).kept
    unfold refresh
    split
    · exact ha
    · split <;> next h => rwa [h] at hfile
  unfold Analyzer.sourceOf
  split
  · exact ha
  · next file _ _ =>
    have hfile := hrefresh file
    split
    · exact ha
    · split <;> next h => rwa [h] at hfile

lemma Kept.sourcesFrom (s : Surroundings) (done : Refreshed) (ha : a.Kept) (ids : List String) :
    (Analyzer.sourcesFrom s done a ids).2.Kept := by
  induction ids generalizing done a with
  | nil => exact ha
  | cons id ids ih =>
    rw [Analyzer.sourcesFrom]
    exact ih _ (ha.sourceOf s done id)

lemma Kept.handOn (ha : a.Kept) (s : Surroundings) (w : Option WatchLoop) :
    (handleBatch { a with watch := w } s).Kept := by
  have hwatch : Kept { a with watch := w } := ha.congr rfl rfl rfl
  unfold handleBatch
  split
  · exact hwatch
  · split
    · exact hwatch
    · exact (hwatch.persists_processFiles s _).kept.congr rfl rfl rfl

lemma Kept.flush (ha : a.Kept) (s : Surroundings) : (a.flush s).Kept := by
  unfold Analyzer.flush
  split
  · exact ha
  · exact ha.handOn s _

lemma Kept.serve (ha : a.Kept) (r : TimedRequest) : (a.serve r).Kept := by
  obtain ⟨s, request⟩ := r
  cases request with
  | indexWorkspace => exact (ha.persists_indexWorkspace s).kept
  | processFiles files => exact (ha.persists_processFiles s files).kept
  | search query types => exact ha.flush s
  | findSimilar id =>
    unfold Analyzer.serve Analyzer.findSimilar
    dsimp only
    split
    · exact ha
    · exact ha.flush s
  | sources ids => exact ha.sourcesFrom s [] ids
  | deliver e => exact ha.congr rfl rfl rfl
  | takeEvent => exact ha.congr rfl rfl rfl
  | tick =>
    unfold Analyzer.serve Analyzer.tick
    dsimp only
    split
    · exact ha
    · exact ha.handOn s _
  | close => exact ha.congr rfl rfl rfl

/-- The analyzers that come about: one is started on any store whose documents stand under their
identifiers, and asked for this and that. -/
inductive Arises : Analyzer Store → Prop
  | started {s : Surroundings} {path : String} {config : Config} {store : Store}
      {a : Analyzer Store} (hstore : store.documents.Keyed)
      (h : withStore s path config store = .ok a) : Arises a
  | serve {a : Analyzer Store} (ha : Arises a) (r : TimedRequest) : Arises (a.serve r)

end Analyzer

namespace Index

lemma kept_openFile {d : Disk} {x x' : Index Store} {file : String × List String}
    (hx : x.store.documents.Keyed) (h : openFile d x file = .ok x') :
    x'.root = x.root ∧ x'.store.documents.Keyed := by
  unfold openFile at h
  split at h
  · obtain rfl := Except.ok.inj h
    exact ⟨rfl, hx⟩
  · obtain ⟨count, store, hdelete, hstored⟩ := exists_delete hx file.1
    rw [hdelete] at h
    obtain rfl := Except.ok.inj h
    refine ⟨rfl, fun id d hd => ?_⟩
    rw [hstored] at hd
    rcases Contents.refile_cases hd with ⟨hmem, -⟩ | ⟨hold, -⟩
    · cases hmem
    · exact hx id d hold

lemma kept_foldlM {d : Disk} {files : List (String × List String)} {x x' : Index Store}
    (hx : x.store.documents.Keyed) (h : files.foldlM (openFile d) x = .ok x') :
    x'.root = x.root ∧ x'.store.documents.Keyed := by
  induction files generalizing x with
  | nil =>
    obtain rfl := Except.ok.inj h
    exact ⟨rfl, hx⟩
  | cons file files ih =>
    rw [List.foldlM_cons] at h
    obtain ⟨y, hopen, hrest⟩ := Except.bind_eq_ok.mp h
    obtain ⟨hroot, hy⟩ := kept_openFile hx hopen
    exact (ih hy hrest).imp_left fun h => h.trans hroot

end Index

namespace Analyzer

variable [QueryCompiler] {a : Analyzer Store}

/-- An analyzer is started by opening its index, which is then compared with the disk. -/
lemma exists_index_of_withStore {s : Surroundings} {path : String} {config : Config}
    {store : Store} (h : withStore s path config store = .ok a) :
    ∃ root index, Index.ofStore s.disk root store = .ok index ∧
      a = ((beginWatch { root, config, index } s).indexWorkspace s).2 := by
  obtain ⟨root, -, h⟩ := Except.bind_eq_ok.mp h
  cases hindex : Index.ofStore s.disk root store with
  | error e =>
    rw [hindex] at h
    cases h
  | ok index =>
    rw [hindex] at h
    exact ⟨root, index, hindex, (Except.pure_eq_ok.mp h).symm⟩

lemma Arises.kept (ha : a.Arises) : a.Kept := by
  induction ha with
  | @started s path config store a hstore h =>
    obtain ⟨root, index, hindex, rfl⟩ := exists_index_of_withStore h
    obtain ⟨hroot, hkeyed⟩ := Index.kept_foldlM hstore hindex
    have hopened (watch : Option WatchLoop) : Kept { root, config, index, watch } :=
      ⟨hroot, hkeyed, by simp [ChunkersFit]⟩
    unfold beginWatch
    split
    · exact ((hopened _).persists_indexWorkspace s).kept
    · exact ((hopened none).persists_indexWorkspace s).kept
  | serve _ r ih => exact ih.serve r

/-- An analyzer that is started on an empty store comes about. -/
lemma arises_of_empty {s : Surroundings} {path : String} {config : Config} {store : Store}
    {root : Location} (hempty : store.documents = .empty) (hroot : rootOf s path = .ok root) :
    ((unstarted s root config store).run [(s, .indexWorkspace)]).Arises := by
  refine .started ?_ (withStore_eq hempty hroot)
  rw [hempty]
  rintro id d ⟨⟩

end Analyzer

end CodeSearch
