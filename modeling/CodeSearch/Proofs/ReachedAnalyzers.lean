import CodeSearch.Proofs.ProcessedFiles

/-!
# The analyzers that are reached

An analyzer starts on an empty store or on one that another analyzer has left behind, and
from then on only its own calls change the store. Whatever they are, and whether or not
they fail, every stored document belongs to its file, as long as no file that is taken in
has the separator of identifiers in its name.
-/
namespace CodeSearch

namespace Analyzer

variable [QueryCompiler] {a b : Analyzer Store} {s : Surroundings}

lemma belongsTo_of_current {grammar : Grammar} {d : Disk} {root : Location} {file : String}
    {now : ℤ} (hfile : ChunkId.Separable file) {documents : List StoredDocument}
    (h : documents.map (·.toDocument) =
      (currentChunks grammar d root file now).map Chunk.document) :
    ∀ e ∈ documents, e.BelongsTo file := by
  intro e he
  have hmem : e.toDocument ∈ documents.map (·.toDocument) := List.mem_map_of_mem he
  rw [h] at hmem
  obtain ⟨c, hc, heq⟩ := List.mem_map.mp hmem
  obtain ⟨rfl, hlanguage⟩ := file_of_mem_currentChunks hc
  rw [← heq]
  exact Chunk.document_belongsTo hfile hlanguage

lemma Becomes.sound_refile (ha : a.Sound) {file : String} {documents : List StoredDocument}
    (hb : a.Becomes (a.stored.refile file documents) b)
    (hdocuments : ∀ e ∈ documents, e.BelongsTo file) : b.Sound :=
  ⟨hb.stored ▸ ha.filed.refile hdocuments, hb.chunkers⟩

structure Continues (a b : Analyzer Store) : Prop extends a.SameWorkspace b where
  sound : b.Sound

lemma Continues.trans (h : a.Continues b) (h' : b.Continues c) : a.Continues c :=
  ⟨h.toSameWorkspace.trans h'.toSameWorkspace, h'.sound⟩

lemma Sound.congr (ha : a.Sound) (hindex : b.index = a.index)
    (hchunkers : b.chunkers = a.chunkers) : b.Sound := by
  refine ⟨?_, ?_⟩
  · rw [stored, hindex]
    exact ha.filed
  · rw [ChunkersFit, hchunkers]
    exact ha.chunkers

/-- Whatever becomes of a file, the analyzer stays sound. -/
lemma Sound.continues_processFile (ha : a.Sound) (s : Surroundings) {file : String}
    (hfile : ChunkId.Separable file) : a.Continues (a.processFile s file).2 := by
  rcases ha.processFile s file with ⟨b, documents, h, hdocuments, hb⟩ | ⟨e, b, h, hb | hb⟩
  · rw [h]
    exact ⟨hb.toSameWorkspace, hb.sound_refile ha (belongsTo_of_current hfile hdocuments)⟩
  · rw [h]
    exact ⟨hb.toSameWorkspace, hb.sound ha⟩
  · rw [h]
    exact ⟨hb.toSameWorkspace, hb.sound_refile ha (by simp)⟩

lemma Sound.continues_processNext (ha : a.Sound) (s : Surroundings) {file : String}
    (hfile : ChunkId.Separable file) : a.Continues (processNext s a file) := by
  have h := ha.continues_processFile s hfile
  exact ⟨⟨h.root, h.config, h.isClosed⟩, h.sound.congr rfl rfl⟩

lemma Sound.continues_foldl (ha : a.Sound) (s : Surroundings) {files : List String}
    (hfiles : ∀ file ∈ files, ChunkId.Separable file) :
    a.Continues (files.foldl (processNext s) a) := by
  induction files generalizing a with
  | nil => exact ⟨.refl a, ha⟩
  | cons file files ih =>
    rw [List.forall_mem_cons] at hfiles
    have hone := ha.continues_processNext s hfiles.1
    exact hone.trans (ih hone.sound hfiles.2)

lemma Sound.continues_processFiles (ha : a.Sound) (s : Surroundings) {files : List String}
    (hfiles : ∀ file ∈ files, ChunkId.Separable file) :
    a.Continues (a.processFiles s files) := by
  unfold Analyzer.processFiles
  dsimp only
  split
  · exact ⟨⟨rfl, rfl, rfl⟩, ha.congr rfl rfl⟩
  · set started : Analyzer Store := { a with progress := a.progress.start files.length }
    have hstarted : started.Sound := ha.congr rfl rfl
    have h := hstarted.continues_foldl s hfiles
    exact ⟨⟨h.root, h.config, h.isClosed⟩, h.sound.congr rfl rfl⟩

lemma Sound.continues_removeGone (ha : a.Sound) (s : Surroundings) (live files : List String) :
    a.Continues (removeGone s live files a).2 := by
  induction files generalizing a with
  | nil => exact ⟨.refl a, ha⟩
  | cons file files ih =>
    rw [removeGone]
    split
    · exact ih ha
    · obtain ⟨b, hremove, hb⟩ := ha.removeFile file
      have hone : a.Continues b := ⟨hb.toSameWorkspace, hb.sound_refile ha (by simp)⟩
      rw [hremove]
      exact hone.trans (ih hone.sound)

lemma Sound.continues_indexWorkspace (ha : a.Sound) (s : Surroundings)
    (hlive : ∀ file ∈ a.liveFiles s, ChunkId.Separable file) :
    a.Continues (a.indexWorkspace s).2 := by
  have hgone := ha.continues_removeGone s (a.liveFiles s) a.index.files
  unfold Analyzer.indexWorkspace
  dsimp only
  cases h : removeGone s (a.liveFiles s) a.index.files a with
  | mk outcome b =>
    rw [h] at hgone
    cases outcome with
    | error e => exact hgone
    | ok _ =>
      refine hgone.trans (hgone.sound.continues_processFiles s fun file hfile => ?_)
      exact hlive file (List.mem_of_mem_filter hfile)

lemma Sound.sound_sourceOf (ha : a.Sound) (s : Surroundings) (done : Refreshed) (id : String) :
    (a.sourceOf s done id).2.2.Sound := by
  unfold sourceOf
  cases hsplit : ChunkId.split? id with
  | none => exact ha
  | some parts =>
    obtain ⟨file, path⟩ := parts
    have hfile := ha.continues_processFile s (ChunkId.separable_of_split? hsplit)
    have hrefresh : (a.refresh s done file).2.2.Sound := by
      unfold refresh
      split
      · exact ha
      · split <;> next h => exact (congrArg Prod.snd h) ▸ hfile.sound
    dsimp only
    split
    · exact ha
    · split <;> next h => exact (congrArg (fun r => r.2.2) h) ▸ hrefresh

lemma Sound.sound_sourcesFrom (s : Surroundings) (done : Refreshed) (ha : a.Sound)
    (ids : List String) : (sourcesFrom s done a ids).2.Sound := by
  induction ids generalizing done a with
  | nil => exact ha
  | cons id ids ih =>
    rw [sourcesFrom]
    exact ih _ (ha.sound_sourceOf s done id)

end Analyzer

namespace Index

lemma filed_openFile {d : Disk} {x x' : Index Store} {file : String × List String}
    (hx : Contents.Filed x.store.documents.get?) (h : openFile d x file = .ok x') :
    Contents.Filed x'.store.documents.get? := by
  unfold openFile at h
  split at h
  · obtain rfl := Except.ok.inj h
    exact hx
  · obtain ⟨count, store, hdelete, hstored⟩ := exists_delete (fun id d hd => (hx id d hd).1) file.1
    rw [hdelete] at h
    obtain rfl := Except.ok.inj h
    exact hstored ▸ hx.refile (by simp)

lemma filed_foldlM {d : Disk} {files : List (String × List String)} {x x' : Index Store}
    (hx : Contents.Filed x.store.documents.get?) (h : files.foldlM (openFile d) x = .ok x') :
    Contents.Filed x'.store.documents.get? := by
  induction files generalizing x with
  | nil =>
    obtain rfl := Except.ok.inj h
    exact hx
  | cons file files ih =>
    rw [List.foldlM_cons] at h
    obtain ⟨y, hopen, hrest⟩ := Except.bind_eq_ok.mp h
    exact ih (filed_openFile hx hopen) hrest

/-- The documents of an index belong to their files if those of its store do. -/
lemma filed_ofStore {d : Disk} {root : Location} {store : Store} {x : Index Store}
    (hstore : Contents.Filed store.documents.get?) (h : ofStore d root store = .ok x) :
    Contents.Filed x.store.documents.get? := by
  have hopened : Contents.Filed ({ root, store } : Index Store).store.documents.get? := hstore
  exact filed_foldlM hopened h

end Index

namespace Analyzer

variable [QueryCompiler] {a : Analyzer Store}

/-- The analyzers that come about from an empty store by the calls of analyzers, one after
the other, each made at any time and on any disk. The files taken in have no separator in
their names. -/
inductive Reached : Analyzer Store → Prop
  /-- An analyzer is put on an empty store. -/
  | fresh {root : Location} {config : Config} {index : Index Store}
      (hempty : index.store.documents = .empty) : Reached { root, config, index }
  /-- An analyzer is put on a store with the documents that another one has left. -/
  | opened {b : Analyzer Store} {s : Surroundings} {root : Location} {config : Config}
      {store : Store} {index : Index Store} (hb : Reached b)
      (hstore : store.documents = b.index.store.documents)
      (hindex : Index.ofStore s.disk root store = .ok index) : Reached { root, config, index }
  | indexWorkspace {a : Analyzer Store} {s : Surroundings} (ha : Reached a)
      (hlive : ∀ file ∈ a.liveFiles s, ChunkId.Separable file) :
      Reached (a.indexWorkspace s).2
  | processFiles {a : Analyzer Store} {s : Surroundings} {files : List String} (ha : Reached a)
      (hfiles : ∀ file ∈ files, ChunkId.Separable file) : Reached (a.processFiles s files)
  | sources {a : Analyzer Store} {s : Surroundings} {ids : List String} (ha : Reached a) :
      Reached (a.sources s ids).2
  /-- The watcher starts, notes something or hands a batch on. -/
  | watch {a : Analyzer Store} {w : Option WatchLoop} (ha : Reached a) :
      Reached { a with watch := w }
  | close {a : Analyzer Store} {s : Surroundings} (ha : Reached a) : Reached (a.close s)

theorem Reached.sound (h : a.Reached) : a.Sound := by
  induction h with
  | fresh hempty =>
    refine ⟨?_, by simp [ChunkersFit]⟩
    rw [stored, hempty]
    simp [Contents.Filed]
  | opened _ hstore hindex ih =>
    refine ⟨Index.filed_ofStore ?_ hindex, by simp [ChunkersFit]⟩
    rw [hstore]
    exact ih.filed
  | indexWorkspace _ hlive ih => exact (ih.continues_indexWorkspace _ hlive).sound
  | processFiles _ hfiles ih => exact (ih.continues_processFiles _ hfiles).sound
  | sources _ ih => exact Sound.sound_sourcesFrom _ [] ih _
  | watch _ ih => exact ih.congr rfl rfl
  | close _ ih => exact ih.congr rfl rfl

end Analyzer

end CodeSearch
