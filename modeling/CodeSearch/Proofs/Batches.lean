import CodeSearch.Proofs.ReachedAnalyzers

/-!
# Batches

A batch of files is taken in one file after the other. If none of them fails, the store
then has of each what the disk shows of it, whatever it had before, in whatever order the
files come and however often. The files that are not in the batch stay as they are.
-/
namespace CodeSearch

/-- A chunk document without the time at which the chunk was read. -/
def Document.timeless (d : Document) : Document :=
  { d with metadata := d.metadata.erase "parsedAt" }

lemma Chunk.timeless_document_readAt (now : ℤ) (c : Chunk) :
    (c.readAt now).document.timeless = c.document.timeless := by
  have hmetadata : (c.readAt now).document.metadata.erase "parsedAt" =
      c.document.metadata.erase "parsedAt" := by
    refine Catalog.ext_get? fun name => ?_
    rw [Catalog.get?_erase, Catalog.get?_erase]
    by_cases hname : name = "parsedAt"
    · simp [hname]
    · rw [if_neg hname, if_neg hname, document, document, Catalog.get?_ofList,
        Catalog.get?_ofList]
      simp only [readAt, List.reverse_cons, List.reverse_nil, List.nil_append, List.cons_append]
      rw [Catalog.lookup_cons, if_neg hname, eq_comm, Catalog.lookup_cons, if_neg hname]
  exact congrArg (Document.mk c.id c.source) hmetadata

namespace Contents

/-- The documents of a file are those of some chunks. -/
def Keeps (m : Contents) (file : String) (chunks : List Chunk) : Prop :=
  ∀ id, (m.ofFile file id).map (·.toDocument) =
    (chunks.map Chunk.document).find? fun d => d.id == id

def Indexes (m : Contents) (file : String) : Prop :=
  ∃ id, (m.ofFile file id).isSome = true

variable {m m' : Contents} {file : String}

lemma Keeps.congr {chunks : List Chunk} (h : m.Keeps file chunks)
    (heq : m'.ofFile file = m.ofFile file) : m'.Keeps file chunks := by
  rw [Keeps, heq]
  exact h

lemma keeps_refile {chunks : List Chunk} {documents : List StoredDocument}
    (hdocuments : documents.map (·.toDocument) = chunks.map Chunk.document)
    (hbelong : ∀ d ∈ documents, d.BelongsTo file) (hids : (chunks.map Chunk.id).Nodup) :
    (m.refile file documents).Keeps file chunks := by
  have hids' : (documents.map (·.id)).Nodup := by
    have hmap := congrArg (List.map Document.id) hdocuments
    rw [List.map_map, List.map_map] at hmap
    exact hmap ▸ hids
  intro id
  rw [ofFile_refile hbelong hids', ← hdocuments, List.find?_map]
  rfl

/-- The documents under their identifiers, without embeddings and times of reading. -/
def timeless (m : Contents) (id : String) : Option Document :=
  ((m id).map (·.toDocument)).map Document.timeless

variable [QueryCompiler]

/-- Chunks of one text that were read at different times differ in nothing else. -/
lemma Keeps.timeless_eq {grammar : Grammar} {d : Disk} {root : Location} {now now' : ℤ}
    (h : m.Keeps file (currentChunks grammar d root file now))
    (h' : m'.Keeps file (currentChunks grammar d root file now')) (id : String) :
    ((m.ofFile file id).map (·.toDocument)).map Document.timeless =
      ((m'.ofFile file id).map (·.toDocument)).map Document.timeless := by
  have htimeless : Document.timeless ∘ Chunk.document ∘ Chunk.readAt now' =
      Document.timeless ∘ Chunk.document :=
    funext fun c => c.timeless_document_readAt now'
  rw [h, h', currentChunks_readAt grammar d root file now now', List.map_map, List.find?_map,
    List.find?_map, Option.map_map, Option.map_map, htimeless]
  rfl

/-- The documents of all files are the current chunks, in both maps. -/
def BothCurrent (grammar : Grammar) (d : Disk) (root : Location) (m m' : Contents) : Prop :=
  ∀ file, m.Indexes file ∨ m'.Indexes file → ∃ now now',
    m.Keeps file (currentChunks grammar d root file now) ∧
    m'.Keeps file (currentChunks grammar d root file now')

lemma BothCurrent.symm {grammar : Grammar} {d : Disk} {root : Location}
    (h : BothCurrent grammar d root m m') : BothCurrent grammar d root m' m := by
  intro file hfile
  obtain ⟨now, now', hkeeps, hkeeps'⟩ := h file hfile.symm
  exact ⟨now', now, hkeeps', hkeeps⟩

lemma BothCurrent.timeless_of_some {grammar : Grammar} {d : Disk} {root : Location}
    (h : BothCurrent grammar d root m m') (hm : m.Filed) {id : String} {e : StoredDocument}
    (he : m id = some e) : m'.timeless id = m.timeless id := by
  obtain ⟨-, file, hfile⟩ := hm id e he
  have hofFile : m.ofFile file id = some e := by simp [ofFile, he, hfile.2]
  obtain ⟨now, now', hkeeps, hkeeps'⟩ := h file (.inl ⟨id, by rw [hofFile]; rfl⟩)
  have heq := hkeeps.timeless_eq hkeeps' id
  rw [hofFile] at heq
  cases hofFile' : m'.ofFile file id with
  | none =>
    rw [hofFile'] at heq
    cases heq
  | some e' =>
    have he' : m' id = some e' := (Option.filter_eq_some_iff.mp hofFile').1
    rw [hofFile'] at heq
    rw [timeless, timeless, he, he']
    exact heq.symm

/-- Two maps in which the documents of all files are the current chunks differ at most in
embeddings and times of reading. -/
theorem BothCurrent.timeless_eq {grammar : Grammar} {d : Disk} {root : Location}
    (h : BothCurrent grammar d root m m') (hm : m.Filed) (hm' : m'.Filed) :
    m.timeless = m'.timeless := by
  funext id
  cases he : m id with
  | some e => exact (h.timeless_of_some hm he).symm
  | none =>
    cases he' : m' id with
    | some e' => exact h.symm.timeless_of_some hm' he'
    | none => rw [timeless, timeless, he, he']

end Contents

/-- A file of the workspace that can be indexed: its name stays inside, has the extension of
a supported language, and does not contain the separator of identifiers. -/
structure IsIndexable (file : String) : Prop where
  inside : Path.staysInside file = true
  supported : (Language.ofPath? file).isSome = true
  separable : ChunkId.Separable file

namespace Analyzer

variable [QueryCompiler] {a : Analyzer Store}

def succeeds (s : Surroundings) : Analyzer Store → List String → Bool
  | _, [] => true
  | a, file :: files => (a.processFile s file).1.isOk && succeeds s (processNext s a file) files

/-- A file that does not fail is stored as it stands on the disk, and the other files stay
as they are. -/
lemma Sound.keeps_processNext (ha : a.Sound) (s : Surroundings) {file : String}
    (hfile : ChunkId.Separable file) (hok : (a.processFile s file).1.isOk = true) :
    (processNext s a file).stored.Keeps file
        (currentChunks s.grammar s.disk a.root file s.now) ∧
      ∀ other, other ≠ file →
        (processNext s a file).stored.ofFile other = a.stored.ofFile other := by
  rcases ha.processFile s file with ⟨b, documents, h, hdocuments, hb⟩ | ⟨e, b, h, -⟩
  · have hstored : (processNext s a file).stored = a.stored.refile file documents := by
      rw [← hb.stored, processNext, h]
      rfl
    have hbelong := belongsTo_of_current hfile hdocuments
    rw [hstored]
    refine ⟨?_, fun other hother => ?_⟩
    · exact Contents.keeps_refile hdocuments hbelong (nodup_currentChunks _ _ _ _ _)
    · exact Contents.ofFile_refile_of_ne ha.filed hbelong hother
  · rw [h] at hok
    cases hok

/-- After a batch of which no file fails, its files are stored as they stand on the disk, in
whatever order and however often they occur in it. -/
lemma Sound.keeps_foldl (ha : a.Sound) (s : Surroundings) {files : List String}
    (hfiles : ∀ file ∈ files, ChunkId.Separable file) (hok : succeeds s a files = true)
    (file : String) :
    (file ∈ files → (files.foldl (processNext s) a).stored.Keeps file
      (currentChunks s.grammar s.disk a.root file s.now)) ∧
    (file ∉ files →
      (files.foldl (processNext s) a).stored.ofFile file = a.stored.ofFile file) := by
  induction files generalizing a with
  | nil => exact ⟨fun h => absurd h List.not_mem_nil, fun _ => rfl⟩
  | cons first files ih =>
    rw [List.forall_mem_cons] at hfiles
    rw [succeeds, Bool.and_eq_true] at hok
    obtain ⟨hkeeps, hothers⟩ := ha.keeps_processNext s hfiles.1 hok.1
    have hone := ha.continues_processNext s hfiles.1
    obtain ⟨hmem, hnotMem⟩ := ih hone.sound hfiles.2 hok.2
    rw [hone.root] at hmem
    rw [List.foldl_cons, List.mem_cons]
    constructor
    · intro h
      -- if the file comes again, its last occurrence counts
      by_cases hrest : file ∈ files
      · exact hmem hrest
      · obtain rfl := h.resolve_right hrest
        exact hkeeps.congr (hnotMem hrest)
    · intro h
      rw [not_or] at h
      rw [hnotMem h.2, hothers file h.1]

/-- The analyzer with the files of a batch counted as waiting. -/
def started (a : Analyzer Store) (files : List String) : Analyzer Store :=
  { a with progress := a.progress.start files.length }

lemma stored_processFiles (s : Surroundings) (files : List String) (hopen : a.isClosed = false) :
    (a.processFiles s files).stored =
      (files.foldl (processNext s) (a.started files)).stored := by
  unfold processFiles
  dsimp only
  rw [if_neg (by simp [hopen])]
  rfl

/-- A batch brings its files in line with the disk and leaves the other files alone. -/
theorem Sound.keeps_processFiles (ha : a.Sound) (s : Surroundings) {files : List String}
    (hopen : a.isClosed = false) (hfiles : ∀ file ∈ files, ChunkId.Separable file)
    (hok : succeeds s (a.started files) files = true) (file : String) :
    (file ∈ files → (a.processFiles s files).stored.Keeps file
      (currentChunks s.grammar s.disk a.root file s.now)) ∧
    (file ∉ files → (a.processFiles s files).stored.ofFile file = a.stored.ofFile file) := by
  have hstarted : (a.started files).Sound := ha.congr rfl rfl
  rw [stored_processFiles s files hopen]
  exact hstarted.keeps_foldl s hfiles hok file

end Analyzer

end CodeSearch
