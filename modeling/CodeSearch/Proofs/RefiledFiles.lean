import CodeSearch.Proofs.ReadBackChunks
import CodeSearch.Proofs.StoredFiles
import CodeSearch.Store.Faulty

/-!
# A file in store and cache

An index remembers of a file what can be read from the documents that are stored of it. A
call that puts chunks in place of those of a file changes both, or is refused before or
after the old documents are dropped. It never touches another file.
-/
namespace CodeSearch

/-- The chunks of a file that can be told from all others by their identifiers: they go
under the name of the file, which does not run into the separator, and have paths of their
own. The times at which they were read fit into 64 bits. -/
structure ChunkedFile.IsProper (file : ChunkedFile) : Prop where
  separable : ChunkId.Separable file.path
  getLast?_ne : file.path.toList.getLast? ≠ some ':'
  named : ∀ c ∈ file.chunks, c.file = file.path
  nodup : (file.chunks.map (·.path)).Nodup
  fits : ∀ c ∈ file.chunks, Integer.Fits c.parsedAt

instance (file : ChunkedFile) : Decidable file.IsProper :=
  decidable_of_iff (ChunkId.Separable file.path ∧ file.path.toList.getLast? ≠ some ':' ∧
      (∀ c ∈ file.chunks, c.file = file.path) ∧ (file.chunks.map (·.path)).Nodup ∧
      ∀ c ∈ file.chunks, Integer.Fits c.parsedAt)
    ⟨fun ⟨hseparable, hlast, hnamed, hnodup, hfits⟩ =>
        ⟨hseparable, hlast, hnamed, hnodup, hfits⟩,
      fun h => ⟨h.separable, h.getLast?_ne, h.named, h.nodup, h.fits⟩⟩

/-- Documents that keep some chunks, one for each and in their order. -/
def Keep (documents : List StoredDocument) (chunks : List Chunk) : Prop :=
  documents.map (·.toDocument) = chunks.map Chunk.document

namespace Keep

variable {documents : List StoredDocument} {chunks : List Chunk}

/-- What is remembered of the chunks can be read from the documents that keep them. -/
lemma map_cached (h : Keep documents chunks) (hfits : ∀ c ∈ chunks, Integer.Fits c.parsedAt) :
    documents.map StoredDocument.cached = (chunks.map Chunk.cached).map .ok := by
  induction chunks generalizing documents with
  | nil => rw [List.map_eq_nil_iff.mp h]; rfl
  | cons c chunks ih =>
    obtain ⟨d, documents, rfl, hd, hrest⟩ := List.map_eq_cons_iff.mp h
    rw [List.forall_mem_cons] at hfits
    rw [List.map_cons, StoredDocument.cached_of_chunk hd hfits.1, ih hrest hfits.2]
    rfl

lemma eq_nil_iff (h : Keep documents chunks) : documents = [] ↔ chunks = [] := by
  have hlength := congrArg List.length h
  rw [List.length_map, List.length_map] at hlength
  rw [← List.length_eq_zero_iff, ← List.length_eq_zero_iff, hlength]

end Keep

namespace ChunkedFile.IsProper

variable {file : ChunkedFile} {documents : List StoredDocument}

lemma split?_id (h : file.IsProper) {c : Chunk} (hc : c ∈ file.chunks) :
    ChunkId.split? c.id = some (file.path, c.path) := by
  rw [Chunk.id, h.named c hc]
  exact ChunkId.split?_ofParts h.separable h.getLast?_ne c.path

lemma belongsTo (h : file.IsProper) (hkeep : Keep documents file.chunks) :
    ∀ d ∈ documents, d.BelongsTo file.path := by
  intro d hd
  have hmem : d.toDocument ∈ file.chunks.map Chunk.document := by
    rw [← hkeep]
    exact List.mem_map_of_mem hd
  obtain ⟨c, hc, heq⟩ := List.mem_map.mp hmem
  rw [← heq]
  refine ⟨⟨c.path, h.split?_id hc⟩, ?_⟩
  rw [Chunk.document, Catalog.get?_ofList, ← h.named c hc]
  rfl

/-- Paths of their own give the chunks identifiers of their own. -/
lemma nodup_id (h : file.IsProper) (hkeep : Keep documents file.chunks) :
    (documents.map (·.id)).Nodup := by
  have hids : documents.map (·.id) = file.chunks.map Chunk.id := by
    have hmap := congrArg (List.map Document.id) hkeep
    rwa [List.map_map, List.map_map] at hmap
  rw [hids]
  refine List.Nodup.map_on (fun c hc c' hc' heq => ?_) h.nodup.of_map
  have hpath : c.path = c'.path := by
    have hsplit := h.split?_id hc
    rw [heq, h.split?_id hc'] at hsplit
    exact (Prod.mk.inj (Option.some.inj hsplit)).2.symm
  exact List.inj_on_of_nodup_map h.nodup hc hc' hpath

end ChunkedFile.IsProper

namespace FaultyStore

variable {s : FaultyStore}

/-- A store that does not refuse it drops the documents of a file. -/
lemma exists_delete (hs : s.store.documents.Keyed) (hfails : s.failsDelete = false)
    (file : String) : ∃ count s', DocumentStore.delete s (Index.fileFilter file) = .ok (count, s') ∧
      DocumentStore.get? s' = Contents.refile (DocumentStore.get? s) file [] ∧
      s'.failsDelete = false := by
  have hfilter : (Index.fileFilter file).entries ≠ [] := by
    have hentries : (Index.fileFilter file).entries = [("file", file)] := rfl
    simp [hentries]
  obtain ⟨count, store, hdelete, hstored⟩ := Store.exists_drop_of_delete hs hfilter
  refine ⟨count, { s with store }, ?_, ?_, hfails⟩
  · change FaultyStore.delete s _ = _
    rw [FaultyStore.delete, hfails, hdelete]
    rfl
  · rw [Contents.refile_nil]
    exact funext hstored

/-- A store that refuses to drop anything stays as it is; any other one drops the documents of
a file. -/
lemma delete_cases (hs : s.store.documents.Keyed) (file : String) :
    DocumentStore.delete s (Index.fileFilter file) = .error fault ∨
    ∃ count s', DocumentStore.delete s (Index.fileFilter file) = .ok (count, s') ∧
      DocumentStore.get? s' = Contents.refile (DocumentStore.get? s) file [] := by
  cases hfails : s.failsDelete with
  | true => exact .inl (if_pos hfails)
  | false =>
    obtain ⟨count, s', hdelete, hstored, -⟩ := exists_delete hs hfails file
    exact .inr ⟨count, s', hdelete, hstored⟩

/-- Documents that the store takes are put into it, each with some embedding. -/
lemma exists_put_of_add {s' : FaultyStore} {documents : List Document}
    (h : DocumentStore.add s documents = .ok s') : ∃ stored : List StoredDocument,
      stored.map (·.toDocument) = documents ∧
      DocumentStore.get? s' = Contents.put (DocumentStore.get? s) stored := by
  change FaultyStore.add s documents = .ok s' at h
  unfold FaultyStore.add at h
  split at h
  · cases h
  · obtain ⟨store, hadd, hs'⟩ := Except.bind_eq_ok.mp h
    obtain rfl := Except.pure_eq_ok.mp hs'
    obtain ⟨stored, hdocuments, hstored⟩ := Store.exists_put_of_add hadd
    exact ⟨stored, hdocuments, funext hstored⟩

end FaultyStore

namespace Contents

lemma ofFile_eq_some_iff {m : Contents} {file id : String} {d : StoredDocument} :
    m.ofFile file id = some d ↔ m id = some d ∧ d.metadata.get? "file" = some file := by
  simp [ofFile, Option.filter_eq_some_iff]

end Contents

/-- The chunks of each file, in the order in which they were handed in. -/
abbrev Ledger := String → List Chunk

namespace Index

/-- The stored documents under their identifiers. -/
def stored (x : Index FaultyStore) : Contents :=
  DocumentStore.get? x.store

/-- The documents that are stored of a file, and what is remembered of it: the same in the
same order. -/
structure Shows (x : Index FaultyStore) (file : String) (documents : List StoredDocument) : Prop
    where
  nodup : (documents.map (·.id)).Nodup
  mem_iff : ∀ d, d ∈ documents ↔
    ∃ id, DocumentStore.get? x.store id = some d ∧ d.metadata.get? "file" = some file
  cached : documents.map StoredDocument.cached = (x.cached file).map .ok
  mem_files_iff : file ∈ x.files ↔ documents ≠ []

/-- Store and cache have of every file the chunks of a ledger. -/
structure Agrees (x : Index FaultyStore) (ledger : Ledger) : Prop where
  filed : x.stored.Filed
  shows : ∀ file, ∃ documents, Keep documents (ledger file) ∧ x.Shows file documents

structure Refiles (x : Index FaultyStore) (file : String) (documents : List StoredDocument)
    (y : Index FaultyStore) : Prop where
  belongs : ∀ d ∈ documents, d.BelongsTo file
  nodup : (documents.map (·.id)).Nodup
  stored : y.stored = x.stored.refile file documents
  cached : documents.map StoredDocument.cached = (y.cached file).map .ok
  mem_files_iff : file ∈ y.files ↔ documents ≠ []
  others : ∀ other ≠ file, y.cache.get? other = x.cache.get? other

variable {x y : Index FaultyStore} {ledger : Ledger} {file : String}
  {documents : List StoredDocument} {call : ChunkedFile}

lemma Refiles.shows (h : x.Refiles file documents y) : y.Shows file documents := by
  refine ⟨h.nodup, fun d => ?_, h.cached, h.mem_files_iff⟩
  have hfile (id : String) : y.stored id = some d ∧ d.metadata.get? "file" = some file ↔
      d ∈ documents ∧ d.id = id := by
    rw [← Contents.ofFile_eq_some_iff, h.stored, Contents.ofFile_refile h.belongs h.nodup,
      Contents.find?_id_eq_some_iff h.nodup]
  constructor
  · intro hd
    exact ⟨d.id, (hfile d.id).mpr ⟨hd, rfl⟩⟩
  · rintro ⟨id, hid⟩
    exact ((hfile id).mp hid).1

lemma Refiles.ofFile_of_ne (h : x.Refiles file documents y) (hx : x.stored.Filed) {other : String}
    (hne : other ≠ file) : y.stored.ofFile other = x.stored.ofFile other := by
  rw [h.stored]
  exact Contents.ofFile_refile_of_ne hx h.belongs hne

/-- What the index shows of a file depends on its documents and its cache entry alone. -/
lemma Shows.congr (h : x.Shows file documents)
    (hstored : y.stored.ofFile file = x.stored.ofFile file)
    (hcache : y.cache.get? file = x.cache.get? file) : y.Shows file documents := by
  refine ⟨h.nodup, fun d => ?_, ?_, ?_⟩
  · rw [h.mem_iff]
    refine exists_congr fun id => ?_
    have hsame := congrFun hstored id
    exact Contents.ofFile_eq_some_iff.symm.trans (hsame ▸ Contents.ofFile_eq_some_iff)
  · rw [h.cached, Index.cached, Index.cached, hcache]
  · rw [← h.mem_files_iff, files, files, Catalog.mem_names_iff, Catalog.mem_names_iff, hcache]

lemma Refiles.agrees (h : x.Refiles file documents y) (hx : x.Agrees ledger) {chunks : List Chunk}
    (hkeep : Keep documents chunks) : y.Agrees (Function.update ledger file chunks) := by
  refine ⟨h.stored ▸ hx.filed.refile h.belongs, fun other => ?_⟩
  by_cases hne : other = file
  · subst hne
    rw [Function.update_self]
    exact ⟨documents, hkeep, h.shows⟩
  · obtain ⟨old, hold, hshows⟩ := hx.shows other
    rw [Function.update_of_ne hne]
    exact ⟨old, hold, hshows.congr (h.ofFile_of_ne hx.filed hne) (h.others other hne)⟩

/-- Forgetting a file leaves nothing of it on either side, or is refused. -/
lemma remove_cases (hx : x.stored.Filed) (file : String) :
    (∃ e, DocumentStore.delete x.store (fileFilter file) = .error e ∧ x.remove file = .error e) ∨
    ∃ count y, DocumentStore.delete x.store (fileFilter file) = .ok (count, y.store) ∧
      x.remove file = .ok y ∧ x.Refiles file [] y := by
  have hkeyed : x.store.store.documents.Keyed := fun id d hd => (hx id d hd).1
  rcases FaultyStore.delete_cases hkeyed file with hdelete | ⟨count, s, hdelete, hstored⟩
  · exact .inl ⟨_, hdelete, by rw [remove, hdelete]; rfl⟩
  · refine .inr ⟨count, { x with store := s, cache := x.cache.erase file }, hdelete,
      by rw [remove, hdelete]; rfl, by simp, by simp, hstored, ?_, ?_, fun other hne => ?_⟩
    · simp [Index.cached]
    · simp [files, Catalog.mem_names_iff]
    · rw [Catalog.get?_erase, if_neg hne]

/-- Documents are put, on both sides, where nothing is left of their file. -/
lemma Refiles.insert (h : x.Refiles call.path [] y) (hcall : call.IsProper)
    (hne : call.chunks ≠ []) (hkeep : Keep documents call.chunks) {t : FaultyStore}
    (hput : DocumentStore.get? t = Contents.put (DocumentStore.get? y.store) documents) :
    x.Refiles call.path documents { y with
      store := t, cache := y.cache.insert call.path (call.chunks.map Chunk.cached) } where
  belongs := hcall.belongsTo hkeep
  nodup := hcall.nodup_id hkeep
  stored := by
    have hy : DocumentStore.get? y.store = x.stored.refile call.path [] := h.stored
    rw [hy, Contents.refile_nil] at hput
    exact hput
  cached := by simpa [Index.cached] using hkeep.map_cached hcall.fits
  mem_files_iff := by simp [files, Catalog.mem_names_iff, hkeep.eq_nil_iff, hne]
  others other hne := by rw [Catalog.get?_insert, if_neg hne, h.others other hne]

/-- The chunks that a file has after a call that is to put new ones in place of old ones. -/
def leftBy (x : Index FaultyStore) (call : ChunkedFile) (old : List Chunk) : List Chunk :=
  match DocumentStore.delete x.store (fileFilter call.path) with
  | .error _ => old
  | .ok (_, s) =>
      if call.chunks.isEmpty then []
      else
        match DocumentStore.add s (call.chunks.map Chunk.document) with
        | .error _ => []
        | .ok _ => call.chunks

/-- Putting chunks in place of those of a file comes to one of three things: the store
refuses to drop the old ones and nothing changes, it refuses the new ones and nothing of the
file is left, or the file has the new ones. -/
lemma replace_cases (hx : x.stored.Filed) (hcall : call.chunks ≠ [] → call.IsProper) :
    (∃ e, DocumentStore.delete x.store (fileFilter call.path) = .error e ∧
      x.replace call = (.error e, x)) ∨
    (∃ count s e y, DocumentStore.delete x.store (fileFilter call.path) = .ok (count, s) ∧
      call.chunks ≠ [] ∧ DocumentStore.add s (call.chunks.map Chunk.document) = .error e ∧
      x.replace call = (.error e, y) ∧ x.Refiles call.path [] y) ∨
    (∃ count s y documents, DocumentStore.delete x.store (fileFilter call.path) = .ok (count, s) ∧
      (call.chunks = [] ∨ ∃ t, DocumentStore.add s (call.chunks.map Chunk.document) = .ok t) ∧
      x.replace call = (.ok (), y) ∧ x.Refiles call.path documents y ∧
      Keep documents call.chunks ∧ y.cached call.path = call.chunks.map Chunk.cached) := by
  unfold replace
  rcases remove_cases hx call.path with ⟨e, hdelete, hremove⟩ | ⟨count, y, hdelete, hremove, hy⟩
  · exact .inl ⟨e, hdelete, by rw [hremove]⟩
  · rw [hremove]
    dsimp only
    by_cases hnil : call.chunks = []
    · have hnone : y.cached call.path = [] := List.map_eq_nil_iff.mp hy.cached.symm
      rw [if_pos (by simpa using hnil)]
      exact .inr (.inr ⟨count, y.store, y, [], hdelete, .inl hnil, rfl, hy, by simp [Keep, hnil],
        by simp [hnone, hnil]⟩)
    · rw [if_neg (by simpa using hnil)]
      cases hadd : DocumentStore.add y.store (call.chunks.map Chunk.document) with
      | error e => exact .inr (.inl ⟨count, y.store, e, y, hdelete, hnil, hadd, rfl, hy⟩)
      | ok t =>
        obtain ⟨documents, hkeep, hput⟩ := FaultyStore.exists_put_of_add hadd
        refine .inr (.inr ⟨count, y.store, _, documents, hdelete, .inr ⟨t, hadd⟩, rfl,
          hy.insert (hcall hnil) hnil hkeep hput, hkeep, ?_⟩)
        simp [Index.cached]

end Index

end CodeSearch
