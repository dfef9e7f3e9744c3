import CodeSearch.Analyzer.Basic
import CodeSearch.Proofs.CurrentChunks
import CodeSearch.Proofs.StoredFiles

/-!
# Processing a file

Processing a file puts its current chunks in place of those that the store has of it. If
that fails, the file keeps what it had or is left without chunks. Nothing else that an
analyzer is made of matters for the outcome, and of the other files nothing changes.
-/
namespace CodeSearch

namespace Index

/-- A store whose documents are keyed never refuses to drop those of a file. -/
lemma exists_delete {store : Store} (hstore : store.documents.Keyed) (file : String) :
    ∃ count store', DocumentStore.delete store (fileFilter file) = .ok (count, store') ∧
      store'.documents.get? = Contents.refile store.documents.get? file [] := by
  have hfilter : (fileFilter file).entries ≠ [] := by
    have hentries : (fileFilter file).entries = [("file", file)] := rfl
    simp [hentries]
  obtain ⟨count, store', hdelete, hholds⟩ := Store.exists_drop_of_delete hstore hfilter
  rw [Contents.refile_nil]
  exact ⟨count, store', hdelete, funext hholds⟩

lemma exists_remove {x : Index Store} (hx : x.store.documents.Keyed) (file : String) :
    ∃ store, x.remove file = .ok { x with store, cache := x.cache.erase file } ∧
      store.documents.get? = Contents.refile x.store.documents.get? file [] := by
  obtain ⟨count, store, hdelete, hstored⟩ := exists_delete hx file
  refine ⟨store, ?_, hstored⟩
  rw [remove, hdelete]
  rfl

end Index

namespace Analyzer

/-- The stored documents under their identifiers. -/
def stored (a : Analyzer Store) : Contents :=
  a.index.store.documents.get?

/-- Two analyzers of the same workspace with the same settings, both open or both closed. -/
structure SameWorkspace (a b : Analyzer Store) : Prop where
  root : b.root = a.root
  config : b.config = a.config
  isClosed : b.isClosed = a.isClosed

variable {a b c : Analyzer Store}

lemma SameWorkspace.refl (a : Analyzer Store) : a.SameWorkspace a :=
  ⟨rfl, rfl, rfl⟩

lemma SameWorkspace.trans (h : a.SameWorkspace b) (h' : b.SameWorkspace c) : a.SameWorkspace c :=
  ⟨h'.root.trans h.root, h'.config.trans h.config, h'.isClosed.trans h.isClosed⟩

variable [QueryCompiler]

/-- The chunkers that are kept are those of their languages. -/
def ChunkersFit (a : Analyzer Store) : Prop :=
  ∀ l k, (l, k) ∈ a.chunkers → k.IsOf l

/-- Every document belongs to its file, and every chunker to its language. -/
structure Sound (a : Analyzer Store) : Prop where
  filed : a.stored.Filed
  chunkers : a.ChunkersFit

/-- The analyzer goes on as one of the same workspace, whose documents are those of a map. -/
structure Becomes (a : Analyzer Store) (m : Contents) (b : Analyzer Store) : Prop
    extends a.SameWorkspace b where
  chunkers : b.ChunkersFit
  stored : b.stored = m

lemma Sound.keyed (ha : a.Sound) : a.index.store.documents.Keyed :=
  fun id d hd => (ha.filed id d hd).1

lemma Sound.becomes_self (ha : a.Sound) : a.Becomes a.stored a :=
  ⟨.refl a, ha.chunkers, rfl⟩

/-- An analyzer hands out chunkers of the language that is asked for. -/
lemma ChunkersFit.isOf_chunker (ha : a.ChunkersFit) {l : Language} {k : Chunker}
    (h : a.chunker l = .ok k) : k.IsOf l := by
  unfold chunker at h
  split at h
  · next k' hlookup =>
    obtain rfl := Except.ok.inj h
    obtain ⟨before, after, hsplit, -⟩ := List.lookup_eq_some_iff.mp hlookup
    exact ha l k' (by simp [hsplit])
  · exact Chunker.isOf_create h

lemma Sound.isOf_chunker (ha : a.Sound) {l : Language} {k : Chunker} (h : a.chunker l = .ok k) :
    k.IsOf l :=
  ha.chunkers.isOf_chunker h

lemma chunkersFit_keep (ha : a.ChunkersFit) {l : Language} {k : Chunker} (hk : k.IsOf l) :
    (a.keep l k).ChunkersFit := by
  intro l' k' hmem
  rcases List.mem_cons.mp hmem with heq | hold
  · obtain ⟨rfl, rfl⟩ := Prod.mk.inj heq
    exact hk
  · exact ha l' k' (List.mem_of_mem_filter hold)

/-- Forgetting a file leaves it without chunks. -/
lemma Sound.removeFile (ha : a.Sound) (file : String) :
    ∃ b, a.removeFile file = (.ok (), b) ∧ a.Becomes (a.stored.refile file []) b := by
  obtain ⟨store, hremove, hstored⟩ := Index.exists_remove ha.keyed file
  refine ⟨{ a with index := { a.index with store, cache := a.index.cache.erase file } }, ?_, ?_⟩
  · rw [Analyzer.removeFile, hremove]
  · exact ⟨⟨rfl, rfl, rfl⟩, ha.chunkers, hstored⟩

/-- The chunks of a file are put in place of those that it had. If the store refuses them,
the file is left without any. -/
lemma Sound.replaceFile (ha : a.Sound) (x : ChunkedFile) :
    (∃ b documents, a.replaceFile x = (.ok (), b) ∧
      documents.map (·.toDocument) = x.chunks.map Chunk.document ∧
      a.Becomes (a.stored.refile x.path documents) b) ∨
    (∃ e b, a.replaceFile x = (.error e, b) ∧ a.Becomes (a.stored.refile x.path []) b) := by
  obtain ⟨store, hremove, hstored⟩ := Index.exists_remove ha.keyed x.path
  unfold Analyzer.replaceFile Index.replace
  rw [hremove]
  dsimp only
  by_cases hnil : x.chunks = []
  · rw [if_pos (by simpa using hnil)]
    exact .inl ⟨_, [], rfl, by simp [hnil], ⟨rfl, rfl, rfl⟩, ha.chunkers, hstored⟩
  · rw [if_neg (by simpa using hnil)]
    cases hadd : DocumentStore.add store (x.chunks.map Chunk.document) with
    | error e => exact .inr ⟨_, _, rfl, ⟨rfl, rfl, rfl⟩, ha.chunkers, hstored⟩
    | ok store' =>
      obtain ⟨documents, hdocuments, hholds⟩ := Store.exists_put_of_add hadd
      refine .inl ⟨_, documents, rfl, hdocuments, ⟨rfl, rfl, rfl⟩, ha.chunkers, ?_⟩
      have hput : store'.documents.get? = Contents.put store.documents.get? documents :=
        funext hholds
      rw [hstored, Contents.refile_nil] at hput
      exact hput

/-- An extraction finds the current chunks of a file on disk, or nothing if the file is
ignored. It leaves another chunker behind and nothing else. -/
lemma ChunkersFit.extract (ha : a.ChunkersFit) (s : Surroundings) {file : String}
    (hhas : s.disk.has (Index.pathOf a.root file) = true) :
    (∃ chunkers, (a.extract s file).2 = { a with chunkers }) ∧ (a.extract s file).2.ChunkersFit ∧
      match (a.extract s file).1 with
      | .ok (some x) => x.path = file ∧
          x.chunks = currentChunks s.grammar s.disk a.root file s.now
      | .ok none => currentChunks s.grammar s.disk a.root file s.now = []
      | .error _ => True := by
  unfold Analyzer.extract
  cases hlanguage : Language.ofPath? file with
  | none => exact ⟨⟨a.chunkers, rfl⟩, ha, trivial⟩
  | some l =>
    dsimp only
    cases hchunker : a.chunker l with
    | error e => exact ⟨⟨a.chunkers, rfl⟩, ha, trivial⟩
    | ok k =>
      have hk := ha.isOf_chunker hchunker
      have hcurrent := hk.currentChunks_eq s.grammar hlanguage hhas s.now
      have hkept := hk.chunkFile_snd (s.grammar l) s.disk a.root file s.now
      dsimp only
      split
      · next hclass =>
        refine ⟨⟨_, rfl⟩, chunkersFit_keep ha hk, ?_⟩
        simpa [Chunker.chunkFile, hclass] using hcurrent
      · next hclass =>
        cases hchunked : (k.chunkFile (s.grammar l) s.disk a.root file s.now).1 with
        | error e => exact ⟨⟨_, rfl⟩, chunkersFit_keep ha hkept, trivial⟩
        | ok x =>
          refine ⟨⟨_, rfl⟩, chunkersFit_keep ha hkept, ?_, ?_⟩
          · exact hk.path_chunkFile hchunked
          · rw [hcurrent, hchunked]

/-- An extraction leaves the documents alone. -/
lemma Sound.extract (ha : a.Sound) (s : Surroundings) {file : String}
    (hhas : s.disk.has (Index.pathOf a.root file) = true) :
    a.Becomes a.stored (a.extract s file).2 ∧
      match (a.extract s file).1 with
      | .ok (some x) => x.path = file ∧
          x.chunks = currentChunks s.grammar s.disk a.root file s.now
      | .ok none => currentChunks s.grammar s.disk a.root file s.now = []
      | .error _ => True := by
  obtain ⟨⟨chunkers, heq⟩, hfit, houtcome⟩ := ha.chunkers.extract s hhas
  rw [heq] at hfit ⊢
  exact ⟨⟨⟨rfl, rfl, rfl⟩, hfit, rfl⟩, houtcome⟩

lemma Becomes.sound (h : a.Becomes a.stored b) (ha : a.Sound) : b.Sound :=
  ⟨h.stored ▸ ha.filed, h.chunkers⟩

lemma SameWorkspace.becomes {m : Contents} (h : a.SameWorkspace b) (h' : b.Becomes m c) :
    a.Becomes m c :=
  ⟨h.trans h'.toSameWorkspace, h'.chunkers, h'.stored⟩

/-- What processing a file comes to: its current chunks are stored in place of what the
store has of it, or the call fails, and the file keeps what it had or is left without
chunks. -/
theorem Sound.processFile (ha : a.Sound) (s : Surroundings) (file : String) :
    (∃ b documents, a.processFile s file = (.ok (), b) ∧
      documents.map (·.toDocument) =
        (currentChunks s.grammar s.disk a.root file s.now).map Chunk.document ∧
      a.Becomes (a.stored.refile file documents) b) ∨
    (∃ e b, a.processFile s file = (.error e, b) ∧
      (a.Becomes a.stored b ∨ a.Becomes (a.stored.refile file []) b)) := by
  unfold Analyzer.processFile
  by_cases hinside : Path.staysInside file = true
  · rw [if_neg (by simp [hinside])]
    cases hhas : s.disk.has (Index.pathOf a.root file) with
    | false =>
      obtain ⟨b, hremove, hb⟩ := ha.removeFile file
      rw [if_pos (by simp)]
      exact .inl ⟨b, [], hremove, by rw [currentChunks_of_gone hhas]; rfl, hb⟩
    | true =>
      -- the extraction may leave another chunker behind, but the same documents
      obtain ⟨hframe, houtcome⟩ := ha.extract s hhas
      have hsound := hframe.sound ha
      rw [if_neg (by simp)]
      cases hextract : a.extract s file with
      | mk outcome c =>
        rw [hextract] at hframe houtcome hsound
        match outcome, houtcome with
        | .error e, _ => exact .inr ⟨e, c, rfl, .inl hframe⟩
        | .ok none, hnone =>
          obtain ⟨b, hremove, hb⟩ := hsound.removeFile file
          rw [hframe.stored] at hb
          exact .inl ⟨b, [], hremove, by rw [hnone]; rfl, hframe.toSameWorkspace.becomes hb⟩
        | .ok (some x), ⟨hpath, hchunks⟩ =>
          have hreplaced := hsound.replaceFile x
          rw [hframe.stored, hpath] at hreplaced
          rcases hreplaced with ⟨b, documents, hreplace, hdocuments, hb⟩ | ⟨e, b, hreplace, hb⟩
          · have hbecomes := hframe.toSameWorkspace.becomes hb
            exact .inl ⟨b, documents, hreplace, hchunks ▸ hdocuments, hbecomes⟩
          · have hbecomes := hframe.toSameWorkspace.becomes hb
            exact .inr ⟨e, b, hreplace, .inr hbecomes⟩
  · rw [if_pos (by simpa using hinside)]
    exact .inr ⟨_, a, rfl, .inl ha.becomes_self⟩

end Analyzer

end CodeSearch
