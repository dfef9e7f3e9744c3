import CodeSearch.Proofs.KeptWrites
import CodeSearch.Proofs.ReopenedIndex

/-!
# Chunks that stay readable

The chunks of a file are taken in. After that other files are taken in and forgotten, by calls
that the store accepts or refuses, and the index is closed and opened again in between. Each
chunk is read back as it was handed in, throughout, unless the log of the store ended in the
middle of a line when the store was opened the first time.
-/
namespace CodeSearch

/-- The chunks go under the name of the file, which does not run into the separator. -/
structure ChunkedFile.IsNamed (file : ChunkedFile) : Prop where
  separable : ChunkId.Separable file.path
  getLast?_ne : file.path.toList.getLast? ≠ some ':'
  named : ∀ c ∈ file.chunks, c.file = file.path

instance (file : ChunkedFile) : Decidable file.IsNamed :=
  decidable_of_iff (ChunkId.Separable file.path ∧ file.path.toList.getLast? ≠ some ':' ∧
      ∀ c ∈ file.chunks, c.file = file.path)
    ⟨fun ⟨hseparable, hlast, hnamed⟩ => ⟨hseparable, hlast, hnamed⟩,
      fun h => ⟨h.separable, h.getLast?_ne, h.named⟩⟩

namespace ChunkedFile

variable {file other : ChunkedFile} {c c' : Chunk}

lemma IsProper.isNamed (h : file.IsProper) : file.IsNamed :=
  ⟨h.separable, h.getLast?_ne, h.named⟩

lemma IsNamed.split?_id (h : file.IsNamed) (hc : c ∈ file.chunks) :
    ChunkId.split? c.id = some (file.path, c.path) := by
  rw [Chunk.id, h.named c hc]
  exact ChunkId.split?_ofParts h.separable h.getLast?_ne c.path

/-- Chunks of different files have different identifiers. -/
lemma IsNamed.id_ne (h : file.IsNamed) (h' : other.IsNamed) (hne : other.path ≠ file.path)
    (hc : c ∈ file.chunks) (hc' : c' ∈ other.chunks) : c'.id ≠ c.id := by
  intro hid
  have hsplit := h'.split?_id hc'
  rw [hid, h.split?_id hc] at hsplit
  exact hne (Prod.mk.inj (Option.some.inj hsplit)).1.symm

end ChunkedFile

namespace Contents

variable {m : Contents} {chunks : List Chunk} {documents : List StoredDocument}

/-- Under the identifier of every chunk stands a document that keeps it. -/
def Shelters (m : Contents) (chunks : List Chunk) : Prop :=
  ∀ c ∈ chunks, ∃ d, m c.id = some d ∧ d.toDocument = c.document

/-- What is put in place of the documents of a file leaves the chunks of other files alone. -/
lemma Shelters.refile (h : m.Shelters chunks) {file : String}
    (hother : ∀ c ∈ chunks, c.file ≠ file)
    (hfresh : ∀ d ∈ documents, ∀ c ∈ chunks, d.id ≠ c.id) :
    (m.refile file documents).Shelters chunks := by
  intro c hc
  obtain ⟨d, hd, hkeeps⟩ := h c hc
  refine ⟨d, ?_, hkeeps⟩
  have hnone : (documents.reverse.find? fun d => d.id == c.id) = none := by
    refine List.find?_eq_none.mpr fun d' hd' heq => ?_
    exact hfresh d' (List.mem_reverse.mp hd') c hc (beq_iff_eq.mp heq)
  have hfile : d.metadata.get? "file" = some c.file := by
    rw [hkeeps, Chunk.document, Catalog.get?_ofList]
    rfl
  rw [Contents.refile, put, hnone, Option.none_or, drop, hd, Option.filter_eq_some_iff,
    Document.matches_fileFilter, hfile]
  exact ⟨rfl, by simpa using hother c hc⟩

/-- A file has its chunks when documents that keep them are put in place of its old ones. -/
lemma shelters_refile {call : ChunkedFile} (hcall : call.IsProper)
    (hkeep : Keep documents call.chunks) :
    (m.refile call.path documents).Shelters call.chunks := by
  intro c hc
  have hmem : c.document ∈ documents.map (·.toDocument) := by
    rw [hkeep]
    exact List.mem_map_of_mem hc
  obtain ⟨d, hd, hkeeps⟩ := List.mem_map.mp hmem
  have hfind : (documents.find? fun d => d.id == c.id) = some d :=
    (find?_id_eq_some_iff (hcall.nodup_id hkeep) c.id d).mpr ⟨hd, congrArg Document.id hkeeps⟩
  rw [← ofFile_refile (m := m) (hcall.belongsTo hkeep) (hcall.nodup_id hkeep),
    ofFile_eq_some_iff] at hfind
  exact ⟨d, hfind.1, hkeeps⟩

end Contents

/-- A chunk is read back from the document that keeps it. -/
lemma Index.chunk?_of_shelters {x : Index FaultyStore} {chunks : List Chunk}
    (h : x.stored.Shelters chunks) {c : Chunk} (hc : c ∈ chunks) (hfits : c.Fits) :
    x.chunk? c.id = .ok (some c) := by
  obtain ⟨d, hd, hkeeps⟩ := h c hc
  have hget : DocumentStore.get? x.store c.id = some d := hd
  rw [Index.chunk?, hget]
  simp only [StoredDocument.chunk_of_chunk hkeeps hfits]

namespace Store

/-- Nothing is lost when the store is closed, if it has a log. -/
structure Persists (s : Store) : Prop where
  keyed : s.documents.Keyed
  kept : s.log = none ∨ (s.IsKept ∧ s.embedder.IsFinite)

/-- A store as it is opened: without a log, or on a log that ends well and was written with
finite vectors. -/
inductive IsOpened : Store → Prop
  | inMemory (e : Embedder) : IsOpened (.inMemory e)
  | ofFile {file : LogFile} {e : Embedder} {s : Store} (hopen : ofFile file e = .ok s)
      (hends : file.EndsWell) (hembedder : e.IsFinite)
      (hfinite : ∀ id d, s.documents.get? id = some d → d.embedding.IsFinite) : IsOpened s

variable {s s' : Store} {l : Log} {e : Embedder}

lemma embedder_of_ofFile {file : LogFile} (h : ofFile file e = .ok s) : s.embedder = e := by
  obtain ⟨_, -, hs⟩ := Except.bind_eq_ok.mp h
  rw [← Except.pure_eq_ok.mp hs]

lemma persists_of_kept (hs : s.IsKept) (he : s.embedder.IsFinite) : s.Persists := by
  obtain ⟨l, hlog, htracks⟩ := hs
  exact ⟨htracks.sound.keyed, .inr ⟨⟨l, hlog, htracks⟩, he⟩⟩

lemma IsOpened.persists (h : s.IsOpened) : s.Persists := by
  cases h with
  | inMemory e =>
    refine ⟨fun id d hd => ?_, .inl rfl⟩
    have hnone : (Store.inMemory e).documents.get? id = none := Catalog.get?_empty id
    cases hnone.symm.trans hd
  | ofFile hopen hends hembedder hfinite =>
    refine persists_of_kept (isKept_ofFile hends hopen hfinite) ?_
    rwa [embedder_of_ofFile hopen]

namespace Persists

/-- What is in memory is found again when the store is opened the next time. -/
lemma reopen (h : s.Persists) (hlog : s.log = some l) (hopen : ofFile l.file e = .ok s')
    (he : e.IsFinite) : s'.Persists ∧ s'.documents = s.documents := by
  obtain ⟨hkept, -⟩ := h.kept.resolve_left (by simp [hlog])
  refine ⟨persists_of_kept (hkept.reopen hlog hopen) (by rwa [embedder_of_ofFile hopen]), ?_⟩
  obtain ⟨l₀, hlog₀, htracks⟩ := hkept
  obtain rfl := Option.some.inj (hlog.symm.trans hlog₀)
  obtain ⟨⟨documents, l'⟩, hread, heq⟩ := Except.bind_eq_ok.mp hopen
  obtain rfl := Except.pure_eq_ok.mp heq
  exact Log.documents_of_ofFile htracks.replay hread

/-- Nothing but a blocked place for the new log can be in the way then. -/
lemma exists_reopen (h : s.Persists) (hlog : s.log = some l) (e : Embedder) :
    ∃ l', ofFile { bytes := l.file.bytes } e = .ok ⟨e, s.documents, some l'⟩ := by
  obtain ⟨⟨l₀, hlog₀, htracks⟩, -⟩ := h.kept.resolve_left (by simp [hlog])
  obtain rfl := Option.some.inj (hlog.symm.trans hlog₀)
  exact exists_ofFile htracks.replay e

lemma change (h : s.Persists) {c : Change} (hchange : s.change c = .ok s') : s'.Persists := by
  rcases h.kept with hnone | ⟨hkept, hfinite⟩
  · rcases change_cases hchange with rfl | ⟨-, rfl⟩ | ⟨-, l, l', hlog, -, -⟩
    · refine ⟨?_, .inl (by rw [commit, hnone]; rfl)⟩
      exact List.foldlRecOn _ Record.apply h.keyed fun _ hc r _ => Record.apply_keyed hc r
    · exact h
    · simp [hnone] at hlog
  · have hc : c.IsFinite s.embedder := by
      cases c with
      | add documents => exact hfinite _
      | delete filter => trivial
      | compact => trivial
    obtain ⟨hkept', hembedder⟩ := hkept.change hc hchange
    exact persists_of_kept hkept' (by rwa [hembedder])

end Persists

/-- The store while the place where a new log is prepared is blocked, or free again. -/
def withBlocked (s : Store) (blocked : Bool) : Store :=
  { s with log := s.log.map fun l => { l with file := { l.file with blocked } } }

lemma Persists.withBlocked (h : s.Persists) (blocked : Bool) : (s.withBlocked blocked).Persists :=
  ⟨h.keyed, h.kept.imp (fun hnone => by simp [Store.withBlocked, hnone])
    fun hkept => ⟨hkept.1.withBlocked blocked, hkept.2⟩⟩

end Store

namespace FaultyStore

/-- The store persists and keeps some chunks. -/
structure Keeps (s : FaultyStore) (chunks : List Chunk) : Prop where
  persists : s.store.Persists
  shelters : Contents.Shelters (DocumentStore.get? s) chunks

variable {s t : FaultyStore} {chunks : List Chunk} {call : ChunkedFile}

lemma Keeps.congr (hs : s.Keeps chunks) (h : t.store = s.store) : t.Keeps chunks := by
  refine ⟨h ▸ hs.persists, ?_⟩
  change Contents.Shelters (DocumentStore.get? t.store) chunks
  rw [h]
  exact hs.shelters

lemma persists_delete (hs : s.store.Persists) {filter : Metadata} {count : ℕ}
    (h : DocumentStore.delete s filter = .ok (count, t)) : t.store.Persists := by
  change FaultyStore.delete s filter = .ok (count, t) at h
  unfold FaultyStore.delete at h
  split at h
  · cases h
  · obtain ⟨⟨n, store⟩, hdelete, ht⟩ := Except.bind_eq_ok.mp h
    obtain ⟨-, rfl⟩ := Prod.mk.inj (Except.pure_eq_ok.mp ht)
    exact hs.change (c := .delete filter) (by rw [Store.change, hdelete]; rfl)

lemma persists_add (hs : s.store.Persists) {documents : List Document}
    (h : DocumentStore.add s documents = .ok t) : t.store.Persists := by
  change FaultyStore.add s documents = .ok t at h
  unfold FaultyStore.add at h
  split at h
  · cases h
  · obtain ⟨store, hadd, ht⟩ := Except.bind_eq_ok.mp h
    obtain rfl := Except.pure_eq_ok.mp ht
    exact hs.change (c := .add documents) hadd

/-- Dropping the documents of another file leaves the chunks. -/
lemma Keeps.delete (hs : s.Keeps chunks) {file : String} {count : ℕ}
    (hother : ∀ c ∈ chunks, c.file ≠ file)
    (h : DocumentStore.delete s (Index.fileFilter file) = .ok (count, t)) : t.Keeps chunks := by
  refine ⟨persists_delete hs.persists h, ?_⟩
  rcases delete_cases hs.persists.keyed file with herror | ⟨count', t', hdelete, hstored⟩
  · cases herror.symm.trans h
  · obtain ⟨-, rfl⟩ := Prod.mk.inj (Except.ok.inj (hdelete.symm.trans h))
    rw [hstored]
    exact hs.shelters.refile hother (by simp)

end FaultyStore

namespace Index

variable {x y : Index FaultyStore} {call : ChunkedFile} {chunks : List Chunk} {d : Disk}

/-- A call is refused before anything is changed, or the file has its chunks or none. -/
lemma replace_refiles (hx : x.store.store.Persists) (call : ChunkedFile) :
    (∃ e, x.replace call = (.error e, x)) ∨
    ((x.replace call).2.store.store.Persists ∧
      ∃ documents, (x.replace call).2.stored = x.stored.refile call.path documents ∧
        (Keep documents call.chunks ∨ documents = [] ∧ ∃ e, (x.replace call).1 = .error e)) := by
  unfold replace
  rcases FaultyStore.delete_cases hx.keyed call.path with hdelete | ⟨count, s, hdelete, hstored⟩
  · have hremove : x.remove call.path = .error FaultyStore.fault := by
      rw [remove, hdelete]
      rfl
    rw [hremove]
    exact .inl ⟨_, rfl⟩
  · have hremove : x.remove call.path =
        .ok { x with store := s, cache := x.cache.erase call.path } := by
      rw [remove, hdelete]
      rfl
    have hs := FaultyStore.persists_delete hx hdelete
    rw [hremove]
    dsimp only
    refine .inr ?_
    by_cases hnil : call.chunks = []
    · rw [if_pos (by simpa using hnil)]
      exact ⟨hs, [], hstored, .inl (by simp [Keep, hnil])⟩
    · rw [if_neg (by simpa using hnil)]
      cases hadd : DocumentStore.add s (call.chunks.map Chunk.document) with
      | error e => exact ⟨hs, [], hstored, .inr ⟨rfl, e, rfl⟩⟩
      | ok t =>
        obtain ⟨documents, hkeep, hput⟩ := FaultyStore.exists_put_of_add hadd
        rw [hstored, Contents.refile_nil] at hput
        exact ⟨FaultyStore.persists_add hs hadd, documents, hput, .inl hkeep⟩

lemma keeps_of_replace (hx : x.store.store.Persists) (hcall : call.IsProper)
    (h : x.replace call = (.ok (), y)) : y.store.Keeps call.chunks := by
  rcases replace_refiles hx call with ⟨e, hr⟩ | ⟨hpersists, documents, hstored, hkeep⟩
  · cases hr.symm.trans h
  · rw [h] at hpersists hstored hkeep
    have hkeep : Keep documents call.chunks := hkeep.resolve_right (by simp)
    refine ⟨hpersists, ?_⟩
    change y.stored.Shelters call.chunks
    rw [hstored]
    exact Contents.shelters_refile hcall hkeep

/-- A call about another file leaves the chunks, whether it is accepted or not. -/
lemma keeps_replace (hx : x.store.Keeps chunks) (hother : ∀ c ∈ chunks, c.file ≠ call.path)
    (hfresh : ∀ c' ∈ call.chunks, ∀ c ∈ chunks, c'.id ≠ c.id) :
    (x.replace call).2.store.Keeps chunks := by
  rcases replace_refiles hx.persists call with ⟨e, hr⟩ | ⟨hpersists, documents, hstored, hkeep⟩
  · rw [hr]
    exact hx
  · refine ⟨hpersists, ?_⟩
    change (x.replace call).2.stored.Shelters chunks
    rw [hstored]
    refine hx.shelters.refile hother fun d hd c hc => ?_
    have hkeep : Keep documents call.chunks :=
      hkeep.resolve_right fun hnone => by simp [hnone.1] at hd
    have hmem : d.toDocument ∈ call.chunks.map Chunk.document := by
      rw [← hkeep]
      exact List.mem_map_of_mem hd
    obtain ⟨c', hc', heq⟩ := List.mem_map.mp hmem
    rw [← congrArg Document.id heq]
    exact hfresh c' hc' c hc

/-- Taking in a file on opening leaves the chunks of those that are on the disk. -/
lemma keeps_openFile (hx : x.store.Keeps chunks)
    (hdisk : ∀ c ∈ chunks, d.has (pathOf x.root c.file) = true) {e : String × List String}
    (h : openFile d x e = .ok y) : y.store.Keeps chunks ∧ y.root = x.root := by
  unfold openFile at h
  split at h
  · obtain rfl := Except.ok.inj h
    exact ⟨hx, rfl⟩
  · next hgone =>
    obtain ⟨⟨count, s⟩, hdelete, hy⟩ := Except.bind_eq_ok.mp h
    obtain rfl := Except.pure_eq_ok.mp hy
    refine ⟨hx.delete (fun c hc heq => hgone ?_) hdelete, rfl⟩
    rw [← heq]
    exact hdisk c hc

lemma keeps_ofStore {s : FaultyStore} {root : Location} (hs : s.Keeps chunks)
    (hdisk : ∀ c ∈ chunks, d.has (pathOf root c.file) = true)
    (h : Index.ofStore d root s = .ok y) : y.store.Keeps chunks ∧ y.root = root := by
  refine Except.foldlM_induction (p := fun x => x.store.Keeps chunks ∧ x.root = root)
    ⟨hs, rfl⟩ ?_ h
  rintro e - x z ⟨hx, rfl⟩ he
  exact keeps_openFile hx hdisk he

/-- An index is opened on every store that drops what it is told to. -/
lemma exists_ofStore {s : FaultyStore} (hs : s.store.documents.Keyed)
    (hfails : s.failsDelete = false) (d : Disk) (root : Location) :
    ∃ y, Index.ofStore d root s = .ok y := by
  have hfold (files : List (String × List String)) (x : Index FaultyStore)
      (hx : x.store.store.documents.Keyed) (hfails : x.store.failsDelete = false) :
      ∃ y, files.foldlM (openFile d) x = .ok y := by
    induction files generalizing x with
    | nil => exact ⟨x, rfl⟩
    | cons e files ih =>
      obtain ⟨x', he, hx'⟩ := exists_openFile (d := d) hx e (.inl hfails)
      obtain ⟨y, hy⟩ := ih x' (keyed_of_leavesOut hx hx'.leavesOut) (hx'.failsDelete.trans hfails)
      exact ⟨y, by rw [List.foldlM_cons, he]; exact hy⟩
  exact hfold _ { root, store := s } hs hfails

end Index

namespace ReadableChunks

open Index

/-- What can happen to an index, its store and the directory of the store. -/
inductive Event where
  /-- A call, or a change of what the store refuses. -/
  | call (a : IndexHistory.Action)
  /-- The place where a new log is prepared is blocked from now on, or free. -/
  | block (blocked : Bool)
  /-- The index is closed, and opened again with the disk as it is by then. -/
  | reopen (embedder : Embedder) (d : Disk)

/-- Let an event happen. A store without a log is never closed. -/
def step (x : Index FaultyStore) : Event → Except StoreError (Index FaultyStore)
  | .call a => .ok (IndexHistory.step x a).2
  | .block blocked =>
      .ok { x with store := { x.store with store := x.store.store.withBlocked blocked } }
  | .reopen embedder d =>
      match x.store.store.log with
      | none => .ok x
      | some l => do
          let store ← Store.ofFile l.file embedder
          Index.ofStore d x.root { x.store with store }

namespace Event

/-- The embedder that an index is opened with makes finite vectors. -/
def IsFinite : Event → Prop
  | reopen embedder _ => embedder.IsFinite
  | _ => True

/-- The event is about files other than one, which is on the disk whenever the index is
opened. -/
def IsElsewhere (root : Location) (file : String) : Event → Prop
  | call (.replace other) => other.path ≠ file ∧ other.IsNamed
  | call (.remove other) => other ≠ file
  | reopen _ d => d.has (pathOf root file) = true
  | _ => True

instance (root : Location) (file : String) : DecidablePred (IsElsewhere root file)
  | call (.replace other) => inferInstanceAs (Decidable (other.path ≠ file ∧ other.IsNamed))
  | call (.remove other) => inferInstanceAs (Decidable (other ≠ file))
  | call (.fail _ _) => inferInstanceAs (Decidable True)
  | block _ => inferInstanceAs (Decidable True)
  | reopen _ d => inferInstanceAs (Decidable (d.has (pathOf root file) = true))

def Spares (root : Location) (chunks : List Chunk) : Event → Prop
  | call (.replace other) => (∀ c ∈ chunks, c.file ≠ other.path) ∧
      ∀ c' ∈ other.chunks, ∀ c ∈ chunks, c'.id ≠ c.id
  | call (.remove other) => ∀ c ∈ chunks, c.file ≠ other
  | reopen _ d => ∀ c ∈ chunks, d.has (pathOf root c.file) = true
  | _ => True

variable {a : Event} {root : Location} {call : ChunkedFile}

lemma IsElsewhere.spares (h : a.IsElsewhere root call.path) (hcall : call.IsNamed) :
    a.Spares root call.chunks := by
  match a with
  | .call (.replace other) =>
    exact ⟨fun c hc heq => h.1 (heq.symm.trans (hcall.named c hc)),
      fun c' hc' c hc => hcall.id_ne h.2 h.1 hc hc'⟩
  | .call (.remove other) => exact fun c hc heq => h (heq.symm.trans (hcall.named c hc))
  | .call (.fail _ _) => trivial
  | .block _ => trivial
  | .reopen _ d => exact fun c hc => (hcall.named c hc).symm ▸ h

lemma spares_nil (a : Event) (root : Location) : a.Spares root [] := by
  match a with
  | .call (.replace other) => exact ⟨by simp, by simp⟩
  | .call (.remove other) => simp [Spares]
  | .call (.fail _ _) => trivial
  | .block _ => trivial
  | .reopen _ d => simp [Spares]

end Event

variable {x y z : Index FaultyStore} {chunks : List Chunk} {root : Location}

lemma keeps_step (hx : x.store.Keeps chunks) {a : Event} (hfinite : a.IsFinite)
    (hspares : a.Spares x.root chunks) (h : step x a = .ok y) :
    y.store.Keeps chunks ∧ y.root = x.root := by
  match a with
  | .call (.replace other) =>
    obtain rfl := Except.ok.inj h
    exact ⟨keeps_replace hx hspares.1 hspares.2, IndexHistory.root_step x _⟩
  | .call (.remove other) =>
    obtain rfl := Except.ok.inj h
    refine ⟨?_, IndexHistory.root_step x _⟩
    rw [IndexHistory.step_remove]
    exact keeps_replace hx hspares (by simp)
  | .call (.fail add delete) =>
    obtain rfl := Except.ok.inj h
    exact ⟨hx.congr rfl, rfl⟩
  | .block blocked =>
    obtain rfl := Except.ok.inj h
    exact ⟨⟨hx.persists.withBlocked blocked, hx.shelters⟩, rfl⟩
  | .reopen embedder d =>
    simp only [step] at h
    split at h
    · obtain rfl := Except.ok.inj h
      exact ⟨hx, rfl⟩
    · next l hlog =>
      obtain ⟨s, hopen, hindex⟩ := Except.bind_eq_ok.mp h
      obtain ⟨hpersists, hdocuments⟩ := hx.persists.reopen hlog hopen hfinite
      refine keeps_ofStore ⟨hpersists, fun c hc => ?_⟩ hspares hindex
      obtain ⟨d, hd, hkeeps⟩ := hx.shelters c hc
      refine ⟨d, ?_, hkeeps⟩
      change s.documents.get? c.id = some d
      rw [hdocuments]
      exact hd

lemma keeps_foldlM {events : List Event} (hx : x.store.Keeps chunks) (hroot : x.root = root)
    (hfinite : ∀ a ∈ events, a.IsFinite) (hspares : ∀ a ∈ events, a.Spares root chunks)
    (h : events.foldlM step x = .ok y) : y.store.Keeps chunks ∧ y.root = root := by
  refine Except.foldlM_induction (p := fun x => x.store.Keeps chunks ∧ x.root = root)
    ⟨hx, hroot⟩ ?_ h
  rintro a ha x z ⟨hx, rfl⟩ hstep
  exact keeps_step hx (hfinite a ha) (hspares a ha) hstep

/-- An index whose store has a log can be opened again unless the place for a new log is
blocked, and has the chunks of the files that are on the disk. -/
lemma exists_reopened (hx : x.store.Keeps chunks) {l : Log} (hlog : x.store.store.log = some l)
    {e : Embedder} (he : e.IsFinite) {d : Disk}
    (hdisk : ∀ c ∈ chunks, d.has (pathOf root c.file) = true) :
    ∃ s w, Store.ofFile { bytes := l.file.bytes } e = .ok s ∧
      Index.ofStore d root (⟨s, false, false⟩ : FaultyStore) = .ok w ∧ w.store.Keeps chunks := by
  have hfreed : (x.store.store.withBlocked false).Persists := hx.persists.withBlocked false
  have hlog' : (x.store.store.withBlocked false).log =
      some ⟨{ bytes := l.file.bytes }, l.records⟩ := by
    rw [Store.withBlocked, hlog]
    rfl
  obtain ⟨l', hopen⟩ := hfreed.exists_reopen hlog' e
  obtain ⟨hpersists, -⟩ := hfreed.reopen hlog' hopen he
  set s : Store := ⟨e, x.store.store.documents, some l'⟩
  have hs : FaultyStore.Keeps ⟨s, false, false⟩ chunks := ⟨hpersists, hx.shelters⟩
  obtain ⟨w, hw⟩ := exists_ofStore (s := ⟨s, false, false⟩) hpersists.keyed rfl d root
  exact ⟨s, w, hopen, hw, (keeps_ofStore hs hdisk hw).1⟩

/-- An index is opened, and anything happens to it. Then a file is taken in, and anything
happens to other files. Each chunk of the file can be read back as it was handed in, and also
after the index was closed and opened again. -/
theorem taken_chunks_are_read_back {s : Store} (hs : s.IsOpened) {d : Disk} {root : Location}
    {x₀ x y z : Index FaultyStore} (hopen : Index.ofStore d root ⟨s, false, false⟩ = .ok x₀)
    {earlier later : List Event} {call : ChunkedFile} (hcall : call.IsProper)
    (hfits : ∀ c ∈ call.chunks, c.Fits) (hearlier : earlier.foldlM step x₀ = .ok x)
    (htaken : x.replace call = (.ok (), y)) (hlater : later.foldlM step y = .ok z)
    (hfinite : ∀ a ∈ earlier ++ later, a.IsFinite)
    (helsewhere : ∀ a ∈ later, a.IsElsewhere root call.path) :
    (∀ c ∈ call.chunks, z.chunk? c.id = .ok (some c)) ∧
    ∀ l, z.store.store.log = some l → ∀ e : Embedder, e.IsFinite →
      ∀ d : Disk, d.has (pathOf root call.path) = true →
        ∃ s w, Store.ofFile { bytes := l.file.bytes } e = .ok s ∧
          Index.ofStore d root (⟨s, false, false⟩ : FaultyStore) = .ok w ∧
          ∀ c ∈ call.chunks, w.chunk? c.id = .ok (some c) := by
  rw [List.forall_mem_append] at hfinite
  have hopened : FaultyStore.Keeps ⟨s, false, false⟩ [] :=
    ⟨hs.persists, by simp [Contents.Shelters]⟩
  obtain ⟨hx₀, hroot₀⟩ := keeps_ofStore hopened (by simp) hopen
  obtain ⟨hx, hroot⟩ :=
    keeps_foldlM hx₀ hroot₀ hfinite.1 (fun a _ => a.spares_nil root) hearlier
  have hy : y.store.Keeps call.chunks := keeps_of_replace hx.persists hcall htaken
  have hrooty : y.root = root := by
    have hstep := IndexHistory.root_step x (.replace call)
    rw [IndexHistory.step, htaken] at hstep
    exact hstep.trans hroot
  obtain ⟨hz, -⟩ := keeps_foldlM hy hrooty hfinite.2
    (fun a ha => (helsewhere a ha).spares hcall.isNamed) hlater
  refine ⟨fun c hc => chunk?_of_shelters hz.shelters hc (hfits c hc), fun l hlog e he d hd => ?_⟩
  obtain ⟨s, w, hreopen, hw, hkeeps⟩ :=
    exists_reopened hz hlog he fun c hc => (hcall.named c hc).symm ▸ hd
  exact ⟨s, w, hreopen, hw, fun c hc => chunk?_of_shelters hkeeps.shelters hc (hfits c hc)⟩

section

open StoreHistory (constant constant_isFinite)
open IndexHistory (chunkAt lastFileDisk)

def taken : ChunkedFile where
  path := "a.go"
  chunks := [chunkAt "b" 1, chunkAt "a" 1]

lemma taken_isProper : taken.IsProper := by
  decide

lemma taken_fits : ∀ c ∈ taken.chunks, c.Fits := by
  simp only [taken, List.forall_mem_cons, List.not_mem_nil, false_implies, implies_true, and_true]
  exact ⟨⟨by decide, by decide, by decide, by decide, by decide⟩,
    ⟨by decide, by decide, by decide, by decide, by decide⟩⟩

/-- The file is refused once. -/
def refused : List Event :=
  [.call (.fail true false), .call (.replace taken), .call (.fail false false)]

/-- Another file is taken in, and its removal is refused. -/
def elsewhere : List Event :=
  [.call (.replace ⟨"b.go", [{ chunkAt "c" 2 with file := "b.go" }]⟩), .call (.fail false true),
    .call (.remove "b.go"), .call (.fail false false)]

/-- The index is opened when the other file is gone from the disk. -/
def reopened : Event :=
  .reopen constant lastFileDisk

/-- The chunks of a file are read back from a log that was opened again. -/
theorem refused_and_reopened_read_back : ∃ s x₀ x y z, Store.IsOpened s ∧
    Index.ofStore {} ["work"] (⟨s, false, false⟩ : FaultyStore) = .ok x₀ ∧ taken.IsProper ∧
    (∀ c ∈ taken.chunks, c.Fits) ∧ refused.foldlM step x₀ = .ok x ∧
    x.replace taken = (.ok (), y) ∧ (elsewhere ++ [reopened]).foldlM step y = .ok z ∧
    (∀ a ∈ refused ++ (elsewhere ++ [reopened]), a.IsFinite) ∧
    (∀ a ∈ elsewhere ++ [reopened], a.IsElsewhere ["work"] "a.go") ∧
    ∀ c ∈ taken.chunks, z.chunk? c.id = .ok (some c) := by
  set s : Store := ⟨constant, .empty, some ⟨⟨.empty, false⟩, 0⟩⟩
  have hs : s.IsOpened := by
    refine .ofFile (StoreHistory.ofFile_empty constant false) ?_ constant_isFinite ?_
    · exact (StoreHistory.describes_empty false).tracks.endsWell
    · exact fun id d hd => by cases (Catalog.get?_empty id).symm.trans hd
  set x : Index FaultyStore := { root := ["work"], store := ⟨s, false, false⟩ }
  have hopen : Index.ofStore {} ["work"] (⟨s, false, false⟩ : FaultyStore) = .ok x :=
    IndexHistory.ofStore_empty rfl {} ["work"]
  have hrefused : refused.foldlM step x = .ok x := by
    rfl
  have htaken : x.replace taken = (.ok (), (x.replace taken).2) := rfl
  set y := (x.replace taken).2
  obtain ⟨y', bytes, records, helsewhere, hlog, hroot, hadd, hdelete⟩ :
      ∃ y' bytes records, elsewhere.foldlM step y = .ok y' ∧
        y'.store.store.log = some ⟨⟨bytes, false⟩, records⟩ ∧ y'.root = ["work"] ∧
        y'.store.failsAdd = false ∧ y'.store.failsDelete = false :=
    ⟨_, _, _, rfl, rfl, rfl, rfl, rfl⟩
  have hfinite : ∀ a ∈ refused ++ (elsewhere ++ [reopened]), a.IsFinite := by
    simp only [refused, elsewhere, reopened, List.cons_append, List.nil_append,
      List.forall_mem_cons]
    exact ⟨trivial, trivial, trivial, trivial, trivial, trivial, trivial, constant_isFinite,
      by simp⟩
  have haway : ∀ a ∈ elsewhere ++ [reopened], a.IsElsewhere ["work"] "a.go" := by
    decide
  have hkeeps : y'.store.Keeps [] := by
    have hy := keeps_of_replace hs.persists taken_isProper htaken
    refine (keeps_foldlM ⟨hy.persists, by simp [Contents.Shelters]⟩ rfl (fun a ha => ?_)
      (fun a _ => a.spares_nil ["work"]) helsewhere).1
    exact hfinite a (List.mem_append_right _ (List.mem_append_left _ ha))
  obtain ⟨t, z, ht, hz, -⟩ : ∃ t z, Store.ofFile { bytes } constant = .ok t ∧
      Index.ofStore lastFileDisk ["work"] (⟨t, false, false⟩ : FaultyStore) = .ok z ∧
      z.store.Keeps [] := exists_reopened hkeeps hlog constant_isFinite (by simp)
  have hlater : (elsewhere ++ [reopened]).foldlM step y = .ok z := by
    rw [List.foldlM_append, helsewhere]
    simp only [reopened, List.foldlM_cons, List.foldlM_nil, step, hlog, ht, hroot, hadd, hdelete,
      bind, Except.bind, hz]
    rfl
  exact ⟨s, x, x, y, z, hs, hopen, taken_isProper, taken_fits, hrefused, htaken, hlater, hfinite,
    haway, (taken_chunks_are_read_back hs hopen taken_isProper taken_fits hrefused htaken hlater
      hfinite haway).1⟩

/-- Nothing is stored where the log has one record that drops a document. -/
lemma ofFile_unended : Store.ofFile { bytes := Store.unended.toUTF8 } constant =
    .ok ⟨constant, .empty, some ⟨{ bytes := Store.unended.toUTF8 }, 1⟩⟩ := by
  have hreplay := Replay.ofBytes_toUTF8 Store.unended
  have hnone : (Replay.ofText Store.unended.toList).documents = .empty := by
    have hnames : (Replay.ofText Store.unended.toList).documents.names = [] := by decide +kernel
    refine Catalog.ext_get? fun name => ?_
    rw [Catalog.get?_empty, ← Option.not_isSome_iff_eq_none, ← Catalog.mem_names_iff, hnames]
    exact List.not_mem_nil
  have hrecords := Store.replay_unended.2
  rw [Store.ofFile, Log.ofFile_of_replay _ hreplay, if_neg]
  · rw [hnone, hrecords]
    rfl
  · rw [Store.replay_unended.1, Store.isLong_unended]
    decide

/-- A chunk is taken in behind a record without its newline. It is read back, and is gone when
the index is opened again. -/
theorem chunk_behind_unended_is_lost : ∃ s x y l,
    Store.ofFile { bytes := Store.unended.toUTF8 } constant = .ok s ∧ constant.IsFinite ∧
    Index.ofStore lastFileDisk ["work"] (⟨s, false, false⟩ : FaultyStore) = .ok x ∧
    ChunkedFile.IsProper ⟨"a.go", [chunkAt "a" 1]⟩ ∧ (chunkAt "a" 1).Fits ∧
    x.replace ⟨"a.go", [chunkAt "a" 1]⟩ = (.ok (), y) ∧
    y.chunk? (chunkAt "a" 1).id = .ok (some (chunkAt "a" 1)) ∧
    lastFileDisk.has (pathOf ["work"] "a.go") = true ∧ y.store.store.log = some l ∧
    ∃ t z, Store.ofFile { bytes := l.file.bytes } constant = .ok t ∧
      Index.ofStore lastFileDisk ["work"] (⟨t, false, false⟩ : FaultyStore) = .ok z ∧
      z.chunk? (chunkAt "a" 1).id = .ok none := by
  set s : Store := ⟨constant, .empty, some ⟨{ bytes := Store.unended.toUTF8 }, 1⟩⟩
  set x : Index FaultyStore := { root := ["work"], store := ⟨s, false, false⟩ }
  have hopen : Index.ofStore lastFileDisk ["work"] (⟨s, false, false⟩ : FaultyStore) = .ok x :=
    IndexHistory.ofStore_empty rfl lastFileDisk ["work"]
  have hfits : (chunkAt "a" 1).Fits := taken_fits _ (by decide)
  obtain ⟨y, hreplace, hchange, hshelters⟩ : ∃ y,
      x.replace ⟨"a.go", [chunkAt "a" 1]⟩ = (.ok (), y) ∧
      s.change (.add [(chunkAt "a" 1).document]) = .ok y.store.store ∧
      y.stored.Shelters [chunkAt "a" 1] :=
    ⟨_, rfl, rfl, by simpa [Contents.Shelters] using ⟨_, rfl, rfl⟩⟩
  have hshort : ∀ l, s.log = some l →
      (l.append (s.written (.add [(chunkAt "a" 1).document]))).isLong y.store.store.documents.size =
        false := by
    rintro l ⟨⟩
    rfl
  have hc : Store.Change.IsFinite s.embedder (.add [(chunkAt "a" 1).document]) :=
    constant_isFinite _
  obtain ⟨text, l, htext, hlog, hlost⟩ := Store.change_joined ofFile_unended
    Store.not_endsWell_unended hc hchange rfl hshort
  obtain rfl : text = Store.unended :=
    Option.some.inj (htext.symm.trans (Text.fromUTF8?_toUTF8 Store.unended))
  obtain ⟨t, ht, hdocuments⟩ := hlost constant
  have hempty : t.documents = .empty := by
    have hfinished : Text.finished Store.unended.toList = [] := by decide +kernel
    rw [hdocuments, hfinished]
    rfl
  refine ⟨s, x, y, l, ofFile_unended, constant_isFinite, hopen, by decide, hfits, hreplace,
    chunk?_of_shelters hshelters (List.mem_singleton_self _) hfits, by decide, hlog, t, _, ht,
    IndexHistory.ofStore_empty hempty lastFileDisk ["work"], ?_⟩
  have hnone : DocumentStore.get? (⟨t, false, false⟩ : FaultyStore) (chunkAt "a" 1).id = none := by
    change t.documents.get? _ = none
    rw [hempty]
    rfl
  rw [Index.chunk?, hnone]

end

end ReadableChunks

end CodeSearch
