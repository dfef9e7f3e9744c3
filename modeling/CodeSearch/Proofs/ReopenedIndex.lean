import CodeSearch.Embedding.Table
import CodeSearch.Proofs.IndexHistory

/-!
# Reopening an index

An index is opened again on its store, while some of its files are gone from the disk and
documents of other origin stand between those of the index. Their identifiers have no
separator, so they are in no file's list. What was remembered of a file that is still there is
read back from its documents, in the order of their identifiers; of a file that is gone, no
document stays.
-/
namespace CodeSearch

namespace ChunkId

/-- The file that an identifier begins with. -/
def file? (id : String) : Option String :=
  (split? id).map (·.1)

end ChunkId

namespace Contents

/-- A map without the documents whose metadata name certain files. -/
def LeavesOut (m : Contents) (gone : Set String) (m' : Contents) : Prop :=
  ∀ id d, m' id = some d ↔ m id = some d ∧ ∀ file ∈ gone, d.metadata.get? "file" ≠ some file

namespace LeavesOut

variable {m m' m'' : Contents} {gone gone' : Set String}

lemma refl (m : Contents) : m.LeavesOut ∅ m := by
  simp [LeavesOut]

lemma refile_nil (m : Contents) (file : String) : m.LeavesOut {file} (m.refile file []) := by
  intro id d
  simp [Contents.refile_nil, drop, Option.filter_eq_some_iff, Document.matches_fileFilter]

lemma trans (h : m.LeavesOut gone m') (h' : m'.LeavesOut gone' m'') :
    m.LeavesOut (gone ∪ gone') m'' := by
  intro id d
  rw [h', h]
  simp only [Set.mem_union, or_imp, forall_and, and_assoc]

lemma get? (h : m.LeavesOut gone m') {id : String} {d : StoredDocument} (hd : m' id = some d) :
    m id = some d :=
  ((h id d).mp hd).1

lemma eq_of_file (h : m.LeavesOut gone m') {file id : String} (hfile : file ∉ gone)
    (hid : ∀ d, m id = some d → d.metadata.get? "file" = some file) : m' id = m id := by
  refine Option.ext fun d => ?_
  rw [h, and_iff_left_iff_imp]
  intro hd other hother hname
  obtain rfl := Option.some.inj ((hid d hd).symm.trans hname)
  exact hfile hother

end LeavesOut

end Contents

namespace FaultyStore

variable {s : FaultyStore}

/-- Documents that are put straight into the store. -/
def withPut (s : FaultyStore) (documents : List StoredDocument) : FaultyStore :=
  { s with store := s.store.commit (documents.map .put) }

lemma get?_withPut (s : FaultyStore) (documents : List StoredDocument) :
    DocumentStore.get? (s.withPut documents) = Contents.put (DocumentStore.get? s) documents :=
  funext (Record.foldl_put_holds (fun _ => rfl) documents)

lemma keyed_withPut {s : FaultyStore} (hs : s.store.documents.Keyed)
    (documents : List StoredDocument) : (s.withPut documents).store.documents.Keyed := by
  intro id d hd
  have hput : Contents.put (DocumentStore.get? s) documents id = some d :=
    s.get?_withPut documents ▸ hd
  rcases Option.or_eq_some_iff.mp hput with hnew | ⟨-, hold⟩
  · simpa using List.find?_some hnew
  · exact hs id d hold

end FaultyStore

namespace Index

/-- The identifiers that begin with a file. -/
def idsOf (ids : List String) (file : String) : List String :=
  ids.filter fun id => ChunkId.file? id == some file

lemma get?_byFile (ids : List String) (file : String) :
    (byFile ids).get? file = if idsOf ids file = [] then none else some (idsOf ids file) := by
  induction ids using List.reverseRecOn with
  | nil => rfl
  | append_singleton ids id ih =>
    rw [byFile, List.foldl_append, List.foldl_cons, List.foldl_nil, ← byFile]
    cases hsplit : ChunkId.split? id with
    | none =>
      have hids : idsOf (ids ++ [id]) file = idsOf ids file := by
        simp [idsOf, ChunkId.file?, hsplit]
      rw [hids, ih]
    | some parts =>
      obtain ⟨front, back⟩ := parts
      dsimp only
      rw [Catalog.get?_insert]
      by_cases hfile : file = front
      · subst hfile
        have hids : idsOf (ids ++ [id]) file = idsOf ids file ++ [id] := by
          simp [idsOf, ChunkId.file?, hsplit]
        have hne : idsOf ids file ++ [id] ≠ [] := by simp
        rw [hids, ih, if_pos rfl, if_neg hne]
        by_cases hnone : idsOf ids file = [] <;> simp [hnone]
      · have hids : idsOf (ids ++ [id]) file = idsOf ids file := by
          simp [idsOf, ChunkId.file?, hsplit, Ne.symm hfile]
        rw [hids, ih, if_neg hfile]

lemma remembered_congr {s t : FaultyStore} {ids : List String}
    (h : ∀ id ∈ ids, DocumentStore.get? t id = DocumentStore.get? s id) :
    remembered t ids = remembered s ids :=
  List.filterMap_congr fun id hid => by rw [h id hid]

def gone (d : Disk) (root : Location) (files : List String) : Set String :=
  {file | file ∈ files ∧ d.has (pathOf root file) = false}

/-- The outcome of taking in files of a store with their identifiers: those that are gone lose
their documents, the others are remembered. -/
structure TakesIn (d : Disk) (x : Index FaultyStore) (files : List (String × List String))
    (z : Index FaultyStore) : Prop where
  root : z.root = x.root
  failsDelete : z.store.failsDelete = x.store.failsDelete
  leavesOut : x.stored.LeavesOut (gone d x.root (files.map (·.1))) z.stored
  taken : ∀ e ∈ files, d.has (pathOf x.root e.1) = true →
    z.cache.get? e.1 = some (remembered x.store e.2)
  others : ∀ file, file ∉ files.map (·.1) ∨ d.has (pathOf x.root file) = false →
    z.cache.get? file = x.cache.get? file

/-- Identifiers that stand under the file that their documents name. -/
def Lists (x : Index FaultyStore) (files : List (String × List String)) : Prop :=
  ∀ e ∈ files, ∀ id ∈ e.2, ∀ doc, x.stored id = some doc → doc.metadata.get? "file" = some e.1

variable {d : Disk} {x y z : Index FaultyStore} {files : List (String × List String)}

/-- A file is taken in if it is there, or if the store drops what it is told to. -/
lemma exists_openFile (hx : x.store.store.documents.Keyed) (e : String × List String)
    (hdrops : x.store.failsDelete = false ∨ d.has (pathOf x.root e.1) = true) :
    ∃ y, openFile d x e = .ok y ∧ x.TakesIn d [e] y := by
  cases hhas : d.has (pathOf x.root e.1) with
  | true =>
    refine ⟨_, if_pos hhas, rfl, rfl, ?_, ?_, ?_⟩
    · have hgone : gone d x.root [e.1] = ∅ := by
        ext file
        simp only [gone, List.mem_singleton, Set.mem_ofPred_eq, Set.mem_empty_iff_false, iff_false]
        rintro ⟨rfl, hmissing⟩
        exact absurd (hhas.symm.trans hmissing) (by simp)
      rw [List.map_singleton, hgone]
      exact .refl x.stored
    · simp
    · intro file hfile
      rw [Catalog.get?_insert, if_neg]
      rintro rfl
      simp [hhas] at hfile
  | false =>
    have hfails : x.store.failsDelete = false := by simpa [hhas] using hdrops
    obtain ⟨count, s, hdelete, hstored, hfails'⟩ := FaultyStore.exists_delete hx hfails e.1
    refine ⟨{ x with store := s }, ?_, rfl, hfails'.trans hfails.symm, ?_, ?_, fun _ _ => rfl⟩
    · rw [openFile, if_neg (by simp [hhas]), hdelete]
      rfl
    · have hgone : gone d x.root [e.1] = {e.1} := by
        ext file
        simp only [gone, List.mem_singleton, Set.mem_ofPred_eq, Set.mem_singleton_iff,
          and_iff_left_iff_imp]
        rintro rfl
        exact hhas
      have hleft : x.stored.LeavesOut {e.1} (DocumentStore.get? s) := by
        rw [hstored]
        exact .refile_nil x.stored e.1
      rw [List.map_singleton, hgone]
      exact hleft
    · simp [hhas]

lemma keyed_of_leavesOut {files : Set String} (hx : x.store.store.documents.Keyed)
    (h : x.stored.LeavesOut files y.stored) : y.store.store.documents.Keyed :=
  fun id doc hdoc => hx id doc (h.get? hdoc)

/-- Files are taken in one after the other; none is listed twice. -/
lemma TakesIn.cons {e : String × List String} (hone : x.TakesIn d [e] y)
    (hrest : y.TakesIn d files z) (hlists : x.Lists files)
    (hfresh : e.1 ∉ files.map (·.1)) : x.TakesIn d (e :: files) z where
  root := hrest.root.trans hone.root
  failsDelete := hrest.failsDelete.trans hone.failsDelete
  leavesOut := by
    have hgone : gone d x.root (e.1 :: files.map (·.1)) =
        gone d x.root [e.1] ∪ gone d x.root (files.map (·.1)) := by
      ext file
      simp only [gone, List.mem_cons, List.not_mem_nil, or_false, Set.mem_union,
        Set.mem_ofPred_eq, or_and_right]
    rw [List.map_cons, hgone]
    exact hone.leavesOut.trans (hone.root ▸ hrest.leavesOut)
  taken := by
    intro e' he' hhas
    rcases List.mem_cons.mp he' with rfl | hmem
    · rw [hrest.others e'.1 (.inl hfresh)]
      exact hone.taken e' (List.mem_singleton_self e') hhas
    · rw [hrest.taken e' hmem (hone.root ▸ hhas)]
      have hne : e'.1 ∉ gone d x.root [e.1] := by
        rintro ⟨heq, -⟩
        exact hfresh (List.mem_singleton.mp heq ▸ List.mem_map_of_mem hmem)
      exact congrArg some (remembered_congr fun id hid =>
        hone.leavesOut.eq_of_file hne (hlists e' hmem id hid))
  others := by
    intro file hfile
    rw [List.map_cons, List.mem_cons, not_or] at hfile
    rw [hrest.others file (hone.root ▸ hfile.imp_left And.right)]
    exact hone.others file (hfile.imp_left fun h => by simpa using h.1)

/-- All files are taken in if the store drops what it is told to, or if nothing is gone. -/
lemma foldlM_openFile (hx : x.store.store.documents.Keyed)
    (hdrops : x.store.failsDelete = false ∨ ∀ e ∈ files, d.has (pathOf x.root e.1) = true)
    (hlists : x.Lists files) (hnodup : (files.map (·.1)).Nodup) :
    ∃ z, files.foldlM (openFile d) x = .ok z ∧ x.TakesIn d files z := by
  induction files generalizing x with
  | nil =>
    have hgone : gone d x.root [] = ∅ := by
      ext file
      simp [gone]
    refine ⟨x, rfl, rfl, rfl, ?_, by simp, fun _ _ => rfl⟩
    rw [List.map_nil, hgone]
    exact .refl x.stored
  | cons e files ih =>
    rw [List.map_cons, List.nodup_cons] at hnodup
    have hlists' : x.Lists files := fun e' he' => hlists e' (List.mem_cons_of_mem _ he')
    obtain ⟨y, hy, hone⟩ := exists_openFile hx e
      (hdrops.imp_right fun h => h e List.mem_cons_self)
    have hyLists : y.Lists files := fun e' he' id hid doc hdoc =>
      hlists' e' he' id hid doc (hone.leavesOut.get? hdoc)
    obtain ⟨z, hz, hrest⟩ := ih (keyed_of_leavesOut hx hone.leavesOut)
      (hdrops.imp hone.failsDelete.trans fun h e' he' =>
        hone.root ▸ h e' (List.mem_cons_of_mem _ he')) hyLists hnodup.2
    refine ⟨z, ?_, hone.cons hrest hlists' hnodup.1⟩
    rw [List.foldlM_cons, hy]
    exact hz

/-- A store that refuses to drop anything is not opened if a file is gone. -/
lemma foldlM_openFile_eq_error (hfails : x.store.failsDelete = true)
    (hgone : ∃ e ∈ files, d.has (pathOf x.root e.1) = false) :
    files.foldlM (openFile d) x = .error FaultyStore.fault := by
  induction files generalizing x with
  | nil => simp at hgone
  | cons e files ih =>
    rw [List.foldlM_cons]
    cases hhas : d.has (pathOf x.root e.1) with
    | false =>
      have hdelete : DocumentStore.delete x.store (fileFilter e.1) = .error FaultyStore.fault :=
        if_pos hfails
      rw [openFile, if_neg (by simp [hhas]), hdelete]
      rfl
    | true =>
      rw [openFile, if_pos hhas]
      refine ih hfails ?_
      obtain ⟨e', he', hmissing⟩ := hgone
      rcases List.mem_cons.mp he' with rfl | hmem
      · exact absurd (hhas.symm.trans hmissing) (by simp)
      · exact ⟨e', hmem, hmissing⟩

/-- An index that is opened on the documents of another one, some of whose files are gone: of
the files that are there it remembers the same, and the documents of the others are dropped. -/
structure Restores (d : Disk) (y : Index FaultyStore) (documents : Contents)
    (z : Index FaultyStore) : Prop where
  root : z.root = y.root
  mem_files_iff : ∀ file, file ∈ z.files ↔ file ∈ y.files ∧ d.has (pathOf y.root file) = true
  cached : ∀ file, d.has (pathOf y.root file) = true → (z.cached file).Perm (y.cached file)
  isStale : ∀ file, d.has (pathOf y.root file) = true →
    ∀ d' : Disk, z.isStale d' file = y.isStale d' file
  gone : ∀ file ∈ y.files, d.has (pathOf y.root file) = false → z.cached file = [] ∧
    ∀ id doc, z.stored id = some doc →
      ChunkId.file? id ≠ some file ∧ doc.metadata.get? "file" ≠ some file
  stored_iff : ∀ id doc, z.stored id = some doc ↔ documents id = some doc ∧
    ∀ file ∈ y.files, d.has (pathOf y.root file) = false → doc.metadata.get? "file" ≠ some file

/-- Documents of an index, and others whose identifiers begin with no file. -/
structure Mixed (y : Index FaultyStore) (s : FaultyStore) : Prop where
  keyed : s.store.documents.Keyed
  own : ∀ id, (ChunkId.file? id).isSome = true → DocumentStore.get? s id = y.stored id

lemma mixed_withPut (hy : y.stored.Filed) {strays : List StoredDocument}
    (hstrays : ∀ d ∈ strays, ChunkId.split? d.id = none) :
    y.Mixed (y.store.withPut strays) := by
  refine ⟨FaultyStore.keyed_withPut (fun id doc hdoc => (hy id doc hdoc).1) strays,
    fun id hid => ?_⟩
  have hnone : (strays.reverse.find? fun d => d.id == id) = none := by
    refine List.find?_eq_none.mpr fun d hd heq => ?_
    rw [← beq_iff_eq.mp heq, ChunkId.file?, hstrays d (List.mem_reverse.mp hd)] at hid
    cases hid
  rw [FaultyStore.get?_withPut, Contents.put, hnone, Option.none_or]
  rfl

variable {s : FaultyStore} {ledger : Ledger} {file : String} {documents : List StoredDocument}

lemma mem_idsOf_iff {id : String} : id ∈ idsOf (DocumentStore.ids s) file ↔
    ChunkId.file? id = some file ∧ ∃ doc, DocumentStore.get? s id = some doc := by
  have hids : id ∈ DocumentStore.ids s ↔ (DocumentStore.get? s id).isSome = true :=
    s.store.documents.mem_names_iff id
  rw [idsOf, List.mem_filter, hids, beq_iff_eq, and_comm, Option.isSome_iff_exists]

/-- The identifiers that begin with a file are those of its documents. -/
lemma Mixed.metadata (hs : y.Mixed s) (hy : y.stored.Filed) {id : String}
    {doc : StoredDocument} (hid : ChunkId.file? id = some file)
    (hdoc : DocumentStore.get? s id = some doc) :
    y.stored id = some doc ∧ doc.metadata.get? "file" = some file := by
  rw [hs.own id (by simp [hid])] at hdoc
  obtain ⟨hkey, file', ⟨path, hsplit⟩, hmetadata⟩ := hy id doc hdoc
  rw [hkey] at hsplit
  rw [ChunkId.file?, hsplit] at hid
  obtain rfl := Option.some.inj hid
  exact ⟨hdoc, hmetadata⟩

/-- The documents under the identifiers that begin with a file are those of the file, in another
order. -/
lemma Mixed.perm (hs : y.Mixed s) (hy : y.stored.Filed) (hshows : y.Shows file documents) :
    ((idsOf (DocumentStore.ids s) file).filterMap (DocumentStore.get? s)).Perm documents := by
  have hids : (idsOf (DocumentStore.ids s) file).Nodup :=
    s.store.documents.nodup_names.sublist List.filter_sublist
  have hnodup : ((idsOf (DocumentStore.ids s) file).filterMap (DocumentStore.get? s)).Nodup := by
    refine hids.filterMap fun id id' doc hdoc hdoc' => ?_
    exact (hs.keyed id doc hdoc).symm.trans (hs.keyed id' doc hdoc')
  rw [List.perm_ext_iff_of_nodup hnodup hshows.nodup.of_map]
  intro doc
  rw [List.mem_filterMap, hshows.mem_iff]
  constructor
  · rintro ⟨id, hid, hdoc⟩
    exact ⟨id, hs.metadata hy (mem_idsOf_iff.mp hid).1 hdoc⟩
  · rintro ⟨id, hdoc, hmetadata⟩
    obtain ⟨hkey, file', ⟨path, hsplit⟩, hmetadata'⟩ := hy id doc hdoc
    obtain rfl := Option.some.inj (hmetadata.symm.trans hmetadata')
    have hfile : ChunkId.file? id = some file := by rw [← hkey, ChunkId.file?, hsplit]; rfl
    have hown : DocumentStore.get? s id = some doc := by
      rw [hs.own id (by simp [hfile])]
      exact hdoc
    exact ⟨id, mem_idsOf_iff.mpr ⟨hfile, doc, hown⟩, hown⟩

/-- What is read back of a file is what was remembered of it, in another order. -/
lemma Mixed.perm_cached (hs : y.Mixed s) (hy : y.stored.Filed) (hshows : y.Shows file documents) :
    (remembered s (idsOf (DocumentStore.ids s) file)).Perm (y.cached file) := by
  have hread : documents.filterMap (fun d => d.cached.toOption) = y.cached file := by
    calc documents.filterMap (fun d => d.cached.toOption)
      _ = (documents.map StoredDocument.cached).filterMap Except.toOption := by
        rw [List.filterMap_map]
        rfl
      _ = (y.cached file).filterMap some := by rw [hshows.cached, List.filterMap_map]; rfl
      _ = y.cached file := List.filterMap_some
  have hremembered : remembered s (idsOf (DocumentStore.ids s) file) =
      ((idsOf (DocumentStore.ids s) file).filterMap (DocumentStore.get? s)).filterMap
        fun d => d.cached.toOption := by
    rw [List.filterMap_filterMap]
    rfl
  rw [hremembered, ← hread]
  exact (hs.perm hy hshows).filterMap _

/-- A file is listed with some identifiers if the index knows it. -/
lemma Mixed.idsOf_ne_nil_iff (hs : y.Mixed s) (hy : y.stored.Filed)
    (hshows : y.Shows file documents) :
    idsOf (DocumentStore.ids s) file ≠ [] ↔ file ∈ y.files := by
  have hperm := hs.perm hy hshows
  rw [hshows.mem_files_iff]
  refine not_congr ⟨fun hnone => ?_, fun hnone => ?_⟩
  · rw [hnone] at hperm
    exact hperm.nil_eq.symm
  · rw [hnone] at hperm
    have hmissing := List.filterMap_eq_nil_iff.mp hperm.eq_nil
    refine List.eq_nil_iff_forall_not_mem.mpr fun id hid => ?_
    obtain ⟨-, doc, hdoc⟩ := mem_idsOf_iff.mp hid
    exact absurd ((hmissing id hid).symm.trans hdoc) (by simp)

/-- Entries in another order are stale at the same times. -/
lemma isStale_congr (hroot : z.root = y.root) (hcached : (z.cached file).Perm (y.cached file))
    (d : Disk) : z.isStale d file = y.isStale d file := by
  have htimes := hcached.map (·.parsedAt)
  have hmax :
      ((z.cached file).map (·.parsedAt)).max? = ((y.cached file).map (·.parsedAt)).max? := by
    ext time
    simp only [List.max?_eq_some_iff, htimes.mem_iff]
  unfold cached at hmax
  rw [isStale, isStale, hroot, hmax]

lemma Mixed.mem_names_iff (hs : y.Mixed s) (hy : y.Agrees ledger) (file : String) :
    file ∈ (byFile (DocumentStore.ids s)).entries.map (·.1) ↔ file ∈ y.files := by
  obtain ⟨documents, -, hshows⟩ := hy.shows file
  rw [← Catalog.names, Catalog.mem_names_iff, get?_byFile,
    ← hs.idsOf_ne_nil_iff hy.filed hshows]
  by_cases hnone : idsOf (DocumentStore.ids s) file = [] <;> simp [hnone]

/-- What is taken in of a store that holds the documents of an index is what the index had. -/
lemma Mixed.restores (hs : y.Mixed s) (hy : y.Agrees ledger)
    (hin : ({ root := y.root, store := s } : Index FaultyStore).TakesIn d
      (byFile (DocumentStore.ids s)).entries z) : Restores d y (DocumentStore.get? s) z := by
  have hids (file : String) : idsOf (DocumentStore.ids s) file ≠ [] ↔ file ∈ y.files := by
    obtain ⟨documents, -, hshows⟩ := hy.shows file
    exact hs.idsOf_ne_nil_iff hy.filed hshows
  have hcache (file : String) : z.cache.get? file =
      if file ∈ y.files ∧ d.has (pathOf y.root file) = true
      then some (remembered s (idsOf (DocumentStore.ids s) file)) else none := by
    split
    · next h =>
      have hentry : (file, idsOf (DocumentStore.ids s) file) ∈
          (byFile (DocumentStore.ids s)).entries := by
        rw [Catalog.mem_entries_iff, get?_byFile, if_neg ((hids file).mpr h.1)]
      exact hin.taken _ hentry h.2
    · next h =>
      rw [hin.others file]
      · rfl
      · rw [hs.mem_names_iff hy]
        simpa [or_iff_not_imp_left] using h
  have hleft : Contents.LeavesOut (DocumentStore.get? s)
      {file | file ∈ y.files ∧ d.has (pathOf y.root file) = false} z.stored := by
    have hgone := hin.leavesOut
    simp only [Index.gone, hs.mem_names_iff hy] at hgone
    exact hgone
  have hperm (file : String) (hhas : d.has (pathOf y.root file) = true) :
      (z.cached file).Perm (y.cached file) := by
    obtain ⟨documents, -, hshows⟩ := hy.shows file
    have hread := hs.perm_cached hy.filed hshows
    by_cases hfile : file ∈ y.files
    · rwa [cached, hcache, if_pos ⟨hfile, hhas⟩, Option.getD_some]
    · have hnone : idsOf (DocumentStore.ids s) file = [] := by
        rwa [← hids, not_not] at hfile
      rw [hnone] at hread
      rwa [cached, hcache, if_neg fun h => hfile h.1, Option.getD_none]
  have hstored (id : String) (doc : StoredDocument) : z.stored id = some doc ↔
      DocumentStore.get? s id = some doc ∧ ∀ file ∈ y.files,
        d.has (pathOf y.root file) = false → doc.metadata.get? "file" ≠ some file := by
    rw [hleft]
    simp only [Set.mem_ofPred_eq, and_imp]
  refine ⟨hin.root, fun file => ?_, hperm, fun file hhas => ?_, fun file hfile hmissing => ?_,
    hstored⟩
  · rw [files, Catalog.mem_names_iff, hcache]
    by_cases h : file ∈ y.files ∧ d.has (pathOf y.root file) = true <;> simp [h]
  · exact isStale_congr hin.root (hperm file hhas)
  · refine ⟨?_, fun id doc hdoc => ?_⟩
    · rw [cached, hcache, if_neg fun h => by simp [hmissing] at h, Option.getD_none]
    · obtain ⟨hown, hgone⟩ := (hstored id doc).mp hdoc
      have hmetadata := hgone file hfile hmissing
      exact ⟨fun hid => hmetadata (hs.metadata hy.filed hid hown).2, hmetadata⟩

/-- Files are put under the identifiers that begin with them. -/
lemma Mixed.lists (hs : y.Mixed s) (hy : y.stored.Filed) :
    ({ root := y.root, store := s } : Index FaultyStore).Lists
      (byFile (DocumentStore.ids s)).entries := by
  intro e he id hid doc hdoc
  have hentry := (Catalog.mem_entries_iff _ e.1 e.2).mp he
  rw [get?_byFile] at hentry
  split at hentry
  · cases hentry
  · obtain hids := Option.some.inj hentry
    rw [← hids] at hid
    exact (hs.metadata hy (mem_idsOf_iff.mp hid).1 hdoc).2

end Index

namespace IndexHistory

open Index

lemma root_remove {x y : Index FaultyStore} {file : String} (h : x.remove file = .ok y) :
    y.root = x.root := by
  obtain ⟨_, -, hy⟩ := Except.bind_eq_ok.mp h
  rw [← Except.pure_eq_ok.mp hy]

lemma root_step (x : Index FaultyStore) (a : Action) : (step x a).2.root = x.root := by
  have hreplace (call : ChunkedFile) : (x.replace call).2.root = x.root := by
    unfold replace
    split
    · rfl
    · next y hremove =>
      have hy := root_remove hremove
      split
      · exact hy
      · split <;> exact hy
  cases a with
  | replace call => exact hreplace call
  | remove file =>
    rw [step_remove]
    exact hreplace _
  | fail add delete => rfl

lemma root_run (x : Index FaultyStore) (actions : List Action) :
    (run x actions).1.root = x.root := by
  have hfold (w : Index FaultyStore × Ledger) :
      (actions.foldl (fun w a => ((step w.1 a).2, record w.1 w.2 a)) w).1.root = w.1.root := by
    induction actions generalizing w with
    | nil => rfl
    | cons a actions ih => exact (ih _).trans (root_step w.1 a)
  exact hfold _

/-- An index is opened on an empty store, and files are taken in and forgotten. When it is opened
again, with documents of other origin in the store and any files gone from the disk, it is as it
was before for every file that is still there. Only if a file is gone and the store refuses to
drop its documents, it is not opened. -/
theorem reopened_index_restores_cache {store : FaultyStore}
    (hempty : store.store.documents = .empty) (d₀ : Disk) (root : Location) :
    ∃ x, Index.ofStore d₀ root store = .ok x ∧
      ∀ actions : List Action, (∀ a ∈ actions, a.IsProper) →
      ∀ strays : List StoredDocument, (∀ d ∈ strays, ChunkId.split? d.id = none) →
      ∀ d : Disk,
        let y := (run x actions).1
        let s := y.store.withPut strays
        (s.failsDelete = false ∨ (∀ file ∈ y.files, d.has (pathOf root file) = true) →
          ∃ z, Index.ofStore d root s = .ok z ∧ Restores d y (DocumentStore.get? s) z) ∧
        (s.failsDelete = true ∧ (∃ file ∈ y.files, d.has (pathOf root file) = false) →
          Index.ofStore d root s = .error FaultyStore.fault) := by
  refine ⟨_, ofStore_empty hempty d₀ root, fun actions hactions strays hstrays d => ?_⟩
  intro y s
  have hy : y.Agrees (run { root, store } actions).2 :=
    agrees_foldl (w := (_, _)) (agrees_empty hempty root) hactions
  have hroot : y.root = root := root_run _ actions
  have hs : y.Mixed s := mixed_withPut hy.filed hstrays
  have hlists := hs.lists hy.filed
  rw [hroot] at hlists
  constructor
  · intro hdrops
    have hdrops' : s.failsDelete = false ∨ ∀ e ∈ (byFile (DocumentStore.ids s)).entries,
        d.has (pathOf root e.1) = true :=
      hdrops.imp_right fun h e he => h e.1 ((hs.mem_names_iff hy e.1).mp (List.mem_map_of_mem he))
    obtain ⟨z, hz, hin⟩ := foldlM_openFile (x := { root, store := s }) hs.keyed hdrops' hlists
      (Catalog.nodup_names _)
    exact ⟨z, hz, hs.restores hy (hroot.symm ▸ hin)⟩
  · rintro ⟨hfails, file, hfile, hmissing⟩
    obtain ⟨e, he, rfl⟩ := List.mem_map.mp ((hs.mem_names_iff hy file).mpr hfile)
    exact foldlM_openFile_eq_error (x := { root, store := s }) hfails ⟨e, he, hmissing⟩

/-- An index on an empty store that takes every text for the same. -/
def freshIndex : Index FaultyStore where
  root := ["work"]
  store := ⟨.inMemory (.ofTable .empty 1), false, false⟩

def lastFileDisk : Disk where
  entries := [(["work"], .directory), (["work", "a.go"], .file "x".toUTF8 1)]

def takenFiles : List Action :=
  [.replace ⟨"a.go", [chunkAt "b" 1, chunkAt "a" 1]⟩,
    .replace ⟨"b.go", [{ chunkAt "c" 2 with file := "b.go" }]⟩]

def stray (metadata : Metadata) : StoredDocument where
  id := "note"
  content := "note"
  metadata
  embedding := [.zero]

lemma isProper_of_mem_takenFiles : ∀ a ∈ takenFiles, a.IsProper := by
  decide

/-- One of two files is gone; the other one and a stray document are kept. -/
theorem reopened_without_b :
    freshIndex.store.store.documents = .empty ∧ (∀ a ∈ takenFiles, a.IsProper) ∧
    (∀ d ∈ [stray .empty], ChunkId.split? d.id = none) ∧
    let y := (run freshIndex takenFiles).1
    let s := y.store.withPut [stray .empty]
    y.files = ["a.go", "b.go"] ∧
    (y.files.filter fun file => lastFileDisk.has (pathOf ["work"] file)) = ["a.go"] ∧
    ∃ z, Index.ofStore lastFileDisk ["work"] s = .ok z ∧
      Restores lastFileDisk y (DocumentStore.get? s) z := by
  have hempty : freshIndex.store.store.documents = .empty := rfl
  have hstrays : ∀ d ∈ [stray .empty], ChunkId.split? d.id = none := by
    simp only [List.mem_singleton, forall_eq]
    decide
  obtain ⟨x, hopen, hrun⟩ := reopened_index_restores_cache hempty {} ["work"]
  obtain rfl : freshIndex = x := Except.ok.inj ((ofStore_empty hempty {} ["work"]).symm.trans hopen)
  have hproper := isProper_of_mem_takenFiles
  refine ⟨hempty, hproper, hstrays, by decide +kernel, by decide +kernel, ?_⟩
  exact (hrun takenFiles hproper [stray .empty] hstrays lastFileDisk).1 (.inl rfl)

/-- What is not kept: two chunks of one path, of which the store has only the last, a chunk that
goes under the name of another file, and a stray document that names a file that is gone. -/
theorem shared_names_are_lost :
    (let y := (run freshIndex [.replace ⟨"a.go", [chunkAt "x" 1, chunkAt "x" 2]⟩]).1
      ∃ z, Index.ofStore lastFileDisk ["work"] y.store = .ok z ∧
        lastFileDisk.has (pathOf ["work"] "a.go") = true ∧
        ¬ (z.cached "a.go").Perm (y.cached "a.go")) ∧
    (let y := (run freshIndex
        [.replace ⟨"a.go", [{ chunkAt "x" 1 with file := "b.go" }]⟩]).1
      ∃ z, Index.ofStore lastFileDisk ["work"] y.store = .ok z ∧
        lastFileDisk.has (pathOf ["work"] "a.go") = true ∧
        ¬ (z.cached "a.go").Perm (y.cached "a.go")) ∧
    (let y := (run freshIndex takenFiles).1
      let s := y.store.withPut [stray (fileFilter "b.go")]
      ∃ z, Index.ofStore lastFileDisk ["work"] s = .ok z ∧
        (DocumentStore.get? s "note").isSome = true ∧ ChunkId.split? "note" = none ∧
        z.stored "note" = none) := by
  refine ⟨?_, ?_, ?_⟩
  · have hread : (Index.ofStore lastFileDisk ["work"] (run freshIndex
        [.replace ⟨"a.go", [chunkAt "x" 1, chunkAt "x" 2]⟩]).1.store).map (·.cached "a.go") =
          .ok [⟨.src, "x", 2⟩] := by decide +kernel
    obtain ⟨z, hz, hcached⟩ := Except.map_eq_ok.mp hread
    refine ⟨z, hz, by decide, fun hperm => ?_⟩
    rw [hcached] at hperm
    exact absurd hperm.length_eq (by decide +kernel)
  · have hread : (Index.ofStore lastFileDisk ["work"] (run freshIndex
        [.replace ⟨"a.go", [{ chunkAt "x" 1 with file := "b.go" }]⟩]).1.store).map
          (·.cached "a.go") = .ok [] := by decide +kernel
    obtain ⟨z, hz, hcached⟩ := Except.map_eq_ok.mp hread
    refine ⟨z, hz, by decide, fun hperm => ?_⟩
    rw [hcached] at hperm
    exact absurd hperm.length_eq (by decide +kernel)
  · have hread : (Index.ofStore lastFileDisk ["work"] ((run freshIndex takenFiles).1.store.withPut
        [stray (fileFilter "b.go")])).map (fun z => (z.stored "note").isNone) = .ok true := by
      decide +kernel
    obtain ⟨z, hz, hnone⟩ := Except.map_eq_ok.mp hread
    exact ⟨z, hz, by decide +kernel, by decide, by simpa using hnone⟩

end IndexHistory

end CodeSearch
