import CodeSearch.Proofs.ReopenedIndex

/-!
# Opening an index on any store

A store may hold documents that no index has put there. Opening lists the files by the
identifiers of the documents, drops the documents of a file that is gone by what their metadata
name, and remembers those that it can read. So it does what it should exactly as far as
identifier and metadata of the documents agree.
-/
namespace CodeSearch

namespace Contents

/-- The documents whose metadata name none of some files. -/
def without (m : Contents) (files : List String) : Contents := fun id =>
  (m id).filter fun d => !files.any fun file => d.metadata.get? "file" == some file

/-- What can be read from the documents of some identifiers. -/
def readable (m : Contents) (ids : List String) : List CachedChunk :=
  ids.filterMap fun id => (m id).bind fun d => d.cached.toOption

variable {m m' : Contents} {files files' : List String} {id : String} {d : StoredDocument}

lemma without_eq_some_iff : m.without files id = some d ↔
    m id = some d ∧ ∀ file ∈ files, d.metadata.get? "file" ≠ some file := by
  simp [without, Option.filter_eq_some_iff]

lemma leavesOut_iff : m.LeavesOut {file | file ∈ files} m' ↔ m' = m.without files := by
  constructor
  · intro h
    funext id
    refine Option.ext fun d => ?_
    rw [h, without_eq_some_iff]
    rfl
  · rintro rfl id d
    exact without_eq_some_iff

@[simp] lemma without_nil (m : Contents) : m.without [] = m := by
  funext id
  refine Option.ext fun d => ?_
  simp [without_eq_some_iff]

lemma without_without (m : Contents) (files files' : List String) :
    (m.without files).without files' = m.without (files ++ files') := by
  funext id
  refine Option.ext fun d => ?_
  simp only [without_eq_some_iff, List.mem_append, or_imp, forall_and, and_assoc]

lemma mem_readable_iff {ids : List String} {c : CachedChunk} :
    c ∈ m.readable ids ↔ ∃ id ∈ ids, ∃ d, m id = some d ∧ d.cached = .ok c := by
  have hok (y : Except CorruptDocument CachedChunk) : y.toOption = some c ↔ y = .ok c := by
    cases y <;> simp [Except.toOption]
  simp only [readable, List.mem_filterMap, Option.bind_eq_some_iff, hok]

end Contents

namespace Index

def missing (d : Disk) (root : Location) (files : List String) : List String :=
  files.filter fun file => !d.has (pathOf root file)

/-- The outcome of taking in files of any store with their identifiers: the documents that name
a file that is gone are dropped, and of each file that is there the documents are remembered that
are readable and have not been dropped on account of a file before it. -/
structure TakesInAny (d : Disk) (x : Index FaultyStore) (files : List (String × List String))
    (z : Index FaultyStore) : Prop where
  root : z.root = x.root
  stored : z.stored = x.stored.without (missing d x.root (files.map (·.1)))
  taken : ∀ before e after, files = before ++ e :: after → d.has (pathOf x.root e.1) = true →
    z.cache.get? e.1 =
      some ((x.stored.without (missing d x.root (before.map (·.1)))).readable e.2)
  others : ∀ file, file ∉ files.map (·.1) ∨ d.has (pathOf x.root file) = false →
    z.cache.get? file = x.cache.get? file

variable {d : Disk} {x y z : Index FaultyStore} {files : List (String × List String)}
  {file : String}

lemma mem_missing_iff {root : Location} {names : List String} :
    file ∈ missing d root names ↔ file ∈ names ∧ d.has (pathOf root file) = false := by
  simp [missing]

lemma TakesIn.stored (h : x.TakesIn d files y) :
    y.stored = x.stored.without (missing d x.root (files.map (·.1))) := by
  have hgone : gone d x.root (files.map (·.1)) =
      {file | file ∈ missing d x.root (files.map (·.1))} := by
    ext file
    exact mem_missing_iff.symm
  exact Contents.leavesOut_iff.mp (hgone ▸ h.leavesOut)

/-- Files are taken in one after the other; none is listed twice. -/
lemma TakesInAny.cons {e : String × List String} (hone : x.TakesIn d [e] y)
    (hrest : y.TakesInAny d files z) (hfresh : e.1 ∉ files.map (·.1)) :
    x.TakesInAny d (e :: files) z where
  root := hrest.root.trans hone.root
  stored := by
    rw [hrest.stored, hone.stored, Contents.without_without, hone.root, missing, missing, missing,
      ← List.filter_append]
    rfl
  taken := by
    intro before e' after hfiles hhas
    rw [List.cons_eq_append_iff] at hfiles
    rcases hfiles with ⟨rfl, hsame⟩ | ⟨before', rfl, hfiles⟩
    · obtain ⟨rfl, rfl⟩ := List.cons_eq_cons.mp hsame
      rw [hrest.others e'.1 (.inl hfresh), hone.taken e' (List.mem_singleton_self e') hhas,
        List.map_nil, missing, List.filter_nil, Contents.without_nil]
      rfl
    · rw [hrest.taken before' e' after hfiles (hone.root ▸ hhas), hone.stored,
        Contents.without_without, hone.root, missing, missing, missing, ← List.filter_append]
      rfl
  others := by
    intro file hfile
    rw [List.map_cons, List.mem_cons, not_or] at hfile
    rw [hrest.others file (hone.root ▸ hfile.imp_left And.right)]
    exact hone.others file (hfile.imp_left fun h => by simpa using h.1)

/-- All files are taken in if the store drops what it is told to, or if nothing is gone. -/
lemma exists_takesInAny (hx : x.store.store.documents.Keyed)
    (hdrops : x.store.failsDelete = false ∨ ∀ e ∈ files, d.has (pathOf x.root e.1) = true)
    (hnodup : (files.map (·.1)).Nodup) :
    ∃ z, files.foldlM (openFile d) x = .ok z ∧ x.TakesInAny d files z := by
  induction files generalizing x with
  | nil =>
    exact ⟨x, rfl, rfl, (Contents.without_nil _).symm, by simp, fun _ _ => rfl⟩
  | cons e files ih =>
    rw [List.map_cons, List.nodup_cons] at hnodup
    obtain ⟨y, hy, hone⟩ := exists_openFile hx e
      (hdrops.imp_right fun h => h e List.mem_cons_self)
    obtain ⟨z, hz, hrest⟩ := ih (keyed_of_leavesOut hx hone.leavesOut)
      (hdrops.imp hone.failsDelete.trans fun h e' he' =>
        hone.root ▸ h e' (List.mem_cons_of_mem _ he')) hnodup.2
    refine ⟨z, ?_, TakesInAny.cons hone hrest hnodup.1⟩
    rw [List.foldlM_cons, hy]
    exact hz

/-- The files that some stored identifier begins with and that are gone from the disk. -/
def vanished (d : Disk) (root : Location) (s : FaultyStore) : List String :=
  missing d root (byFile (DocumentStore.ids s)).names

variable {s : FaultyStore} {root : Location}

lemma mem_names_byFile_iff : file ∈ (byFile (DocumentStore.ids s)).names ↔
    ∃ id doc, DocumentStore.get? s id = some doc ∧ ChunkId.file? id = some file := by
  rw [Catalog.mem_names_iff, get?_byFile]
  constructor
  · intro h
    split at h
    · cases h
    · next hne =>
      obtain ⟨id, hid⟩ := List.exists_mem_of_ne_nil _ hne
      obtain ⟨hfile, doc, hdoc⟩ := mem_idsOf_iff.mp hid
      exact ⟨id, doc, hdoc, hfile⟩
  · rintro ⟨id, doc, hdoc, hfile⟩
    rw [if_neg (List.ne_nil_of_mem (mem_idsOf_iff.mpr ⟨hfile, doc, hdoc⟩))]
    rfl

lemma mem_vanished_iff : file ∈ vanished d root s ↔
    (∃ id doc, DocumentStore.get? s id = some doc ∧ ChunkId.file? id = some file) ∧
      d.has (pathOf root file) = false := by
  rw [vanished, mem_missing_iff, mem_names_byFile_iff]

/-- The names before one of a list in order are those that are smaller. -/
lemma filter_lt_of_pairwise {before after : List String}
    (h : (before ++ file :: after).Pairwise (· < ·)) :
    (before ++ file :: after).filter (· < file) = before := by
  rw [List.pairwise_append, List.pairwise_cons] at h
  obtain ⟨-, ⟨hafter, -⟩, hbefore⟩ := h
  rw [List.filter_append, List.filter_eq_self.mpr, List.filter_eq_nil_iff.mpr, List.append_nil]
  · intro name hname hlt
    rcases List.mem_cons.mp hname with rfl | hmem
    · exact String.lt_irrefl _ (of_decide_eq_true hlt)
    · exact String.lt_irrefl _ (String.lt_trans (hafter name hmem) (of_decide_eq_true hlt))
  · intro name hname
    exact decide_eq_true (hbefore name hname file List.mem_cons_self)

/-- The documents of a store from which a file is read: those that are gone by then on account of
files with smaller names are left out. -/
def leftFor (d : Disk) (root : Location) (s : FaultyStore) (file : String) : Contents :=
  Contents.without (DocumentStore.get? s) ((vanished d root s).filter (· < file))

/-- What is remembered after the files of a store were taken in. -/
lemma TakesInAny.cache (h : ({ root, store := s } : Index FaultyStore).TakesInAny d
    (byFile (DocumentStore.ids s)).entries z) (file : String) : z.cache.get? file =
      if file ∈ (byFile (DocumentStore.ids s)).names ∧ d.has (pathOf root file) = true
      then some ((leftFor d root s file).readable (idsOf (DocumentStore.ids s) file))
      else none := by
  split
  · next hfile =>
    obtain ⟨hname, hhas⟩ := hfile
    obtain ⟨e, he, rfl⟩ := List.mem_map.mp hname
    obtain ⟨before, after, hentries⟩ := List.append_of_mem he
    have hids : e.2 = idsOf (DocumentStore.ids s) e.1 := by
      have hentry := (Catalog.mem_entries_iff _ e.1 e.2).mp he
      rw [get?_byFile] at hentry
      split at hentry
      · cases hentry
      · exact (Option.some.inj hentry).symm
    have hbefore : (byFile (DocumentStore.ids s)).names.filter (· < e.1) = before.map (·.1) := by
      have hsorted := (byFile (DocumentStore.ids s)).pairwise_names
      rw [Catalog.names, hentries, List.map_append, List.map_cons] at hsorted ⊢
      exact filter_lt_of_pairwise hsorted
    rw [h.taken before e after hentries hhas, ← hids, ← hbefore, leftFor, vanished, missing,
      missing, List.filter_filter, List.filter_filter]
    simp only [Bool.and_comm]
    rfl
  · next hfile =>
    rw [h.others file]
    · rfl
    · change file ∉ Catalog.names _ ∨ _
      simpa [or_iff_not_imp_left] using hfile

/-- What opening an index makes of a store. -/
structure Heals (d : Disk) (root : Location) (s : FaultyStore) (z : Index FaultyStore) : Prop where
  sameRoot : z.root = root
  /-- A document is dropped exactly if its metadata name a file that is gone and that some
  identifier begins with. -/
  stored_iff : ∀ id doc, z.stored id = some doc ↔ DocumentStore.get? s id = some doc ∧
    ∀ file ∈ vanished d root s, doc.metadata.get? "file" ≠ some file
  /-- The files that are there and that some identifier begins with are listed. -/
  mem_files_iff : ∀ file, file ∈ z.files ↔ d.has (pathOf root file) = true ∧
    ∃ id doc, DocumentStore.get? s id = some doc ∧ ChunkId.file? id = some file
  /-- What is remembered of them is read from the documents that are left when it is their
  turn. -/
  cached : ∀ file ∈ z.files,
    z.cached file = (leftFor d root s file).readable (idsOf (DocumentStore.ids s) file)
  /-- No identifier of a file that is gone remains exactly if the metadata of all documents under
  such identifiers name files that are gone. -/
  noneMissing_iff : (∀ id doc, z.stored id = some doc → ∀ file, ChunkId.file? id = some file →
      d.has (pathOf root file) = true) ↔
    ∀ id doc, DocumentStore.get? s id = some doc → ∀ file ∈ vanished d root s,
      ChunkId.file? id = some file →
        ∃ other ∈ vanished d root s, doc.metadata.get? "file" = some other
  /-- No document under any other identifier is lost exactly if the metadata of none of them name
  a file that is gone. -/
  noneLost_iff : (∀ id doc, DocumentStore.get? s id = some doc →
      (∀ file, ChunkId.file? id = some file → d.has (pathOf root file) = true) →
        z.stored id = some doc) ↔
    ∀ id doc, DocumentStore.get? s id = some doc →
      (∀ file, ChunkId.file? id = some file → d.has (pathOf root file) = true) →
        ∀ other ∈ vanished d root s, doc.metadata.get? "file" ≠ some other
  /-- The files with something remembered are listed and no others exactly if each listed file
  has a readable document that is left when it is its turn. -/
  noneEmpty_iff : (∀ file, file ∈ z.files ↔ z.cached file ≠ []) ↔
    ∀ file ∈ z.files, ∃ id doc c, leftFor d root s file id = some doc ∧
      ChunkId.file? id = some file ∧ doc.cached = .ok c

lemma TakesInAny.heals (h : ({ root, store := s } : Index FaultyStore).TakesInAny d
    (byFile (DocumentStore.ids s)).entries z) : Heals d root s z := by
  have hstored (id : String) (doc : StoredDocument) : z.stored id = some doc ↔
      DocumentStore.get? s id = some doc ∧
        ∀ file ∈ vanished d root s, doc.metadata.get? "file" ≠ some file := by
    rw [h.stored]
    exact Contents.without_eq_some_iff
  have hfiles (file : String) : file ∈ z.files ↔ d.has (pathOf root file) = true ∧
      ∃ id doc, DocumentStore.get? s id = some doc ∧ ChunkId.file? id = some file := by
    rw [files, Catalog.mem_names_iff, h.cache, ← mem_names_byFile_iff]
    by_cases hlisted : file ∈ (byFile (DocumentStore.ids s)).names ∧
      d.has (pathOf root file) = true
    · simp [hlisted]
    · rw [if_neg hlisted]
      simpa [and_comm] using hlisted
  have hcached (file : String) (hfile : file ∈ z.files) : z.cached file =
      (leftFor d root s file).readable (idsOf (DocumentStore.ids s) file) := by
    rw [Index.cached, h.cache, if_pos, Option.getD_some]
    exact ⟨mem_names_byFile_iff.mpr ((hfiles file).mp hfile).2, ((hfiles file).mp hfile).1⟩
  refine ⟨h.root, hstored, hfiles, hcached, ⟨fun hnone => ?_, fun hagree => ?_⟩,
    ⟨fun hkept => ?_, fun hagree => ?_⟩, ⟨fun hlisted => ?_, fun hreadable => ?_⟩⟩
  · intro id doc hdoc file hgone hid
    by_contra hother
    have hstays := (hstored id doc).mpr ⟨hdoc, fun other hmem hname => hother ⟨other, hmem, hname⟩⟩
    exact absurd ((hnone id doc hstays file hid).symm.trans (mem_vanished_iff.mp hgone).2) (by simp)
  · intro id doc hdoc file hid
    by_contra hmissing
    obtain ⟨hold, hleft⟩ := (hstored id doc).mp hdoc
    have hgone : file ∈ vanished d root s :=
      mem_vanished_iff.mpr ⟨⟨id, doc, hold, hid⟩, by simpa using hmissing⟩
    obtain ⟨other, hmem, hname⟩ := hagree id doc hold file hgone hid
    exact hleft other hmem hname
  · intro id doc hdoc hthere
    exact ((hstored id doc).mp (hkept id doc hdoc hthere)).2
  · intro id doc hdoc hthere
    exact (hstored id doc).mpr ⟨hdoc, hagree id doc hdoc hthere⟩
  · intro file hfile
    obtain ⟨c, hc⟩ := List.exists_mem_of_ne_nil _ ((hlisted file).mp hfile)
    rw [hcached file hfile, Contents.mem_readable_iff] at hc
    obtain ⟨id, hid, doc, hdoc, hread⟩ := hc
    exact ⟨id, doc, c, hdoc, (mem_idsOf_iff.mp hid).1, hread⟩
  · intro file
    refine ⟨fun hfile => ?_, fun hne => ?_⟩
    · obtain ⟨id, doc, c, hdoc, hid, hread⟩ := hreadable file hfile
      have hold := (Contents.without_eq_some_iff.mp hdoc).1
      have hc : c ∈ z.cached file := by
        rw [hcached file hfile, Contents.mem_readable_iff]
        exact ⟨id, mem_idsOf_iff.mpr ⟨hid, doc, hold⟩, doc, hdoc, hread⟩
      exact List.ne_nil_of_mem hc
    · rw [files, Catalog.mem_names_iff]
      by_contra hnone
      rw [Bool.not_eq_true, Option.isSome_eq_false_iff, Option.isNone_iff_eq_none] at hnone
      exact hne (by rw [Index.cached, hnone]; rfl)

/-- An index is opened on any store. Unless the store refuses to drop the documents of a file that
is gone, it drops what names such a file and remembers what it can read. So identifiers of files
that are gone remain, other documents get lost, and files are listed without a chunk, exactly if
identifiers and metadata disagree, or documents are unreadable, in the way that is told. -/
theorem any_store_is_healed_by_metadata (hs : s.store.documents.Keyed) (d : Disk)
    (root : Location) :
    (s.failsDelete = false ∨ vanished d root s = [] →
      ∃ z, Index.ofStore d root s = .ok z ∧ Heals d root s z) ∧
    (s.failsDelete = true ∧ vanished d root s ≠ [] →
      Index.ofStore d root s = .error FaultyStore.fault) := by
  constructor
  · intro hdrops
    have hdrops' : s.failsDelete = false ∨ ∀ e ∈ (byFile (DocumentStore.ids s)).entries,
        d.has (pathOf root e.1) = true := by
      refine hdrops.imp_right fun hnone e he => ?_
      by_contra hmissing
      have hmem : e.1 ∈ vanished d root s :=
        mem_missing_iff.mpr ⟨List.mem_map_of_mem he, by simpa using hmissing⟩
      rw [hnone] at hmem
      cases hmem
    obtain ⟨z, hz, hin⟩ := exists_takesInAny (x := { root, store := s }) hs hdrops'
      (Catalog.nodup_names _)
    exact ⟨z, hz, hin.heals⟩
  · rintro ⟨hfails, hsome⟩
    obtain ⟨file, hfile⟩ := List.exists_mem_of_ne_nil _ hsome
    obtain ⟨hname, hmissing⟩ := mem_missing_iff.mp hfile
    obtain ⟨e, he, rfl⟩ := List.mem_map.mp hname
    exact foldlM_openFile_eq_error (x := { root, store := s }) hfails ⟨e, he, hmissing⟩

end Index

namespace IndexHistory

open Index

/-- A store that holds some documents and nothing else. -/
def storeOf (documents : List StoredDocument) : FaultyStore :=
  freshIndex.store.withPut documents

/-- A document under any identifier that names any file, and no chunk. -/
def named (id : String) (metadata : Metadata) : StoredDocument :=
  { stray metadata with id }

/-- A document that keeps a chunk of the file that is left. -/
def keptChunk : StoredDocument :=
  { (chunkAt "x" 1).document with embedding := [.zero] }

/-- A store whose documents name the files that their identifiers begin with. -/
def orderlyStore : FaultyStore :=
  storeOf [keptChunk, named "b.go::y" (fileFilter "b.go"), stray .empty]

/-- Of two files one is gone; its document is dropped, and the others are kept. -/
theorem orderly_store_is_healed :
    orderlyStore.store.documents.Keyed ∧ orderlyStore.failsDelete = false ∧
    vanished lastFileDisk ["work"] orderlyStore = ["b.go"] ∧
    ∃ z, Index.ofStore lastFileDisk ["work"] orderlyStore = .ok z ∧
      Heals lastFileDisk ["work"] orderlyStore z := by
  have hempty : freshIndex.store.store.documents.Keyed := nofun
  have hkeyed : orderlyStore.store.documents.Keyed := FaultyStore.keyed_withPut hempty _
  refine ⟨hkeyed, rfl, by decide +kernel, ?_⟩
  exact (any_store_is_healed_by_metadata hkeyed lastFileDisk ["work"]).1 (.inl rfl)

/-- What goes wrong: an identifier of a file that is gone stays, since its document names no file;
a document without a file in its identifier, and one of a file that is there, are dropped, since
they name a file that is gone; and a file is listed of which nothing can be read. -/
theorem disagreeing_documents_are_not_healed :
    ((Index.ofStore lastFileDisk ["work"] (storeOf [named "b.go::y" .empty])).map
        fun z => DocumentStore.ids z.store) = .ok ["b.go::y"] ∧
    ((Index.ofStore lastFileDisk ["work"] (storeOf [named "b.go::y" (fileFilter "b.go"),
        stray (fileFilter "b.go"), named "a.go::x" (fileFilter "b.go")])).map
        fun z => DocumentStore.ids z.store) = .ok [] ∧
    ((Index.ofStore lastFileDisk ["work"] (storeOf [named "a.go::x" .empty])).map
        fun z => (z.files, z.cached "a.go")) = .ok (["a.go"], []) ∧
    lastFileDisk.has (pathOf ["work"] "b.go") = false ∧
    lastFileDisk.has (pathOf ["work"] "a.go") = true ∧
    ChunkId.file? "b.go::y" = some "b.go" ∧ ChunkId.file? "a.go::x" = some "a.go" ∧
    ChunkId.file? "note" = none := by
  refine ⟨?_, ?_, ?_, ?_, ?_, ?_, ?_, ?_⟩ <;> decide +kernel

end IndexHistory

end CodeSearch
