import CodeSearch.Embedding.Table
import CodeSearch.Proofs.FileReadings
import CodeSearch.Proofs.IncrementalRuns
import CodeSearch.Proofs.IndexNames
import CodeSearch.Proofs.WatchedFiles

/-!
# Scanned files in the index

A comparison with the disk takes in the files that a scan lists, under their names. Every
other request takes in the names that it is given, or that the watcher has noted, as they are,
whether or not a scan would have listed them. As long as it would have, the index has scanned
files only, each under one name.
-/
namespace CodeSearch

namespace Index

variable {σ : Type} [DocumentStore σ] {x y : Index σ} {call : ChunkedFile} {file other : String}

lemma mem_files_of_remove (h : x.remove file = .ok y) (hother : other ∈ y.files) :
    other ∈ x.files := by
  obtain ⟨_, -, hy⟩ := Except.bind_eq_ok.mp h
  obtain rfl := Except.pure_eq_ok.mp hy
  rw [files, Catalog.mem_names_iff, Catalog.get?_erase] at hother
  rw [files, Catalog.mem_names_iff]
  split at hother
  · cases hother
  · exact hother

lemma mem_files_of_replace (hother : other ∈ (x.replace call).2.files) :
    other ∈ x.files ∨ other = call.path ∧ call.chunks ≠ [] := by
  unfold replace at hother
  split at hother
  · exact .inl hother
  · next y hremove =>
    split at hother
    · exact .inl (mem_files_of_remove hremove hother)
    · next hchunks =>
      split at hother
      · exact .inl (mem_files_of_remove hremove hother)
      · rw [files, Catalog.mem_names_iff, Catalog.get?_insert] at hother
        split at hother
        · next heq => exact .inr ⟨heq, by simpa using hchunks⟩
        · exact .inl (mem_files_of_remove hremove ((Catalog.mem_names_iff _ _).mpr hother))

end Index

namespace Analyzer

/-- The names that a comparison of the whole workspace takes in: those of the listed files that
have to be read again. -/
def staleFiles (a : Analyzer Store) (s : Surroundings) : List String :=
  match removeGone s (a.liveFiles s) a.index.files a with
  | (.error _, _) => []
  | (.ok (), b) =>
      if b.isClosed then [] else (a.liveFiles s).filter (b.index.isStale s.disk ·)

lemma staleFiles_subset (a : Analyzer Store) (s : Surroundings) :
    a.staleFiles s ⊆ a.liveFiles s := by
  unfold staleFiles
  split
  · exact List.nil_subset _
  · split
    · exact List.nil_subset _
    · exact fun file hfile => List.mem_of_mem_filter hfile

variable [QueryCompiler]

/-- There is something to index under a name that leads to a place in the workspace. -/
def HasChunks (s : Surroundings) (root : Location) (file : String) : Prop :=
  Path.staysInside file = true ∧ currentChunks s.grammar s.disk root file s.now ≠ []

/-- An analyzer of the same workspace whose index has no new files but those among some names
under which there is something to index. -/
structure TakesOnly (a : Analyzer Store) (s : Surroundings) (names : List String)
    (b : Analyzer Store) : Prop where
  root : b.root = a.root
  config : b.config = a.config
  chunkers : b.ChunkersFit
  files : ∀ file ∈ b.index.files,
    file ∈ a.index.files ∨ file ∈ names ∧ HasChunks s a.root file

variable {a b c : Analyzer Store} {s : Surroundings} {names names' : List String}

lemma TakesOnly.refl (ha : a.ChunkersFit) (s : Surroundings) (names : List String) :
    a.TakesOnly s names a :=
  ⟨rfl, rfl, ha, fun _ hfile => .inl hfile⟩

/-- What an analyzer takes in does not depend on what it notes besides its index. -/
lemma TakesOnly.congr (h : a.TakesOnly s names b) (hroot : c.root = b.root)
    (hconfig : c.config = b.config) (hindex : c.index = b.index)
    (hchunkers : c.chunkers = b.chunkers) : a.TakesOnly s names c := by
  refine ⟨hroot.trans h.root, hconfig.trans h.config, ?_, hindex ▸ h.files⟩
  rw [ChunkersFit, hchunkers]
  exact h.chunkers

lemma TakesOnly.congr_left (h : c.TakesOnly s names b) (hroot : c.root = a.root)
    (hconfig : c.config = a.config) (hindex : c.index = a.index) : a.TakesOnly s names b := by
  have hfiles := h.files
  rw [hindex, hroot] at hfiles
  exact ⟨h.root.trans hroot, h.config.trans hconfig, h.chunkers, hfiles⟩

lemma TakesOnly.trans (h : a.TakesOnly s names b) (h' : b.TakesOnly s names' c) :
    a.TakesOnly s (names ++ names') c := by
  refine ⟨h'.root.trans h.root, h'.config.trans h.config, h'.chunkers, fun file hfile => ?_⟩
  rcases h'.files file hfile with hold | ⟨hname, hchunks⟩
  · exact (h.files file hold).imp_right fun hnew => ⟨List.mem_append_left _ hnew.1, hnew.2⟩
  · exact .inr ⟨List.mem_append_right _ hname, h.root ▸ hchunks⟩

lemma TakesOnly.mono (h : a.TakesOnly s names b) (hsub : names ⊆ names') :
    a.TakesOnly s names' b :=
  ⟨h.root, h.config, h.chunkers, fun file hfile =>
    (h.files file hfile).imp_right fun hnew => ⟨hsub hnew.1, hnew.2⟩⟩

lemma takesOnly_removeFile (ha : a.ChunkersFit) (s : Surroundings) (file : String) :
    a.TakesOnly s [] (a.removeFile file).2 := by
  unfold removeFile
  cases hremove : a.index.remove file with
  | error e => exact .refl ha s []
  | ok index => exact ⟨rfl, rfl, ha, fun _ hfile => .inl (Index.mem_files_of_remove hremove hfile)⟩

/-- A file that was read is taken in under its name, if it has chunks. -/
lemma takesOnly_settleFile (ha : a.ChunkersFit) {file : String} {reading : Option ChunkedFile}
    (hinside : Path.staysInside file = true)
    (hreads : Reads s.grammar s.disk a.root file s.now reading) :
    a.TakesOnly s [file] (a.settleFile file reading).2 := by
  cases reading with
  | none => exact (takesOnly_removeFile ha s file).mono (List.nil_subset _)
  | some x =>
    have hx : (a.replaceFile x).2 = { a with index := (a.index.replace x).2 } := by
      unfold replaceFile
      split <;> next h => rw [h]
    have hpath : x.path = file := hreads.path x rfl
    have hchunks : x.chunks = currentChunks s.grammar s.disk a.root file s.now := hreads.chunks
    rw [settleFile, hx]
    refine ⟨rfl, rfl, ha, fun other hother => ?_⟩
    refine (Index.mem_files_of_replace hother).imp_right fun hnew => ?_
    obtain ⟨rfl, hne⟩ := hnew
    rw [hpath]
    exact ⟨List.mem_singleton_self file, hinside, hchunks ▸ hne⟩

lemma takesOnly_processFile (ha : a.ChunkersFit) (s : Surroundings) (file : String) :
    a.TakesOnly s [file] (a.processFile s file).2 := by
  cases hinside : Path.staysInside file with
  | false =>
    rw [processFile, if_pos (by simp [hinside])]
    exact .refl ha s [file]
  | true =>
    obtain ⟨⟨chunkers, heq⟩, hfit, hreads⟩ := ha.readFile s file
    rw [processFile_eq]
    cases hread : a.readFile s file with
    | mk outcome b =>
      rw [hread] at heq hfit hreads
      obtain rfl : b = { a with chunkers } := heq
      cases outcome with
      | error e => exact ⟨rfl, rfl, hfit, fun _ hfile => .inl hfile⟩
      | ok reading =>
        have hone := takesOnly_settleFile hfit hinside (hreads reading rfl)
        exact hone.congr_left rfl rfl rfl

lemma takesOnly_foldl (ha : a.ChunkersFit) (s : Surroundings) (names : List String) :
    a.TakesOnly s names (names.foldl (processNext s) a) := by
  induction names generalizing a with
  | nil => exact .refl ha s []
  | cons file names ih =>
    have hone : a.TakesOnly s [file] (processNext s a file) :=
      (takesOnly_processFile ha s file).congr rfl rfl rfl rfl
    exact hone.trans (ih hone.chunkers)

lemma takesOnly_processFiles (ha : a.ChunkersFit) (s : Surroundings) (names : List String) :
    a.TakesOnly s (if a.isClosed then [] else names) (a.processFiles s names) := by
  unfold processFiles
  dsimp only
  cases hclosed : a.isClosed with
  | true => exact (TakesOnly.refl ha s []).congr rfl rfl rfl rfl
  | false =>
    have hfold := takesOnly_foldl (a := { a with progress := a.progress.start names.length }) ha s
      names
    rw [hclosed] at hfold
    have hall : a.TakesOnly s names _ := hfold.congr_left rfl rfl rfl
    exact hall.congr rfl rfl rfl rfl

lemma takesOnly_removeGone (ha : a.ChunkersFit) (s : Surroundings) (live files : List String) :
    a.TakesOnly s [] (removeGone s live files a).2 := by
  induction files generalizing a with
  | nil => exact .refl ha s []
  | cons file files ih =>
    rw [removeGone]
    split
    · exact ih ha
    · have hone := takesOnly_removeFile ha s file
      split
      · next h => rwa [h] at hone
      · next h =>
        rw [h] at hone
        exact hone.trans (ih hone.chunkers)

lemma takesOnly_indexWorkspace (ha : a.ChunkersFit) (s : Surroundings) :
    a.TakesOnly s (a.staleFiles s) (a.indexWorkspace s).2 := by
  have hgone := takesOnly_removeGone ha s (a.liveFiles s) a.index.files
  unfold indexWorkspace staleFiles
  dsimp only
  cases h : removeGone s (a.liveFiles s) a.index.files a with
  | mk outcome b =>
    rw [h] at hgone
    cases outcome with
    | error e => exact hgone
    | ok _ => exact hgone.trans (takesOnly_processFiles hgone.chunkers s _)

/-- The files that some identifiers begin with. -/
def filesOf (ids : List String) : List String :=
  ids.filterMap fun id => (ChunkId.split? id).map (·.1)

lemma takesOnly_sourceOf (ha : a.ChunkersFit) (s : Surroundings) (done : Refreshed) (id : String) :
    a.TakesOnly s (filesOf [id]) (a.sourceOf s done id).2.2 := by
  unfold sourceOf filesOf
  cases hsplit : ChunkId.split? id with
  | none => exact .refl ha s _
  | some parts =>
    obtain ⟨file, path⟩ := parts
    have hfile := takesOnly_processFile ha s file
    have hnames : [id].filterMap (fun id => (ChunkId.split? id).map (·.1)) = [file] := by
      simp [hsplit]
    have hrefresh : a.TakesOnly s [file] (a.refresh s done file).2.2 := by
      unfold refresh
      split
      · exact .refl ha s _
      · split <;> next h => rwa [h] at hfile
    rw [hnames]
    dsimp only
    split
    · exact .refl ha s _
    · split <;> next h => rwa [h] at hrefresh

lemma takesOnly_sourcesFrom (s : Surroundings) (done : Refreshed) (ha : a.ChunkersFit)
    (ids : List String) : a.TakesOnly s (filesOf ids) (sourcesFrom s done a ids).2 := by
  induction ids generalizing done a with
  | nil => exact .refl ha s _
  | cons id ids ih =>
    have hone := takesOnly_sourceOf ha s done id
    rw [sourcesFrom]
    have hall := hone.trans (ih (a.sourceOf s done id).2.1 hone.chunkers)
    rwa [filesOf, filesOf, ← List.filterMap_append] at hall

/-- The files of the batch that the watcher has handed on. -/
def batchOf (watch : Option WatchLoop) : List String :=
  ((watch.bind (·.running)).map (·.files)).getD []

lemma takesOnly_handleBatch (ha : a.ChunkersFit) (s : Surroundings) :
    a.TakesOnly s (if a.isClosed then [] else batchOf a.watch) (a.handleBatch s) := by
  unfold handleBatch
  cases hwatch : a.watch with
  | none => exact .refl ha s _
  | some w =>
    dsimp only
    cases hrunning : w.running with
    | none => exact .refl ha s _
    | some batch =>
      have hbatch : batchOf (some w) = batch.files := by simp [batchOf, hrunning]
      rw [hbatch]
      exact (takesOnly_processFiles ha s batch.files).congr rfl rfl rfl rfl

end Analyzer

inductive Request where
  | indexWorkspace
  | processFiles (files : List String)
  | search (query : String) (types : List FileType)
  | findSimilar (id : String)
  | sources (ids : List String)
  /-- Something is reported to the watcher, which may let it wait. -/
  | deliver (e : DiskEvent)
  /-- The watcher takes in the first report that waits. -/
  | takeEvent
  /-- The watcher hands on what it has noted if there was no change for long enough. -/
  | tick
  | close

/-- A request with the world around the analyzer at its time. -/
abbrev TimedRequest := Surroundings × Request

namespace Analyzer

/-- A new analyzer of a workspace, which watches it if the settings say so. -/
def unstarted (s : Surroundings) (root : Location) (config : Config) (store : Store) :
    Analyzer Store :=
  beginWatch { root, config, index := { root, store } } s

lemma unstarted_eq (s : Surroundings) (root : Location) (config : Config) (store : Store) :
    ∃ watch, unstarted s root config store =
      { root, config, index := { root, store }, watch } := by
  unfold unstarted beginWatch
  split
  · exact ⟨_, rfl⟩
  · exact ⟨none, rfl⟩

def watching (a : Analyzer Store) (f : WatchLoop → WatchLoop) : Analyzer Store :=
  { a with watch := a.watch.map f }

@[simp] lemma watching_watching (a : Analyzer Store) (f g : WatchLoop → WatchLoop) :
    (a.watching f).watching g = a.watching (g ∘ f) := by
  simp [watching]

section Requests

variable [QueryCompiler]

def serve (a : Analyzer Store) (r : TimedRequest) : Analyzer Store :=
  match r.2 with
  | .indexWorkspace => (a.indexWorkspace r.1).2
  | .processFiles files => a.processFiles r.1 files
  | .search query types => (a.search r.1 query types).2
  | .findSimilar id => (a.findSimilar r.1 id).2
  | .sources ids => (a.sources r.1 ids).2
  | .deliver e => a.watching fun w => w.act r.1.disk (ticks r.1) (.deliver e)
  | .takeEvent => a.watching fun w => w.act r.1.disk (ticks r.1) .takeEvent
  | .tick => a.tick r.1
  | .close => a.close r.1

/-- The names that a request itself brings along, or that the watcher has noted for it. -/
def named (a : Analyzer Store) (r : TimedRequest) : List String :=
  match r.2 with
  | .processFiles files => if a.isClosed then [] else files
  | .search _ _ => if a.isClosed then [] else
      batchOf (a.watch.map fun w => w.flush r.1.disk (ticks r.1) 0)
  | .findSimilar id => if a.isClosed || !isChunkId id then [] else
      batchOf (a.watch.map fun w => w.flush r.1.disk (ticks r.1) 0)
  | .sources ids => filesOf ids
  | .tick => if a.isClosed then [] else
      batchOf (a.watch.map fun w => w.act r.1.disk (ticks r.1) .fire)
  | .indexWorkspace => []
  | .deliver _ => []
  | .takeEvent => []
  | .close => []

/-- The names that a request takes in. -/
def taken (a : Analyzer Store) (r : TimedRequest) : List String :=
  match r.2 with
  | .indexWorkspace => a.staleFiles r.1
  | _ => a.named r

variable {a b : Analyzer Store}

/-- An analyzer takes in the batch of whatever the watcher has come to. -/
lemma takesOnly_handOn (ha : a.ChunkersFit) (s : Surroundings) (w : WatchLoop) :
    a.TakesOnly s (if a.isClosed then [] else batchOf (some w))
      (handleBatch { a with watch := some w } s) := by
  have hone := takesOnly_handleBatch (a := { a with watch := some w }) ha s
  exact hone.congr_left rfl rfl rfl

lemma takesOnly_flush (ha : a.ChunkersFit) (s : Surroundings) :
    a.TakesOnly s (if a.isClosed then [] else
      batchOf (a.watch.map fun w => w.flush s.disk (ticks s) 0)) (a.flush s) := by
  unfold flush
  cases hwatch : a.watch with
  | none => exact .refl ha s _
  | some w => exact takesOnly_handOn ha s (w.flush s.disk (ticks s) 0)

lemma takesOnly_tick (ha : a.ChunkersFit) (s : Surroundings) :
    a.TakesOnly s (if a.isClosed then [] else
      batchOf (a.watch.map fun w => w.act s.disk (ticks s) .fire)) (a.tick s) := by
  unfold tick
  cases hwatch : a.watch with
  | none => exact .refl ha s _
  | some w => exact takesOnly_handOn ha s (w.act s.disk (ticks s) .fire)

/-- A request takes in nothing but the names that it is said to take in. -/
lemma takesOnly_serve (ha : a.ChunkersFit) (r : TimedRequest) :
    a.TakesOnly r.1 (a.taken r) (a.serve r) := by
  obtain ⟨s, request⟩ := r
  cases request with
  | indexWorkspace => exact takesOnly_indexWorkspace ha s
  | processFiles files => exact takesOnly_processFiles ha s files
  | search query types => exact takesOnly_flush ha s
  | findSimilar id =>
    have hflush := takesOnly_flush ha s
    simp only [taken, named, serve, findSimilar]
    cases hid : isChunkId id with
    | false => exact .refl ha s _
    | true => simpa using hflush
  | sources ids => exact takesOnly_sourcesFrom s [] ha ids
  | deliver e => exact (TakesOnly.refl ha s []).congr rfl rfl rfl rfl
  | takeEvent => exact (TakesOnly.refl ha s []).congr rfl rfl rfl rfl
  | tick => exact takesOnly_tick ha s
  | close => exact (TakesOnly.refl ha s []).congr rfl rfl rfl rfl

def run (a : Analyzer Store) (requests : List TimedRequest) : Analyzer Store :=
  requests.foldl serve a

/-- With an empty index there is nothing to forget: a comparison takes in what a scan lists. -/
lemma run_indexWorkspace {s : Surroundings} {live : List String} (hnone : a.index.files = [])
    (hlive : a.liveFiles s = live) : a.run [(s, .indexWorkspace)] =
      a.processFiles s (live.filter (a.index.isStale s.disk ·)) := by
  simp only [run, List.foldl_cons, List.foldl_nil, serve, indexWorkspace, hlive, hnone, removeGone]

/-- A request takes in a file that has something to index, and the index has it afterwards. -/
def Indexes (a : Analyzer Store) (r : TimedRequest) (file : String) : Prop :=
  file ∈ a.taken r ∧ HasChunks r.1 a.root file ∧ file ∈ (a.serve r).index.files

/-- The moment behind some others at which a file is indexed for the last time. -/
structure LastIndexedAt (a : Analyzer Store) (requests : List TimedRequest) (file : String)
    (before : List TimedRequest) (r : TimedRequest) : Prop where
  indexes : (a.run before).Indexes r file
  last : ∃ after, requests = before ++ r :: after ∧ ∀ mid r' rest, after = mid ++ r' :: rest →
    ¬ (a.run (before ++ r :: mid)).Indexes r' file

lemma run_concat (a : Analyzer Store) (requests : List TimedRequest) (r : TimedRequest) :
    a.run (requests ++ [r]) = (a.run requests).serve r := by
  rw [run, List.foldl_append]
  rfl

/-- Requests neither move the workspace nor change the settings. -/
lemma same_run (ha : a.ChunkersFit) (requests : List TimedRequest) :
    (a.run requests).ChunkersFit ∧ (a.run requests).root = a.root ∧
      (a.run requests).config = a.config := by
  induction requests using List.reverseRecOn with
  | nil => exact ⟨ha, rfl, rfl⟩
  | append_singleton requests r ih =>
    have hone := takesOnly_serve ih.1 r
    rw [run_concat]
    exact ⟨hone.chunkers, hone.root.trans ih.2.1, hone.config.trans ih.2.2⟩

lemma scanner_run (ha : a.ChunkersFit) (requests : List TimedRequest) :
    (a.run requests).scanner = a.scanner := by
  obtain ⟨-, hroot, hconfig⟩ := same_run ha requests
  rw [scanner, scanner, storePath, storePath, hroot, hconfig]

lemma liveFiles_run (ha : a.ChunkersFit) (requests : List TimedRequest) (s : Surroundings) :
    (a.run requests).liveFiles s = a.liveFiles s := by
  rw [liveFiles, liveFiles, scanner_run ha, (same_run ha requests).2.1]

lemma exists_lastIndexedAt (ha : a.ChunkersFit) (hnone : a.index.files = [])
    {requests : List TimedRequest} {file : String} (hfile : file ∈ (a.run requests).index.files) :
    ∃ before r, a.LastIndexedAt requests file before r := by
  induction requests using List.reverseRecOn with
  | nil =>
    rw [run, List.foldl_nil, hnone] at hfile
    cases hfile
  | append_singleton requests r ih =>
    by_cases hm : (a.run requests).Indexes r file
    · exact ⟨requests, r, hm, [], rfl, by simp⟩
    · rw [run_concat] at hfile
      have hbefore : file ∈ (a.run requests).index.files := by
        rcases (takesOnly_serve (same_run ha requests).1 r).files file hfile with h | ⟨h, hchunks⟩
        · exact h
        · exact absurd ⟨h, hchunks, hfile⟩ hm
      obtain ⟨before, r', hindexes, after, hsplit, hlast⟩ := ih hbefore
      refine ⟨before, r', hindexes, after ++ [r], by simp [hsplit], fun mid r'' rest heq => ?_⟩
      rcases List.eq_nil_or_concat' rest with rfl | ⟨rest, r''', rfl⟩
      · obtain ⟨rfl, hlast'⟩ := List.append_inj' heq rfl
        obtain rfl := List.singleton_inj.mp hlast'
        rwa [← hsplit]
      · rw [← List.cons_append, ← List.append_assoc] at heq
        exact hlast mid r'' rest (List.append_inj' heq rfl).1

lemma LastIndexedAt.mem {requests before : List TimedRequest} {r : TimedRequest} {file : String}
    (h : a.LastIndexedAt requests file before r) : r ∈ requests := by
  obtain ⟨-, after, rfl, -⟩ := h
  simp

/-- Every name that a request brings along, or that the watcher has noted, is at that moment the
name of a file that a scan lists, if there is something to index under it. -/
def NamesScanned (a : Analyzer Store) (requests : List TimedRequest) : Prop :=
  ∀ before r after, requests = before ++ r :: after →
    ∀ file ∈ (a.run before).named r, HasChunks r.1 a.root file → file ∈ a.liveFiles r.1

lemma NamesScanned.mem_liveFiles (ha : a.ChunkersFit) {requests : List TimedRequest}
    (h : a.NamesScanned requests) {before : List TimedRequest} {r : TimedRequest} {file : String}
    (hlast : a.LastIndexedAt requests file before r) : file ∈ a.liveFiles r.1 := by
  obtain ⟨⟨htaken, hchunks, -⟩, after, hsplit, -⟩ := hlast
  rw [(same_run ha before).2.1] at hchunks
  have hnamed := h before r after hsplit file
  obtain ⟨s, request⟩ := r
  cases request with
  | indexWorkspace =>
    rw [← liveFiles_run ha before]
    exact staleFiles_subset _ _ htaken
  | _ => exact hnamed htaken hchunks

/-- The names of a location below the root are such as stand on disks, and have no backslash. -/
def PlainBelow (root l : Location) : Prop :=
  ∀ name ∈ l.drop root.length, IsName name ∧ '\\' ∉ name.toList

lemma exists_relative {root l : Location} {d : Disk} {s : Surroundings}
    (hroot : ∀ name ∈ root, IsName name) (ha : a.root = root) (hl : l ∈ a.scanner.files d)
    (hplain : PlainBelow root l) (hchunks : HasChunks s root (Path.indexName root.path l.path)) :
    ∃ rel : Location, l = root ++ rel ∧ rel ≠ [] ∧ (∀ name ∈ rel, IsName name) ∧
      Path.indexName root.path l.path = rel.relative := by
  obtain ⟨hfile, hreaches, -⟩ := Scanner.mem_files_iff.mp hl
  obtain ⟨rel, rfl⟩ : root <+: l := ha ▸ (Scanner.reaches_iff.mp hreaches).1
  rw [PlainBelow, List.drop_left] at hplain
  have hne : root ++ rel ≠ [] := by
    intro hnil
    rw [hnil] at hfile
    cases hfile
  have hname := Location.indexName_path hroot (fun name h => (hplain name h).1)
    (fun name h => (hplain name h).2) hne
  refine ⟨rel, rfl, ?_, fun name h => (hplain name h).1, hname⟩
  rintro rfl
  have hinside := hchunks.1
  rw [hname] at hinside
  exact absurd hinside (by decide)

/-- The index has files only that were scanned, each under one name. -/
structure OnlyScanned (a : Analyzer Store) (requests : List TimedRequest) : Prop where
  /-- At the moment at which a file was indexed for the last time, a scan lists it. -/
  scanned : ∀ file ∈ (a.run requests).index.files, ∃ before r l,
    a.LastIndexedAt requests file before r ∧ l ∈ a.scanner.files r.1.disk ∧
    file = Path.indexName a.root.path l.path ∧
    (PlainBelow a.root l → r.1.disk.locate (Index.pathOf a.root file) = .ok l)
  /-- On no disk do two names lead to one place. -/
  single : (∀ r ∈ requests, ∀ l ∈ a.scanner.files r.1.disk, PlainBelow a.root l) →
    ∀ file ∈ (a.run requests).index.files, ∀ other ∈ (a.run requests).index.files,
      ∀ (d : Disk) (l : Location), d.locate (Index.pathOf a.root file) = .ok l →
        d.locate (Index.pathOf a.root other) = .ok l → file = other

lemma NamesScanned.onlyScanned {requests : List TimedRequest} (h : a.NamesScanned requests)
    (ha : a.ChunkersFit) (hnone : a.index.files = []) (hroot : ∀ name ∈ a.root, IsName name) :
    a.OnlyScanned requests := by
  have hscanned (file : String) (hfile : file ∈ (a.run requests).index.files) :
      ∃ before r l, a.LastIndexedAt requests file before r ∧ l ∈ a.scanner.files r.1.disk ∧
        file = Path.indexName a.root.path l.path := by
    obtain ⟨before, r, hlast⟩ := exists_lastIndexedAt ha hnone hfile
    obtain ⟨l, hl, hname⟩ := List.mem_map.mp (h.mem_liveFiles ha hlast)
    exact ⟨before, r, l, hlast, hl, hname.symm⟩
  have hleads {before : List TimedRequest} {r : TimedRequest} {file : String} {l : Location}
      (hlast : a.LastIndexedAt requests file before r) (hl : l ∈ a.scanner.files r.1.disk)
      (hname : file = Path.indexName a.root.path l.path) (hplain : PlainBelow a.root l)
      {d : Disk} {there : Location} (hthere : d.locate (Index.pathOf a.root file) = .ok there) :
      there = l := by
    have hchunks := hlast.indexes.2.1
    rw [(same_run ha before).2.1, hname] at hchunks
    obtain ⟨rel, rfl, hne, hrel, hrelative⟩ := exists_relative hroot rfl hl hplain hchunks
    rw [hname, hrelative, Location.pathOf_relative hroot hrel hne] at hthere
    refine Disk.eq_of_locate_path (fun name hmem => ?_) (by simp [hne]) hthere
    exact (List.mem_append.mp hmem).elim (hroot name) (hrel name)
  constructor
  · intro file hfile
    obtain ⟨before, r, l, hlast, hl, hname⟩ := hscanned file hfile
    refine ⟨before, r, l, hlast, hl, hname, fun hplain => ?_⟩
    have hchunks := hlast.indexes.2.1.2
    rw [(same_run ha before).2.1] at hchunks
    have hhas : r.1.disk.has (Index.pathOf a.root file) = true := by
      by_contra hgone
      exact hchunks (currentChunks_of_gone (Bool.eq_false_iff.mpr hgone) r.1.now)
    obtain ⟨there, hthere⟩ := Disk.exists_locate_of_has hhas
    rwa [hleads hlast hl hname hplain hthere] at hthere
  · intro hplain file hfile other hother d there hthere hthere'
    obtain ⟨before, r, l, hlast, hl, hname⟩ := hscanned file hfile
    obtain ⟨before', r', l', hlast', hl', hname'⟩ := hscanned other hother
    have hthere := hleads hlast hl hname (hplain r hlast.mem l hl) hthere
    have hthere' := hleads hlast' hl' hname' (hplain r' hlast'.mem l' hl') hthere'
    rw [hname, hname', ← hthere, ← hthere']

/-- An analyzer is started on an empty store by comparing its index with the disk. -/
lemma withStore_eq {s : Surroundings} {path : String} {config : Config} {store : Store}
    {root : Location} (hempty : store.documents = .empty) (hroot : rootOf s path = .ok root) :
    withStore s path config store =
      .ok ((unstarted s root config store).run [(s, .indexWorkspace)]) := by
  have hids : DocumentStore.ids store = [] := congrArg Catalog.names hempty
  have hopen : Index.ofStore s.disk root store = .ok { root, store } := by
    rw [Index.ofStore, hids]
    rfl
  refine Except.bind_eq_ok.mpr ⟨root, hroot, ?_⟩
  rw [hopen]
  rfl

/-- An analyzer is started on an empty store and is asked for this and that, while the disk
changes. Then its index has scanned files only, each under one name, if every name that has been
brought along or noted was that of a scanned file. -/
theorem only_scanned_files_are_indexed {s : Surroundings} {path : String} {config : Config}
    {store : Store} {root : Location} (hempty : store.documents = .empty)
    (hroot : rootOf s path = .ok root) (requests : List TimedRequest)
    (hnamed : (unstarted s root config store).NamesScanned ((s, .indexWorkspace) :: requests)) :
    withStore s path config store =
      .ok ((unstarted s root config store).run [(s, .indexWorkspace)]) ∧
    (unstarted s root config store).OnlyScanned ((s, .indexWorkspace) :: requests) := by
  have hnames : ∀ name ∈ root, IsName name := by
    unfold rootOf at hroot
    dsimp only at hroot
    split at hroot
    · cases hroot
    · next l hlocate =>
      split at hroot
      · obtain rfl := Except.ok.inj hroot
        exact Disk.isName_of_locate hlocate
      · cases hroot
  refine ⟨withStore_eq hempty hroot, ?_⟩
  obtain ⟨watch, heq⟩ := unstarted_eq s root config store
  rw [heq] at hnamed ⊢
  exact hnamed.onlyScanned (by simp [ChunkersFit]) rfl hnames

end Requests

section Examples

def onDisk (disk : Disk) : Surroundings where
  disk
  now := 2
  grammar := Workspace.plainGrammar

/-- A workspace with a file and a hidden one. -/
def hidingDisk : Disk where
  entries := [(["work"], .directory), (["work", "main.rs"], .file "fn main() {}".toUTF8 1),
    (["work", ".main.rs"], .file "fn main() {}".toUTF8 1)]

/-- A workspace with a file in a directory, and one whose name has two backslashes. -/
def backslashDisk : Disk where
  entries := [(["work"], .directory), (["work", "x"], .directory),
    (["work", "x", "b.rs"], .file "fn b() {}".toUTF8 1),
    (["work", "x\\\\b.rs"], .file "fn c() {}".toUTF8 1)]

/-- An analyzer that does not watch, before it is started. -/
def plainAnalyzer (disk : Disk) : Analyzer Store :=
  unstarted (onDisk disk) ["work"] { watch := false } (.inMemory (.ofTable .empty 2))

/-- What a scan lists on a disk whose ignore files and files are in order. -/
lemma liveFiles_eq {a : Analyzer Store} {s : Surroundings} (listed : List Location)
    (hrules : IgnoreFiles.ofDisk s.disk = Watcher.rawIgnoreFiles s.disk)
    (hlisted : (s.disk.files.filter fun l =>
      a.scanner.reaches (Watcher.rawIgnoreFiles s.disk) l false &&
        (Language.ofPath? l.path).isSome) = listed)
    (hsorted : listed.Pairwise fun l l' => l.precedes l' = true) :
    a.liveFiles s = listed.map fun l => Path.indexName a.root.path l.path := by
  rw [liveFiles, Scanner.files, hrules, hlisted, List.mergeSort_of_pairwise hsorted]

lemma liveFiles_hidingDisk :
    (plainAnalyzer hidingDisk).liveFiles (onDisk hidingDisk) = ["main.rs"] := by
  have hrules : IgnoreFiles.ofDisk hidingDisk = Watcher.rawIgnoreFiles hidingDisk :=
    Watcher.ofDisk_eq_raw (by decide) (by decide) (by decide)
  rw [liveFiles_eq [["work", "main.rs"]] hrules (by decide +kernel) (by decide)]
  simp only [Path.indexName_eq]
  decide

lemma liveFiles_backslashDisk :
    (plainAnalyzer backslashDisk).liveFiles (onDisk backslashDisk) = ["x/b.rs", "x//b.rs"] := by
  have hrules : IgnoreFiles.ofDisk backslashDisk = Watcher.rawIgnoreFiles backslashDisk :=
    Watcher.ofDisk_eq_raw (by decide) (by decide) (by decide)
  rw [liveFiles_eq [["work", "x", "b.rs"], ["work", "x\\\\b.rs"]] hrules
    (by decide +kernel) (by decide)]
  simp only [Path.indexName_eq]
  decide

attribute [local instance] QueryCompiler.plain

def askingFor (disk : Disk) (ids : List String) : List TimedRequest :=
  [(onDisk disk, .indexWorkspace), (onDisk disk, .sources ids)]

lemma run_askingFor {disk : Disk} {live : List String}
    (hlive : (plainAnalyzer disk).liveFiles (onDisk disk) = live) (ids : List String) :
    (plainAnalyzer disk).run (askingFor disk ids) =
      (((plainAnalyzer disk).processFiles (onDisk disk)
        (live.filter ((plainAnalyzer disk).index.isStale disk ·))).sources (onDisk disk) ids).2 := by
  have hstart := run_indexWorkspace (a := plainAnalyzer disk) rfl hlive
  rw [run, List.foldl_cons, List.foldl_nil] at hstart
  rw [run, askingFor, List.foldl_cons, hstart]
  rfl

/-- A scanned file is asked for by its name. -/
theorem main_is_scanned :
    (Store.inMemory (.ofTable .empty 2)).documents = .empty ∧
    rootOf (onDisk hidingDisk) "work" = .ok ["work"] ∧
    (plainAnalyzer hidingDisk).NamesScanned (askingFor hidingDisk ["main.rs::x"]) ∧
    (plainAnalyzer hidingDisk).OnlyScanned (askingFor hidingDisk ["main.rs::x"]) ∧
    ((plainAnalyzer hidingDisk).run (askingFor hidingDisk ["main.rs::x"])).index.files =
      ["main.rs"] := by
  have hempty : (Store.inMemory (.ofTable .empty 2)).documents = .empty := rfl
  have hroot : rootOf (onDisk hidingDisk) "work" = .ok ["work"] := by decide
  have hnamed : (plainAnalyzer hidingDisk).NamesScanned (askingFor hidingDisk ["main.rs::x"]) := by
    intro before r after hsplit file hfile _
    have hr : r ∈ askingFor hidingDisk ["main.rs::x"] := by rw [hsplit]; simp
    rcases List.mem_pair.mp hr with rfl | rfl
    · cases hfile
    · have hone : file = "main.rs" := by
        have hnames : filesOf ["main.rs::x"] = ["main.rs"] := by decide
        exact List.mem_singleton.mp (hnames ▸ hfile)
      rw [hone, liveFiles_hidingDisk]
      exact List.mem_singleton_self _
  refine ⟨hempty, hroot, hnamed, (only_scanned_files_are_indexed hempty hroot _ hnamed).2, ?_⟩
  rw [run_askingFor liveFiles_hidingDisk]
  decide +kernel

/-- A file is asked for under another name, and a hidden file by its own: both get into the
index beside the scanned one. A name with two backslashes is taken for a way to another file,
which is in the index twice then. -/
theorem unscanned_names_are_indexed :
    (plainAnalyzer hidingDisk).liveFiles (onDisk hidingDisk) = ["main.rs"] ∧
    ((plainAnalyzer hidingDisk).run
      (askingFor hidingDisk ["./main.rs::x", ".main.rs::x"])).index.files =
        ["./main.rs", ".main.rs", "main.rs"] ∧
    hidingDisk.locate (Index.pathOf ["work"] "./main.rs") =
      hidingDisk.locate (Index.pathOf ["work"] "main.rs") ∧
    ((plainAnalyzer backslashDisk).run (askingFor backslashDisk [])).index.files =
      ["x//b.rs", "x/b.rs"] ∧
    backslashDisk.locate (Index.pathOf ["work"] "x//b.rs") =
      backslashDisk.locate (Index.pathOf ["work"] "x/b.rs") := by
  refine ⟨liveFiles_hidingDisk, ?_, by decide, ?_, by decide⟩
  · rw [run_askingFor liveFiles_hidingDisk]
    decide +kernel
  · rw [run_askingFor liveFiles_backslashDisk]
    decide +kernel

end Examples

end Analyzer

end CodeSearch
