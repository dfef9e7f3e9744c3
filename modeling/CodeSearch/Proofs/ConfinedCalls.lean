import CodeSearch.Proofs.ConfinedPaths
import CodeSearch.Proofs.ScannedFiles

/-!
# Confined calls

Names that lead outside a workspace are refused, and what is read under the others lies in the
workspace. So calls with names cannot tell two disks apart that agree in the workspace. They can
if the watcher still has to look through a new directory: a scan hears the ignore files around
the workspace as well.
-/
namespace CodeSearch

/-- A path that is empty, absolute or has a step upwards. -/
def Path.Escapes (path : String) : Prop :=
  path = "" ∨ isAbsolute path = true ∨ .parent ∈ components path

def Surroundings.on (s : Surroundings) (d : Disk) : Surroundings :=
  { s with disk := d }

section Watching

variable {d d' : Disk} {now : ℕ}

/-- An event tells neither of an ignore file nor of a new directory. -/
def DiskEvent.IsPlain (d : Disk) (e : DiskEvent) : Prop :=
  ∀ l ∈ e.locations, l.getLast? ≠ some gitignoreName ∧
    (Watcher.makes e = true → d.isDirectory l = false)

namespace Watcher

lemma handleAt_eq {w : Watcher} {e : DiskEvent} (he : e.IsPlain d) {l : Location}
    (hl : l ∈ e.locations) : w.handleAt d e l =
      if unmakes e && w.watched.contains l then (w.forget l, [])
      else (w, if w.isRelevantFile l then [w.nameOf l] else []) := by
  obtain ⟨hname, hnew⟩ := he l hl
  have hmakes : (makes e && d.isDirectory l) = false := by
    cases hmakes : makes e with
    | false => rfl
    | true => exact hnew hmakes
  rw [handleAt, if_neg hname, hmakes]
  rfl

lemma handle_congr {w : Watcher} {e : DiskEvent} (he : e.IsPlain d) (he' : e.IsPlain d') :
    w.handle d e = w.handle d' e := by
  refine List.foldl_ext _ _ _ fun acc l hl => ?_
  rw [handleAt_eq he hl, handleAt_eq he' hl]

end Watcher

namespace WatchLoop

/-- All events that wait are plain. -/
def IsQuiet (d : Disk) (w : WatchLoop) : Prop :=
  ∀ e ∈ w.events, e.IsPlain d

lemma handleAll_congr {w : WatchLoop} (h : w.IsQuiet d) (h' : w.IsQuiet d') :
    w.handleAll d now = w.handleAll d' now := by
  refine List.foldl_ext _ _ _ fun x e he => ?_
  rw [handle, handle, Watcher.handle_congr (h e he) (h' e he)]

lemma events_handleAll (w : WatchLoop) : (w.handleAll d now).events = [] := by
  have hfold (es : List DiskEvent) (x : WatchLoop) :
      (es.foldl (handle d now) x).events = x.events := by
    induction es generalizing x with
    | nil => rfl
    | cons e es ih => exact ih _
  exact hfold _ _

/-- After an action no other events wait than those that did or that it delivers. -/
lemma IsQuiet.takeCommand {w : WatchLoop} (h : w.IsQuiet d') (d : Disk) (now : ℕ) :
    (w.act d now .takeCommand).IsQuiet d' := by
  simp only [act]
  split
  · next command commands _ =>
    split
    · cases command with
      | shutdown => exact h
      | flush caller =>
        have hnone : ({ w with commands }.obey d now (.flush caller)).events = [] := by
          unfold obey
          dsimp only
          split <;> exact events_handleAll _
        rw [IsQuiet, hnone]
        simp
    · exact h
  · exact h

lemma takeCommand_congr {w : WatchLoop} (h : w.IsQuiet d) (h' : w.IsQuiet d') :
    w.act d now .takeCommand = w.act d' now .takeCommand := by
  simp only [act]
  split
  · next command commands _ =>
    split
    · cases command with
      | shutdown => rfl
      | flush caller =>
        have hsame : handleAll d now { w with commands } = handleAll d' now { w with commands } :=
          handleAll_congr h h'
        simp only [obey, hsame]
    · rfl
  · rfl

/-- With plain events only, a flush does not depend on the disk, and leaves such events only. -/
lemma flush_congr {w : WatchLoop} (h : w.IsQuiet d) (h' : w.IsQuiet d') (now caller : ℕ) :
    w.flush d now caller = w.flush d' now caller ∧ (w.flush d now caller).IsQuiet d ∧
      (w.flush d now caller).IsQuiet d' := by
  set x := w.act d now (.call (.flush caller))
  have hevents : x.events = w.events := by
    simp only [x, act]
    split <;> rfl
  have hx : x.IsQuiet d := by rw [IsQuiet, hevents]; exact h
  have hx' : x.IsQuiet d' := by rw [IsQuiet, hevents]; exact h'
  have hfire (y : WatchLoop) : (y.act d now .fire).events = y.events := by
    simp only [act]
    split
    · rfl
    · split <;> rfl
  have hflush : w.flush d now caller = (x.act d now .takeCommand).act d now .fire := rfl
  have hflush' : w.flush d' now caller = (x.act d' now .takeCommand).act d' now .fire := rfl
  refine ⟨?_, ?_, ?_⟩
  · rw [hflush, hflush', takeCommand_congr hx hx']
    rfl
  · rw [hflush, IsQuiet, hfire]
    exact hx.takeCommand d now
  · rw [hflush, IsQuiet, hfire]
    exact hx'.takeCommand d now

end WatchLoop

end Watching

namespace Analyzer

variable {a b c : Analyzer Store} {s : Surroundings} {d d' : Disk} {file id : String}
  {files ids : List String}

structure SamePlace (a b : Analyzer Store) : Prop where
  root : b.root = a.root
  watch : b.watch = a.watch

lemma SamePlace.refl (a : Analyzer Store) : a.SamePlace a :=
  ⟨rfl, rfl⟩

lemma SamePlace.trans (h : a.SamePlace b) (h' : b.SamePlace c) : a.SamePlace c :=
  ⟨h'.root.trans h.root, h'.watch.trans h.watch⟩

lemma samePlace_settleFile (a : Analyzer Store) (file : String) (reading : Option ChunkedFile) :
    a.SamePlace (a.settleFile file reading).2 := by
  cases reading with
  | none =>
    rw [settleFile, removeFile]
    split <;> exact ⟨rfl, rfl⟩
  | some x =>
    rw [settleFile, replaceFile]
    split <;> exact ⟨rfl, rfl⟩

/-- Two disks that calls with names cannot tell apart: they agree in the workspace, and no event
waits that has the watcher look around. -/
structure CannotTell (a : Analyzer Store) (d d' : Disk) : Prop where
  tree : d.IsTree
  tree' : d'.IsTree
  agree : Disk.AgreeUnder a.root d d'
  quiet : ∀ w ∈ a.watch, w.IsQuiet d ∧ w.IsQuiet d'
  names : ∀ name ∈ a.root, IsName name

lemma CannotTell.of_samePlace (h : a.CannotTell d d') (hb : a.SamePlace b) :
    b.CannotTell d d' := by
  refine ⟨h.tree, h.tree', ?_, ?_, ?_⟩
  · rw [hb.root]
    exact h.agree
  · rw [hb.watch]
    exact h.quiet
  · rw [hb.root]
    exact h.names

variable [QueryCompiler]

lemma samePlace_extract (a : Analyzer Store) (s : Surroundings) (file : String) :
    a.SamePlace (a.extract s file).2 := by
  unfold extract
  split
  · exact .refl a
  · split
    · exact .refl a
    · split
      · exact ⟨rfl, rfl⟩
      · dsimp only
        split <;> exact ⟨rfl, rfl⟩

lemma samePlace_readFile (a : Analyzer Store) (s : Surroundings) (file : String) :
    a.SamePlace (a.readFile s file).2 := by
  unfold readFile
  split
  · exact .refl a
  · split
    · exact .refl a
    · exact samePlace_extract a s file

lemma samePlace_processFile (a : Analyzer Store) (s : Surroundings) (file : String) :
    a.SamePlace (a.processFile s file).2 := by
  have hread := samePlace_readFile a s file
  rw [processFile_eq]
  split
  · next h => rwa [h] at hread
  · next h =>
    rw [h] at hread
    exact hread.trans (samePlace_settleFile _ _ _)

lemma samePlace_foldl (a : Analyzer Store) (s : Surroundings) (files : List String) :
    a.SamePlace (files.foldl (processNext s) a) := by
  induction files generalizing a with
  | nil => exact .refl a
  | cons file files ih =>
    obtain ⟨hroot, hwatch⟩ := samePlace_processFile a s file
    have hnext : a.SamePlace (processNext s a file) := ⟨hroot, hwatch⟩
    exact hnext.trans (ih _)

lemma samePlace_processFiles (a : Analyzer Store) (s : Surroundings) (files : List String) :
    a.SamePlace (a.processFiles s files) := by
  unfold processFiles
  dsimp only
  split
  · exact ⟨rfl, rfl⟩
  · obtain ⟨hroot, hwatch⟩ :=
      samePlace_foldl { a with progress := a.progress.start files.length } s files
    exact ⟨hroot, hwatch⟩

lemma samePlace_refresh (a : Analyzer Store) (s : Surroundings) (done : Refreshed)
    (file : String) : a.SamePlace (a.refresh s done file).2.2 := by
  have hfile := samePlace_processFile a s file
  unfold refresh
  split
  · exact .refl a
  · split <;> next h => rwa [h] at hfile

lemma samePlace_sourceOf (a : Analyzer Store) (s : Surroundings) (done : Refreshed)
    (id : String) : a.SamePlace (a.sourceOf s done id).2.2 := by
  unfold sourceOf
  split
  · exact .refl a
  · next file _ _ =>
    have hfile := samePlace_refresh a s done file
    split
    · exact .refl a
    · split <;> next h => rwa [h] at hfile

lemma samePlace_sourcesFrom (a : Analyzer Store) (s : Surroundings) (done : Refreshed)
    (ids : List String) : a.SamePlace (sourcesFrom s done a ids).2 := by
  induction ids generalizing done a with
  | nil => exact .refl a
  | cons id ids ih => exact (samePlace_sourceOf a s done id).trans (ih _ _)

/-- A file is read alike on both disks, or it is missing on both. -/
lemma CannotTell.readFile_congr (h : a.CannotTell d d') :
    a.readFile (s.on d) file = a.readFile (s.on d') file := by
  unfold readFile
  cases hinside : Path.staysInside file with
  | false => rfl
  | true =>
    have hdisk : (s.on d).disk = d := rfl
    have hdisk' : (s.on d').disk = d' := rfl
    rcases h.agree.find_pathOf h.tree h.tree' h.names hinside with hfind | ⟨hgone, hgone'⟩
    · have hhas : d.has (Index.pathOf a.root file) = d'.has (Index.pathOf a.root file) := by
        rw [Disk.has, Disk.has, hfind]
      have htext : d.readText (Path.join a.root.path file) =
          d'.readText (Path.join a.root.path file) := by
        rw [Index.pathOf] at hfind
        rw [Disk.readText, Disk.readText, hfind]
      have hextract : a.extract (s.on d) file = a.extract (s.on d') file := by
        simp only [extract, Chunker.chunkFile, hdisk, hdisk', htext]
        rfl
      simp only [hdisk, hdisk', hhas, hextract]
    · simp [hdisk, hdisk', hgone, hgone']

lemma CannotTell.processFile_congr (h : a.CannotTell d d') :
    a.processFile (s.on d) file = a.processFile (s.on d') file := by
  rw [processFile_eq, processFile_eq, h.readFile_congr]

lemma CannotTell.foldl_congr (h : a.CannotTell d d') (s : Surroundings) (files : List String) :
    files.foldl (processNext (s.on d)) a = files.foldl (processNext (s.on d')) a := by
  induction files generalizing a with
  | nil => rfl
  | cons file files ih =>
    have hone : processNext (s.on d) a file = processNext (s.on d') a file := by
      rw [processNext, processNext, h.processFile_congr]
    rw [List.foldl_cons, List.foldl_cons, ← hone]
    exact ih (h.of_samePlace (samePlace_foldl a (s.on d) [file]))

lemma CannotTell.processFiles_congr (h : a.CannotTell d d') :
    a.processFiles (s.on d) files = a.processFiles (s.on d') files := by
  have hstarted : CannotTell { a with progress := a.progress.start files.length } d d' :=
    h.of_samePlace ⟨rfl, rfl⟩
  have hfold := hstarted.foldl_congr s files
  unfold processFiles
  dsimp only
  rw [hfold]
  rfl

lemma CannotTell.sourceOf_congr (h : a.CannotTell d d') {done : Refreshed} :
    a.sourceOf (s.on d) done id = a.sourceOf (s.on d') done id := by
  have hrefresh (file : String) :
      a.refresh (s.on d) done file = a.refresh (s.on d') done file := by
    rw [refresh, refresh, h.processFile_congr]
  simp only [sourceOf, hrefresh]

lemma CannotTell.sourcesFrom_congr (h : a.CannotTell d d') {done : Refreshed} :
    sourcesFrom (s.on d) done a ids = sourcesFrom (s.on d') done a ids := by
  induction ids generalizing done a with
  | nil => rfl
  | cons id ids ih =>
    rw [sourcesFrom, sourcesFrom, ← h.sourceOf_congr]
    dsimp only
    rw [ih (h.of_samePlace (samePlace_sourceOf a (s.on d) done id))]

/-- What the watcher hands on is processed alike, and no new events wait afterwards. -/
lemma CannotTell.handleBatch_congr (h : a.CannotTell d d') (s : Surroundings) :
    a.handleBatch (s.on d) = a.handleBatch (s.on d') ∧
      (a.handleBatch (s.on d)).CannotTell d d' := by
  unfold handleBatch
  cases hwatch : a.watch with
  | none => exact ⟨rfl, h⟩
  | some w =>
    dsimp only
    cases hrunning : w.running with
    | none => exact ⟨rfl, h⟩
    | some batch =>
      have hfiles := h.of_samePlace (samePlace_processFiles a (s.on d) batch.files)
      have hevents : (w.act d (ticks s) .complete).events = w.events := by
        rw [WatchLoop.act, hrunning]
        rfl
      refine ⟨?_, hfiles.tree, hfiles.tree', hfiles.agree, ?_, hfiles.names⟩
      · dsimp only
        rw [← h.processFiles_congr]
        rfl
      · rintro _ ⟨⟩
        have hquiet := h.quiet w hwatch
        rwa [WatchLoop.IsQuiet, WatchLoop.IsQuiet, ← hevents] at hquiet

lemma CannotTell.flush_congr (h : a.CannotTell d d') (s : Surroundings) :
    a.flush (s.on d) = a.flush (s.on d') ∧ (a.flush (s.on d)).CannotTell d d' := by
  unfold flush
  cases hwatch : a.watch with
  | none => exact ⟨rfl, h⟩
  | some w =>
    obtain ⟨hquiet, hquiet'⟩ := h.quiet w hwatch
    obtain ⟨hsame, hleft, hleft'⟩ := WatchLoop.flush_congr hquiet hquiet' (ticks s) 0
    have hflushed : CannotTell { a with watch := some (w.flush d (ticks s) 0) } d d' := by
      refine ⟨h.tree, h.tree', h.agree, ?_, h.names⟩
      rintro _ ⟨⟩
      exact ⟨hleft, hleft'⟩
    have hbatch := hflushed.handleBatch_congr s
    refine ⟨hbatch.1.trans ?_, hbatch.2⟩
    rw [hsame]
    rfl

lemma CannotTell.findSimilar_congr (h : a.CannotTell d d') (s : Surroundings) (id : String) :
    a.findSimilar (s.on d) id = a.findSimilar (s.on d') id ∧
      (a.findSimilar (s.on d) id).2.CannotTell d d' := by
  unfold findSimilar
  split
  · exact ⟨rfl, h⟩
  · obtain ⟨hsame, hflush⟩ := h.flush_congr s
    dsimp only
    rw [← hsame]
    exact ⟨rfl, hflush⟩

end Analyzer

inductive NameCall where
  | sources (ids : List String)
  | findSimilar (id : String)
  | processFiles (files : List String)

inductive NameAnswer where
  | text (found : String)
  | hits (found : Except IndexError (List Hit))
  | done

namespace Analyzer

lemma settleFile_progress (a : Analyzer Store) (file : String) (reading : Option ChunkedFile)
    (progress : Progress) : settleFile { a with progress } file reading =
      ((a.settleFile file reading).1, { (a.settleFile file reading).2 with progress }) := by
  cases reading with
  | none =>
    simp only [settleFile, removeFile]
    split <;> rfl
  | some x =>
    simp only [settleFile, replaceFile]
    split <;> rfl

section Answers

variable [QueryCompiler] {a : Analyzer Store} {d d' : Disk}

def answer (a : Analyzer Store) (s : Surroundings) : NameCall → NameAnswer × Analyzer Store
  | .sources ids => (.text (a.sources s ids).1, (a.sources s ids).2)
  | .findSimilar id => (.hits (a.findSimilar s id).1, (a.findSimilar s id).2)
  | .processFiles files => (.done, a.processFiles s files)

/-- The answers to some calls on a disk that stands still, each with the analyzer afterwards. -/
def answers (d : Disk) :
    Analyzer Store → List (Surroundings × NameCall) → List (NameAnswer × Analyzer Store)
  | _, [] => []
  | a, (s, call) :: calls => a.answer (s.on d) call :: answers d (a.answer (s.on d) call).2 calls

lemma CannotTell.answer_congr (h : a.CannotTell d d') (s : Surroundings) (call : NameCall) :
    a.answer (s.on d) call = a.answer (s.on d') call ∧
      (a.answer (s.on d) call).2.CannotTell d d' := by
  cases call with
  | sources ids =>
    refine ⟨?_, h.of_samePlace (samePlace_sourcesFrom a (s.on d) [] ids)⟩
    simp only [answer, sources, h.sourcesFrom_congr]
  | findSimilar id =>
    obtain ⟨hsame, hafter⟩ := h.findSimilar_congr s id
    refine ⟨?_, hafter⟩
    simp only [answer, hsame]
  | processFiles files =>
    refine ⟨?_, h.of_samePlace (samePlace_processFiles a (s.on d) files)⟩
    simp only [answer, h.processFiles_congr]

lemma CannotTell.answers_congr (h : a.CannotTell d d')
    (calls : List (Surroundings × NameCall)) : a.answers d calls = a.answers d' calls := by
  induction calls generalizing a with
  | nil => rfl
  | cons timed calls ih =>
    obtain ⟨s, call⟩ := timed
    obtain ⟨hsame, hafter⟩ := h.answer_congr s call
    rw [answers, answers, ← hsame, ih hafter]

end Answers

section Refusals

variable [QueryCompiler] {a b : Analyzer Store} {s : Surroundings} {file id : String}

/-- An identifier is refused wherever it is given, and nothing else comes of it. -/
structure RefusesId (a : Analyzer Store) (s : Surroundings) (id : String) : Prop where
  similar : a.findSimilar s id = (.error (.invalidChunkId id), a)
  source : ∀ done ids, sourcesFrom s done a (id :: ids) =
    (("== " ++ id ++ " ==\n\n" ++ "<invalid chunk id>" ++ "\n\n") :: (sourcesFrom s done a ids).1,
      (sourcesFrom s done a ids).2)

/-- A file is refused, and a batch comes to the same index without it. -/
structure RefusesFile (a : Analyzer Store) (s : Surroundings) (file : String) : Prop where
  alone : a.processFile s file =
    (.error (.invalidPath (file ++ " is outside the workspace")), a)
  batch : ∀ before after, (a.processFiles s (before ++ file :: after)).index =
    (a.processFiles s (before ++ after)).index

lemma refusesId_of_escapes (h : ∀ parts ∈ ChunkId.split? id, Path.Escapes parts.1) :
    a.RefusesId s id := by
  have hsource (done : Refreshed) : a.sourceOf s done id = ("<invalid chunk id>", done, a) := by
    unfold sourceOf
    cases hsplit : ChunkId.split? id with
    | none => rfl
    | some parts =>
      have hinside := (Path.staysInside_eq_false_iff parts.1).mpr (h parts hsplit)
      simp [hinside]
  have hid : isChunkId id = false := by
    unfold isChunkId
    cases hsplit : ChunkId.split? id with
    | none => rfl
    | some parts => exact (Path.staysInside_eq_false_iff parts.1).mpr (h parts hsplit)
  constructor
  · rw [findSimilar, if_pos (by simp [hid])]
  · intro done ids
    rw [sourcesFrom, hsource]

lemma processFile_of_escapes (h : Path.Escapes file) (a : Analyzer Store) (s : Surroundings) :
    a.processFile s file =
      (.error (.invalidPath (file ++ " is outside the workspace")), a) := by
  rw [processFile, if_pos (by simp [(Path.staysInside_eq_false_iff file).mpr h])]

lemma readFile_progress (a : Analyzer Store) (s : Surroundings) (file : String)
    (progress : Progress) : readFile { a with progress } s file =
      ((a.readFile s file).1, { (a.readFile s file).2 with progress }) := by
  unfold readFile
  split
  · rfl
  · split
    · rfl
    · unfold extract chunker
      split
      · rfl
      · dsimp only
        split
        · rfl
        · split
          · rfl
          · split <;> rfl

/-- How far indexing has got has no part in what becomes of a file. -/
lemma processFile_progress (a : Analyzer Store) (s : Surroundings) (file : String)
    (progress : Progress) : processFile { a with progress } s file =
      ((a.processFile s file).1, { (a.processFile s file).2 with progress }) := by
  rw [processFile_eq, processFile_eq, readFile_progress]
  cases a.readFile s file with
  | mk outcome b =>
    cases outcome with
    | error e => rfl
    | ok reading => exact settleFile_progress b file reading progress

lemma index_foldl_progress (a : Analyzer Store) (s : Surroundings) (files : List String)
    (progress : Progress) : (files.foldl (processNext s) { a with progress }).index =
      (files.foldl (processNext s) a).index := by
  induction files generalizing a progress with
  | nil => rfl
  | cons file files ih =>
    rw [List.foldl_cons, List.foldl_cons, processNext, processNext, processFile_progress]
    exact (ih _ _).trans (ih _ _).symm

lemma index_processFiles (a : Analyzer Store) (s : Surroundings) (files : List String) :
    (a.processFiles s files).index =
      if a.isClosed then a.index else (files.foldl (processNext s) a).index := by
  unfold processFiles
  dsimp only
  split
  · rfl
  · exact index_foldl_progress a s files _

lemma refusesFile_of_escapes (h : Path.Escapes file) : a.RefusesFile s file := by
  refine ⟨processFile_of_escapes h a s, fun before after => ?_⟩
  have hnext (b : Analyzer Store) :
      processNext s b file = { b with progress := b.progress.advance } := by
    rw [processNext, processFile_of_escapes h]
  rw [index_processFiles, index_processFiles, List.foldl_append, List.foldl_cons, hnext,
    index_foldl_progress, List.foldl_append]

end Refusals

/-- The path of a name goes by the steps of the workspace and then by names alone, and leads to
nothing else on any disk. -/
structure LiesInside (root : Location) (file : String) : Prop where
  path : ∃ names : List String, Path.components (Index.pathOf root file) =
    Path.components root.path ++ names.map .normal
  place : ∀ (d : Disk) l, d.locate (Index.pathOf root file) = .ok l → root <+: l

/-- A name that leads outside is refused, and any other lies in the workspace. So the answers to
calls with names, and the analyzers that they leave behind, are the same on two disks that such
calls cannot tell apart. -/
theorem calls_stay_in_the_workspace [QueryCompiler] {a : Analyzer Store}
    (hroot : ∀ name ∈ a.root, IsName name) (s : Surroundings) :
    (∀ id, (∀ parts ∈ ChunkId.split? id, Path.Escapes parts.1) → a.RefusesId s id) ∧
    (∀ file, Path.Escapes file → a.RefusesFile s file) ∧
    (∀ file, ¬ Path.Escapes file → LiesInside a.root file) ∧
    ∀ d d', a.CannotTell d d' → ∀ calls, a.answers d calls = a.answers d' calls := by
  refine ⟨fun id => refusesId_of_escapes, fun file => refusesFile_of_escapes, fun file hfile => ?_,
    fun d d' h => h.answers_congr⟩
  have hinside : Path.staysInside file = true := by
    by_contra hout
    exact hfile ((Path.staysInside_eq_false_iff file).mp (Bool.eq_false_iff.mpr hout))
  exact ⟨Location.exists_components_pathOf hroot hinside,
    fun d l => Disk.prefix_of_locate_pathOf hroot hinside⟩

/-- A workspace with a file in a directory, and what there is around it. -/
def wideDisk (outside : List (Location × DiskEntry)) : Disk where
  entries := [(["top"], .directory), (["top", "ws"], .directory),
    (["top", "ws", "pkg"], .directory),
    (["top", "ws", "pkg", "late.rs"], .file "fn f() {}".toUTF8 1)] ++ outside

/-- An ignore file beside the workspace. -/
def outerRules : List (Location × DiskEntry) :=
  [(["top", ".gitignore"], .file "late.rs\n".toUTF8 1)]

/-- The directory is empty yet. -/
def emptyDisk : Disk where
  entries := [(["top"], .directory), (["top", "ws"], .directory),
    (["top", "ws", "pkg"], .directory)]

/-- The file is written. -/
def writeLate : DiskChange :=
  .write ["top", "ws", "pkg", "late.rs"] "fn f() {}".toUTF8 1

/-- The directory stands beside the workspace. -/
def besideDisk : Disk where
  entries := [(["top"], .directory), (["top", "ws"], .directory), (["top", "pkg"], .directory),
    (["top", "pkg", "late.rs"], .file "fn f() {}".toUTF8 1)]

/-- The directory is moved into the workspace. -/
def moveInside : DiskChange :=
  .move ["top", "pkg"] ["top", "ws", "pkg"]

attribute [local instance] QueryCompiler.plain

def startedOn (d : Disk) : Analyzer Store :=
  (unstarted (onDisk d) ["top", "ws"] {} (.inMemory (.ofTable .empty 2))).run
    [(onDisk d, .indexWorkspace)]

/-- The analyzer has been started, and its watcher still has an event to take in. -/
def waitingAnalyzer (d : Disk) (e : DiskEvent) : Analyzer Store :=
  (startedOn d).serve (onDisk (wideDisk []), .deliver e)

/-- The analyzer has been started on a disk, and what is reported of a change waits for its
watcher. -/
structure Awaits (d : Disk) (c : DiskChange) (e : DiskEvent) : Prop where
  started : withStore (onDisk d) "top/ws" {} (.inMemory (.ofTable .empty 2)) = .ok (startedOn d)
  change : d.change c = .ok (wideDisk [])
  reported : ((startedOn d).watch.map fun w => DiskEvent.ofChange w.watcher.watched d c) = some [e]

/-- An analyzer with an empty index that watches some directories of the workspace. -/
def watchfulAnalyzer (watched : List Location) : Analyzer Store where
  root := ["top", "ws"]
  config := {}
  index := { root := ["top", "ws"], store := .inMemory (.ofTable .empty 2) }
  watch := some {
    watcher := {
      root := ["top", "ws"], excluded := ["/top/ws/.codescope/db"], watched, rules := ⟨[]⟩ }
    pending := { quiet := 60 } }

/-- The directories that are watched from the start on a disk without files that are listed and
without ignore files. -/
lemma startedOn_eq {d : Disk} (watched : List Location)
    (hrules : IgnoreFiles.ofDisk d = Watcher.rawIgnoreFiles d)
    (hwatched : (d.directories.filter fun l =>
      (Watcher.scannerOf ["/top/ws/.codescope/db"] ["top", "ws"]).reaches
        (Watcher.rawIgnoreFiles d) l true) = watched)
    (hsorted : watched.Pairwise fun l l' => l.precedes l' = true)
    (hplain : watched.filterMap (IgnoreFile.inDirectory? d [gitignoreName]) = [])
    (hfiles : (d.files.filter fun l => (watchfulAnalyzer watched).scanner.reaches
      (Watcher.rawIgnoreFiles d) l false && (Language.ofPath? l.path).isSome) = []) :
    startedOn d = (watchfulAnalyzer watched).processFiles (onDisk d) [] := by
  have hpath : Config.storePath {} (Location.path ["top", "ws"]) = "/top/ws/.codescope/db" := by
    decide
  have hexcluded : storePath (watchfulAnalyzer watched) = "/top/ws/.codescope/db" := hpath
  have hunstarted : unstarted (onDisk d) ["top", "ws"] {} (.inMemory (.ofTable .empty 2)) =
      watchfulAnalyzer watched := by
    rw [unstarted, beginWatch, if_pos rfl]
    change { watchfulAnalyzer watched with
      watch := some (.ofRoot d ["top", "ws"] [storePath (watchfulAnalyzer watched)] 60) } = _
    rw [hexcluded, WatchLoop.ofRoot, Watcher.ofRoot_eq watched hrules hwatched hsorted hplain]
    rfl
  have hlive : (watchfulAnalyzer watched).liveFiles (onDisk d) = [] :=
    liveFiles_eq [] hrules hfiles .nil
  rw [startedOn, hunstarted]
  exact run_indexWorkspace rfl hlive

lemma startedOn_emptyDisk : startedOn emptyDisk =
    (watchfulAnalyzer [["top", "ws"], ["top", "ws", "pkg"]]).processFiles (onDisk emptyDisk) [] :=
  startedOn_eq _ (Watcher.ofDisk_eq_raw (by decide) (by decide) (by decide)) (by decide +kernel)
    (by decide) (List.length_eq_zero_iff.mp (by decide)) (by decide +kernel)

lemma startedOn_besideDisk : startedOn besideDisk =
    (watchfulAnalyzer [["top", "ws"]]).processFiles (onDisk besideDisk) [] :=
  startedOn_eq _ (Watcher.ofDisk_eq_raw (by decide) (by decide) (by decide)) (by decide +kernel)
    (by decide) (List.length_eq_zero_iff.mp (by decide)) (by decide +kernel)

/-- The indexed files after one search for what is like a chunk. -/
def filesAfter (a : Analyzer Store) (d : Disk) : List (List String) :=
  (a.answers d [(onDisk {}, .findSimilar "pkg/late.rs::f")]).map fun r => r.2.index.files

lemma isTree_wideDisk : (wideDisk []).IsTree ∧ (wideDisk outerRules).IsTree := by
  constructor <;> exact Disk.isTree_of_entries (by decide)

lemma agreeUnder_wideDisk :
    Disk.AgreeUnder ["top", "ws"] (wideDisk []) (wideDisk outerRules) :=
  Disk.agreeUnder_append (by decide)

/-- What is reported of the new file. -/
def lateCreated : DiskEvent :=
  .created ["top", "ws", "pkg", "late.rs"]

/-- What is reported of the directory at its new place. -/
def directoryMoved : DiskEvent :=
  .renamed [["top", "ws", "pkg"]]

lemma awaits_lateCreated : Awaits emptyDisk writeLate lateCreated where
  started := withStore_eq rfl (by decide)
  change := rfl
  reported := by
    rw [startedOn_emptyDisk]
    decide +kernel

lemma awaits_directoryMoved : Awaits besideDisk moveInside directoryMoved where
  started := withStore_eq rfl (by decide)
  change := rfl
  reported := by
    rw [startedOn_besideDisk]
    decide +kernel

/-- That a file has been written is no reason to look around. -/
theorem written_file_is_read_alike :
    Awaits emptyDisk writeLate lateCreated ∧
    (∀ name ∈ (waitingAnalyzer emptyDisk lateCreated).root, IsName name) ∧
    (waitingAnalyzer emptyDisk lateCreated).CannotTell (wideDisk []) (wideDisk outerRules) ∧
    (waitingAnalyzer emptyDisk lateCreated).RefusesId (onDisk (wideDisk [])) "../late.rs::f" ∧
    (waitingAnalyzer emptyDisk lateCreated).RefusesFile (onDisk (wideDisk [])) "/top/late.rs" ∧
    LiesInside ["top", "ws"] "pkg/late.rs" ∧
    ∀ calls, (waitingAnalyzer emptyDisk lateCreated).answers (wideDisk []) calls =
      (waitingAnalyzer emptyDisk lateCreated).answers (wideDisk outerRules) calls := by
  set a := waitingAnalyzer emptyDisk lateCreated with ha
  rw [waitingAnalyzer, startedOn_emptyDisk] at ha
  have hrootEq : a.root = ["top", "ws"] := by rw [ha]; decide +kernel
  have hroot : ∀ name ∈ a.root, IsName name := by
    rw [hrootEq]
    intro name hname
    rcases List.mem_pair.mp hname with rfl | rfl <;>
      exact ⟨by decide, by decide, by decide, by decide⟩
  have hevents : a.watch.map (·.events) = some [lateCreated] := by
    rw [ha]
    decide +kernel
  have htell : a.CannotTell (wideDisk []) (wideDisk outerRules) := by
    refine ⟨isTree_wideDisk.1, isTree_wideDisk.2, hrootEq ▸ agreeUnder_wideDisk, ?_, hroot⟩
    intro w hw
    have hwaiting : w.events = [lateCreated] := by
      rw [Option.mem_def.mp hw] at hevents
      exact Option.some.inj hevents
    constructor <;>
    · rw [WatchLoop.IsQuiet, hwaiting]
      intro e he
      obtain rfl := List.mem_singleton.mp he
      intro l hl
      obtain rfl := List.mem_singleton.mp hl
      exact ⟨by decide, by decide⟩
  obtain ⟨hids, hfiles, hinside, hcalls⟩ :=
    calls_stay_in_the_workspace hroot (onDisk (wideDisk []))
  have hparts : ChunkId.split? "../late.rs::f" = some ("../late.rs", "f") := by decide
  refine ⟨awaits_lateCreated, hroot, htell, hids _ ?_, hfiles _ (.inr (.inl (by decide))),
    hrootEq ▸ hinside _ ?_, hcalls _ _ htell⟩
  · rw [hparts]
    rintro _ ⟨⟩
    exact .inr (.inr (by decide))
  · rw [Path.Escapes]
    decide

/-- The watcher looks through a new directory. Then it is told what to leave out by an ignore file
that does not lie in the workspace. -/
theorem rules_around_the_workspace_are_heard :
    Awaits besideDisk moveInside directoryMoved ∧
    (wideDisk []).IsTree ∧ (wideDisk outerRules).IsTree ∧
    Disk.AgreeUnder ["top", "ws"] (wideDisk []) (wideDisk outerRules) ∧
    (waitingAnalyzer besideDisk directoryMoved).filesAfter (wideDisk []) = [["pkg/late.rs"]] ∧
    (waitingAnalyzer besideDisk directoryMoved).filesAfter (wideDisk outerRules) = [[]] := by
  refine ⟨awaits_directoryMoved, isTree_wideDisk.1, isTree_wideDisk.2, agreeUnder_wideDisk, ?_, ?_⟩
  all_goals
    rw [waitingAnalyzer, startedOn_besideDisk]
    decide +kernel

end Analyzer

end CodeSearch
