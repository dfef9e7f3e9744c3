import CodeSearch.Proofs.ConfinedCalls
import CodeSearch.Proofs.SettledComparisons
import CodeSearch.Proofs.WatchRuns

/-!
# Directories that vanish

A watched directory is removed, or moved to another place, and of all that was in it only the
directory itself is reported. The watcher forgets the directory and notes no file for it. So a
flush leaves the chunks of every vanished file in the index that has not been noted on its own
account, until the whole workspace is compared with the disk again.
-/
namespace CodeSearch

/-- A directory that is not there any more is reported by its path alone. -/
inductive DiskEvent.Unmakes (d : Disk) (l : Location) : DiskEvent → Prop where
  | removed (hgone : d.isDirectory l = false) : Unmakes d l (.removed l)
  | renamed (hgone : d.isDirectory l = false) : Unmakes d l (.renamed [l])

namespace Watcher

variable {w : Watcher} {d : Disk} {l : Location} {e : DiskEvent}

/-- What becomes of such a report of a watched directory: no file is noted for it. -/
lemma handle_of_unmakes (h : e.Unmakes d l) (hl : l ∈ w.watched) :
    w.handle d e =
      (if l.getLast? = some gitignoreName then w.reloadRules d else w.forget l, []) := by
  have hwatched : w.watched.contains l = true := by simpa using hl
  have hat (hmakes : (makes e && d.isDirectory l) = false) (hunmakes : unmakes e = true) :
      w.handleAt d e l =
        (if l.getLast? = some gitignoreName then w.reloadRules d else w.forget l, []) := by
    rw [handleAt, hmakes, hunmakes, hwatched]
    split <;> rfl
  cases h with
  | removed hgone => simp [handle, DiskEvent.locations, hat rfl rfl]
  | renamed hgone => simp [handle, DiskEvent.locations, hat (by simp [hgone]) rfl]

lemma not_prefix_of_forget {x : Location} (hx : x ∈ (w.forget l).watched) : ¬ l <+: x := by
  have hkeep := (List.mem_filter.mp hx).2
  simpa [← List.isPrefixOf_iff_prefix] using hkeep

end Watcher

namespace WatchLoop

variable {w : WatchLoop} {d : Disk} {now caller : ℕ}

lemma exists_handleAll (w : WatchLoop) (d : Disk) (now : ℕ) :
    ∃ watcher pending, w.handleAll d now = { w with events := [], watcher, pending } := by
  rw [handleAll, foldl_handle]
  exact ⟨_, _, rfl⟩

/-- A flush of a loop that is at leisure: if nothing waits the caller is answered, and otherwise
all that waits is to be handled. -/
lemma flush_eq (hready : w.isReady = true) (hcommands : w.commands = []) :
    w.flush d now caller =
      let x := w.handleAll d now
      if x.pending.files = [] then x.answer [caller] .done
      else { x with
        pending := { quiet := x.pending.quiet }
        running := some ⟨x.pending.files, x.pending.waiters ++ [caller]⟩ } := by
  obtain ⟨hopen, hnone⟩ := isReady_iff.mp hready
  have hqueued : { w with commands := [], running := none, isStopped := false } = w := by
    rw [← hcommands, ← hnone, ← hopen]
  have htaken : (w.act d now (.call (.flush caller))).act d now .takeCommand =
      w.obey d now (.flush caller) := by
    rw [← hqueued]
    rfl
  obtain ⟨watcher, pending, hall⟩ := exists_handleAll w d now
  rw [flush, List.foldl_cons, List.foldl_cons, List.foldl_cons, List.foldl_nil, htaken, obey, hall]
  by_cases hempty : pending.files = []
  · simp [PendingSet.request, hempty, act, answer, PendingSet.deadline?]
  · simp [PendingSet.request, hempty, act, PendingSet.deadline?, isReady, hopen, hnone,
      PendingSet.take]

/-- Whoever is answered last gets to know it. -/
lemma answerTo?_answer (x : WatchLoop) (callers : List ℕ) (a : FlushAnswer) :
    (x.answer (callers ++ [caller]) a).answerTo? caller = some a := by
  simp [answerTo?, answer]

/-- No command waits and no batch is being handled. -/
structure AtLeisure (w : WatchLoop) : Prop where
  commands : w.commands = []
  running : w.running = none

lemma AtLeisure.isReady (h : w.AtLeisure) (hopen : w.isStopped = false) : w.isReady = true :=
  isReady_iff.mpr ⟨hopen, h.running⟩

lemma AtLeisure.deliver (h : w.AtLeisure) (e : DiskEvent) :
    (w.act d now (.deliver e)).AtLeisure := by
  rw [act]
  split
  · exact h
  · exact ⟨h.commands, h.running⟩

lemma AtLeisure.takeEvent (h : w.AtLeisure) : (w.act d now .takeEvent).AtLeisure := by
  rw [act]
  split
  · split
    · exact ⟨h.commands, h.running⟩
    · exact h
  · exact h

@[simp] lemma commands_fire (w : WatchLoop) : (w.act d now .fire).commands = w.commands := by
  rw [act]
  split
  · rfl
  · split <;> rfl

lemma AtLeisure.commands_flush (h : w.AtLeisure) : (w.flush d now caller).commands = [] := by
  cases hstopped : w.isStopped with
  | false =>
    obtain ⟨watcher, pending, hall⟩ := exists_handleAll w d now
    rw [flush_eq (h.isReady hstopped) h.commands, hall]
    dsimp only
    split <;> exact h.commands
  | true =>
    rw [flush, List.foldl_cons, List.foldl_cons, List.foldl_cons, List.foldl_nil, commands_fire]
    simp [act, hstopped, answer, h.commands]

lemma AtLeisure.close (h : w.AtLeisure) : (w.close d now).AtLeisure := by
  unfold WatchLoop.close
  split
  · exact h
  · next hopen =>
    have hready := h.isReady (by simpa using hopen)
    have hqueued : (w.act d now (.call .shutdown)) = { w with commands := [.shutdown] } := by
      simp [act, hopen, h.commands]
    rw [List.foldl_cons, List.foldl_cons, List.foldl_nil, hqueued]
    simp only [act]
    split
    · exact ⟨rfl, h.running⟩
    · next hbusy => exact absurd hready hbusy

end WatchLoop

namespace Index

variable {x y : Index Store} {file : String}

lemma Edit.lacks (h : x.Edit file [] y) : y.Lacks file := by
  have hremembers := h.remembers
  rwa [Remembers, if_pos rfl] at hremembers

lemma Spares.mem_files_iff (h : x.Spares file y) : file ∈ y.files ↔ file ∈ x.files := by
  rw [files, files, Catalog.mem_names_iff, Catalog.mem_names_iff, h.cache]

end Index

namespace Analyzer

variable {a : Analyzer Store} {s : Surroundings} {file other : String} {files : List String}

section Batches

variable [QueryCompiler]

/-- Processing a file spares all others, whatever becomes of it. -/
lemma Kept.spares_processNext (ha : a.Kept) (hne : other ≠ file) :
    a.index.Spares other (processNext s a file).index := by
  rw [processNext]
  rcases ha.processFile s file with ⟨chunkers, index, h, -, hedit⟩ |
    ⟨e, chunkers, index, h, -, rfl | hedit⟩
  · rw [h]
    exact hedit.spares (fun c hc => (file_of_mem_currentChunks hc).1) hne
  · rw [h]
    exact ⟨rfl, id⟩
  · rw [h]
    exact hedit.spares (by simp) hne

/-- A file that is gone is forgotten when it is processed. -/
lemma Kept.lacks_processNext (ha : a.Kept) (hinside : Path.staysInside file = true)
    (hgone : s.disk.has (Index.pathOf a.root file) = false) :
    (processNext s a file).index.Lacks file := by
  obtain ⟨index, hremove, hedit⟩ := ha.removeFile file
  rw [processNext, Analyzer.processFile, hinside, hgone]
  simp only [Bool.not_true, Bool.not_false, Bool.false_eq_true, if_false, if_true, hremove]
  exact hedit.lacks

lemma Kept.spares_foldl (ha : a.Kept) (hfile : file ∉ files) :
    a.index.Spares file (files.foldl (processNext s) a).index := by
  induction files generalizing a with
  | nil => exact ⟨rfl, id⟩
  | cons first files ih =>
    rw [List.mem_cons, not_or] at hfile
    have hnext := (ha.persists_processNext s first).kept
    exact (ha.spares_processNext hfile.1).trans (ih hnext hfile.2)

/-- A batch leaves nothing of a file of its own that is gone. The induction is on the files: the
file is lacking from its first occurrence on. -/
lemma Kept.lacks_foldl (ha : a.Kept) (hinside : Path.staysInside file = true)
    (hgone : s.disk.has (Index.pathOf a.root file) = false)
    (hfile : file ∈ files ∨ a.index.Lacks file) :
    (files.foldl (processNext s) a).index.Lacks file := by
  induction files generalizing a with
  | nil => exact hfile.resolve_left (by simp)
  | cons first files ih =>
    have hnext := ha.persists_processNext s first
    refine ih hnext.kept (hnext.root ▸ hgone) ?_
    by_cases hfirst : file = first
    · subst hfirst
      exact .inr (ha.lacks_processNext hinside hgone)
    · refine hfile.imp (fun hmem => (List.mem_cons.mp hmem).resolve_left hfirst) ?_
      exact (ha.spares_processNext hfirst).lacks

lemma Kept.spares_processFiles (ha : a.Kept) (hfile : file ∉ files) :
    a.index.Spares file (a.processFiles s files).index := by
  have hstarted : (a.started files).Kept := ha.congr rfl rfl rfl
  unfold processFiles
  dsimp only
  split
  · exact ⟨rfl, id⟩
  · exact hstarted.spares_foldl hfile

lemma Kept.lacks_processFiles (ha : a.Kept) (hopen : a.isClosed = false)
    (hinside : Path.staysInside file = true)
    (hgone : s.disk.has (Index.pathOf a.root file) = false) (hfile : file ∈ files) :
    (a.processFiles s files).index.Lacks file := by
  have hstarted : (a.started files).Kept := ha.congr rfl rfl rfl
  unfold processFiles
  dsimp only
  rw [if_neg (by simp [hopen])]
  exact hstarted.lacks_foldl hinside hgone (.inl hfile)

end Batches

section Flushes

variable [QueryCompiler] {w : WatchLoop}

/-- What a flush comes to if the loop is at leisure: the caller is answered, and of all files
those that were noted are processed. -/
lemma Kept.flush_spec (ha : a.Kept) (hopen : a.isClosed = false) (hwatch : a.watch = some w)
    (hready : w.isReady = true) (hcommands : w.commands = []) (s : Surroundings) :
    let noted := (w.handleAll s.disk (ticks s)).pending.files
    (∃ x, (a.flush s).watch = some x ∧ x.answerTo? 0 = some .done) ∧
    (∀ file ∉ noted, a.index.Spares file (a.flush s).index) ∧
    (∀ file ∈ noted, Path.staysInside file = true →
      s.disk.has (Index.pathOf a.root file) = false → (a.flush s).index.Lacks file) := by
  obtain ⟨-, hnone⟩ := WatchLoop.isReady_iff.mp hready
  obtain ⟨watcher, pending, hall⟩ := WatchLoop.exists_handleAll w s.disk (ticks s)
  rw [Analyzer.flush, hwatch]
  dsimp only
  rw [WatchLoop.flush_eq hready hcommands, hall]
  by_cases hempty : pending.files = []
  · simp only [hempty, if_true]
    rw [handleBatch]
    simp only [WatchLoop.answer, hnone]
    exact ⟨⟨_, rfl, WatchLoop.answerTo?_answer _ [] .done⟩, fun _ _ => ⟨rfl, id⟩,
      by simp⟩
  · simp only [hempty, if_false]
    have hwatching (x : WatchLoop) : Kept { a with watch := some x } := ha.congr rfl rfl rfl
    rw [handleBatch]
    dsimp only
    refine ⟨⟨_, rfl, ?_⟩, fun file hfile => ?_, fun file hfile hinside hgone => ?_⟩
    · exact WatchLoop.answerTo?_answer _ pending.waiters .done
    · exact (hwatching _).spares_processFiles hfile
    · exact (hwatching _).lacks_processFiles hopen hinside hgone hfile

end Flushes

section Leisure

/-- Between two requests the watcher is at leisure. -/
def Attends (a : Analyzer Store) : Prop :=
  ∀ w ∈ a.watch, w.AtLeisure

variable {b : Analyzer Store}

lemma Attends.congr (ha : a.Attends) (hwatch : b.watch = a.watch) : b.Attends := by
  unfold Attends
  rwa [hwatch]

lemma Attends.map {f : WatchLoop → WatchLoop} (ha : a.Attends)
    (hf : ∀ w, w.AtLeisure → (f w).AtLeisure) (hwatch : b.watch = a.watch.map f) : b.Attends := by
  intro w hw
  rw [hwatch] at hw
  obtain ⟨x, hx, rfl⟩ := Option.map_eq_some_iff.mp hw
  exact hf x (ha x hx)

lemma watch_removeGone (s : Surroundings) (live files : List String) :
    (removeGone s live files a).2.watch = a.watch := by
  induction files generalizing a with
  | nil => rfl
  | cons first files ih =>
    rw [removeGone]
    split
    · exact ih
    · unfold removeFile
      cases a.index.remove first with
      | error e => rfl
      | ok index => exact ih

variable [QueryCompiler]

lemma attends_handOn {w : WatchLoop} (hcommands : w.commands = []) (s : Surroundings) :
    (handleBatch { a with watch := some w } s).Attends := by
  rw [handleBatch]
  dsimp only
  split
  · next hnone =>
    rintro x ⟨⟩
    exact ⟨hcommands, hnone⟩
  · next batch hbatch =>
    rintro x ⟨⟩
    rw [WatchLoop.act, hbatch]
    exact ⟨hcommands, rfl⟩

lemma Attends.flush (ha : a.Attends) (s : Surroundings) : (a.flush s).Attends := by
  unfold Analyzer.flush
  cases hwatch : a.watch with
  | none => exact ha
  | some w => exact attends_handOn (ha w hwatch).commands_flush s

lemma watch_indexWorkspace (a : Analyzer Store) (s : Surroundings) :
    (a.indexWorkspace s).2.watch = a.watch := by
  have hgone := watch_removeGone (a := a) s (a.liveFiles s) a.index.files
  unfold indexWorkspace
  dsimp only
  split
  · next h => rwa [h] at hgone
  · next h =>
    rw [h] at hgone
    exact (samePlace_processFiles _ _ _).watch.trans hgone

/-- Whatever is asked of the analyzer, its watcher is at leisure afterwards. -/
lemma Attends.serve (ha : a.Attends) (r : TimedRequest) : (a.serve r).Attends := by
  obtain ⟨s, request⟩ := r
  cases request with
  | indexWorkspace => exact ha.congr (watch_indexWorkspace a s)
  | processFiles files => exact ha.congr (samePlace_processFiles a s files).watch
  | search query types => exact ha.flush s
  | findSimilar id =>
    unfold Analyzer.serve findSimilar
    dsimp only
    split
    · exact ha
    · exact ha.flush s
  | sources ids => exact ha.congr (samePlace_sourcesFrom a s [] ids).watch
  | deliver e => exact ha.map (fun _ hw => hw.deliver e) rfl
  | takeEvent => exact ha.map (fun _ hw => hw.takeEvent) rfl
  | tick =>
    unfold Analyzer.serve Analyzer.tick
    cases hwatch : a.watch with
    | none => exact ha.congr rfl
    | some w =>
      have hcommands : (w.act s.disk (ticks s) .fire).commands = [] := by
        rw [WatchLoop.commands_fire, (ha w hwatch).commands]
      exact attends_handOn hcommands s
  | close => exact ha.map (fun _ hw => hw.close) rfl

lemma Arises.attends (ha : a.Arises) : a.Attends := by
  induction ha with
  | @started s path config store a hstore h =>
    obtain ⟨root, index, -, rfl⟩ := exists_index_of_withStore h
    refine Attends.congr ?_ (watch_indexWorkspace _ s)
    unfold beginWatch
    split
    · rintro w ⟨⟩
      exact ⟨rfl, rfl⟩
    · rintro w ⟨⟩
  | serve _ r ih => exact ih.serve r

/-- An analyzer whose watcher has taken in some events is one that comes about. -/
lemma Arises.takeIn (ha : a.Arises) (s : Surroundings) (es : List DiskEvent) :
    (a.watching fun w => w.takeIn s.disk (ticks s) es).Arises := by
  induction es generalizing a with
  | nil => simpa [watching, WatchLoop.takeIn] using ha
  | cons e es ih =>
    have hnext := ih ((ha.serve (s, .deliver e)).serve (s, .takeEvent))
    rwa [Analyzer.serve, Analyzer.serve, watching_watching, watching_watching] at hnext

/-- So is one that has taken in what is reported of a change. -/
lemma Arises.observe (ha : a.Arises) (s : Surroundings) (before : Disk) (c : DiskChange) :
    (a.observe s before c).Arises := by
  cases hwatch : a.watch with
  | none => simpa [Analyzer.observe, watching, hwatch] using ha.takeIn s []
  | some w =>
    have htaken := ha.takeIn s (DiskEvent.ofChange w.watcher.watched before c)
    rw [watching, hwatch, Option.map_some] at htaken
    rwa [Analyzer.observe, hwatch, Option.map_some]

end Leisure

section Vanished

variable [QueryCompiler]

/-- A comparison forgets a file that is gone, unless it goes under the name of one that is not. -/
lemma Kept.forgets_indexWorkspace (ha : a.Kept) (hlive : file ∉ a.liveFiles s)
    (hgone : s.disk.has (Index.pathOf a.root file) = false) :
    file ∉ (a.indexWorkspace s).2.index.files := by
  obtain ⟨index, -, hkept, hfiles, hrun, -⟩ := ha.indexWorkspace_eq s
  have hstale : file ∉ (a.liveFiles s).filter (index.isStale s.disk ·) :=
    fun h => hlive (List.mem_of_mem_filter h)
  rw [hrun, (hkept.spares_processFiles hstale).mem_files_iff]
  intro hfile
  rcases (hfiles file hfile).2 with hlisted | hthere
  · exact hlive hlisted
  · rw [hgone] at hthere
    cases hthere

/-- The analyzer after its watcher has handled an event while others wait. -/
def told (a : Analyzer Store) (s : Surroundings) (e : DiskEvent) (waiting : List DiskEvent) :
    Analyzer Store :=
  { a with watch := a.watch.map fun w =>
      { w with events := waiting }.handle s.disk (ticks s) e }

/-- The files that will have been noted when a flush has taken in all events. -/
def noted (a : Analyzer Store) (s : Surroundings) : List String :=
  (a.watch.map fun w => (w.handleAll s.disk (ticks s)).pending.files).getD []

/-- What becomes of vanished files when the removal of a watched directory has been reported by
its path alone, and a flush has been answered. -/
structure LeavesVanished (a b : Analyzer Store) (s : Surroundings) (file : String) : Prop where
  /-- What was noted is lacking. -/
  noted : file ∈ b.noted s → (b.flush s).index.Lacks file
  /-- All else stays in the index as it was before the report. -/
  unnoted : file ∉ b.noted s → (b.flush s).index.cache.get? file = a.index.cache.get? file
  /-- Only a comparison of the whole workspace forgets it then. -/
  compared : file ∉ a.liveFiles s → file ∉ ((b.flush s).indexWorkspace s).2.index.files

/-- A watched directory is gone and reported by its path alone. For this its watches are dropped
and nothing is noted. After the next flush has been answered, a vanished file, at whatever depth
below the directory it was, is in the index exactly if it was before and has not been noted on its
own account; a comparison with the disk forgets it. -/
theorem vanished_files_stay {w : WatchLoop} {l : Location} {e : DiskEvent} (ha : a.Arises)
    (hopen : a.isClosed = false) (hwatch : a.watch = some w) (hrunning : w.isStopped = false)
    (hl : l ∈ w.watcher.watched) (he : e.Unmakes s.disk l) (waiting : List DiskEvent)
    (later : Surroundings) :
    (∃ x, (a.told s e waiting).watch = some x ∧ x.pending = w.pending ∧
      (l.getLast? ≠ some gitignoreName → ∀ l' ∈ x.watcher.watched, ¬ l <+: l')) ∧
    (∃ x, ((a.told s e waiting).flush later).watch = some x ∧ x.answerTo? 0 = some .done) ∧
    ∀ file, Path.staysInside file = true →
      later.disk.has (Index.pathOf a.root file) = false →
      a.LeavesVanished (a.told s e waiting) later file := by
  have hleisure := ha.attends w hwatch
  have hhandled := Watcher.handle_of_unmakes he hl
  set x := WatchLoop.handle s.disk (ticks s) { w with events := waiting } e with hx
  have htold : (a.told s e waiting).watch = some x := by rw [told, hwatch, Option.map_some]
  have hkept : (a.told s e waiting).Kept := ha.kept.congr rfl rfl rfl
  obtain ⟨hanswer, hspares, hlacks⟩ := hkept.flush_spec hopen htold
    (WatchLoop.isReady_iff.mpr ⟨hrunning, hleisure.running⟩) hleisure.commands later
  have hnoted : (a.told s e waiting).noted later =
      (x.handleAll later.disk (ticks later)).pending.files := by
    rw [noted, htold, Option.map_some, Option.getD_some]
  refine ⟨⟨x, htold, ?_, fun hname l' hl' => ?_⟩, hanswer, fun file hinside hgone => ⟨?_, ?_, ?_⟩⟩
  · simp only [hx, WatchLoop.handle, hhandled, List.foldl_nil]
  · have hforgotten : x.watcher = w.watcher.forget l := by
      simp only [hx, WatchLoop.handle, hhandled, if_neg hname]
    exact Watcher.not_prefix_of_forget (hforgotten ▸ hl')
  · rw [hnoted]
    exact fun hmem => hlacks file hmem hinside hgone
  · rw [hnoted]
    exact fun hmem => (hspares file hmem).cache
  · intro hlive
    have hsame := takesOnly_flush hkept.chunkers later
    have hlive' : ((a.told s e waiting).flush later).liveFiles later = a.liveFiles later := by
      rw [liveFiles, liveFiles, scanner, scanner, storePath, storePath, hsame.root, hsame.config]
      rfl
    refine (hkept.flush later).forgets_indexWorkspace (hlive' ▸ hlive) ?_
    rw [hsame.root]
    exact hgone

end Vanished

/-- A workspace with a file in a directory. -/
def pkgDisk : Disk where
  entries := [(["work"], .directory), (["work", "pkg"], .directory),
    (["work", "pkg", "a.rs"], .file "fn a() {}".toUTF8 1)]

/-- The directory has been moved out of the workspace. -/
def movedDisk : Disk where
  entries := [(["work"], .directory), (["away"], .directory),
    (["away", "a.rs"], .file "fn a() {}".toUTF8 1)]

/-- The loop that watches the workspace from its start. -/
def pkgLoop : WatchLoop where
  watcher := {
    root := ["work"]
    excluded := ["/work/.codescope/db"]
    watched := [["work"], ["work", "pkg"]]
    rules := ⟨[]⟩ }
  pending := { quiet := 60 }

/-- An analyzer of the workspace that watches it. -/
def pkgAnalyzer : Analyzer Store where
  root := ["work"]
  config := {}
  index := { root := ["work"], store := .inMemory (.ofTable .empty 2) }
  watch := some pkgLoop

lemma ofDisk_pkgDisk : IgnoreFiles.ofDisk pkgDisk = Watcher.rawIgnoreFiles pkgDisk :=
  Watcher.ofDisk_eq_raw (by decide) (by decide) (by decide)

lemma unstarted_pkgDisk : unstarted (onDisk pkgDisk) ["work"] {}
    (.inMemory (.ofTable .empty 2)) = pkgAnalyzer := by
  have hexcluded : storePath pkgAnalyzer = "/work/.codescope/db" := by decide
  have hloop : WatchLoop.ofRoot pkgDisk ["work"] ["/work/.codescope/db"] 60 = pkgLoop := by
    rw [WatchLoop.ofRoot, Watcher.ofRoot_eq [["work"], ["work", "pkg"]] ofDisk_pkgDisk
      (by decide +kernel) (by decide) (List.length_eq_zero_iff.mp (by decide))]
    rfl
  rw [unstarted, beginWatch, if_pos rfl]
  change { pkgAnalyzer with watch := some (.ofRoot pkgDisk ["work"] [storePath pkgAnalyzer] 60) } =
    pkgAnalyzer
  rw [hexcluded, hloop]
  rfl

lemma liveFiles_pkgAnalyzer : pkgAnalyzer.liveFiles (onDisk pkgDisk) = ["pkg/a.rs"] := by
  rw [liveFiles_eq [["work", "pkg", "a.rs"]] ofDisk_pkgDisk (by decide +kernel) (by decide)]
  simp only [Path.indexName_eq]
  decide

attribute [local instance] QueryCompiler.plain

/-- The analyzer of the workspace, started on an empty store. -/
def indexedPkg : Analyzer Store :=
  pkgAnalyzer.run [(onDisk pkgDisk, .indexWorkspace)]

lemma arises_indexedPkg : indexedPkg.Arises := by
  have hroot : rootOf (onDisk pkgDisk) "work" = .ok ["work"] := by decide
  rw [indexedPkg, ← unstarted_pkgDisk]
  exact arises_of_empty rfl hroot

lemma indexedPkg_eq :
    indexedPkg = pkgAnalyzer.processFiles (onDisk pkgDisk) ["pkg/a.rs"] := by
  have hstale : ["pkg/a.rs"].filter (pkgAnalyzer.index.isStale pkgDisk ·) = ["pkg/a.rs"] := by
    decide +kernel
  rw [indexedPkg, run_indexWorkspace rfl liveFiles_pkgAnalyzer]
  exact congrArg (pkgAnalyzer.processFiles (onDisk pkgDisk)) hstale

lemma watch_indexedPkg : indexedPkg.watch = some pkgLoop := by
  rw [indexedPkg_eq]
  exact (samePlace_processFiles _ _ _).watch

lemma isClosed_indexedPkg : indexedPkg.isClosed = false := by
  rw [indexedPkg_eq]
  decide +kernel

/-- The file stays if nothing else is reported, and is forgotten if its own removal has been
reported as well. -/
theorem moved_file_noted_or_not :
    indexedPkg.Arises ∧ indexedPkg.isClosed = false ∧ indexedPkg.watch = some pkgLoop ∧
    pkgLoop.isStopped = false ∧ ["work", "pkg"] ∈ pkgLoop.watcher.watched ∧
    DiskEvent.Unmakes movedDisk ["work", "pkg"] (.renamed [["work", "pkg"]]) ∧
    Path.staysInside "pkg/a.rs" = true ∧
    movedDisk.has (Index.pathOf indexedPkg.root "pkg/a.rs") = false ∧
    ((indexedPkg.told (onDisk movedDisk) (.renamed [["work", "pkg"]]) []).flush
      (onDisk movedDisk)).index.cache.get? "pkg/a.rs" = indexedPkg.index.cache.get? "pkg/a.rs" ∧
    ((indexedPkg.told (onDisk movedDisk) (.renamed [["work", "pkg"]])
      [.removed ["work", "pkg", "a.rs"]]).flush (onDisk movedDisk)).index.Lacks "pkg/a.rs" := by
  have hgone : DiskEvent.Unmakes movedDisk ["work", "pkg"] (.renamed [["work", "pkg"]]) :=
    .renamed (by decide)
  have hvanished (waiting : List DiskEvent) :=
    (vanished_files_stay (s := onDisk movedDisk) arises_indexedPkg isClosed_indexedPkg
      watch_indexedPkg rfl (by decide) hgone waiting (onDisk movedDisk)).2.2
  have hroot : indexedPkg.root = ["work"] := by
    rw [indexedPkg_eq]
    exact (samePlace_processFiles _ _ _).root
  have hfile : movedDisk.has (Index.pathOf indexedPkg.root "pkg/a.rs") = false := by
    rw [hroot]
    decide
  have hinside : Path.staysInside "pkg/a.rs" = true := by decide
  refine ⟨arises_indexedPkg, isClosed_indexedPkg, watch_indexedPkg, rfl, by decide, hgone, hinside,
    hfile, (hvanished [] _ hinside hfile).unnoted ?_, (hvanished _ _ hinside hfile).noted ?_⟩
  · rw [noted, told, watch_indexedPkg]
    decide +kernel
  · rw [noted, told, watch_indexedPkg]
    decide +kernel

/-- The directory is moved away, which its watcher reports, and a flush takes that in. -/
def movedAway : Analyzer Store :=
  (indexedPkg.observe (onDisk movedDisk) pkgDisk (.move ["work", "pkg"] ["away"])).flush
    (onDisk movedDisk)

/-- The directory is reported by its path alone. The flush is answered, but the chunks of the
file that was in the directory are still there. -/
theorem moved_directory_stays :
    indexedPkg.Arises ∧ movedAway.Arises ∧ indexedPkg.isClosed = false ∧
    (∃ w, indexedPkg.watch = some w ∧ w.isStopped = false ∧
      ["work", "pkg"] ∈ w.watcher.watched ∧
      DiskEvent.ofChange w.watcher.watched pkgDisk (.move ["work", "pkg"] ["away"]) =
        [.renamed [["work", "pkg"]], .renamed [["work", "pkg"]]]) ∧
    DiskEvent.Unmakes movedDisk ["work", "pkg"] (.renamed [["work", "pkg"]]) ∧
    pkgDisk.move ["work", "pkg"] ["away"] = .ok movedDisk ∧
    movedDisk.has (Index.pathOf ["work"] "pkg/a.rs") = false ∧
    (∃ x, movedAway.watch = some x ∧ x.answerTo? 0 = some .done) ∧
    movedAway.index.files = ["pkg/a.rs"] ∧
    movedAway.index.store.documents.values.map (·.content) = ["fn a() {}"] := by
  have harises : movedAway.Arises :=
    (arises_indexedPkg.observe (onDisk movedDisk) pkgDisk (.move ["work", "pkg"] ["away"])).serve
      (onDisk movedDisk, .search "" [])
  refine ⟨arises_indexedPkg, harises, isClosed_indexedPkg,
    ⟨pkgLoop, watch_indexedPkg, rfl, by decide, by decide⟩, .renamed (by decide), rfl, by decide,
    ?_, ?_, ?_⟩
  · have hanswer : (movedAway.watch.bind fun x => x.answerTo? 0) = some .done := by
      rw [movedAway, indexedPkg_eq]
      decide +kernel
    exact Option.bind_eq_some_iff.mp hanswer
  all_goals
    rw [movedAway, indexedPkg_eq]
    decide +kernel

end Analyzer

end CodeSearch
