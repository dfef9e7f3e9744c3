import CodeSearch.Embedding.Hashing
import CodeSearch.Proofs.Batches

/-!
# Incremental runs

While files come, change and go, an analyzer takes in batches of them. What it then has of
a file depends on what the disk showed of this file when it was last taken in, and on
nothing that happened before or to other files. So it makes no difference which way an
index has come about, or whether it is made anew.
-/
namespace CodeSearch

structure Workspace where
  analyzer : Analyzer Store
  disk : Disk

namespace Workspace

inductive Event where
  /-- Files are created, edited or removed, and the disk becomes this one. -/
  | change (d : Disk)
  /-- The analyzer takes in some files at some time. -/
  | batch (now : ℤ) (files : List String)

/-- The event takes in the file at some time. -/
def Event.Takes (now : ℤ) (file : String) (e : Event) : Prop :=
  ∃ files, e = .batch now files ∧ file ∈ files

lemma takes_batch_iff {now now' : ℤ} {file : String} {files : List String} :
    (Event.batch now files).Takes now' file ↔ now' = now ∧ file ∈ files := by
  constructor
  · rintro ⟨files', heq, hmem⟩
    obtain ⟨rfl, rfl⟩ := Event.batch.inj heq
    exact ⟨rfl, hmem⟩
  · rintro ⟨rfl, hmem⟩
    exact ⟨files, rfl, hmem⟩

lemma not_indexes_of_keeps_nil {m : Contents} {file : String} (h : m.Keeps file []) :
    ¬ m.Indexes file := by
  rintro ⟨id, hid⟩
  have hnone := h id
  rw [List.map_nil, List.find?_nil, Option.map_eq_none_iff] at hnone
  rw [hnone] at hid
  cases hid

section Runs

variable [QueryCompiler] (grammar : Grammar)

/-- The world around the analyzer. -/
def surroundings (w : Workspace) (now : ℤ) : Surroundings where
  disk := w.disk
  now := now
  grammar := grammar

def step (w : Workspace) : Event → Workspace
  | .change d => { w with disk := d }
  | .batch now files =>
      { w with analyzer := w.analyzer.processFiles (w.surroundings grammar now) files }

def run (w : Workspace) (es : List Event) : Workspace :=
  es.foldl (step grammar) w

/-- A batch is taken in by an analyzer that is not closed, has files that can be indexed
only, and none of them fails. -/
def Admits (w : Workspace) : Event → Prop
  | .change _ => True
  | .batch now files => w.analyzer.isClosed = false ∧ (∀ file ∈ files, IsIndexable file) ∧
      Analyzer.succeeds (w.surroundings grammar now) (w.analyzer.started files) files = true

def Allows : Workspace → List Event → Prop
  | _, [] => True
  | w, e :: es => w.Admits grammar e ∧ Allows (w.step grammar e) es

/-- The stored documents. -/
def contents (w : Workspace) : Contents :=
  w.analyzer.stored

/-- What is stored of a file are the chunks of the file as it stands on the disk, read at
some time. -/
def IsCurrent (w : Workspace) (file : String) (now : ℤ) : Prop :=
  w.contents.Keeps file (currentChunks grammar w.disk w.analyzer.root file now)

/-- The file is in a batch after its last change. -/
def Covers (w : Workspace) (es : List Event) (file : String) : Prop :=
  ∃ before now files after, es = before ++ .batch now files :: after ∧ file ∈ files ∧
    ∀ d, .change d ∈ after →
      Disk.AgreeAt (Index.pathOf w.analyzer.root file) (w.run grammar before).disk d

variable {grammar} {w : Workspace} {es : List Event} {file : String}

/-- One event: the analyzer goes on soundly, the files of a batch are current behind it, and
the other ones are left alone. -/
lemma step_spec {e : Event} (hw : w.analyzer.Sound) (he : w.Admits grammar e) :
    w.analyzer.Continues (w.step grammar e).analyzer ∧ ∀ file,
      (∀ now, e.Takes now file → (w.step grammar e).IsCurrent grammar file now) ∧
      ((∀ now, ¬ e.Takes now file) →
        (w.step grammar e).contents.ofFile file = w.contents.ofFile file) := by
  cases e with
  | change d =>
    refine ⟨⟨.refl _, hw⟩, fun file => ⟨?_, fun _ => rfl⟩⟩
    rintro now ⟨files, heq, -⟩
    cases heq
  | batch now files =>
    obtain ⟨hopen, hfiles, hok⟩ := he
    have hnames : ∀ file ∈ files, ChunkId.Separable file := fun file h => (hfiles file h).separable
    have hone := hw.continues_processFiles (w.surroundings grammar now) hnames
    refine ⟨hone, fun file => ?_⟩
    obtain ⟨hkeeps, hsame⟩ := hw.keeps_processFiles _ hopen hnames hok file
    constructor
    · intro now' htakes
      obtain ⟨rfl, hmem⟩ := takes_batch_iff.mp htakes
      have hroot : (w.step grammar (.batch now' files)).analyzer.root = w.analyzer.root := hone.root
      rw [IsCurrent, hroot]
      exact hkeeps hmem
    · intro hnone
      exact hsame fun hmem => hnone now (takes_batch_iff.mpr ⟨rfl, hmem⟩)

lemma allows_append (es fs : List Event) :
    w.Allows grammar (es ++ fs) ↔ w.Allows grammar es ∧ (w.run grammar es).Allows grammar fs := by
  induction es generalizing w with
  | nil => exact ⟨fun h => ⟨trivial, h⟩, fun h => h.2⟩
  | cons e es ih =>
    rw [List.cons_append, Allows, Allows, ih, and_assoc]
    rfl

lemma continues_run (hw : w.analyzer.Sound) (hes : w.Allows grammar es) :
    w.analyzer.Continues (w.run grammar es).analyzer := by
  induction es generalizing w with
  | nil => exact ⟨.refl _, hw⟩
  | cons e es ih =>
    have hone := (step_spec hw hes.1).1
    exact hone.trans (ih hone.sound hes.2)

/-- A file that is in no batch is left alone. -/
lemma ofFile_run (hw : w.analyzer.Sound) (hes : w.Allows grammar es)
    (hnone : ∀ e ∈ es, ∀ now, ¬ e.Takes now file) :
    (w.run grammar es).contents.ofFile file = w.contents.ofFile file := by
  induction es generalizing w with
  | nil => rfl
  | cons e es ih =>
    rw [List.forall_mem_cons] at hnone
    obtain ⟨hone, hfiles⟩ := step_spec hw hes.1
    exact (ih hone.sound hes.2 hnone.2).trans ((hfiles file).2 hnone.1)

/-- A file that is current stays so until it changes, also if it is taken in again. -/
lemma isCurrent_step {e : Event} (hw : w.analyzer.Sound) (he : w.Admits grammar e) {now : ℤ}
    (hcurrent : w.IsCurrent grammar file now)
    (hsame : ∀ d, e = .change d → Disk.AgreeAt (Index.pathOf w.analyzer.root file) w.disk d) :
    ∃ now', (now' = now ∨ e.Takes now' file) ∧ (w.step grammar e).IsCurrent grammar file now' := by
  obtain ⟨hone, hfiles⟩ := step_spec hw he
  obtain ⟨htaken, hothers⟩ := hfiles file
  cases e with
  | change d =>
    refine ⟨now, .inl rfl, ?_⟩
    have hchunks := currentChunks_congr grammar (hsame d rfl) now
    rw [IsCurrent, step]
    exact hchunks ▸ hcurrent
  | batch now' files =>
    by_cases hmem : file ∈ files
    · have htakes : (Event.batch now' files).Takes now' file := takes_batch_iff.mpr ⟨rfl, hmem⟩
      exact ⟨now', .inr htakes, htaken now' htakes⟩
    · have hsame := hothers fun t htakes => hmem (takes_batch_iff.mp htakes).2
      refine ⟨now, .inl rfl, ?_⟩
      rw [IsCurrent, hone.root]
      exact hcurrent.congr hsame

lemma isCurrent_run (hw : w.analyzer.Sound) (hes : w.Allows grammar es) {now : ℤ}
    (hcurrent : w.IsCurrent grammar file now)
    (hsame : ∀ d, .change d ∈ es → Disk.AgreeAt (Index.pathOf w.analyzer.root file) w.disk d) :
    ∃ now', (now' = now ∨ ∃ e ∈ es, e.Takes now' file) ∧
      (w.run grammar es).IsCurrent grammar file now' := by
  induction es generalizing w now with
  | nil => exact ⟨now, .inl rfl, hcurrent⟩
  | cons e es ih =>
    have hone := (step_spec hw hes.1).1
    obtain ⟨now₁, hnow₁, hcurrent₁⟩ := isCurrent_step hw hes.1 hcurrent
      fun d he => hsame d (he ▸ List.mem_cons_self)
    have hsame₁ : ∀ d, .change d ∈ es → Disk.AgreeAt
        (Index.pathOf (w.step grammar e).analyzer.root file) (w.step grammar e).disk d := by
      intro d hd
      rw [hone.root]
      have hrest := hsame d (List.mem_cons_of_mem _ hd)
      cases e with
      | change d' => exact (hsame d' List.mem_cons_self).trans_symm hrest
      | batch now' files => exact hrest
    obtain ⟨now₂, hnow₂, hcurrent₂⟩ := ih hone.sound hes.2 hcurrent₁ hsame₁
    refine ⟨now₂, ?_, hcurrent₂⟩
    rcases hnow₂ with rfl | ⟨e', he', htakes⟩
    · exact hnow₁.imp_right fun htakes => ⟨e, List.mem_cons_self, htakes⟩
    · exact .inr ⟨e', List.mem_cons_of_mem _ he', htakes⟩

/-- A file is current if it is in a batch after its last change. -/
lemma exists_isCurrent (hw : w.analyzer.Sound) (hes : w.Allows grammar es)
    (hcovers : w.Covers grammar es file) :
    ∃ now, (∃ e ∈ es, e.Takes now file) ∧ (w.run grammar es).IsCurrent grammar file now := by
  obtain ⟨before, now, files, after, rfl, hmem, hsame⟩ := hcovers
  obtain ⟨hbefore, hbatch, hafter⟩ := (allows_append _ _).mp hes
  have htakes : (Event.batch now files).Takes now file := takes_batch_iff.mpr ⟨rfl, hmem⟩
  have hfront := continues_run hw hbefore
  obtain ⟨hone, hfiles⟩ := step_spec hfront.sound hbatch
  have hcurrent := (hfiles file).1 now htakes
  have hroot := hone.root.trans hfront.root
  obtain ⟨now', hnow', hcurrent'⟩ := isCurrent_run hone.sound hafter hcurrent fun d hd => by
    rw [hroot]
    exact hsame d hd
  refine ⟨now', ?_, ?_⟩
  · rcases hnow' with rfl | ⟨e, he, htakes'⟩
    · exact ⟨_, by simp, htakes⟩
    · exact ⟨e, by simp [he], htakes'⟩
  · rw [run, List.foldl_append]
    exact hcurrent'

/-- Two runs that end on the same disk leave the same chunks, if each file that one of them
has is in a batch of both after its last change. -/
lemma timeless_eq_of_covers {v : Workspace} {fs : List Event} (hw : w.analyzer.Sound)
    (hes : w.Allows grammar es) (hv : v.analyzer.Sound) (hfs : v.Allows grammar fs)
    (hroot : v.analyzer.root = w.analyzer.root)
    (hdisk : (v.run grammar fs).disk = (w.run grammar es).disk)
    (hcovers : ∀ file, (w.run grammar es).contents.Indexes file ∨
        (v.run grammar fs).contents.Indexes file →
      w.Covers grammar es file ∧ v.Covers grammar fs file) :
    (w.run grammar es).contents.timeless = (v.run grammar fs).contents.timeless := by
  have hwrun := continues_run hw hes
  have hvrun := continues_run hv hfs
  have hcurrent : Contents.BothCurrent grammar (w.run grammar es).disk w.analyzer.root
      (w.run grammar es).contents (v.run grammar fs).contents := by
    intro file hfile
    obtain ⟨hwcovers, hvcovers⟩ := hcovers file hfile
    obtain ⟨now, -, h⟩ := exists_isCurrent hw hes hwcovers
    obtain ⟨now', -, h'⟩ := exists_isCurrent hv hfs hvcovers
    rw [IsCurrent, hwrun.root] at h
    rw [IsCurrent, hvrun.root, hroot, hdisk] at h'
    exact ⟨now, now', h, h'⟩
  exact hcurrent.timeless_eq hwrun.sound.filed hvrun.sound.filed

/-- What a run leaves is what indexing anew leaves. -/
structure EqualsRebuilt (grammar : Grammar) (w : Workspace) (es : List Event) : Prop where
  /-- A file that is in a batch after its last change is stored as it stands on the disk. -/
  current : ∀ file, w.Covers grammar es file →
    ∃ now, (∃ e ∈ es, e.Takes now file) ∧ (w.run grammar es).IsCurrent grammar file now
  /-- Nothing is stored of such a file if it is gone or ignored. -/
  absent : ∀ file, w.Covers grammar es file →
    (w.run grammar es).disk.has (Index.pathOf w.analyzer.root file) = false ∨ IsIgnored file →
      ¬ (w.run grammar es).contents.Indexes file
  /-- A file that is in no batch is left alone. -/
  untouched : ∀ file, (∀ e ∈ es, ∀ now, ¬ e.Takes now file) →
    (w.run grammar es).contents.ofFile file = w.contents.ofFile file
  /-- Another run of the same workspace that ends on the same disk leaves the same chunks. -/
  converges : ∀ (v : Workspace) (fs : List Event), v.analyzer.Reached → v.Allows grammar fs →
    v.analyzer.root = w.analyzer.root → (v.run grammar fs).disk = (w.run grammar es).disk →
    (∀ file, (w.run grammar es).contents.Indexes file ∨ (v.run grammar fs).contents.Indexes file →
      w.Covers grammar es file ∧ v.Covers grammar fs file) →
    (w.run grammar es).contents.timeless = (v.run grammar fs).contents.timeless
  /-- A fresh analyzer leaves the same chunks if it is given the names of the files. -/
  rebuilt : ∀ (fresh : Analyzer Store) (now : ℤ) (names : List String), fresh.Reached →
    fresh.root = w.analyzer.root → (∀ id, fresh.stored id = none) →
    Allows grammar ⟨fresh, (w.run grammar es).disk⟩ [.batch now names] →
    (∀ file, (w.run grammar es).contents.Indexes file → file ∈ names) →
    (∀ file ∈ names, w.Covers grammar es file) →
    (w.run grammar es).contents.timeless =
      (fresh.processFiles ((w.run grammar es).surroundings grammar now) names).stored.timeless

/-- Whatever happens to the files of a workspace and in whatever batches they are taken in,
a file that is in a batch after its last change is stored as it stands on the disk, and the
other files are left alone. So the way in which an index has come about does not matter. -/
theorem incremental_eq_rebuilt (hw : w.analyzer.Reached) (hes : w.Allows grammar es) :
    EqualsRebuilt grammar w es where
  current file hcovers := exists_isCurrent hw.sound hes hcovers
  absent file hcovers hgone := by
    obtain ⟨now, -, hcurrent⟩ := exists_isCurrent hw.sound hes hcovers
    rw [IsCurrent, (continues_run hw.sound hes).root] at hcurrent
    rcases hgone with hgone | hignored
    · rw [currentChunks_of_gone hgone] at hcurrent
      exact not_indexes_of_keeps_nil hcurrent
    · rw [currentChunks_of_ignored hignored] at hcurrent
      exact not_indexes_of_keeps_nil hcurrent
  untouched file hnone := ofFile_run hw.sound hes hnone
  converges v fs hv hfs hroot hdisk hcovers :=
    timeless_eq_of_covers hw.sound hes hv.sound hfs hroot hdisk hcovers
  rebuilt fresh now names hfresh hroot hempty hbatch hnames hcovers := by
    have hcovered : ∀ file ∈ names,
        Covers grammar ⟨fresh, (w.run grammar es).disk⟩ [.batch now names] file :=
      fun file hmem => ⟨[], now, names, [], rfl, hmem, by simp⟩
    refine timeless_eq_of_covers hw.sound hes hfresh.sound hbatch hroot rfl fun file hfile => ?_
    have hmem : file ∈ names := by
      rcases hfile with hfile | ⟨id, hid⟩
      · exact hnames file hfile
      · -- the fresh analyzer has nothing of a file that it is not given
        by_contra hmem
        have hnone : ∀ e ∈ [Event.batch now names], ∀ t, ¬ e.Takes t file := by
          intro e he t htakes
          obtain rfl := List.mem_singleton.mp he
          exact hmem (takes_batch_iff.mp htakes).2
        rw [ofFile_run hfresh.sound hbatch hnone, Contents.ofFile] at hid
        rw [show contents ⟨fresh, (w.run grammar es).disk⟩ id = none from hempty id] at hid
        cases hid
    exact ⟨hcovers file hmem, hcovered file hmem⟩

end Runs

/-- A grammar that sees one construct in every text. -/
def plainGrammar : Grammar := fun _ text =>
  { kind := "source_file", start := 0, stop := text.utf8ByteSize
    children := [{ kind := "item", start := 0, stop := text.utf8ByteSize }] }

/-- A workspace without files that has not been indexed yet. -/
def emptyWorkspace : Workspace where
  analyzer := {
    root := ["work"], config := {}
    index := { root := ["work"], store := .inMemory (Hashing.embedder 2) } }
  disk := ⟨[(["work"], .directory)]⟩

/-- A file is taken in before it is there and again, twice, after it has been written. -/
def firstFile : List Event :=
  [.batch 1 ["main.rs"],
    .change ⟨[(["work"], .directory), (["work", "main.rs"], .file "fn main() {}".toUTF8 2)]⟩,
    .batch 3 ["main.rs", "main.rs"]]

lemma isIndexable_main : IsIndexable "main.rs" where
  inside := by decide
  supported := by decide
  separable := by
    unfold ChunkId.Separable
    decide

attribute [local instance] QueryCompiler.plain

theorem firstFile_eq_rebuilt : emptyWorkspace.analyzer.Reached ∧
    emptyWorkspace.Allows plainGrammar firstFile ∧
    emptyWorkspace.Covers plainGrammar firstFile "main.rs" ∧
    EqualsRebuilt plainGrammar emptyWorkspace firstFile := by
  have hreached : emptyWorkspace.analyzer.Reached := .fresh rfl
  have hallows : emptyWorkspace.Allows plainGrammar firstFile := by
    refine ⟨⟨rfl, by simp [isIndexable_main], by decide +kernel⟩, trivial,
      ⟨rfl, by simp [isIndexable_main], by decide +kernel⟩, trivial⟩
  refine ⟨hreached, hallows, ?_, incremental_eq_rebuilt hreached hallows⟩
  exact ⟨firstFile.take 2, 3, _, [], rfl, by simp, by simp⟩

end Workspace

end CodeSearch
