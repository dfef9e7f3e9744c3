import CodeSearch.Embedding.Table
import CodeSearch.Proofs.FileReadings
import Mathlib.Algebra.BigOperators.Group.List.Basic

/-!
# Batches that run at once

Several batches of one analyzer may be under way, and what they do comes in any order. Each of
them changes the counters of the analyzer when it begins, after each of its files and when it
ends, which may be early because the analyzer has been closed. The counters always tell how
many batches there are and how many files they have still to get through.
-/
namespace CodeSearch

def Progress.IsAtRest (p : Progress) : Prop :=
  p.pending = 0 ∧ p.running = 0

instance (p : Progress) : Decidable p.IsAtRest :=
  inferInstanceAs (Decidable (_ ∧ _))

inductive Batch.Stage where
  /-- It looks whether it has to go on with another file. -/
  | choosing
  | reading (file : String)
  | settling (file : String) (reading : Option ChunkedFile)
  /-- It counts the file that it is done with. -/
  | counting
  /-- It takes the files off that it has left out. -/
  | leaving
  | ended
  deriving DecidableEq

structure Batch where
  files : List String
  /-- How many of them have been counted as processed. -/
  processed : ℕ := 0
  stage : Batch.Stage := .choosing
  deriving DecidableEq

namespace Batch

variable {σ : Type} [DocumentStore σ] [QueryCompiler]

/-- The next thing that a batch does. A file that cannot be read counts as processed. -/
def next (b : Batch) (a : Analyzer σ) (s : Surroundings) : Batch × Analyzer σ :=
  match b.stage with
  | .choosing =>
      match b.files[b.processed]? with
      | none => ({ b with stage := .leaving }, a)
      | some file =>
          if a.isClosed then ({ b with stage := .leaving }, a)
          else ({ b with stage := .reading file }, a)
  | .reading file =>
      match a.readFile s file with
      | (.error _, a) => ({ b with stage := .counting }, a)
      | (.ok reading, a) => ({ b with stage := .settling file reading }, a)
  | .settling file reading => ({ b with stage := .counting }, (a.settleFile file reading).2)
  | .counting =>
      ({ b with processed := b.processed + 1, stage := .choosing },
        { a with progress := a.progress.advance })
  | .leaving =>
      ({ b with stage := .ended },
        { a with progress := a.progress.finish (b.files.length - b.processed) s.now })
  | .ended => (b, a)

def isRunning (b : Batch) : Bool :=
  b.stage ≠ .ended

/-- How many files have not been counted as processed. -/
def unprocessed (b : Batch) : ℕ :=
  b.files.length - b.processed

/-- What the batch subtracts next is not more than there is, so that nothing is cut off at
zero: neither from a counter nor from the number of its files. -/
structure Covered (p : Progress) (b : Batch) : Prop where
  counting : b.stage = .counting → 1 ≤ p.pending
  leaving : b.stage = .leaving →
    b.processed ≤ b.files.length ∧ b.unprocessed ≤ p.pending ∧ 1 ≤ p.running

def Stage.isAtFile : Stage → Bool
  | .reading _ | .settling .. | .counting => true
  | _ => false

/-- A batch has counted no more files than it has, and not yet the one that it is at. -/
structure Fits (b : Batch) : Prop where
  processed : b.processed ≤ b.files.length
  isAtFile : b.stage.isAtFile = true → b.processed < b.files.length

/-- All that the next thing a batch does can make of the batch and of the counters. -/
inductive Goes (b : Batch) (p : Progress) (now : ℤ) : Batch → Progress → Prop where
  /-- It goes on without a word on its files. -/
  | moves (stage : Stage) (hrunning : b.stage ≠ .ended) (hstage : stage ≠ .ended)
      (hfile : stage.isAtFile = true → b.stage.isAtFile = true ∨ b.processed < b.files.length) :
      Goes b p now { b with stage } p
  | counts (hstage : b.stage = .counting) :
      Goes b p now { b with processed := b.processed + 1, stage := .choosing } p.advance
  | ends (hstage : b.stage = .leaving) :
      Goes b p now { b with stage := .ended } (p.finish (b.files.length - b.processed) now)
  | rests (hstage : b.stage = .ended) : Goes b p now b p

end Batch

structure BusyAnalyzer (σ : Type) where
  analyzer : Analyzer σ
  batches : List Batch := []

namespace BusyAnalyzer

variable {σ : Type} [DocumentStore σ] [QueryCompiler]

inductive Moment (σ : Type) where
  /-- A batch begins. -/
  | start (files : List String)
  /-- A batch does what it does next. -/
  | proceed (number : ℕ) (s : Surroundings)
  | close (s : Surroundings)
  /-- Something else is done to the analyzer, whatever it is: only batches change what is
  counted. -/
  | elsewhere (a : Analyzer σ)

def step (w : BusyAnalyzer σ) : Moment σ → BusyAnalyzer σ
  | .start files =>
      { analyzer := { w.analyzer with progress := w.analyzer.progress.start files.length }
        batches := w.batches ++ [{ files }] }
  | .proceed number s =>
      match w.batches[number]? with
      | none => w
      | some b =>
          let r := b.next w.analyzer s
          { analyzer := r.2, batches := w.batches.set number r.1 }
  | .close s => { w with analyzer := w.analyzer.close s }
  | .elsewhere a => { w with analyzer := { a with progress := w.analyzer.progress } }

def run (w : BusyAnalyzer σ) (ms : List (Moment σ)) : BusyAnalyzer σ :=
  ms.foldl step w

def progress (w : BusyAnalyzer σ) : Progress :=
  w.analyzer.progress

def running (w : BusyAnalyzer σ) : List Batch :=
  w.batches.filter Batch.isRunning

/-- The counters tell what the batches have still to do. -/
structure Counts (p : Progress) (batches : List Batch) : Prop where
  fits : ∀ b ∈ batches, b.Fits
  pending : p.pending = ((batches.filter Batch.isRunning).map Batch.unprocessed).sum
  running : p.running = (batches.filter Batch.isRunning).length
  lastIndexed : batches.filter Batch.isRunning ≠ [] → p.lastIndexed = none

end BusyAnalyzer

namespace Analyzer

variable {σ : Type}

/-- Reading a file leaves another chunker behind and nothing else. -/
lemma exists_readFile [QueryCompiler] (a : Analyzer σ) (s : Surroundings) (file : String) :
    ∃ chunkers, (a.readFile s file).2 = { a with chunkers } := by
  unfold readFile
  split
  · exact ⟨_, rfl⟩
  · split
    · exact ⟨_, rfl⟩
    · unfold extract
      split
      · exact ⟨_, rfl⟩
      · split
        · exact ⟨_, rfl⟩
        · split
          · exact ⟨_, rfl⟩
          · dsimp only
            split <;> exact ⟨_, rfl⟩

/-- Settling a reading changes the index and nothing else. -/
lemma exists_settleFile [DocumentStore σ] (a : Analyzer σ) (file : String)
    (reading : Option ChunkedFile) :
    ∃ index, (a.settleFile file reading).2 = { a with index } := by
  cases reading with
  | none =>
    rw [settleFile, removeFile]
    split <;> exact ⟨_, rfl⟩
  | some x =>
    rw [settleFile, replaceFile]
    split <;> exact ⟨_, rfl⟩

lemma exists_processNext [DocumentStore σ] [QueryCompiler] (a : Analyzer σ) (s : Surroundings)
    (file : String) :
    ∃ chunkers index, processNext s a file =
      { a with chunkers, index, progress := a.progress.advance } := by
  obtain ⟨chunkers, hread⟩ := a.exists_readFile s file
  rw [processNext, processFile_eq]
  cases hreading : a.readFile s file with
  | mk outcome b =>
    obtain rfl : b = { a with chunkers } := by rw [← hread, hreading]
    cases outcome with
    | error e => exact ⟨chunkers, a.index, rfl⟩
    | ok reading =>
      obtain ⟨index, hsettle⟩ := exists_settleFile { a with chunkers } file reading
      dsimp only
      rw [hsettle]
      exact ⟨chunkers, index, rfl⟩

end Analyzer

namespace Batch

variable {σ : Type} [DocumentStore σ] [QueryCompiler] {b b' : Batch}

lemma next_goes (b : Batch) (a : Analyzer σ) (s : Surroundings) :
    b.Goes a.progress s.now (b.next a s).1 (b.next a s).2.progress := by
  unfold next
  cases hstage : b.stage with
  | choosing =>
    cases hfile : b.files[b.processed]? with
    | none => exact .moves _ (by simp [hstage]) (by simp) (by simp [Stage.isAtFile])
    | some file =>
      have hlt : b.processed < b.files.length := (List.getElem?_eq_some_iff.mp hfile).1
      dsimp only
      split
      · exact .moves _ (by simp [hstage]) (by simp) fun _ => .inr hlt
      · exact .moves _ (by simp [hstage]) (by simp) fun _ => .inr hlt
  | reading file =>
    obtain ⟨chunkers, heq⟩ := a.exists_readFile s file
    dsimp only
    cases hread : a.readFile s file with
    | mk outcome a' =>
      obtain rfl : a' = { a with chunkers } := by rw [← heq, hread]
      cases outcome with
      | error e =>
        exact .moves _ (by simp [hstage]) (by simp) fun _ => .inl (by simp [hstage, Stage.isAtFile])
      | ok reading =>
        exact .moves _ (by simp [hstage]) (by simp) fun _ => .inl (by simp [hstage, Stage.isAtFile])
  | settling file reading =>
    obtain ⟨index, heq⟩ := a.exists_settleFile file reading
    dsimp only
    rw [heq]
    exact .moves _ (by simp [hstage]) (by simp) fun _ => .inl (by simp [hstage, Stage.isAtFile])
  | counting => exact .counts hstage
  | leaving => exact .ends hstage
  | ended => exact .rests hstage

/-- A batch with its analyzer after so many things that the batch does. -/
def alone (s : Surroundings) (n : ℕ) (x : Batch × Analyzer σ) : Batch × Analyzer σ :=
  (fun x => x.1.next x.2 s)^[n] x

variable {a : Analyzer σ} {file : String} {s : Surroundings}

lemma alone_file (hstage : b.stage = .choosing) (hfile : b.files[b.processed]? = some file)
    (hopen : a.isClosed = false) :
    ∃ n, alone s n (b, a) =
      ({ b with processed := b.processed + 1 }, Analyzer.processNext s a file) := by
  rw [Analyzer.processNext, Analyzer.processFile_eq]
  cases hread : a.readFile s file with
  | mk outcome a' =>
    obtain ⟨chunkers, heq⟩ := a.exists_readFile s file
    obtain rfl : a' = { a with chunkers } := by rw [← heq, hread]
    cases outcome with
    | error e =>
      refine ⟨3, ?_⟩
      simp [alone, next, hstage, hfile, hopen, hread]
    | ok reading =>
      refine ⟨4, ?_⟩
      simp [alone, next, hstage, hfile, hopen, hread]

lemma alone_files (hopen : a.isClosed = false) (files : List String) (processed : ℕ) :
    ∃ n, alone s n ({ files, processed }, a) =
      ({ files, processed := processed + (files.drop processed).length },
        (files.drop processed).foldl (Analyzer.processNext s) a) := by
  induction hleft : files.drop processed generalizing processed a with
  | nil => exact ⟨0, rfl⟩
  | cons file left ih =>
    have hfile : files[processed]? = some file := by
      rw [← List.head?_drop, hleft, List.head?_cons]
    have hleft' : files.drop (processed + 1) = left := by
      rw [← List.drop_drop, hleft, List.drop_succ_cons, List.drop_zero]
    obtain ⟨chunkers, index, hnext⟩ := a.exists_processNext s file
    obtain ⟨n, hone⟩ := alone_file (b := { files, processed }) (s := s) rfl hfile hopen
    obtain ⟨n', hrest⟩ := ih (a := Analyzer.processNext s a file) (by rw [hnext]; exact hopen)
      (processed + 1) hleft'
    refine ⟨n' + n, ?_⟩
    rw [alone, Function.iterate_add_apply, ← alone, ← alone, hone, hrest, List.length_cons,
      List.foldl_cons, Nat.add_right_comm, Nat.add_assoc]

/-- A batch that nothing comes in between of does what processing its files at once does. -/
lemma alone_processFiles (a : Analyzer σ) (s : Surroundings) (files : List String) :
    ∃ n processed, alone s n ({ files }, { a with progress := a.progress.start files.length }) =
      ({ files, processed, stage := .ended }, a.processFiles s files) := by
  unfold Analyzer.processFiles
  by_cases hclosed : a.isClosed = true
  · refine ⟨2, 0, ?_⟩
    cases files with
    | nil => simp [alone, next, hclosed]
    | cons file files => simp [alone, next, hclosed]
  · obtain ⟨n, hall⟩ := alone_files (s := s)
      (a := { a with progress := a.progress.start files.length }) (by simpa using hclosed) files 0
    refine ⟨2 + n, files.length, ?_⟩
    rw [alone, Function.iterate_add_apply, ← alone, ← alone, hall]
    simp [alone, next, hclosed]

end Batch

namespace BusyAnalyzer

section Counting

variable {σ : Type} {w : BusyAnalyzer σ} {p p' : Progress} {batches front rest : List Batch}
  {b b' : Batch} {now : ℤ}

/-- While a batch counts or leaves, the counters have what it subtracts. -/
lemma Counts.covered (h : Counts p batches) (hb : b ∈ batches) : b.Covered p := by
  have hmem (hstage : b.stage ≠ .ended) : b ∈ batches.filter Batch.isRunning :=
    List.mem_filter.mpr ⟨hb, by simpa [Batch.isRunning] using hstage⟩
  have hle (hstage : b.stage ≠ .ended) : b.unprocessed ≤ p.pending := by
    rw [h.pending]
    exact List.single_le_sum (by simp) _ (List.mem_map_of_mem (hmem hstage))
  refine ⟨fun hstage => ?_, fun hstage => ⟨(h.fits b hb).processed, hle (by simp [hstage]), ?_⟩⟩
  · have hlt := (h.fits b hb).isAtFile (by simp [hstage, Batch.Stage.isAtFile])
    have := hle (by simp [hstage])
    rw [Batch.unprocessed] at this
    omega
  · rw [h.running]
    exact List.length_pos_of_mem (hmem (by simp [hstage]))

lemma Counts.goes (h : Counts p (front ++ b :: rest)) (hgo : b.Goes p now b' p') :
    Counts p' (front ++ b' :: rest) := by
  have hcovered := h.covered (b := b) (by simp)
  have hfits := h.fits
  obtain ⟨hprocessed, hfile⟩ := hfits b (by simp)
  have hpending := h.pending
  have hrunning := h.running
  have hlast := h.lastIndexed
  have hfits' (hb' : b'.Fits) : ∀ x ∈ front ++ b' :: rest, x.Fits := by
    intro x hx
    rcases List.mem_append.mp hx with hx | hx
    · exact hfits x (by simp [hx])
    · rcases List.mem_cons.mp hx with rfl | hx
      · exact hb'
      · exact hfits x (by simp [hx])
  simp only [List.filter_append, List.filter_cons] at hpending hrunning hlast
  cases hgo with
  | moves stage hstage hstage' hatFile =>
    have hrun : b.isRunning = true := by simpa [Batch.isRunning] using hstage
    have hrun' : Batch.isRunning { b with stage } = true := by simpa [Batch.isRunning] using hstage'
    rw [hrun] at hpending hrunning hlast
    refine ⟨hfits' ⟨hprocessed, fun hat => (hatFile hat).elim hfile id⟩, ?_, ?_, fun _ => ?_⟩
    · simpa [List.filter_cons, hrun', Batch.unprocessed] using hpending
    · simpa [List.filter_cons, hrun'] using hrunning
    · exact hlast (by simp)
  | counts hstage =>
    have hone := hcovered.counting hstage
    have hlt := hfile (by simp [hstage, Batch.Stage.isAtFile])
    have hrun : b.isRunning = true := by simp [Batch.isRunning, hstage]
    have hrun' :
        Batch.isRunning { b with processed := b.processed + 1, stage := .choosing } = true := by
      simp [Batch.isRunning]
    rw [hrun] at hpending hrunning hlast
    refine ⟨hfits' ⟨hlt, by simp [Batch.Stage.isAtFile]⟩, ?_, ?_, fun _ => ?_⟩
    · simp [hrun', Batch.unprocessed, Progress.advance] at hpending ⊢
      omega
    · simpa [List.filter_cons, hrun', Progress.advance] using hrunning
    · exact hlast (by simp)
  | ends hstage =>
    obtain ⟨-, hle, hone⟩ := hcovered.leaving hstage
    have hrun : b.isRunning = true := by simp [Batch.isRunning, hstage]
    have hrun' : Batch.isRunning { b with stage := .ended } = false := by simp [Batch.isRunning]
    rw [hrun] at hpending hrunning hlast
    refine ⟨hfits' ⟨hprocessed, by simp [Batch.Stage.isAtFile]⟩, ?_, ?_, fun hne => ?_⟩
    · simp [hrun', Batch.unprocessed, Progress.finish] at hpending hle ⊢
      omega
    · simp [hrun', Progress.finish] at hrunning ⊢
      omega
    · have hothers := List.length_pos_iff.mpr hne
      simp only [List.filter_append, List.filter_cons, hrun', Bool.false_eq_true, if_false, if_true,
        List.length_append, List.length_cons] at hrunning hothers
      have hmore : p.running - 1 ≠ 0 := by omega
      rw [Progress.finish, if_neg hmore]
      exact hlast (by simp)
  | rests hstage => exact h

/-- If nothing is under way any more, the last batch has just ended, and its time is kept. -/
lemma Counts.last_goes (h : Counts p (front ++ b :: rest)) (hgo : b.Goes p now b' p')
    (hbefore : (front ++ b :: rest).filter Batch.isRunning ≠ [])
    (hafter : (front ++ b' :: rest).filter Batch.isRunning = []) : p' = ⟨0, 0, some now⟩ := by
  obtain ⟨-, hpending, hrunning, -⟩ := h.goes hgo
  rw [hafter] at hpending hrunning
  have hended : b'.isRunning = false := by
    have hnone := List.filter_eq_nil_iff.mp hafter b' (by simp)
    simpa using hnone
  cases hgo with
  | moves stage hstage hstage' => simp [Batch.isRunning, hstage'] at hended
  | counts => simp [Batch.isRunning] at hended
  | ends =>
    have hlast : p.running - 1 = 0 := hrunning
    rw [Progress.finish, Progress.mk.injEq]
    exact ⟨hpending, hrunning, if_pos hlast⟩
  | rests => exact absurd hafter hbefore

lemma counts_of_isAtRest (hrest : w.progress.IsAtRest) (hbatches : w.batches = []) :
    Counts w.progress w.batches := by
  rw [hbatches]
  exact ⟨by simp, hrest.1, hrest.2, by simp⟩

variable [DocumentStore σ] [QueryCompiler]

lemma proceed_eq {number : ℕ} (hb : w.batches[number]? = some b) (s : Surroundings) :
    ∃ front rest, w.batches = front ++ b :: rest ∧
      (w.step (.proceed number s)).batches = front ++ (b.next w.analyzer s).1 :: rest ∧
      (w.step (.proceed number s)).analyzer = (b.next w.analyzer s).2 := by
  obtain ⟨hlt, hget⟩ := List.getElem?_eq_some_iff.mp hb
  refine ⟨w.batches.take number, w.batches.drop (number + 1), ?_, ?_, ?_⟩
  · rw [← hget, ← List.drop_eq_getElem_cons hlt, List.take_append_drop]
  · simp only [step, hb]
    rw [List.set_eq_take_append_cons_drop, if_pos hlt]
  · simp only [step, hb]

/-- One moment: what is counted stays true, and the counters are left at zero with the time
whenever the last batch ends. -/
lemma Counts.step (h : Counts w.progress w.batches) (m : Moment σ) :
    Counts (w.step m).progress (w.step m).batches ∧
      (w.running ≠ [] → (w.step m).running = [] →
        ∃ number s, m = .proceed number s ∧ (w.step m).progress = ⟨0, 0, some s.now⟩) := by
  cases m with
  | start files =>
    have hnew : Batch.isRunning { files } = true := by simp [Batch.isRunning]
    refine ⟨⟨fun b hb => ?_, ?_, ?_, fun _ => rfl⟩, fun _ hnone => ?_⟩
    · rcases List.mem_append.mp hb with hb | hb
      · exact h.fits b hb
      · obtain rfl := List.mem_singleton.mp hb
        exact ⟨Nat.zero_le _, by simp [Batch.Stage.isAtFile]⟩
    · simp [BusyAnalyzer.step, progress, Progress.start, hnew, Batch.unprocessed]
      exact h.pending
    · simp [BusyAnalyzer.step, progress, Progress.start, hnew]
      exact h.running
    · rw [BusyAnalyzer.running, BusyAnalyzer.step, List.filter_append] at hnone
      simp [hnew] at hnone
  | proceed number s =>
    cases hb : w.batches[number]? with
    | none =>
      have hstep : w.step (.proceed number s) = w := by simp only [BusyAnalyzer.step, hb]
      rw [hstep]
      exact ⟨h, fun hsome hnone => absurd hnone hsome⟩
    | some b =>
      obtain ⟨front, rest, hbatches, hbatches', hanalyzer⟩ := proceed_eq hb s
      have hgo := b.next_goes w.analyzer s
      rw [BusyAnalyzer.running, BusyAnalyzer.running, progress, hbatches, hbatches', hanalyzer]
      rw [hbatches] at h
      exact ⟨h.goes hgo, fun hsome hnone => ⟨number, s, rfl, h.last_goes hgo hsome hnone⟩⟩
  | close s => exact ⟨h, fun hsome hnone => absurd hnone hsome⟩
  | elsewhere a => exact ⟨h, fun hsome hnone => absurd hnone hsome⟩

lemma Counts.run (h : Counts w.progress w.batches) (ms : List (Moment σ)) :
    Counts (w.run ms).progress (w.run ms).batches := by
  induction ms generalizing w with
  | nil => exact h
  | cons m ms ih => exact ih (h.step m).1

/-- A batch goes on as if it were alone as long as no other one does anything. -/
lemma run_replicate_proceed (a : Analyzer σ) (front : List Batch) (b : Batch) (s : Surroundings)
    (n : ℕ) :
    run ⟨a, front ++ [b]⟩ (.replicate n (.proceed front.length s)) =
      ⟨(Batch.alone s n (b, a)).2, front ++ [(Batch.alone s n (b, a)).1]⟩ := by
  induction n generalizing a b with
  | zero => rfl
  | succ n ih =>
    have hone : step ⟨a, front ++ [b]⟩ (.proceed front.length s) =
        ⟨(b.next a s).2, front ++ [(b.next a s).1]⟩ := by
      simp [step]
    rw [List.replicate_succ, run, List.foldl_cons, hone]
    exact ih _ _

/-- Processing files is what a new batch does while the others wait. -/
theorem exists_run_eq_processFiles (w : BusyAnalyzer σ) (s : Surroundings) (files : List String) :
    ∃ n processed, w.run (.start files :: .replicate n (.proceed w.batches.length s)) =
      { analyzer := w.analyzer.processFiles s files
        batches := w.batches ++ [{ files, processed, stage := .ended }] } := by
  obtain ⟨n, processed, halone⟩ := Batch.alone_processFiles w.analyzer s files
  refine ⟨n, processed, ?_⟩
  have hrun := run_replicate_proceed
    { w.analyzer with progress := w.analyzer.progress.start files.length } w.batches { files } s n
  rw [halone] at hrun
  exact hrun

/-- Batches run at once, whatever else is done to the analyzer meanwhile. At every moment the
counters tell how many batches there are and how many files they have not processed yet, and
nothing that is subtracted is cut off at zero. The time of indexing is unknown as long as a
batch is under way; once the last one ends, nothing waits and its end is that time. -/
theorem counters_follow_batches (hrest : w.progress.IsAtRest) (hbatches : w.batches = [])
    (ms : List (Moment σ)) :
    (w.run ms).progress.pending = ((w.run ms).running.map Batch.unprocessed).sum ∧
    (w.run ms).progress.running = (w.run ms).running.length ∧
    (∀ b ∈ (w.run ms).batches, b.Covered (w.run ms).progress) ∧
    ((w.run ms).running ≠ [] → (w.run ms).progress.lastIndexed = none ∧
      ∀ m, ((w.run ms).step m).running = [] →
        ∃ number s, m = .proceed number s ∧
          ((w.run ms).step m).progress = ⟨0, 0, some s.now⟩) := by
  have hcounts := (counts_of_isAtRest hrest hbatches).run ms
  exact ⟨hcounts.pending, hcounts.running, fun b hb => hcounts.covered hb,
    fun hsome => ⟨hcounts.lastIndexed hsome, fun m => (hcounts.step m).2 hsome⟩⟩

end Counting

/-- A workspace without files at a time. -/
def emptyAt (now : ℤ) : Surroundings where
  disk := ⟨[(["work"], .directory)]⟩
  now
  grammar := fun _ text => { kind := "source_file", start := 0, stop := text.utf8ByteSize }

def quiet : BusyAnalyzer Store where
  analyzer := {
    root := ["work"], config := {}
    index := { root := ["work"], store := .inMemory (.ofTable .empty 2) } }

/-- The first batch has a file behind it and another one before it when the analyzer is closed,
and it leaves; the second batch is at its only file. -/
def overlap : List (Moment Store) :=
  [.start ["a.rs", "b.rs"], .start ["c.rs"]] ++ .replicate 4 (.proceed 0 (emptyAt 1)) ++
    .replicate 2 (.proceed 1 (emptyAt 2)) ++ [.close (emptyAt 3), .proceed 0 (emptyAt 4)]

/-- Both batches come to their ends, the second one last. -/
def untilLast : List (Moment Store) :=
  overlap ++ [.proceed 0 (emptyAt 5)] ++ .replicate 3 (.proceed 1 (emptyAt 6))

attribute [local instance] QueryCompiler.plain

theorem overlap_is_counted :
    quiet.progress.IsAtRest ∧ quiet.batches = [] ∧
    (quiet.run overlap).progress = ⟨2, 2, none⟩ ∧
    ((quiet.run untilLast).step (.proceed 1 (emptyAt 7))).progress = ⟨0, 0, some 7⟩ := by
  have hrest : quiet.progress.IsAtRest := by decide
  obtain ⟨hpending, hrunning, -, hlast⟩ := counters_follow_batches hrest rfl overlap
  obtain ⟨-, -, -, hend⟩ := counters_follow_batches hrest rfl untilLast
  have hbatches : (quiet.run overlap).running =
      [⟨["a.rs", "b.rs"], 1, .leaving⟩, ⟨["c.rs"], 0, .settling "c.rs" none⟩] := by
    decide +kernel
  rw [hbatches] at hpending hrunning hlast
  refine ⟨hrest, rfl, ?_, ?_⟩
  · rw [Progress.mk.injEq]
    exact ⟨hpending, hrunning, (hlast (by simp)).1⟩
  · obtain ⟨number, s, hmoment, hprogress⟩ :=
      (hend (by decide +kernel)).2 (.proceed 1 (emptyAt 7)) (by decide +kernel)
    obtain ⟨-, rfl⟩ := Moment.proceed.inj hmoment
    exact hprogress

end BusyAnalyzer

end CodeSearch
