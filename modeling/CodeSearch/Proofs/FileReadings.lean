import CodeSearch.Proofs.Batches

/-!
# Readings of files

To process a file is to read it first and to put what was read into the index afterwards.
Reading stores nothing and finds the file as it stands on the disk; storing needs no disk.
-/
namespace CodeSearch

namespace Analyzer

variable [QueryCompiler]

section Halves

variable {σ : Type} [DocumentStore σ]

/-- The first half of processing a file: it is read and cut into chunks, or there is nothing
to be put into the index, because it is gone or ignored. -/
def readFile (a : Analyzer σ) (s : Surroundings) (file : String) :
    Except IndexError (Option ChunkedFile) × Analyzer σ :=
  if !Path.staysInside file then
    (.error (.invalidPath (file ++ " is outside the workspace")), a)
  else if !s.disk.has (Index.pathOf a.root file) then (.ok none, a)
  else a.extract s file

/-- The second half: what was read takes the place of what the index has of the file. -/
def settleFile (a : Analyzer σ) (file : String) (reading : Option ChunkedFile) :
    Except IndexError Unit × Analyzer σ :=
  match reading with
  | some chunked => a.replaceFile chunked
  | none => a.removeFile file

/-- A file is processed by its two halves. -/
lemma processFile_eq (a : Analyzer σ) (s : Surroundings) (file : String) :
    a.processFile s file =
      match a.readFile s file with
      | (.error e, b) => (.error e, b)
      | (.ok reading, b) => b.settleFile file reading := by
  unfold processFile readFile
  split
  · rfl
  · split
    · rfl
    · cases a.extract s file with
      | mk outcome b =>
        match outcome with
        | .error e => rfl
        | .ok none => rfl
        | .ok (some chunked) => rfl

end Halves

/-- A reading of a file finds its chunks as they are on a disk. -/
structure Reads (grammar : Grammar) (d : Disk) (root : Location) (file : String) (now : ℤ)
    (reading : Option ChunkedFile) : Prop where
  path : ∀ x ∈ reading, x.path = file
  chunks : (reading.map (·.chunks)).getD [] = currentChunks grammar d root file now

variable {a : Analyzer Store} {grammar : Grammar} {d : Disk} {file : String} {now : ℤ}
  {reading : Option ChunkedFile}

/-- A file that is read without a fault is read as it is, and reading leaves another chunker
behind and nothing else. -/
lemma ChunkersFit.readFile (ha : a.ChunkersFit) (s : Surroundings) (file : String) :
    (∃ chunkers, (a.readFile s file).2 = { a with chunkers }) ∧
      (a.readFile s file).2.ChunkersFit ∧
      ∀ reading, (a.readFile s file).1 = .ok reading →
        Reads s.grammar s.disk a.root file s.now reading := by
  unfold Analyzer.readFile
  split
  · exact ⟨⟨a.chunkers, rfl⟩, ha, by simp⟩
  cases hhas : s.disk.has (Index.pathOf a.root file) with
  | false =>
    refine ⟨⟨a.chunkers, rfl⟩, ha, ?_⟩
    rintro reading hreading
    obtain rfl : none = reading := by simpa using hreading
    exact ⟨by simp, (currentChunks_of_gone hhas s.now).symm⟩
  | true =>
    obtain ⟨hframe, hfit, houtcome⟩ := ha.extract s hhas
    rw [if_neg (by simp)]
    refine ⟨hframe, hfit, fun reading hreading => ?_⟩
    rw [hreading] at houtcome
    cases reading with
    | none => exact ⟨by simp, houtcome.symm⟩
    | some x => exact ⟨by simpa using houtcome.1, houtcome.2⟩

lemma Sound.readFile (ha : a.Sound) (s : Surroundings) (file : String) :
    a.Becomes a.stored (a.readFile s file).2 ∧
      ∀ reading, (a.readFile s file).1 = .ok reading →
        Reads s.grammar s.disk a.root file s.now reading := by
  obtain ⟨⟨chunkers, heq⟩, hfit, hreads⟩ := ha.chunkers.readFile s file
  rw [heq] at hfit ⊢
  exact ⟨⟨⟨rfl, rfl, rfl⟩, hfit, rfl⟩, hreads⟩

/-- What was read is stored in place of what the store has of the file, or the file is left
without chunks. -/
lemma Sound.settleFile (ha : a.Sound) (hpath : ∀ x ∈ reading, x.path = file) :
    (∃ b documents, a.settleFile file reading = (.ok (), b) ∧
      documents.map (·.toDocument) = ((reading.map (·.chunks)).getD []).map Chunk.document ∧
      a.Becomes (a.stored.refile file documents) b) ∨
    (∃ e b, a.settleFile file reading = (.error e, b) ∧
      a.Becomes (a.stored.refile file []) b) := by
  cases reading with
  | none =>
    obtain ⟨b, hremove, hb⟩ := ha.removeFile file
    exact .inl ⟨b, [], hremove, rfl, hb⟩
  | some x =>
    obtain rfl : x.path = file := hpath x rfl
    exact ha.replaceFile x

/-- Settling a reading leaves the other files alone. Unless it fails, the file is stored as
it was read, on whatever disk and at whatever time. -/
lemma Sound.settled (ha : a.Sound) (hfile : ChunkId.Separable file)
    (hreading : Reads grammar d a.root file now reading) :
    a.Continues (a.settleFile file reading).2 ∧
      (∀ other, other ≠ file →
        (a.settleFile file reading).2.stored.ofFile other = a.stored.ofFile other) ∧
      ((a.settleFile file reading).1.isOk = true →
        (a.settleFile file reading).2.stored.Keeps file
          (currentChunks grammar d a.root file now)) := by
  rcases ha.settleFile hreading.path with ⟨b, documents, h, hdocuments, hb⟩ | ⟨e, b, h, hb⟩
  · rw [hreading.chunks] at hdocuments
    have hbelong := belongsTo_of_current hfile hdocuments
    rw [h]
    refine ⟨⟨hb.toSameWorkspace, hb.sound_refile ha hbelong⟩, fun other hother => ?_, fun _ => ?_⟩
    · rw [hb.stored]
      exact Contents.ofFile_refile_of_ne ha.filed hbelong hother
    · rw [hb.stored]
      exact Contents.keeps_refile hdocuments hbelong (nodup_currentChunks _ _ _ _ _)
  · rw [h]
    refine ⟨⟨hb.toSameWorkspace, hb.sound_refile ha (by simp)⟩, fun other hother => ?_, ?_⟩
    · rw [hb.stored]
      exact Contents.ofFile_refile_of_ne ha.filed (by simp) hother
    · intro hok
      cases hok

/-- Processing a file leaves the other files alone. Unless it fails, the file is stored as it
stands on the disk. -/
lemma Sound.processed (ha : a.Sound) (s : Surroundings) (hfile : ChunkId.Separable file) :
    a.Continues (a.processFile s file).2 ∧
      (∀ other, other ≠ file →
        (a.processFile s file).2.stored.ofFile other = a.stored.ofFile other) ∧
      ((a.processFile s file).1.isOk = true → (a.processFile s file).2.stored.Keeps file
        (currentChunks s.grammar s.disk a.root file s.now)) := by
  obtain ⟨hframe, hreads⟩ := ha.readFile s file
  rw [processFile_eq]
  cases hread : a.readFile s file with
  | mk outcome b =>
    rw [hread] at hframe hreads
    have hb := hframe.sound ha
    cases outcome with
    | error e =>
      refine ⟨⟨hframe.toSameWorkspace, hb⟩, fun other _ => ?_, ?_⟩
      · exact congrArg (Contents.ofFile · other) hframe.stored
      · intro hok
        cases hok
    | ok reading =>
      have hreading := hreads reading rfl
      rw [← hframe.root] at hreading ⊢
      obtain ⟨hone, hothers, hkeeps⟩ := hb.settled hfile hreading
      refine ⟨⟨hframe.toSameWorkspace.trans hone.toSameWorkspace, hone.sound⟩, ?_, hkeeps⟩
      intro other hother
      rw [← hframe.stored]
      exact hothers other hother

end Analyzer

end CodeSearch
