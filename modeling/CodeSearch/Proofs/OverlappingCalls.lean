import CodeSearch.Embedding.Table
import CodeSearch.Proofs.FileReadings
import CodeSearch.Proofs.IncrementalRuns

/-!
# Calls that overlap

Several tasks may process files of one workspace at a time. A call reads its file first and
puts what it has read into the index later; in between other calls come, and files change.
What is stored of a file in the end is what the call has read that was the last to put the
file into the index. If another call has read the file since, its reading is lost.
-/
namespace CodeSearch

/-- What is stored of a file tells the documents of its chunks. -/
lemma Contents.Keeps.document_mem {m : Contents} {file : String} {chunks chunks' : List Chunk}
    (h : m.Keeps file chunks) (h' : m.Keeps file chunks') {c : Chunk} (hc : c ∈ chunks)
    (hids : (chunks.map Chunk.id).Nodup) : c.document ∈ chunks'.map Chunk.document := by
  have hfound : ((chunks.map Chunk.document).find? fun d => d.id == c.id) = some c.document := by
    rw [List.find?_map, Option.map_eq_some_iff]
    refine ⟨c, ?_, rfl⟩
    cases hfind : chunks.find? ((fun d : Document => d.id == c.id) ∘ Chunk.document) with
    | none => exact absurd (beq_self_eq_true c.id) (List.find?_eq_none.mp hfind c hc)
    | some c' =>
      have hid : c'.id = c.id := by simpa [Chunk.document] using List.find?_some hfind
      rw [List.inj_on_of_nodup_map hids (List.mem_of_find?_eq_some hfind) hc hid]
  have hsame := (h c.id).symm.trans (h' c.id)
  rw [hfound] at hsame
  exact List.mem_of_find?_eq_some hsame.symm

/-- A call that processes a file. -/
structure Call where
  number : ℕ
  file : String
  deriving DecidableEq

structure SharedWorkspace extends Workspace where
  held : Call → Option (Option ChunkedFile) := fun _ => none

namespace SharedWorkspace

inductive Moment where
  /-- Files are created, edited or removed, and the disk becomes this one. -/
  | change (d : Disk)
  /-- A call reads its file. -/
  | read (now : ℤ) (c : Call)
  /-- A call puts what it has read into the index. -/
  | settle (c : Call)

/-- A call puts what it has read into the index, and is over. -/
def settleBy (w : SharedWorkspace) (c : Call) : SharedWorkspace :=
  match w.held c with
  | none => w
  | some reading =>
      { w with
        analyzer := (w.analyzer.settleFile c.file reading).2
        held := Function.update w.held c none }

@[simp] lemma disk_settleBy {w : SharedWorkspace} {c : Call} :
    (w.settleBy c).disk = w.disk := by
  unfold settleBy
  split <;> rfl

section Calls

variable [QueryCompiler] (grammar : Grammar)

/-- A call reads its file once. If that fails, the call is over. -/
def readBy (w : SharedWorkspace) (now : ℤ) (c : Call) : SharedWorkspace :=
  if (w.held c).isSome then w
  else
    match w.analyzer.readFile (w.surroundings grammar now) c.file with
    | (.error _, analyzer) => { w with analyzer }
    | (.ok reading, analyzer) =>
        { w with analyzer, held := Function.update w.held c (some reading) }

def step (w : SharedWorkspace) : Moment → SharedWorkspace
  | .change disk => { w with disk }
  | .read now c => w.readBy grammar now c
  | .settle c => w.settleBy c

def run (w : SharedWorkspace) (ms : List Moment) : SharedWorkspace :=
  ms.foldl (step grammar) w

/-- The file of a call that reads can be told from all others by its name. -/
def Moment.Separable : Moment → Prop
  | .read _ c => ChunkId.Separable c.file
  | _ => True

/-- The analyzer is sound, and what a call holds is a reading of its file. -/
structure Fit (w : SharedWorkspace) : Prop where
  sound : w.analyzer.Sound
  held : ∀ c reading, w.held c = some reading → ChunkId.Separable c.file ∧
    ∃ d now, Analyzer.Reads grammar d w.analyzer.root c.file now reading

/-- The call begins: it reads its file without a fault. -/
def Starts (w : SharedWorkspace) (now : ℤ) (c : Call) : Prop :=
  (w.held c).isNone = true ∧
    (w.analyzer.readFile (w.surroundings grammar now) c.file).1.isOk = true

/-- The call ends: it puts what it has read into the index without a fault. -/
def Ends (w : SharedWorkspace) (c : Call) : Prop :=
  ((w.held c).any fun reading => (w.analyzer.settleFile c.file reading).1.isOk) = true

variable {grammar} {w : SharedWorkspace} {c : Call} {m : Moment} {ms : List Moment}
  {file : String} {now : ℤ}

lemma run_append (ms ms' : List Moment) :
    w.run grammar (ms ++ ms') = (w.run grammar ms).run grammar ms' :=
  List.foldl_append

@[simp] lemma disk_readBy : (w.readBy grammar now c).disk = w.disk := by
  unfold readBy
  split
  · rfl
  · split <;> rfl

/-- A call that begins holds its file as it stands on the disk. -/
lemma Starts.exists_held (hw : w.Fit grammar) (h : w.Starts grammar now c) :
    ∃ reading, (w.readBy grammar now c).held c = some reading ∧
      Analyzer.Reads grammar w.disk w.analyzer.root c.file now reading := by
  obtain ⟨hnone, hok⟩ := h
  have hreads := (hw.sound.readFile (w.surroundings grammar now) c.file).2
  unfold readBy
  rw [if_neg (by simpa using hnone)]
  cases hread : w.analyzer.readFile (w.surroundings grammar now) c.file with
  | mk outcome analyzer =>
    rw [hread] at hok hreads
    match outcome, hok with
    | .ok reading, _ => exact ⟨reading, by simp, hreads reading rfl⟩

/-- Reading stores nothing, and the call holds a reading afterwards or nothing. -/
lemma readBy_spec (hw : w.Fit grammar) (now : ℤ) (hc : ChunkId.Separable c.file) :
    w.analyzer.Continues (w.readBy grammar now c).analyzer ∧ (w.readBy grammar now c).Fit grammar ∧
      (w.readBy grammar now c).contents = w.contents := by
  obtain ⟨hframe, hreads⟩ := hw.sound.readFile (w.surroundings grammar now) c.file
  have hsound := hframe.sound hw.sound
  unfold readBy
  split
  · exact ⟨⟨.refl _, hw.sound⟩, hw, rfl⟩
  · cases hread : w.analyzer.readFile (w.surroundings grammar now) c.file with
    | mk outcome analyzer =>
      rw [hread] at hframe hreads hsound
      have hroot : analyzer.root = w.analyzer.root := hframe.root
      cases outcome with
      | error e =>
        refine ⟨⟨hframe.toSameWorkspace, hsound⟩, ⟨hsound, ?_⟩, hframe.stored⟩
        dsimp only
        rw [hroot]
        exact hw.held
      | ok reading =>
        refine ⟨⟨hframe.toSameWorkspace, hsound⟩, ⟨hsound, ?_⟩, hframe.stored⟩
        dsimp only
        rw [hroot]
        intro c' reading' hheld
        by_cases hc' : c' = c
        · subst hc'
          obtain rfl : reading = reading' := by simpa using hheld
          exact ⟨hc, w.disk, now, hreads reading rfl⟩
        · rw [Function.update_of_ne hc'] at hheld
          exact hw.held c' reading' hheld

/-- Settling a call changes what is stored of its file and of no other one. -/
lemma settleBy_spec (hw : w.Fit grammar) :
    w.analyzer.Continues (w.settleBy c).analyzer ∧ (w.settleBy c).Fit grammar ∧
      ∀ other, other ≠ c.file → (w.settleBy c).contents.ofFile other = w.contents.ofFile other := by
  unfold settleBy
  cases hheld : w.held c with
  | none => exact ⟨⟨.refl _, hw.sound⟩, hw, fun _ _ => rfl⟩
  | some reading =>
    obtain ⟨hc, d, now, hreads⟩ := hw.held c reading hheld
    obtain ⟨hone, hothers, -⟩ := hw.sound.settled hc hreads
    refine ⟨hone, ⟨hone.sound, ?_⟩, hothers⟩
    dsimp only
    rw [hone.root]
    intro c' reading' hheld'
    by_cases hc' : c' = c
    · subst hc'
      simp at hheld'
    · rw [Function.update_of_ne hc'] at hheld'
      exact hw.held c' reading' hheld'

/-- One moment: the analyzer goes on soundly, and a file that no call settles is left alone. -/
lemma step_spec (hw : w.Fit grammar) (hm : m.Separable) (file : String) :
    w.analyzer.Continues (w.step grammar m).analyzer ∧ (w.step grammar m).Fit grammar ∧
      ((∀ c, m = .settle c → c.file ≠ file) →
        (w.step grammar m).contents.ofFile file = w.contents.ofFile file) := by
  cases m with
  | change d => exact ⟨⟨.refl _, hw.sound⟩, ⟨hw.sound, hw.held⟩, fun _ => rfl⟩
  | read now c =>
    obtain ⟨hone, hfit, hcontents⟩ := readBy_spec hw now hm
    exact ⟨hone, hfit, fun _ => by rw [step, hcontents]⟩
  | settle c =>
    obtain ⟨hone, hfit, hothers⟩ := settleBy_spec (c := c) hw
    exact ⟨hone, hfit, fun hfile => hothers file (hfile c rfl).symm⟩

/-- A run: the analyzer goes on soundly, and a file that no call settles is left alone. -/
lemma run_spec (hw : w.Fit grammar) (hms : ∀ m ∈ ms, m.Separable) (file : String) :
    w.analyzer.Continues (w.run grammar ms).analyzer ∧ (w.run grammar ms).Fit grammar ∧
      ((∀ c, .settle c ∈ ms → c.file ≠ file) →
        (w.run grammar ms).contents.ofFile file = w.contents.ofFile file) := by
  induction ms generalizing w with
  | nil => exact ⟨⟨.refl _, hw.sound⟩, hw, fun _ => rfl⟩
  | cons m ms ih =>
    rw [List.forall_mem_cons] at hms
    obtain ⟨hone, hfit, hsame⟩ := step_spec hw hms.1 file
    obtain ⟨hrest, hfit', hsame'⟩ := ih hfit hms.2
    refine ⟨hone.trans hrest, hfit', fun hfile => ?_⟩
    have hlater := hsame' fun c hc => hfile c (List.mem_cons_of_mem _ hc)
    exact hlater.trans (hsame fun c hc => hfile c (hc ▸ List.mem_cons_self))

/-- A call goes on holding what it has read until it settles it. -/
lemma held_run {reading : Option ChunkedFile} (hheld : w.held c = some reading)
    (hms : .settle c ∉ ms) : (w.run grammar ms).held c = some reading := by
  induction ms generalizing w with
  | nil => exact hheld
  | cons m ms ih =>
    rw [List.mem_cons, not_or] at hms
    refine ih ?_ hms.2
    cases m with
    | change d => exact hheld
    | read now c' =>
      rw [step, readBy]
      split
      · exact hheld
      · next hnone =>
        have hne : c ≠ c' := by
          rintro rfl
          simp [hheld] at hnone
        cases w.analyzer.readFile (w.surroundings grammar now) c'.file with
        | mk outcome analyzer =>
          cases outcome with
          | error e => exact hheld
          | ok reading' => exact (Function.update_of_ne hne _ _).trans hheld
    | settle c' =>
      have hne : c ≠ c' := by
        rintro rfl
        exact hms.1 rfl
      rw [step, settleBy]
      cases w.held c' with
      | none => exact hheld
      | some reading' => exact (Function.update_of_ne hne _ _).trans hheld

/-- A path that looks the same on every disk of a run looks so at its end. -/
lemma agreeAt_run {path : String} {d : Disk} (hw : Disk.AgreeAt path d w.disk)
    (hms : ∀ d', .change d' ∈ ms → Disk.AgreeAt path d d') :
    Disk.AgreeAt path d (w.run grammar ms).disk := by
  induction ms generalizing w with
  | nil => exact hw
  | cons m ms ih =>
    refine ih ?_ fun d' hd' => hms d' (List.mem_cons_of_mem _ hd')
    cases m with
    | change d' => exact hms d' List.mem_cons_self
    | read now c => rwa [step, disk_readBy]
    | settle c => rwa [step, disk_settleBy]

/-- Settling stores a file as the call has read it, on whatever disk that was. -/
lemma Ends.keeps (h : w.Ends c) (hw : w.Fit grammar) {reading : Option ChunkedFile} {d : Disk}
    (hheld : w.held c = some reading)
    (hreads : Analyzer.Reads grammar d w.analyzer.root c.file now reading) :
    (w.settleBy c).contents.Keeps c.file
      (currentChunks grammar d w.analyzer.root c.file now) := by
  have hok : (w.analyzer.settleFile c.file reading).1.isOk = true := by
    rwa [Ends, hheld, Option.any_some] at h
  have hstored := (hw.sound.settled (hw.held c reading hheld).1 hreads).2.2 hok
  rw [settleBy, hheld]
  exact hstored

variable (grammar) in
/-- A call reads its file behind the moments `before`, settles it behind those `between`, and is
the last one to settle the file. -/
structure SettlesLast (w : SharedWorkspace) (before between after : List Moment) (now : ℤ)
    (c : Call) : Prop where
  starts : (w.run grammar before).Starts grammar now c
  waits : .settle c ∉ between
  ends : (w.run grammar (before ++ .read now c :: between)).Ends c
  last : ∀ c', .settle c' ∈ after → c'.file ≠ c.file

variable {before between after : List Moment}

/-- What is stored of a file in the end is what the call has read that settles it last. -/
lemma SettlesLast.keeps (h : w.SettlesLast grammar before between after now c)
    (hw : w.Fit grammar)
    (hms : ∀ m ∈ before ++ .read now c :: between ++ .settle c :: after, m.Separable) :
    (w.run grammar (before ++ .read now c :: between ++ .settle c :: after)).contents.Keeps c.file
      (currentChunks grammar (w.run grammar before).disk w.analyzer.root c.file now) := by
  simp only [List.forall_mem_append, List.forall_mem_cons] at hms
  obtain ⟨⟨hbefore, hread, hbetween⟩, -, hafter⟩ := hms
  obtain ⟨hfront, hfit, -⟩ := run_spec hw hbefore c.file
  obtain ⟨reading, hheld, hreads⟩ := h.starts.exists_held hfit
  obtain ⟨hone, hfit₁, -⟩ := readBy_spec hfit now hread
  obtain ⟨hwait, hfit₂, -⟩ := run_spec hfit₁ hbetween c.file
  -- the call still holds its reading when it comes to settle it
  have hends : (((w.run grammar before).readBy grammar now c).run grammar between).Ends c := by
    have hends := h.ends
    rwa [run_append] at hends
  have hroot := hwait.root.trans hone.root
  have hkeeps := hends.keeps hfit₂ (held_run hheld h.waits) (hroot ▸ hreads)
  have hfit₃ := (settleBy_spec (c := c) hfit₂).2.1
  have hsame := (run_spec hfit₃ hafter c.file).2.2 h.last
  rw [hroot, hfront.root] at hkeeps
  rw [run_append, run_append]
  exact hkeeps.congr hsame

/-- Calls overlap in any way, and files change in between. If each name can be told from the
others, what is stored of a file in the end is what the call has read that settles it last;
so no update is lost if that call began after the last change of the file. -/
theorem last_settled_decides (hw : w.analyzer.Reached) (hheld : ∀ c, w.held c = none)
    (hms : ∀ m ∈ before ++ .read now c :: between ++ .settle c :: after, m.Separable)
    (h : w.SettlesLast grammar before between after now c) :
    let moments := before ++ .read now c :: between ++ .settle c :: after
    (w.run grammar moments).contents.Keeps c.file
        (currentChunks grammar (w.run grammar before).disk w.analyzer.root c.file now) ∧
      ((∀ d, .change d ∈ between ++ .settle c :: after →
          Disk.AgreeAt (Index.pathOf w.analyzer.root c.file) (w.run grammar before).disk d) →
        (w.run grammar moments).IsCurrent grammar c.file now) := by
  have hfit : w.Fit grammar := ⟨hw.sound, by simp [hheld]⟩
  have hkeeps := h.keeps hfit hms
  refine ⟨hkeeps, fun hsame => ?_⟩
  have hdisk : Disk.AgreeAt (Index.pathOf w.analyzer.root c.file) (w.run grammar before).disk
      (w.run grammar (before ++ .read now c :: between ++ .settle c :: after)).disk := by
    rw [List.append_assoc, run_append]
    refine agreeAt_run ⟨rfl, rfl⟩ fun d hd => hsame d ?_
    simpa using hd
  rw [Workspace.IsCurrent, (run_spec hfit hms c.file).1.root,
    ← currentChunks_congr grammar hdisk now]
  exact hkeeps

end Calls

open Workspace (plainGrammar)

/-- A workspace without files whose embedder gives every text the same vector. -/
def quietWorkspace : SharedWorkspace where
  analyzer := {
    root := ["work"], config := {}
    index := { root := ["work"], store := .inMemory (.ofTable .empty 2) } }
  disk := ⟨[(["work"], .directory)]⟩

/-- The disk of that workspace with a text in its only file. -/
def diskWith (text : String) : Disk :=
  ⟨[(["work"], .directory), (["work", "main.rs"], .file text.toUTF8 1)]⟩

/-- A call that processes the only file. -/
def callNumber (number : ℕ) : Call :=
  ⟨number, "main.rs"⟩

/-- The first call reads the file, which then changes, and the second call reads it. -/
def twoReadings : List Moment :=
  [.change (diskWith "fn old() {}"), .read 1 (callNumber 1), .change (diskWith "fn new() {}"),
    .read 2 (callNumber 2)]

lemma separable_twoReadings : ∀ m ∈ twoReadings, m.Separable := by
  simp [twoReadings, Moment.Separable, callNumber, Workspace.isIndexable_main.separable]

attribute [local instance] QueryCompiler.plain

theorem ordered_calls_lose_nothing :
    quietWorkspace.analyzer.Reached ∧ (∀ c, quietWorkspace.held c = none) ∧
    quietWorkspace.SettlesLast plainGrammar (twoReadings.take 3) [.settle (callNumber 1)] [] 2
      (callNumber 2) ∧
    (quietWorkspace.run plainGrammar
      (twoReadings ++ [.settle (callNumber 1), .settle (callNumber 2)])).IsCurrent
        plainGrammar "main.rs" 2 := by
  have hreached : quietWorkspace.analyzer.Reached := .fresh rfl
  have hheld : ∀ c, quietWorkspace.held c = none := fun _ => rfl
  have hlast : quietWorkspace.SettlesLast plainGrammar (twoReadings.take 3)
      [.settle (callNumber 1)] [] 2 (callNumber 2) := by
    refine ⟨?_, by simp [callNumber], ?_, by simp⟩
    · unfold Starts
      decide +kernel
    · unfold Ends
      decide +kernel
  have hsettled := last_settled_decides hreached hheld
    (by simpa [twoReadings, Moment.Separable] using separable_twoReadings) hlast
  exact ⟨hreached, hheld, hlast, hsettled.2 (by simp)⟩

/-- The second call settles the file first, and what the first call had read before the change
takes its place. -/
def overtaking : List Moment :=
  twoReadings ++ [.settle (callNumber 2), .settle (callNumber 1)]

/-- The workspace after so many of these moments. -/
def overtakenAt (count : ℕ) : SharedWorkspace :=
  quietWorkspace.run plainGrammar (overtaking.take count)

lemma separable_overtaking : ∀ m ∈ overtaking, m.Separable :=
  List.forall_mem_append.mpr ⟨separable_twoReadings, by simp [Moment.Separable]⟩

lemma fit_quietWorkspace : quietWorkspace.Fit plainGrammar := by
  have hreached : quietWorkspace.analyzer.Reached := .fresh rfl
  exact ⟨hreached.sound, by simp [quietWorkspace]⟩

lemma settlesLast_overtaking : quietWorkspace.SettlesLast plainGrammar (overtaking.take 1)
    ((overtaking.drop 2).take 3) [] 1 (callNumber 1) := by
  refine ⟨?_, by simp [overtaking, twoReadings, callNumber], ?_, by simp⟩
  · unfold Starts
    decide +kernel
  · unfold Ends
    decide +kernel

/-- None of the chunks of the new text is stored in the end. -/
lemma not_isCurrent_overtaken (now : ℤ) :
    ¬ (overtakenAt 6).IsCurrent plainGrammar "main.rs" now := by
  intro hcurrent
  have hkeeps := settlesLast_overtaking.keeps fit_quietWorkspace separable_overtaking
  have hold : ∃ c ∈ currentChunks plainGrammar (diskWith "fn old() {}") ["work"] "main.rs" 1,
      c.source = "fn old() {}" := by decide +kernel
  have hnew : ∀ c ∈ currentChunks plainGrammar (diskWith "fn new() {}") ["work"] "main.rs" 2,
      c.source = "fn new() {}" := by decide +kernel
  have hdisk : (overtakenAt 6).disk = diskWith "fn new() {}" := by
    simp [overtakenAt, overtaking, twoReadings, run, step]
  have hroot : (overtakenAt 6).analyzer.root = ["work"] :=
    (run_spec fit_quietWorkspace separable_overtaking "main.rs").1.root
  -- the store tells the source of the old text, which none of the new chunks has
  obtain ⟨c, hc, hsource⟩ := hold
  have hmem := hkeeps.document_mem hcurrent hc (nodup_currentChunks _ _ _ _ _)
  obtain ⟨c', hc', hdocument⟩ := List.mem_map.mp hmem
  rw [hdisk, hroot, currentChunks_readAt _ _ _ _ 2 now] at hc'
  obtain ⟨c₀, hc₀, rfl⟩ := List.mem_map.mp hc'
  have hcontent : c₀.source = c.source := congrArg Document.content hdocument
  rw [hnew c₀ hc₀, hsource] at hcontent
  exact absurd hcontent (by decide)

/-- Neither call fails, both are over in the end, and the second one began after the last
change of the file; but it is stored as it was before. -/
theorem overtaken_update_is_lost :
    quietWorkspace.analyzer.Reached ∧ (∀ c, quietWorkspace.held c = none) ∧
    (∀ m ∈ overtaking, m.Separable) ∧
    (overtakenAt 1).Starts plainGrammar 1 (callNumber 1) ∧
    (overtakenAt 3).Starts plainGrammar 2 (callNumber 2) ∧
    (∀ d, .change d ∉ overtaking.drop 3) ∧
    (overtakenAt 4).Ends (callNumber 2) ∧ (overtakenAt 5).Ends (callNumber 1) ∧
    (∀ number ∈ [1, 2], (overtakenAt 6).held (callNumber number) = none) ∧
    ∀ now, ¬ (overtakenAt 6).IsCurrent plainGrammar "main.rs" now := by
  refine ⟨.fresh rfl, fun _ => rfl, separable_overtaking, settlesLast_overtaking.starts, ?_, ?_,
    ?_, settlesLast_overtaking.ends, by decide +kernel, not_isCurrent_overtaken⟩
  · unfold Starts
    decide +kernel
  · simp [overtaking, twoReadings]
  · unfold Ends
    decide +kernel

end SharedWorkspace

end CodeSearch
