import CodeSearch.Proofs.ChangedDisks
import CodeSearch.Proofs.WatchedFiles

/-!
# Steady rules

A scan asks all ignore files of a disk about a directory, and the watcher asks those that it knows,
about the way to the directory as well. Where no file takes back what another leaves out, a
directory that a scan lists is ignored by no rules that hold, whether or not all are known.
-/
namespace CodeSearch

/-- The rules of a workspace go by what is in sight: no ignore file takes back a directory that is
hidden or that a `.gitignore` ignores, and a `.gitignore` that ignores its own directory has an
opinion on the directories in it. -/
structure HasSteadyRules (s : Scanner) (d : Disk) : Prop where
  notTakenBack : ∀ l ∈ s.directories d, l ≠ s.root →
    (IgnoreFiles.ofDisk d).verdict? l true = some .kept → isHidden (l.getLastD "") = false ∧
      ∀ f ∈ (IgnoreFiles.ofDisk d).versioned, f.verdict? l true ≠ some .ignored
  own : ∀ f ∈ (IgnoreFiles.ofDisk d).versioned, f.judge [] true = some .ignored →
    ∀ name, f.directory ++ [name] ∈ s.directories d → f.judge [name] true ≠ none

namespace Scanner

variable {s : Scanner} {d : Disk} {l m : Location}

lemma isDirectory_of_listed (hl : l ∈ s.directories d) : d.isDirectory l = true :=
  Disk.mem_directories_iff.mp (mem_directories_iff.mp hl).1

lemma root_of_listed (hl : l ∈ s.directories d) : s.root <+: l :=
  (reaches_iff.mp (mem_directories_iff.mp hl).2).1

lemma length_lt_of_listed (hl : l ∈ s.directories d) (hne : l ≠ s.root) :
    s.root.length < l.length := by
  have hroot := root_of_listed hl
  exact hroot.length_le.lt_of_ne fun heq => hne (hroot.eq_of_length heq).symm

lemma admits_of_listed (hl : l ∈ s.directories d) {k : ℕ} (hk : s.root.length < k)
    (hkl : k ≤ l.length) : s.admits (IgnoreFiles.ofDisk d) (l.take k) true = true := by
  have hadmits := (reaches_iff.mp (mem_directories_iff.mp hl).2).2 k hk hkl
  rwa [Bool.or_true] at hadmits

lemma listed_of_prefix (hd : d.IsTree) (hl : l ∈ s.directories d) (hroot : s.root <+: m)
    (hm : m <+: l) : m ∈ s.directories d := by
  refine mem_directories_iff.mpr ⟨Disk.mem_directories_iff.mpr
    (hd.isDirectory_of_directory hm (isDirectory_of_listed hl)), ?_⟩
  rw [List.prefix_iff_eq_take.mp hm]
  exact reaches_take (root_of_listed hl) hroot.length_le hm.length_le fun k hk hkm =>
    admits_of_listed hl hk (hkm.trans hm.length_le)

/-- A listed directory is listed by a scan that starts on the way to it. -/
lemma listed_from {excluded : List String} {root : Location}
    (hl : l ∈ (Watcher.scannerOf excluded root).directories d) (hroot : root <+: m)
    (hm : m <+: l) : l ∈ (Watcher.scannerOf excluded m).directories d := by
  refine mem_directories_iff.mpr ⟨(mem_directories_iff.mp hl).1, reaches_iff.mpr ⟨hm, ?_⟩⟩
  intro k hk hkl
  rw [Bool.or_true]
  exact admits_of_listed hl (hroot.length_le.trans_lt hk) hkl

lemma under_dropLast {root y : Location} (hroot : root <+: l) (hy : y <+: l)
    (hne : ¬ y <+: root) : root <+: y.dropLast := by
  have hlength : root.length < y.length := by
    by_contra hle
    exact hne (List.prefix_of_prefix_length_le hy hroot (by omega))
  refine List.prefix_of_prefix_length_le hroot ((List.dropLast_prefix y).trans hy) ?_
  rw [List.length_dropLast]
  omega

lemma listed_of_file (hd : d.IsTree) (hroot : d.isDirectory s.root = true)
    (hl : l ∈ s.files d) : l.dropLast ∈ s.directories d := by
  obtain ⟨hfile, hreaches, -⟩ := mem_files_iff.mp hl
  obtain ⟨hunder, hsteps⟩ := reaches_iff.mp hreaches
  have hne : s.root ≠ l := by
    rintro rfl
    rw [Disk.isFile, Disk.isDirectory_iff.mp hroot] at hfile
    cases hfile
  have hlength : s.root.length < l.length := by
    have hle := hunder.length_le
    have := mt hunder.eq_of_length hne
    omega
  have hparent : l.dropLast ≠ l := fun h => by
    have := congrArg List.length h
    rw [List.length_dropLast] at this
    omega
  refine mem_directories_iff.mpr ⟨Disk.mem_directories_iff.mpr
    (hd.isDirectory_of_prefix (List.dropLast_prefix l) hparent (Disk.isSome_of_isFile hfile)), ?_⟩
  rw [List.dropLast_eq_take]
  refine reaches_take hunder (by omega) (by omega) fun k hk hkl => ?_
  have hadmits := hsteps k hk (by omega)
  rwa [decide_eq_true (by omega), Bool.true_or] at hadmits

end Scanner

namespace HasSteadyRules

variable {s : Scanner} {d : Disk} {l : Location} {rules : IgnoreRules}

lemma isHidden_eq_false (h : HasSteadyRules s d) (hl : l ∈ s.directories d) (hne : l ≠ s.root) :
    isHidden (l.getLastD "") = false := by
  have hadmits := Scanner.admits_of_listed hl (Scanner.length_lt_of_listed hl hne) le_rfl
  rw [List.take_length, Scanner.admits_iff] at hadmits
  obtain ⟨hignored, hshown, -⟩ := hadmits
  cases hverdict : (IgnoreFiles.ofDisk d).verdict? l true with
  | none => exact hshown hverdict
  | some v =>
    cases v with
    | ignored => exact absurd hverdict hignored
    | kept => exact (h.notTakenBack l hl hne hverdict).1

/-- No `.gitignore` ignores a listed directory. -/
lemma verdict?_ne_ignored (h : HasSteadyRules s d) (hl : l ∈ s.directories d) (hne : l ≠ s.root)
    {f : IgnoreFile} (hf : f ∈ (IgnoreFiles.ofDisk d).versioned) :
    f.verdict? l true ≠ some .ignored := by
  intro hjudge
  have hadmits := Scanner.admits_of_listed hl (Scanner.length_lt_of_listed hl hne) le_rfl
  rw [List.take_length, Scanner.admits_iff] at hadmits
  cases hverdict : (IgnoreFiles.ofDisk d).verdict? l true with
  | none =>
    rw [IgnoreFiles.verdict?, Option.or_eq_none_iff, Option.or_eq_none_iff] at hverdict
    rw [List.findSome?_eq_none_iff.mp hverdict.2.1 f hf] at hjudge
    cases hjudge
  | some v =>
    cases v with
    | ignored => exact hadmits.1 hverdict
    | kept => exact (h.notTakenBack l hl hne hverdict).2 f hf hjudge

/-- Rules of the workspace that hold do not ignore a listed directory, even where some are not
known. -/
lemma isIgnored_eq_false (h : HasSteadyRules s d) (hd : d.IsTree) (hl : l ∈ s.directories d)
    (hrules : ∀ f ∈ rules.files, f ∈ (IgnoreFiles.ofDisk d).versioned ∧ s.root <+: f.directory) :
    rules.isIgnored l true = false := by
  rw [Bool.eq_false_iff]
  intro hignored
  rw [IgnoreRules.isIgnored, decide_eq_true_eq] at hignored
  obtain ⟨f, hf, hupwards⟩ := List.exists_of_findSome?_eq_some hignored
  obtain ⟨hversioned, hroot⟩ := hrules f hf
  have hlisted {m : Location} (hlong : f.directory.length < m.length) (hm : m <+: l) :
      m ∈ s.directories d := by
    have hlength := hroot.length_le
    exact Scanner.listed_of_prefix hd hl
      (List.prefix_of_prefix_length_le (Scanner.root_of_listed hl) hm (by omega)) hm
  have hnone {m : Location} (hm : m <+: l) : f.verdict? m true ≠ some .ignored := by
    intro hjudge
    have hlong := (IgnoreFile.verdict?_eq_some_iff.mp hjudge).2.1
    refine h.verdict?_ne_ignored (hlisted hlong hm) ?_ hversioned hjudge
    rintro rfl
    have hlength := hroot.length_le
    omega
  have hown (hjudge : f.judge [] true = some .ignored) (name : String)
      (hname : f.directory ++ [name] <+: l) : f.judge [name] true ≠ none :=
    h.own f hversioned hjudge name (hlisted (by simp) hname)
  rcases IgnoreFile.verdict?_of_verdictUpwards? (fun hjudge name hname =>
    ⟨hown hjudge name hname, hown hjudge name hname⟩) hupwards with hhere | ⟨k, hk, hway⟩
  · exact hnone List.prefix_rfl hhere
  · exact hnone (List.take_prefix k l) hway

end HasSteadyRules

end CodeSearch
