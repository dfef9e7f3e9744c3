import CodeSearch.Proofs.ChunkNames
import CodeSearch.Proofs.NearestRules
import CodeSearch.Watch.Watcher

/-!
# Watched files

A scan goes down from the root and asks the ignore files about each step on its own. The
watcher is given one path and asks about the way to it as well, by the rules of the
directories that a scan has visited. The two agree on a file unless an ignore file takes
back a directory on the way to it or has an opinion on its own directory, or the file is
hidden by its own name, or lies directly in a root that is left out as a whole.
-/
namespace CodeSearch

/-- A name that is known not to hold sources is not that of a supported file. -/
lemma not_unscanned_of_supported {l : Location}
    (hsupported : (Language.ofPath? l.path).isSome = true) :
    unscannedNames.contains (l.getLastD "") = false := by
  rw [Bool.eq_false_iff]
  intro hcontains
  have hmem : l.getLastD "" ∈ unscannedNames := by simpa using hcontains
  have hnames : ∀ name ∈ unscannedNames,
      Path.steps (Path.parts name.toList) = [.normal name] ∧
        ((Path.extensionOf? name.toList).bind Language.ofExtension?).isSome = false := by
    decide
  obtain ⟨hsteps, hextension⟩ := hnames _ hmem
  cases hlast : l.getLast? with
  | none =>
    have hempty : l.getLastD "" = "" := by rw [List.getLastD_eq_getLast?, hlast]; rfl
    rw [hempty] at hmem
    exact absurd hmem (by decide)
  | some name =>
    obtain ⟨front, rfl⟩ := List.getLast?_eq_some_iff.mp hlast
    have hname : (front ++ [name]).getLastD "" = name := by simp
    rw [hname] at hsteps hextension
    have hfileName : Path.fileName? (Location.path (front ++ [name])) = some name := by
      rw [Path.fileName?, Path.components_path, List.flatMap_append, List.flatMap_singleton, hsteps,
        ← List.cons_append, List.getLast?_concat]
    rw [Language.ofPath?, Path.extension?, hfileName, Option.bind_some, hextension] at hsupported
    cases hsupported

lemma Disk.mem_files_iff {d : Disk} {l : Location} : l ∈ d.files ↔ d.isFile l = true := by
  rw [files, List.mem_map]
  constructor
  · rintro ⟨e, he, rfl⟩
    exact (List.mem_filter.mp he).2
  · intro h
    have hkept := h
    unfold isFile at? at h
    split at h
    · next bytes modified heq =>
      split at heq
      · cases heq
      · obtain ⟨front, back, hentries, -⟩ := List.lookup_eq_some_iff.mp heq
        have hmem : (l, DiskEntry.file bytes modified) ∈ d.entries := by simp [hentries]
        exact ⟨_, List.mem_filter.mpr ⟨hmem, hkept⟩, rfl⟩
    · cases h

namespace Scanner

variable {s : Scanner} {files : IgnoreFiles} {d : Disk} {l : Location} {isDirectory : Bool}

lemma admits_iff : s.admits files l isDirectory = true ↔
    files.verdict? l isDirectory ≠ some .ignored ∧
      (files.verdict? l isDirectory = none → isHidden (l.getLastD "") = false) ∧
      s.excludes l = false ∧ unscannedNames.contains (l.getLastD "") = false := by
  rw [admits]
  cases files.verdict? l isDirectory with
  | none => simp [and_assoc]
  | some verdict => cases verdict <;> simp

lemma reaches_iff : s.reaches files l isDirectory = true ↔ s.root <+: l ∧
    ∀ k, s.root.length < k → k ≤ l.length →
      s.admits files (l.take k) (k < l.length || isDirectory) = true := by
  rw [reaches, Bool.and_eq_true, List.isPrefixOf_iff_prefix, List.all_eq_true]
  refine and_congr_right fun hroot => ?_
  have hlength := hroot.length_le
  simp only [List.mem_range'_1]
  exact ⟨fun h k hk hkl => h k ⟨by omega, by omega⟩, fun h k hk => h k (by omega) (by omega)⟩

lemma mem_files_iff : l ∈ s.files d ↔ d.isFile l = true ∧
    s.reaches (IgnoreFiles.ofDisk d) l false = true ∧ (Language.ofPath? l.path).isSome = true := by
  simp [files, Disk.mem_files_iff]

lemma mem_directories_iff : l ∈ s.directories d ↔ l ∈ d.directories ∧
    s.reaches (IgnoreFiles.ofDisk d) l true = true := by
  simp [directories]

/-- The rules that the watcher goes by are those of the directories that are scanned. -/
lemma mem_ignoreRules_iff {f : IgnoreFile} : f ∈ (s.ignoreRules d).files ↔
    f ∈ (IgnoreFiles.ofDisk d).versioned ∧
      s.reaches (IgnoreFiles.ofDisk d) f.directory true = true := by
  rw [ignoreRules, IgnoreFiles.ofDisk, IgnoreFile.mem_collect_iff, IgnoreFile.mem_collect_iff,
    mem_directories_iff]
  tauto

end Scanner

/-- The only ignore files that concern a workspace are the `.gitignore` files in it. -/
structure HasOwnRules (d : Disk) (root : Location) : Prop where
  plain : ∀ f ∈ (IgnoreFiles.ofDisk d).plain, ¬ f.directory <+: root ∧ ¬ root <+: f.directory
  unshared : ∀ f ∈ (IgnoreFiles.ofDisk d).unshared,
    ¬ f.directory <+: root ∧ ¬ root <+: f.directory
  versioned : ∀ f ∈ (IgnoreFiles.ofDisk d).versioned, f.directory <+: root → f.directory = root

/-- A file of which the watcher and the scan take the same view: it is not hidden by its own
name, no excluded directory holds it without holding its directory, which is not the root, and
the ignore files around it neither judge their own directories nor take back a directory on
the way to it. -/
structure IsPlain (d : Disk) (root : Location) (excluded : List String) (l : Location) : Prop
    where
  name : isHidden (l.getLastD "") = false
  excluded : ∀ dir ∈ excluded, Path.isUnder l.path dir = true →
    Path.isUnder (Location.path l.dropLast) dir = true ∧ l.dropLast ≠ root
  own : ∀ f ∈ (IgnoreFiles.ofDisk d).versioned, f.directory <+: l → f.judge [] true = none
  notKept : ∀ f ∈ (IgnoreFiles.ofDisk d).versioned, ∀ k < l.length,
    f.verdict? (l.take k) true ≠ some .kept

section Rules

variable {d : Disk} {root l : Location} {excluded : List String} {f : IgnoreFile}
  {isDirectory : Bool} {v : Ignore.Verdict} {k n : ℕ}

/-- A scan goes by the `.gitignore` files alone then. -/
lemma HasOwnRules.verdict?_eq (hrules : HasOwnRules d root) (hroot : root <+: l)
    (isDirectory : Bool) : (IgnoreFiles.ofDisk d).verdict? l isDirectory =
      (IgnoreFiles.ofDisk d).versioned.findSome? fun f => f.verdict? l isDirectory := by
  have hsilent {fs : List IgnoreFile}
      (hfs : ∀ f ∈ fs, ¬ f.directory <+: root ∧ ¬ root <+: f.directory) :
      (fs.findSome? fun f => f.verdict? l isDirectory) = none := by
    rw [List.findSome?_eq_none_iff]
    intro f hf
    cases hverdict : f.verdict? l isDirectory with
    | none => rfl
    | some v =>
      have hunder := (IgnoreFile.verdict?_eq_some_iff.mp hverdict).1
      rcases List.prefix_or_prefix_of_prefix hunder hroot with h | h
      · exact absurd h (hfs f hf).1
      · exact absurd h (hfs f hf).2
  simp only [IgnoreFiles.verdict?, hsilent hrules.plain, hsilent hrules.unshared, Option.none_or,
    Option.or_none]

/-- The deepest `.gitignore` with an opinion decides for the scan. -/
lemma HasOwnRules.verdict?_eq_some_iff (hrules : HasOwnRules d root) (hroot : root <+: l) :
    (IgnoreFiles.ofDisk d).verdict? l isDirectory = some v ↔
      ∃ f ∈ (IgnoreFiles.ofDisk d).versioned, f.verdict? l isDirectory = some v ∧
        ∀ g ∈ (IgnoreFiles.ofDisk d).versioned,
          f.directory.length < g.directory.length → g.verdict? l isDirectory = none := by
  rw [hrules.verdict?_eq hroot]
  exact IgnoreFile.findSome?_collect_eq_some_iff fun _ _ hf =>
    (IgnoreFile.verdict?_eq_some_iff.mp hf).1

/-- Files around a location of the workspace lie in the workspace. -/
lemma HasOwnRules.root_under (hrules : HasOwnRules d root) (hroot : root <+: l)
    (hf : f ∈ (IgnoreFiles.ofDisk d).versioned) (hunder : f.directory <+: l) :
    root <+: f.directory := by
  rcases List.prefix_or_prefix_of_prefix hunder hroot with h | h
  · rw [hrules.versioned f hf h]
  · exact h

/-- The deepest rules with an opinion on a location or the way to it decide for the watcher. -/
lemma upwards_eq_some_iff {s : Scanner} :
    ((s.ignoreRules d).files.findSome? fun f => f.verdictUpwards? l isDirectory) = some v ↔
      ∃ f ∈ (s.ignoreRules d).files, f.verdictUpwards? l isDirectory = some v ∧
        ∀ g ∈ (s.ignoreRules d).files,
          f.directory.length < g.directory.length → g.verdictUpwards? l isDirectory = none :=
  IgnoreFile.findSome?_collect_eq_some_iff fun _ _ hf =>
    (IgnoreFile.verdictUpwards?_eq_some_iff.mp hf).1

/-- A scan that gets to a location gets to the directories on the way to it. -/
lemma reaches_take {s : Scanner} {files : IgnoreFiles} (hroot : s.root <+: l)
    (hn : s.root.length ≤ n) (hnl : n ≤ l.length)
    (hsteps : ∀ k, s.root.length < k → k ≤ n → s.admits files (l.take k) true = true) :
    s.reaches files (l.take n) true = true := by
  have hstep := List.take_prefix n l
  refine Scanner.reaches_iff.mpr ⟨?_, fun k hk hkn => ?_⟩
  · exact List.prefix_of_prefix_length_le hroot hstep (by rw [List.length_take]; omega)
  · rw [List.length_take] at hkn
    rw [List.take_take, Nat.min_eq_left (by omega), Bool.or_true]
    exact hsteps k hk (by omega)

/-- What a scan admits although some `.gitignore` ignores it is taken back by a deeper one. -/
lemma HasOwnRules.exists_deeper_kept (hrules : HasOwnRules d root) (hroot : root <+: l)
    {s : Scanner} (hadmits : s.admits (IgnoreFiles.ofDisk d) l isDirectory = true)
    (hf : f ∈ (IgnoreFiles.ofDisk d).versioned)
    (hignored : f.verdict? l isDirectory = some .ignored) :
    ∃ g ∈ (IgnoreFiles.ofDisk d).versioned, g.verdict? l isDirectory = some .kept ∧
      f.directory.length < g.directory.length := by
  cases hverdict : (IgnoreFiles.ofDisk d).verdict? l isDirectory with
  | none =>
    rw [hrules.verdict?_eq hroot, List.findSome?_eq_none_iff] at hverdict
    rw [hverdict f hf] at hignored
    cases hignored
  | some v =>
    cases v with
    | ignored => exact absurd hverdict (Scanner.admits_iff.mp hadmits).1
    | kept =>
      obtain ⟨g, hg, hkept, hdeeper⟩ := (hrules.verdict?_eq_some_iff hroot).mp hverdict
      refine ⟨g, hg, hkept, ?_⟩
      have hgf : ¬ g.directory.length < f.directory.length := fun hlt => by
        rw [hdeeper f hf hlt] at hignored
        cases hignored
      have hne := IgnoreFile.length_ne_of_disagree hg hf hkept hignored (by decide)
      omega

/-- A file that is scanned has no directory on the way that a `.gitignore` ignores. -/
lemma IsPlain.not_ignored_of_reaches (hplain : IsPlain d root excluded l)
    (hrules : HasOwnRules d root)
    (hreaches : (Watcher.scannerOf excluded root).reaches (IgnoreFiles.ofDisk d) l false = true)
    (hf : f ∈ (IgnoreFiles.ofDisk d).versioned) (hk : k < l.length) :
    f.verdict? (l.take k) true ≠ some .ignored := by
  intro hignored
  obtain ⟨hroot, hsteps⟩ := Scanner.reaches_iff.mp hreaches
  obtain ⟨hunder, hlength, -⟩ := IgnoreFile.verdict?_eq_some_iff.mp hignored
  have hstep := List.take_prefix k l
  have hbelow := (hrules.root_under hroot hf (hunder.trans hstep)).length_le
  rw [List.length_take] at hlength
  have hroot' : root <+: l.take k :=
    List.prefix_of_prefix_length_le hroot hstep (by rw [List.length_take]; omega)
  have hadmits := hsteps k (by change root.length < k; omega) hk.le
  rw [decide_eq_true hk, Bool.true_or] at hadmits
  obtain ⟨g, hg, hkept, -⟩ := hrules.exists_deeper_kept hroot' hadmits hf hignored
  exact hplain.notKept g hg k hk hkept

/-- The rules around a file that is scanned are those of scanned directories. -/
lemma HasOwnRules.mem_ignoreRules (hrules : HasOwnRules d root)
    (hreaches : (Watcher.scannerOf excluded root).reaches (IgnoreFiles.ofDisk d) l false = true)
    (hf : f ∈ (IgnoreFiles.ofDisk d).versioned) (hunder : f.directory <+: l)
    (hlength : f.directory.length < l.length) :
    f ∈ ((Watcher.scannerOf excluded root).ignoreRules d).files := by
  obtain ⟨hroot, hsteps⟩ := Scanner.reaches_iff.mp hreaches
  have hbelow := hrules.root_under hroot hf hunder
  refine Scanner.mem_ignoreRules_iff.mpr ⟨hf, ?_⟩
  rw [List.prefix_iff_eq_take.mp hunder]
  refine reaches_take hroot hbelow.length_le hlength.le fun k hk hkn => ?_
  have hadmits := hsteps k hk (by omega)
  rwa [decide_eq_true (by omega), Bool.true_or] at hadmits

/-- The watcher's rules ignore neither a file that is scanned nor a directory on the way to
it. -/
lemma IsPlain.isIgnored_eq_false (hplain : IsPlain d root excluded l)
    (hrules : HasOwnRules d root)
    (hreaches : (Watcher.scannerOf excluded root).reaches (IgnoreFiles.ofDisk d) l false = true)
    (hroot : root.length < l.length) (hn : n ≤ l.length) :
    ((Watcher.scannerOf excluded root).ignoreRules d).isIgnored (l.take n)
      (decide (n < l.length)) = false := by
  rw [Bool.eq_false_iff]
  intro hisIgnored
  rw [IgnoreRules.isIgnored, decide_eq_true_eq] at hisIgnored
  obtain ⟨f, hmem, hignored, hdeeper⟩ := upwards_eq_some_iff.mp hisIgnored
  have hf := (Scanner.mem_ignoreRules_iff.mp hmem).1
  have hstep := List.take_prefix n l
  have hunder := (IgnoreFile.verdictUpwards?_eq_some_iff.mp hignored).1
  have hown := hplain.own f hf (hunder.trans hstep)
  rcases IgnoreFile.verdict?_of_verdictUpwards? (by simp [hown]) hignored with hhere | ⟨k, hk, hway⟩
  · by_cases hlast : n = l.length
    · -- the rules that take the file back are deeper, so the watcher hears them first
      obtain ⟨hroot', hsteps⟩ := Scanner.reaches_iff.mp hreaches
      have hadmits := hsteps l.length hroot le_rfl
      rw [List.take_length, Bool.or_false] at hadmits
      rw [hlast, List.take_length] at hhere hdeeper
      obtain ⟨g, hg, hkept, hlt⟩ := hrules.exists_deeper_kept hroot' hadmits hf hhere
      obtain ⟨hgunder, hglength, -⟩ := IgnoreFile.verdict?_eq_some_iff.mp hkept
      have hgmem := hrules.mem_ignoreRules hreaches hg hgunder hglength
      have hnone := hdeeper g hgmem hlt
      rw [IgnoreFile.verdictUpwards?_of_verdict? hkept] at hnone
      cases hnone
    · rw [decide_eq_true (by omega)] at hhere
      exact hplain.not_ignored_of_reaches hrules hreaches hf (by omega) hhere
  · rw [List.length_take] at hk
    rw [List.take_take, Nat.min_eq_left (by omega)] at hway
    exact hplain.not_ignored_of_reaches hrules hreaches hf (by omega) hway

/-- If some rules have an opinion on a location or the way to it, and none take anything back,
the watcher ignores the location. -/
lemma isIgnored_of_opinion {s : Scanner} (hf : f ∈ (s.ignoreRules d).files)
    (hopinion : f.verdictUpwards? l isDirectory ≠ none)
    (hkept : ∀ g ∈ (s.ignoreRules d).files, g.verdictUpwards? l isDirectory = some .kept →
      g.directory.length < f.directory.length) :
    (s.ignoreRules d).isIgnored l isDirectory = true := by
  cases hfind : (s.ignoreRules d).files.findSome? fun g => g.verdictUpwards? l isDirectory with
  | none =>
    rw [List.findSome?_eq_none_iff] at hfind
    exact absurd (hfind f hf) hopinion
  | some v =>
    cases v with
    | ignored => rw [IgnoreRules.isIgnored, hfind, decide_eq_true_eq]
    | kept =>
      obtain ⟨g, hg, hgkept, hdeeper⟩ := upwards_eq_some_iff.mp hfind
      exact absurd (hdeeper f hf (hkept g hg hgkept)) hopinion

/-- A directory on the way to a file is ignored by the watcher if a `.gitignore` that a scan
has read ignores it or a directory on the way to it. -/
lemma IsPlain.isIgnored_of_step (hplain : IsPlain d root excluded l)
    (hf : f ∈ ((Watcher.scannerOf excluded root).ignoreRules d).files) (hkn : k ≤ n)
    (hn : n < l.length) (hignored : f.verdict? (l.take k) true = some .ignored) :
    ((Watcher.scannerOf excluded root).ignoreRules d).isIgnored (l.take n) true = true := by
  have hlength : (l.take n).length = n := by rw [List.length_take]; omega
  refine isIgnored_of_opinion hf ?_ fun g hg hgkept => ?_
  · rcases hkn.eq_or_lt with rfl | hlt
    · rw [IgnoreFile.verdictUpwards?_of_verdict? hignored]
      simp
    · refine IgnoreFile.verdictUpwards?_ne_none (k := k) (by omega) (v := .ignored) ?_
      rwa [List.take_take, Nat.min_eq_left hkn]
  · -- no rules take anything back on the way to the file
    have hmem := (Scanner.mem_ignoreRules_iff.mp hg).1
    have hstep := List.take_prefix n l
    have hunder := (IgnoreFile.verdictUpwards?_eq_some_iff.mp hgkept).1
    have hown := hplain.own g hmem (hunder.trans hstep)
    rcases IgnoreFile.verdict?_of_verdictUpwards? (by simp [hown]) hgkept with hhere | ⟨j, hj, hway⟩
    · exact absurd hhere (hplain.notKept g hmem n hn)
    · rw [hlength] at hj
      rw [List.take_take, Nat.min_eq_left hj.le] at hway
      exact absurd hway (hplain.notKept g hmem j (by omega))

/-- A file is ignored by the watcher if the deepest `.gitignore` with an opinion on it ignores
it and a scan has read that. -/
lemma IsPlain.isIgnored_of_file (hplain : IsPlain d root excluded l)
    (hf : f ∈ ((Watcher.scannerOf excluded root).ignoreRules d).files)
    (hignored : f.verdict? l false = some .ignored)
    (hdeeper : ∀ g ∈ (IgnoreFiles.ofDisk d).versioned,
      f.directory.length < g.directory.length → g.verdict? l false = none) :
    ((Watcher.scannerOf excluded root).ignoreRules d).isIgnored l false = true := by
  refine isIgnored_of_opinion hf ?_ fun g hg hgkept => ?_
  · rw [IgnoreFile.verdictUpwards?_of_verdict? hignored]
    simp
  · have hmem := (Scanner.mem_ignoreRules_iff.mp hg).1
    have hunder := (IgnoreFile.verdictUpwards?_eq_some_iff.mp hgkept).1
    have hown := hplain.own g hmem hunder
    rcases IgnoreFile.verdict?_of_verdictUpwards? (by simp [hown]) hgkept with
      hhere | ⟨j, hj, hway⟩
    · have hfmem := (Scanner.mem_ignoreRules_iff.mp hf).1
      have hnot : ¬ f.directory.length < g.directory.length := fun hlt => by
        rw [hdeeper g hmem hlt] at hhere
        cases hhere
      have hne := IgnoreFile.length_ne_of_disagree hmem hfmem hhere hignored (by decide)
      omega
    · exact absurd hway (hplain.notKept g hmem j hj)

end Rules

namespace Watcher

variable {d : Disk} {root l : Location} {excluded : List String} {k : ℕ}

/-- What the watcher asks of a file below the root. -/
lemma isRelevantFile_iff (hroot : root <+: l) (hne : l ≠ root) :
    (ofRoot d root excluded).isRelevantFile l = true ↔
      (Language.ofPath? l.path).isSome = true ∧
      (l.dropLast = root ∨ isUnscanned (l.dropLast.drop root.length) = false ∧
        (scannerOf excluded root).excludes l.dropLast = false ∧
        ((scannerOf excluded root).ignoreRules d).isIgnored l.dropLast true = false) ∧
      ((scannerOf excluded root).ignoreRules d).isIgnored l false = false := by
  have hlength : root.length < l.length :=
    hroot.length_le.lt_of_ne fun heq => hne (hroot.eq_of_length heq).symm
  have hnil : l ≠ [] := List.ne_nil_of_length_pos (by omega)
  have hparent : root <+: l.dropLast := by
    rw [List.dropLast_eq_take]
    have hstep := List.take_prefix (l.length - 1) l
    exact List.prefix_of_prefix_length_le hroot hstep (by rw [List.length_take]; omega)
  simp [isRelevantFile, isRelevantDirectory, ofRoot, hnil, List.isPrefixOf_iff_prefix, hparent,
    and_assoc]

lemma isUnscanned_eq_false_iff {steps : Location} : isUnscanned steps = false ↔
    ∀ name ∈ steps, isHidden name = false ∧ unscannedNames.contains name = false := by
  simp [isUnscanned]

/-- The steps from the root to the directory of a file are the names of the directories on the
way. -/
lemma mem_steps_iff {name : String} : name ∈ l.dropLast.drop root.length ↔
    ∃ k, root.length < k ∧ k < l.length ∧ (l.take k).getLastD "" = name := by
  have hlast (k : ℕ) (hk : k < l.length) : (l.take (k + 1)).getLastD "" = l[k] := by
    simp [List.getLastD_eq_getLast?, List.getLast?_take, hk]
  rw [List.mem_drop_iff_getElem]
  constructor
  · rintro ⟨i, hi, rfl⟩
    rw [List.length_dropLast] at hi
    refine ⟨root.length + i + 1, by omega, by omega, ?_⟩
    rw [hlast _ (by omega), List.getElem_dropLast]
  · rintro ⟨k, hk, hkl, rfl⟩
    obtain ⟨j, rfl⟩ : ∃ j, k = j + 1 := ⟨k - 1, by omega⟩
    refine ⟨j - root.length, by rw [List.length_dropLast]; omega, ?_⟩
    rw [hlast j (by omega), List.getElem_dropLast]
    congr 1
    omega

/-- The watcher has checked the directory of a relevant file if there is a step on the way. -/
lemma directory_of_relevant (hroot : root <+: l) (hne : l ≠ root)
    (hrelevant : (ofRoot d root excluded).isRelevantFile l = true) (hk : root.length < k)
    (hkl : k < l.length) : isUnscanned (l.dropLast.drop root.length) = false ∧
      (scannerOf excluded root).excludes l.dropLast = false ∧
      ((scannerOf excluded root).ignoreRules d).isIgnored l.dropLast true = false := by
  refine ((isRelevantFile_iff hroot hne).mp hrelevant).2.1.resolve_left fun heq => ?_
  have hparent := congrArg List.length heq
  rw [List.length_dropLast] at hparent
  omega

/-- No `.gitignore` makes a scan leave out a step on the way to a relevant file, if it has
admitted the steps before. -/
lemma step_not_ignored_of_relevant (hroot : root <+: l) (hne : l ≠ root)
    (hrules : HasOwnRules d root) (hplain : IsPlain d root excluded l)
    (hrelevant : (ofRoot d root excluded).isRelevantFile l = true) (hk : root.length < k)
    (hkl : k ≤ l.length)
    (hbefore : ∀ j < k, root.length < j →
      (scannerOf excluded root).admits (IgnoreFiles.ofDisk d) (l.take j) true = true) :
    (IgnoreFiles.ofDisk d).verdict? (l.take k) (decide (k < l.length)) ≠ some .ignored := by
  intro hverdict
  have hlength : (l.take k).length = k := by rw [List.length_take]; omega
  have hstep := List.take_prefix k l
  have hroot' : root <+: l.take k := List.prefix_of_prefix_length_le hroot hstep (by omega)
  obtain ⟨f, hf, hignored, hdeeper⟩ := (hrules.verdict?_eq_some_iff hroot').mp hverdict
  obtain ⟨hunder, hflength, -⟩ := IgnoreFile.verdict?_eq_some_iff.mp hignored
  have hunder' := hunder.trans hstep
  -- the steps before lead to the directory of these rules, so the watcher has them too
  have hmem : f ∈ ((scannerOf excluded root).ignoreRules d).files := by
    refine Scanner.mem_ignoreRules_iff.mpr ⟨hf, ?_⟩
    rw [List.prefix_iff_eq_take.mp hunder']
    exact reaches_take hroot (hrules.root_under hroot hf hunder').length_le (by omega)
      fun j hj hjf => hbefore j (by omega) hj
  by_cases hlast : k = l.length
  · have hfile := ((isRelevantFile_iff hroot hne).mp hrelevant).2.2
    rw [hlast, List.take_length, decide_eq_false (by omega)] at hignored hdeeper
    rw [hplain.isIgnored_of_file hmem hignored hdeeper] at hfile
    cases hfile
  · have hdirectory := (directory_of_relevant hroot hne hrelevant hk (by omega)).2.2
    rw [decide_eq_true (by omega)] at hignored
    rw [List.dropLast_eq_take,
      hplain.isIgnored_of_step hmem (by omega) (by omega) hignored] at hdirectory
    cases hdirectory

/-- A scan admits each step on the way to a relevant file, if it has admitted those before. -/
lemma admits_of_relevant (hroot : root <+: l) (hne : l ≠ root) (hrules : HasOwnRules d root)
    (hplain : IsPlain d root excluded l)
    (hrelevant : (ofRoot d root excluded).isRelevantFile l = true) (hk : root.length < k)
    (hkl : k ≤ l.length)
    (hbefore : ∀ j < k, root.length < j →
      (scannerOf excluded root).admits (IgnoreFiles.ofDisk d) (l.take j) true = true) :
    (scannerOf excluded root).admits (IgnoreFiles.ofDisk d) (l.take k)
      (decide (k < l.length)) = true := by
  obtain ⟨hsupported, hdirectory, -⟩ := (isRelevantFile_iff hroot hne).mp hrelevant
  have hname (hlast : k ≠ l.length) :=
    isUnscanned_eq_false_iff.mp (directory_of_relevant hroot hne hrelevant hk (by omega)).1 _
      (mem_steps_iff.mpr ⟨k, hk, by omega, rfl⟩)
  have hignored :=
    step_not_ignored_of_relevant hroot hne hrules hplain hrelevant hk hkl hbefore
  refine Scanner.admits_iff.mpr ⟨hignored, fun _ => ?_, ?_, ?_⟩
  · by_cases hlast : k = l.length
    · rw [hlast, List.take_length]
      exact hplain.name
    · exact (hname hlast).1
  · rw [Bool.eq_false_iff]
    intro hexcludes
    obtain ⟨dir, hdir, hunder⟩ := List.any_eq_true.mp hexcludes
    obtain ⟨hparent, hne'⟩ := hplain.excluded dir hdir (Path.isUnder_of_take hunder)
    have hexcludes' : (scannerOf excluded root).excludes l.dropLast = true :=
      List.any_eq_true.mpr ⟨dir, hdir, hparent⟩
    rw [(hdirectory.resolve_left hne').2.1] at hexcludes'
    cases hexcludes'
  · by_cases hlast : k = l.length
    · rw [hlast, List.take_length]
      exact not_unscanned_of_supported hsupported
    · exact (hname hlast).2

/-- The directory of a file that a scan lists is relevant, unless it is the root. -/
lemma directory_relevant_of_reaches (hrules : HasOwnRules d root)
    (hplain : IsPlain d root excluded l)
    (hreaches : (scannerOf excluded root).reaches (IgnoreFiles.ofDisk d) l false = true)
    (hparent : root.length + 1 < l.length) :
    isUnscanned (l.dropLast.drop root.length) = false ∧
      (scannerOf excluded root).excludes l.dropLast = false ∧
      ((scannerOf excluded root).ignoreRules d).isIgnored l.dropLast true = false := by
  obtain ⟨hroot, hsteps⟩ := Scanner.reaches_iff.mp hreaches
  refine ⟨isUnscanned_eq_false_iff.mpr fun name hname => ?_, ?_, ?_⟩
  · obtain ⟨k, hk, hkl, rfl⟩ := mem_steps_iff.mp hname
    have hadmits := hsteps k hk hkl.le
    rw [decide_eq_true hkl, Bool.true_or, Scanner.admits_iff] at hadmits
    obtain ⟨hignored, hhidden, -, hscanned⟩ := hadmits
    refine ⟨hhidden ?_, hscanned⟩
    have hstep := List.take_prefix k l
    have hroot' : root <+: l.take k :=
      List.prefix_of_prefix_length_le hroot hstep (by rw [List.length_take]; omega)
    cases hverdict : (IgnoreFiles.ofDisk d).verdict? (l.take k) true with
    | none => rfl
    | some v =>
      cases v with
      | ignored => exact absurd hverdict hignored
      | kept =>
        obtain ⟨g, hg, hkept, -⟩ := (hrules.verdict?_eq_some_iff hroot').mp hverdict
        exact absurd hkept (hplain.notKept g hg k hkl)
  · have hadmits := hsteps (l.length - 1) (by change root.length < _; omega) (by omega)
    rw [← List.dropLast_eq_take] at hadmits
    exact (Scanner.admits_iff.mp hadmits).2.2.1
  · have hisIgnored := hplain.isIgnored_eq_false hrules hreaches (by omega)
      (n := l.length - 1) (by omega)
    rwa [← List.dropLast_eq_take, decide_eq_true (by omega)] at hisIgnored

/-- The watcher takes a file of the workspace for relevant exactly if a scan lists it, as long
as the two take the same view of it. -/
theorem isRelevantFile_iff_mem_files (hfile : d.isFile l = true) (hroot : root <+: l)
    (hne : l ≠ root) (hrules : HasOwnRules d root) (hplain : IsPlain d root excluded l) :
    (ofRoot d root excluded).isRelevantFile l = true ↔
      l ∈ (scannerOf excluded root).files d := by
  have hlength : root.length < l.length :=
    hroot.length_le.lt_of_ne fun heq => hne (hroot.eq_of_length heq).symm
  rw [Scanner.mem_files_iff]
  constructor
  · intro hrelevant
    have hsupported := ((isRelevantFile_iff hroot hne).mp hrelevant).1
    refine ⟨hfile, Scanner.reaches_iff.mpr ⟨hroot, fun k => ?_⟩, hsupported⟩
    induction k using Nat.strong_induction_on with
    | h k ih =>
      intro hk hkl
      rw [Bool.or_false]
      refine admits_of_relevant hroot hne hrules hplain hrelevant hk hkl fun j hjk hj => ?_
      have hadmits := ih j hjk hj (by omega)
      rwa [decide_eq_true (by omega), Bool.true_or] at hadmits
  · rintro ⟨-, hreaches, hsupported⟩
    have hisIgnored := hplain.isIgnored_eq_false hrules hreaches hlength le_rfl
    rw [List.take_length, decide_eq_false (by omega)] at hisIgnored
    refine (isRelevantFile_iff hroot hne).mpr ⟨hsupported, ?_, hisIgnored⟩
    by_cases hparent : root.length + 1 < l.length
    · exact .inr (directory_relevant_of_reaches hrules hplain hreaches hparent)
    · left
      have heq : l.dropLast.length = root.length := by rw [List.length_dropLast]; omega
      have hstep := List.take_prefix (l.length - 1) l
      rw [← List.dropLast_eq_take] at hstep
      exact ((List.prefix_of_prefix_length_le hroot hstep heq.ge).eq_of_length heq.symm).symm

/-- The ignore files of a disk, unsorted. -/
def rawIgnoreFiles (d : Disk) : IgnoreFiles where
  plain := d.directories.filterMap (IgnoreFile.inDirectory? d [".ignore"])
  versioned := d.directories.filterMap (IgnoreFile.inDirectory? d [gitignoreName])
  unshared := d.directories.filterMap (IgnoreFile.inDirectory? d [".git", "info", "exclude"])

lemma ofDisk_eq_raw
    (hplain : (rawIgnoreFiles d).plain.Pairwise fun a b => a.deeper b = true)
    (hversioned : (rawIgnoreFiles d).versioned.Pairwise fun a b => a.deeper b = true)
    (hunshared : (rawIgnoreFiles d).unshared.Pairwise fun a b => a.deeper b = true) :
    IgnoreFiles.ofDisk d = rawIgnoreFiles d := by
  have hp := List.mergeSort_of_pairwise hplain
  have hv := List.mergeSort_of_pairwise hversioned
  have hu := List.mergeSort_of_pairwise hunshared
  rw [IgnoreFiles.ofDisk, IgnoreFile.collect, IgnoreFile.collect, IgnoreFile.collect]
  exact congr (congr (congrArg IgnoreFiles.mk hp) hv) hu

/-- What a watcher begins with if the directories it lists are in order and none of them has an
ignore file. -/
lemma ofRoot_eq {root : Location} {excluded : List String} (listed : List Location)
    (hrules : IgnoreFiles.ofDisk d = rawIgnoreFiles d)
    (hlisted : (d.directories.filter fun l =>
      (scannerOf excluded root).reaches (rawIgnoreFiles d) l true) = listed)
    (hsorted : listed.Pairwise fun l l' => l.precedes l' = true)
    (hplain : listed.filterMap (IgnoreFile.inDirectory? d [gitignoreName]) = []) :
    ofRoot d root excluded = { root, excluded, watched := listed, rules := ⟨[]⟩ } := by
  have hdirectories : (scannerOf excluded root).directories d = listed := by
    rw [Scanner.directories, hrules, hlisted, List.mergeSort_of_pairwise hsorted]
  have hnone : (scannerOf excluded root).ignoreRules d = ⟨[]⟩ := by
    rw [Scanner.ignoreRules, hdirectories, IgnoreFile.collect, hplain, List.mergeSort_nil]
  rw [ofRoot, hdirectories, hnone]

/-- A workspace whose inner rules take back a file that its outer rules ignore. -/
def nestedDisk : Disk where
  entries := [(["work", "src"], .directory), (["work"], .directory),
    (["work", "src", ".gitignore"], .file "!keep_pb.py\n".toUTF8 1),
    (["work", ".gitignore"], .file "*_pb.py\ngen/\n".toUTF8 1),
    (["work", "src", "keep_pb.py"], .file "x".toUTF8 1)]

lemma ofDisk_nestedDisk : IgnoreFiles.ofDisk nestedDisk = rawIgnoreFiles nestedDisk :=
  ofDisk_eq_raw (by decide) (by decide) (by decide)

lemma hasOwnRules_nestedDisk : HasOwnRules nestedDisk ["work"] := by
  constructor <;> rw [ofDisk_nestedDisk] <;> decide

lemma isPlain_nestedDisk : IsPlain nestedDisk ["work"] [] ["work", "src", "keep_pb.py"] := by
  constructor
  · decide
  · simp
  · rw [ofDisk_nestedDisk]
    decide +kernel
  · rw [ofDisk_nestedDisk]
    decide +kernel

theorem kept_file_watched :
    nestedDisk.isFile ["work", "src", "keep_pb.py"] = true ∧
    HasOwnRules nestedDisk ["work"] ∧
    IsPlain nestedDisk ["work"] [] ["work", "src", "keep_pb.py"] ∧
    ["work", "src", "keep_pb.py"] ∈ (scannerOf [] ["work"]).files nestedDisk ∧
    (ofRoot nestedDisk ["work"] []).isRelevantFile ["work", "src", "keep_pb.py"] = true := by
  have hfile : nestedDisk.isFile ["work", "src", "keep_pb.py"] = true := by decide
  have hlisted : ["work", "src", "keep_pb.py"] ∈ (scannerOf [] ["work"]).files nestedDisk := by
    rw [Scanner.mem_files_iff, ofDisk_nestedDisk]
    decide +kernel
  refine ⟨hfile, hasOwnRules_nestedDisk, isPlain_nestedDisk, hlisted, ?_⟩
  exact (isRelevantFile_iff_mem_files hfile (by decide) (by decide) hasOwnRules_nestedDisk
    isPlain_nestedDisk).mpr hlisted

/-- A workspace without rules whose only file is hidden by its name. -/
def hiddenDisk : Disk where
  entries := [(["work"], .directory), (["work", ".hidden.py"], .file "x".toUTF8 1)]

/-- A workspace whose inner rules take back a directory and do not speak of the file in it. -/
def maskedDisk : Disk where
  entries := [(["work", "sub", "kept"], .directory), (["work", "sub"], .directory),
    (["work"], .directory), (["work", "sub", ".gitignore"], .file "!kept/\n".toUTF8 1),
    (["work", ".gitignore"], .file "*.go\n".toUTF8 1),
    (["work", "sub", "kept", "a.go"], .file "x".toUTF8 1)]

lemma ofDisk_hiddenDisk : IgnoreFiles.ofDisk hiddenDisk = rawIgnoreFiles hiddenDisk :=
  ofDisk_eq_raw (by decide) (by decide) (by decide)

lemma ofDisk_maskedDisk : IgnoreFiles.ofDisk maskedDisk = rawIgnoreFiles maskedDisk :=
  ofDisk_eq_raw (by decide) (by decide) (by decide)

/-- Where a scan finds no rules, the watcher ignores nothing. -/
lemma isIgnored_hiddenDisk {isDirectory : Bool} :
    ((scannerOf [] ["work"]).ignoreRules hiddenDisk).isIgnored l isDirectory = false := by
  rw [Bool.eq_false_iff]
  intro hisIgnored
  rw [IgnoreRules.isIgnored, decide_eq_true_eq] at hisIgnored
  obtain ⟨f, hf, -⟩ := upwards_eq_some_iff.mp hisIgnored
  have hmem := (Scanner.mem_ignoreRules_iff.mp hf).1
  have hnone : (rawIgnoreFiles hiddenDisk).versioned.length = 0 := by decide
  rw [ofDisk_hiddenDisk, List.eq_nil_of_length_eq_zero hnone] at hmem
  cases hmem

def innerRules : IgnoreFile where
  directory := ["work", "sub"]
  patterns := Ignore.patternsOfFile "!kept/\n".toUTF8

/-- The inner rules are the deepest, and what they say of the directory stands for the file. -/
lemma isIgnored_maskedDisk (isDirectory : Bool) :
    ((scannerOf [] ["work"]).ignoreRules maskedDisk).isIgnored
      (["work", "sub", "kept"] ++ if isDirectory then [] else ["a.go"]) isDirectory = false := by
  have hmem : innerRules ∈ ((scannerOf [] ["work"]).ignoreRules maskedDisk).files := by
    rw [Scanner.mem_ignoreRules_iff, ofDisk_maskedDisk]
    exact ⟨List.mem_filterMap.mpr ⟨["work", "sub"], by decide, rfl⟩, by decide +kernel⟩
  have hkept : innerRules.verdictUpwards?
      (["work", "sub", "kept"] ++ if isDirectory then [] else ["a.go"]) isDirectory =
        some .kept := by
    cases isDirectory <;> decide +kernel
  have hdeepest : ∀ g ∈ (rawIgnoreFiles maskedDisk).versioned, g.directory.length ≤ 2 := by
    decide
  rw [← ofDisk_maskedDisk] at hdeepest
  have hfirst : (((scannerOf [] ["work"]).ignoreRules maskedDisk).files.findSome? fun f =>
      f.verdictUpwards? (["work", "sub", "kept"] ++ if isDirectory then [] else ["a.go"])
        isDirectory) = some .kept := by
    refine upwards_eq_some_iff.mpr ⟨innerRules, hmem, hkept, fun g hg hlt => ?_⟩
    have hlength := hdeepest g (Scanner.mem_ignoreRules_iff.mp hg).1
    have htwo : innerRules.directory.length = 2 := rfl
    omega
  rw [IgnoreRules.isIgnored, hfirst]
  rfl

/-- A file that is hidden by its name, and a file whose directory is taken back: the watcher
takes both for relevant, and a scan lists neither. -/
theorem watched_but_not_scanned :
    (hiddenDisk.isFile ["work", ".hidden.py"] = true ∧ HasOwnRules hiddenDisk ["work"] ∧
      (ofRoot hiddenDisk ["work"] []).isRelevantFile ["work", ".hidden.py"] = true ∧
      ["work", ".hidden.py"] ∉ (scannerOf [] ["work"]).files hiddenDisk) ∧
    (maskedDisk.isFile ["work", "sub", "kept", "a.go"] = true ∧ HasOwnRules maskedDisk ["work"] ∧
      (ofRoot maskedDisk ["work"] []).isRelevantFile ["work", "sub", "kept", "a.go"] = true ∧
      ["work", "sub", "kept", "a.go"] ∉ (scannerOf [] ["work"]).files maskedDisk) := by
  refine ⟨⟨by decide, ?_, ?_, ?_⟩, by decide, ?_, ?_, ?_⟩
  · constructor <;> rw [ofDisk_hiddenDisk] <;> decide
  · rw [isRelevantFile_iff (by decide) (by decide)]
    exact ⟨by decide, .inl rfl, isIgnored_hiddenDisk⟩
  · rw [Scanner.mem_files_iff, ofDisk_hiddenDisk]
    decide
  · constructor <;> rw [ofDisk_maskedDisk] <;> decide
  · rw [isRelevantFile_iff (by decide) (by decide)]
    have hdirectory := isIgnored_maskedDisk true
    exact ⟨by decide, .inr ⟨by decide, by decide, hdirectory⟩,
      isIgnored_maskedDisk false⟩
  · rw [Scanner.mem_files_iff, ofDisk_maskedDisk]
    decide +kernel

end Watcher

end CodeSearch
