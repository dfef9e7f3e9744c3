import CodeSearch.Ignore.File
import Mathlib.Data.List.Basic
import Mathlib.Data.List.Infix

/-!
# The nearest rules

Of the ignore files around a location the deepest one with an opinion decides. A file is
asked about the location alone, or also about the directories on the way to it; in the
second case it has an opinion whenever it has one on any of these steps.
-/
namespace CodeSearch.IgnoreFile

variable {d : Disk} {name : Location} {directories directories' : List Location}
  {f g : IgnoreFile} {l steps : Location} {isDirectory : Bool} {v : Ignore.Verdict}

lemma directory_of_inDirectory? {directory : Location}
    (h : inDirectory? d name directory = some f) : f.directory = directory := by
  obtain ⟨bytes, -, rfl⟩ := Option.map_eq_some_iff.mp h
  rfl

lemma mem_collect_iff : f ∈ collect d name directories ↔
    f.directory ∈ directories ∧ inDirectory? d name f.directory = some f := by
  rw [collect, List.mem_mergeSort, List.mem_filterMap]
  constructor
  · rintro ⟨directory, hmem, hf⟩
    obtain rfl := directory_of_inDirectory? hf
    exact ⟨hmem, hf⟩
  · rintro ⟨hmem, hf⟩
    exact ⟨_, hmem, hf⟩

lemma eq_of_mem_collect (hf : f ∈ collect d name directories)
    (hg : g ∈ collect d name directories') (heq : f.directory = g.directory) : f = g := by
  obtain ⟨-, hf⟩ := mem_collect_iff.mp hf
  obtain ⟨-, hg⟩ := mem_collect_iff.mp hg
  rw [heq, hg] at hf
  exact (Option.some.inj hf).symm

lemma pairwise_collect (d : Disk) (name : Location) (directories : List Location) :
    (collect d name directories).Pairwise fun a b =>
      b.directory.length ≤ a.directory.length := by
  have htrans (a b c : IgnoreFile) (hab : deeper a b = true) (hbc : deeper b c = true) :
      deeper a c = true := by
    simp only [deeper, decide_eq_true_eq] at *
    omega
  have htotal (a b : IgnoreFile) : (deeper a b || deeper b a) = true := by
    simp only [deeper, Bool.or_eq_true, decide_eq_true_eq]
    omega
  have hsorted := List.pairwise_mergeSort htrans htotal
    (directories.filterMap (inDirectory? d name))
  exact hsorted.imp fun h => by simpa [deeper] using h

/-- The first opinion is that of the deepest file with an opinion, if only files around a
location have one. -/
lemma findSome?_collect_eq_some_iff {opinion : IgnoreFile → Option Ignore.Verdict}
    (haround : ∀ f v, opinion f = some v → f.directory <+: l) :
    (collect d name directories).findSome? opinion = some v ↔
      ∃ f ∈ collect d name directories, opinion f = some v ∧
        ∀ g ∈ collect d name directories,
          f.directory.length < g.directory.length → opinion g = none := by
  have hfirst {w : Ignore.Verdict} (h : (collect d name directories).findSome? opinion = some w) :
      ∃ f ∈ collect d name directories, opinion f = some w ∧
        ∀ g ∈ collect d name directories,
          f.directory.length < g.directory.length → opinion g = none := by
    obtain ⟨front, f, back, hsplit, hf, hfront⟩ := List.findSome?_eq_some_iff.mp h
    have hsorted := pairwise_collect d name directories
    rw [hsplit] at hsorted ⊢
    refine ⟨f, by simp, hf, fun g hg hdeeper => ?_⟩
    rcases List.mem_append.mp hg with hg | hg
    · exact hfront g hg
    · rcases List.mem_cons.mp hg with rfl | hg
      · omega
      · have := List.rel_of_pairwise_cons (List.pairwise_append.mp hsorted).2.1 hg
        omega
  refine ⟨hfirst, ?_⟩
  rintro ⟨f, hmem, hf, hdeeper⟩
  cases hfind : (collect d name directories).findSome? opinion with
  | none =>
    rw [List.findSome?_eq_none_iff] at hfind
    rw [hfind f hmem] at hf
    cases hf
  | some w =>
    obtain ⟨g, hmem', hg, hdeeper'⟩ := hfirst hfind
    -- neither is deeper than the other, so they lie in the same directory
    have hfg : ¬ f.directory.length < g.directory.length := fun hlt => by
      rw [hdeeper g hmem' hlt] at hg
      cases hg
    have hgf : ¬ g.directory.length < f.directory.length := fun hlt => by
      rw [hdeeper' f hmem hlt] at hf
      cases hf
    have hsame : f.directory = g.directory :=
      (List.prefix_of_prefix_length_le (haround f v hf) (haround g w hg) (by omega)).eq_of_length
        (by omega)
    rw [eq_of_mem_collect hmem hmem' hsame] at hf
    exact hg.symm.trans hf

lemma below?_eq_some_iff : f.below? l = some steps ↔
    f.directory <+: l ∧ f.directory.length < l.length ∧ l.drop f.directory.length = steps := by
  unfold below?
  split
  · next h =>
    rw [Bool.and_eq_true, List.isPrefixOf_iff_prefix, decide_eq_true_eq] at h
    simp [h]
  · next h =>
    rw [Bool.and_eq_true, List.isPrefixOf_iff_prefix, decide_eq_true_eq] at h
    simp only [reduceCtorEq, false_iff]
    rintro ⟨hunder, hlength, -⟩
    exact h ⟨hunder, hlength⟩

lemma verdict?_eq_some_iff : f.verdict? l isDirectory = some v ↔
    f.directory <+: l ∧ f.directory.length < l.length ∧
      f.judge (l.drop f.directory.length) isDirectory = some v := by
  simp only [verdict?, Option.bind_eq_some_iff, below?_eq_some_iff, and_assoc, exists_and_left,
    exists_eq_left']

/-- Files that disagree on a location lie at different depths. -/
lemma length_ne_of_disagree {w : Ignore.Verdict} (hf : f ∈ collect d name directories)
    (hg : g ∈ collect d name directories') (hfl : f.verdict? l isDirectory = some v)
    (hgl : g.verdict? l isDirectory = some w) (hne : v ≠ w) :
    f.directory.length ≠ g.directory.length := by
  intro heq
  have hf' := (verdict?_eq_some_iff.mp hfl).1
  have hg' := (verdict?_eq_some_iff.mp hgl).1
  have hsame := (List.prefix_of_prefix_length_le hf' hg' (Nat.le_of_eq heq)).eq_of_length heq
  rw [eq_of_mem_collect hf hg hsame, hgl] at hfl
  exact hne (Option.some.inj hfl).symm

lemma verdictUpwards?_eq_some_iff : f.verdictUpwards? l isDirectory = some v ↔
    f.directory <+: l ∧ f.directory.length < l.length ∧
      (f.judge (l.drop f.directory.length) isDirectory).or
        (f.judgeParents (l.drop f.directory.length).length (l.drop f.directory.length)) =
          some v := by
  simp only [verdictUpwards?, Option.bind_eq_some_iff, below?_eq_some_iff, and_assoc,
    exists_and_left, exists_eq_left']

/-- The directories that are asked about are the steps on the way, and the nearest with an opinion
is heard. -/
lemma exists_of_judgeParents {n : ℕ} (hn : steps.length = n)
    (h : f.judgeParents n steps = some v) :
    ∃ i < steps.length, f.judge (steps.take i) true = some v ∧
      ∀ j, i < j → j < steps.length → f.judge (steps.take j) true = none := by
  induction n generalizing steps with
  | zero => cases h
  | succ n ih =>
    have hlength : steps.dropLast.length = n := by rw [List.length_dropLast]; omega
    rw [judgeParents, Option.or_eq_some_iff] at h
    rcases h with hhere | ⟨hnone, hrest⟩
    · exact ⟨n, by omega, by rwa [List.dropLast_eq_take, hn] at hhere, fun j _ _ => by omega⟩
    · obtain ⟨i, hi, hjudge, hnearer⟩ := ih hlength hrest
      have htake {j : ℕ} (hj : j ≤ n) : steps.dropLast.take j = steps.take j := by
        rw [List.dropLast_eq_take, List.take_take, Nat.min_eq_left (by omega)]
      rw [htake (by omega)] at hjudge
      refine ⟨i, by omega, hjudge, fun j hj hjl => ?_⟩
      by_cases hlast : j = n
      · rwa [List.dropLast_eq_take, hn, Nat.add_sub_cancel, ← hlast] at hnone
      · rw [← htake (by omega)]
        exact hnearer j hj (by omega)

/-- Every step on the way is asked about. -/
lemma judge_of_judgeParents {n : ℕ} (hn : steps.length = n) (h : f.judgeParents n steps = none)
    {i : ℕ} (hi : i < steps.length) : f.judge (steps.take i) true = none := by
  induction n generalizing steps with
  | zero => omega
  | succ n ih =>
    have hlength : steps.dropLast.length = n := by rw [List.length_dropLast]; omega
    rw [judgeParents, Option.or_eq_none_iff] at h
    by_cases hlast : i = n
    · have hhere := h.1
      rwa [List.dropLast_eq_take, hn, Nat.add_sub_cancel, ← hlast] at hhere
    · have hrest := ih hlength h.2 (by omega)
      rwa [List.dropLast_eq_take, List.take_take, Nat.min_eq_left (by omega)] at hrest

/-- A file has an opinion on a location, counting the way to it, if it has one on the location
itself. -/
lemma verdictUpwards?_of_verdict? (h : f.verdict? l isDirectory = some v) :
    f.verdictUpwards? l isDirectory = some v := by
  obtain ⟨hunder, hlength, hjudge⟩ := verdict?_eq_some_iff.mp h
  exact verdictUpwards?_eq_some_iff.mpr ⟨hunder, hlength, by rw [hjudge, Option.some_or]⟩

/-- An opinion that counts the way to a location is one on the location or on a directory
that leads there, unless the file has one on its own directory and none on what is directly in
it. -/
lemma verdict?_of_verdictUpwards? (hown : f.judge [] true = some v → ∀ name,
      f.directory ++ [name] <+: l → f.judge [name] true ≠ none ∧ f.judge [name] isDirectory ≠ none)
    (h : f.verdictUpwards? l isDirectory = some v) :
    f.verdict? l isDirectory = some v ∨ ∃ k < l.length, f.verdict? (l.take k) true = some v := by
  obtain ⟨hunder, hlength, hjudge⟩ := verdictUpwards?_eq_some_iff.mp h
  rcases Option.or_eq_some_iff.mp hjudge with hhere | ⟨hnone, hparents⟩
  · exact .inl (verdict?_eq_some_iff.mpr ⟨hunder, hlength, hhere⟩)
  · obtain ⟨i, hi, hjudge, hnearer⟩ := exists_of_judgeParents rfl hparents
    cases i with
    | zero =>
      -- the step next to the directory has been asked about before it
      exfalso
      obtain ⟨name, rest, hsteps⟩ := List.exists_cons_of_length_pos hi
      have hnext : f.directory ++ [name] <+: l := by
        refine ⟨rest, ?_⟩
        rw [List.append_assoc, List.singleton_append, ← hsteps, ← List.prefix_append_drop hunder]
      have hfirst := hown hjudge name hnext
      rw [hsteps] at hnone hnearer
      cases rest with
      | nil => exact hfirst.2 hnone
      | cons next rest => exact hfirst.1 (hnearer 1 (by omega) (by simp))
    | succ i =>
      rw [List.length_drop] at hi
      rw [List.take_drop] at hjudge
      have hk : (l.take (f.directory.length + (i + 1))).length = f.directory.length + (i + 1) := by
        rw [List.length_take]
        omega
      have hstep := List.take_prefix (f.directory.length + (i + 1)) l
      refine .inr ⟨f.directory.length + (i + 1), by omega,
        verdict?_eq_some_iff.mpr ⟨?_, ?_, hjudge⟩⟩
      · exact List.prefix_of_prefix_length_le hunder hstep (by omega)
      · omega

/-- An opinion on a directory that leads to a location counts. -/
lemma verdictUpwards?_ne_none {k : ℕ} (hk : k < l.length)
    (h : f.verdict? (l.take k) true = some v) : f.verdictUpwards? l isDirectory ≠ none := by
  obtain ⟨hunder, hlength, hjudge⟩ := verdict?_eq_some_iff.mp h
  rw [List.length_take] at hlength
  have hstep := List.take_prefix k l
  have hunder' := hunder.trans hstep
  intro hnone
  have hupwards : (f.judge (l.drop f.directory.length) isDirectory).or
      (f.judgeParents (l.drop f.directory.length).length (l.drop f.directory.length)) = none := by
    by_contra hsome
    obtain ⟨w, hw⟩ := Option.ne_none_iff_exists'.mp hsome
    have hupwards := verdictUpwards?_eq_some_iff.mpr ⟨hunder', by omega, hw⟩
    rw [hnone] at hupwards
    cases hupwards
  have hparents := (Option.or_eq_none_iff.mp hupwards).2
  have hnothing := judge_of_judgeParents rfl hparents (i := k - f.directory.length)
    (by rw [List.length_drop]; omega)
  rw [List.take_drop, Nat.add_sub_cancel' (by omega), hjudge] at hnothing
  cases hnothing

end CodeSearch.IgnoreFile
