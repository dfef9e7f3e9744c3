import CodeSearch.Proofs.CurrentChunks
import CodeSearch.Proofs.IndexNames

/-!
# Confined paths

A name that stays inside is put behind the path of a directory. The path that this makes goes by
the steps of the directory and then by names alone, so whatever it leads to lies in the
directory, and two disks that show the directory alike show the same there.
-/
namespace CodeSearch

namespace Path

lemma steps_subset_components {path : String} (h : isAbsolute path = false) :
    steps (parts path.toList) ⊆ components path := by
  have hhead : path.toList.head? ≠ some '/' := by simpa [isAbsolute] using h
  rw [components.eq_def]
  cases hparts : parts path.toList with
  | nil => exact absurd hparts (parts_ne_nil _)
  | cons front rest =>
    simp only [hhead, ↓reduceIte]
    split
    · next hdot =>
      have hidle : isIdle front = true := by simp [isIdle, hdot]
      have hsteps : steps (front :: rest) = steps rest := by simp [steps, hidle]
      rw [hsteps]
      exact List.subset_cons_self _ _
    · exact List.Subset.refl _

/-- A name that stays inside has no part that leads upwards. -/
lemma ne_dots_of_staysInside {path : String} (h : staysInside path = true) :
    ∀ part ∈ parts path.toList, part ≠ ['.', '.'] := by
  have hout := (staysInside_eq_false_iff path).not.mp (by simp [h])
  simp only [not_or] at hout
  rintro part hpart rfl
  refine hout.2.2 (steps_subset_components (by simpa using hout.2.1) ?_)
  exact List.mem_map.mpr ⟨['.', '.'], List.mem_filter.mpr ⟨hpart, by decide⟩, rfl⟩

lemma isAbsolute_of_staysInside {path : String} (h : staysInside path = true) :
    isAbsolute path = false := by
  have hout := (staysInside_eq_false_iff path).not.mp (by simp [h])
  simp only [not_or] at hout
  simpa using hout.2.1

/-- Without parts that lead upwards, the steps are names. -/
lemma exists_names_of_ne_dots {ps : List (List Char)} (h : ∀ part ∈ ps, part ≠ ['.', '.']) :
    ∃ names : List String, steps ps = names.map .normal := by
  refine ⟨(ps.filter (! isIdle ·)).map String.ofList, ?_⟩
  rw [steps, List.map_map]
  refine List.map_congr_left fun part hpart => ?_
  rw [stepOf, if_neg (h part (List.mem_of_mem_filter hpart))]
  rfl

end Path

namespace Location

variable {root : Location} {file : String}

lemma isEmpty_path (l : Location) : l.path.isEmpty = false := by
  rw [Bool.eq_false_iff, ne_eq, String.isEmpty_iff, ← String.toList_eq_nil_iff, toList_path]
  simp

/-- The parts of a joined path are those of the directory and of the name, one behind the
other. -/
lemma parts_pathOf (hroot : ∀ name ∈ root, IsName name) (hfile : Path.staysInside file = true) :
    Path.parts (Index.pathOf root file).toList =
      [] :: (root.map String.toList ++ Path.parts file.toList) := by
  rw [Index.pathOf, Path.join, Path.isAbsolute_of_staysInside hfile, isEmpty_path]
  simp only [Bool.false_eq_true, ↓reduceIte]
  by_cases hnil : root = []
  · subst hnil
    have hslash : (path []).toList = ['/'] := rfl
    rw [if_pos (by decide), String.toList_append, hslash, List.singleton_append,
      Path.parts_cons, if_pos rfl]
    rfl
  · have hslash : "/".toList = ['/'] := rfl
    rw [if_neg (getLast?_path_ne hroot hnil), String.toList_append, String.toList_append, hslash,
      List.append_assoc, List.singleton_append, Path.parts_append_slash, parts_path hroot hnil]
    rfl

lemma head?_pathOf (hfile : Path.staysInside file = true) :
    (Index.pathOf root file).toList.head? = some '/' := by
  rw [Index.pathOf, Path.join, Path.isAbsolute_of_staysInside hfile, isEmpty_path]
  simp only [Bool.false_eq_true, ↓reduceIte]
  split <;> simp [toList_path]

/-- Behind the steps of the directory there are names alone. -/
lemma exists_components_pathOf (hroot : ∀ name ∈ root, IsName name)
    (hfile : Path.staysInside file = true) : ∃ names : List String,
      Path.components (Index.pathOf root file) =
        Path.components root.path ++ names.map .normal := by
  obtain ⟨names, hnames⟩ := Path.exists_names_of_ne_dots (Path.ne_dots_of_staysInside hfile)
  have hsteps : Path.steps (root.map String.toList) = root.map .normal := by
    rw [Path.steps, List.filter_eq_self.mpr (by simpa using fun name h => (hroot name h).isIdle_eq),
      List.map_map]
    refine List.map_congr_left fun name hname => ?_
    have hdots := (hroot name hname).ne_dots
    simp [Path.stepOf, hdots]
  refine ⟨names, ?_⟩
  rw [Path.components, parts_pathOf hroot hfile, components_path_of_names hroot]
  dsimp only
  rw [if_pos (head?_pathOf hfile), Path.steps_append, hsteps, hnames, List.cons_append]

end Location

namespace Disk

variable {d d' : Disk} {root here there l : Location} {file : String} {ps : List (List Char)}

/-- A joined path is followed to the directory first and from there on by the name. -/
lemma locate_pathOf (hroot : ∀ name ∈ root, IsName name) (hfile : Path.staysInside file = true)
    (d : Disk) : d.locate (Index.pathOf root file) =
      (root.map String.toList).foldlM d.step [] >>= fun here =>
        (Path.parts file.toList).foldlM d.step here := by
  have hempty : (Index.pathOf root file).isEmpty = false := by
    rw [Bool.eq_false_iff, ne_eq, String.isEmpty_iff, ← String.toList_eq_nil_iff]
    intro hnil
    have hhead : (Index.pathOf root file).toList.head? = some '/' := Location.head?_pathOf hfile
    rw [hnil] at hhead
    cases hhead
  have hfirst : d.step [] [] = .ok [] := rfl
  rw [locate, hempty, Location.parts_pathOf hroot hfile]
  simp only [Bool.false_eq_true, ↓reduceIte]
  rw [List.foldlM_cons, hfirst, ← List.foldlM_append]
  rfl

/-- Without parts that lead upwards, a path leads downwards. -/
lemma prefix_of_foldlM (hps : ∀ part ∈ ps, part ≠ ['.', '.'])
    (h : ps.foldlM d.step here = .ok there) : here <+: there := by
  induction ps generalizing here with
  | nil =>
    obtain rfl := Except.ok.inj h
    exact List.prefix_rfl
  | cons part ps ih =>
    rw [List.forall_mem_cons] at hps
    obtain ⟨next, hstep, hrest⟩ := Except.bind_eq_ok.mp h
    have hnext : here <+: next := by
      rcases step_cases hstep with ⟨-, rfl⟩ | ⟨hdots, -⟩ | ⟨-, -, rfl⟩
      · exact List.prefix_rfl
      · exact absurd hdots hps.1
      · exact List.prefix_append _ _
    exact hnext.trans (ih hps.2 hrest)

/-- What a joined path leads to lies at or under the directory. -/
lemma prefix_of_locate_pathOf (hroot : ∀ name ∈ root, IsName name)
    (hfile : Path.staysInside file = true) (h : d.locate (Index.pathOf root file) = .ok l) :
    root <+: l := by
  rw [locate_pathOf hroot hfile] at h
  obtain ⟨here, hhere, hrest⟩ := Except.bind_eq_ok.mp h
  obtain rfl : here = root := foldlM_step_names hroot hhere
  exact prefix_of_foldlM (Path.ne_dots_of_staysInside hfile) hrest

/-- Everything stands in a directory. -/
def IsTree (d : Disk) : Prop :=
  ∀ l name, (d.at? (l ++ [name])).isSome = true → d.isDirectory l = true

/-- Two disks agree on everything at and under a location. -/
def AgreeUnder (root : Location) (d d' : Disk) : Prop :=
  ∀ l, root <+: l → d.at? l = d'.at? l

lemma isTree_of_entries (h : ∀ e ∈ d.entries, d.isDirectory e.1.dropLast = true) :
    d.IsTree := by
  intro l name hsome
  have hne : (l ++ [name]).isEmpty = false := by simp
  rw [at?, hne, if_neg Bool.false_ne_true] at hsome
  obtain ⟨entry, hentry⟩ := Option.isSome_iff_exists.mp hsome
  obtain ⟨before, after, hentries, -⟩ := List.lookup_eq_some_iff.mp hentry
  have hmem : (l ++ [name], entry) ∈ d.entries := by rw [hentries]; simp
  simpa using h _ hmem

/-- Two disks agree under a location if all that one has on top of the other lies elsewhere. -/
lemma agreeUnder_append {entries outside : List (Location × DiskEntry)}
    (h : ∀ e ∈ outside, ¬ root <+: e.1) : AgreeUnder root ⟨entries⟩ ⟨entries ++ outside⟩ := by
  intro l hl
  have hnone : outside.lookup l = none := by
    refine List.lookup_eq_none_iff.mpr fun e he => bne_iff_ne.mpr ?_
    rintro rfl
    exact h e he hl
  rw [at?, at?, List.lookup_append, hnone, Option.or_none]

lemma IsTree.isDirectory (hd : d.IsTree) {rest : Location} (hne : rest ≠ [])
    (h : (d.at? (here ++ rest)).isSome = true) : d.isDirectory here = true := by
  induction rest using List.reverseRecOn with
  | nil => exact absurd rfl hne
  | append_singleton rest name ih =>
    rw [← List.append_assoc] at h
    have hparent := hd _ _ h
    by_cases hnil : rest = []
    · simpa [hnil] using hparent
    · refine ih hnil ?_
      unfold Disk.isDirectory at hparent
      split at hparent
      · next hat => rw [hat]; rfl
      · cases hparent

lemma at?_of_isDirectory (h : d.isDirectory here = true) : d.at? here = some .directory := by
  unfold Disk.isDirectory at h
  split at h
  · assumption
  · cases h

lemma isSome_of_isFile (h : d.isFile l = true) : (d.at? l).isSome = true := by
  unfold isFile at h
  split at h
  · next hat => rw [hat]; rfl
  · cases h

lemma IsTree.foldlM_step (hd : d.IsTree) (hl : ∀ name ∈ l, IsName name)
    (h : (d.at? (here ++ l)).isSome = true) :
    (l.map String.toList).foldlM d.step here = .ok (here ++ l) := by
  induction l generalizing here with
  | nil => simp [pure, Except.pure]
  | cons name l ih =>
    rw [List.forall_mem_cons] at hl
    have hhere := at?_of_isDirectory (hd.isDirectory (List.cons_ne_nil name l) h)
    have hstep : d.step here name.toList = .ok (here ++ [name]) := by
      simp only [step, hhere, hl.1.isIdle_eq, hl.1.ne_dots, Bool.false_eq_true, ↓reduceIte,
        String.ofList_toList]
    rw [List.append_cons] at h ⊢
    rw [List.map_cons, List.foldlM_cons, hstep]
    exact ih hl.2 h

/-- Two disks that agree under a location lead alike from there on downwards. -/
lemma AgreeUnder.foldlM_step (h : AgreeUnder root d d') (hps : ∀ part ∈ ps, part ≠ ['.', '.'])
    (hhere : root <+: here) : ps.foldlM d.step here = ps.foldlM d'.step here := by
  induction ps generalizing here with
  | nil => rfl
  | cons part ps ih =>
    rw [List.forall_mem_cons] at hps
    have hstep : d.step here part = d'.step here part := by rw [step, step, h here hhere]
    rw [List.foldlM_cons, List.foldlM_cons, ← hstep]
    cases hnext : d.step here part with
    | error fault => rfl
    | ok next =>
      have hone : [part].foldlM d.step here = .ok next := by
        rw [List.foldlM_cons, hnext]
        rfl
      exact ih hps.2 (hhere.trans (prefix_of_foldlM (by simpa using hps.1) hone))

/-- Where the directory is missing, nothing is found. -/
lemma has_pathOf_of_missing (hroot : ∀ name ∈ root, IsName name)
    (hfile : Path.staysInside file = true) (hmissing : d.at? root = none) :
    d.has (Index.pathOf root file) = false := by
  rw [Bool.eq_false_iff]
  intro hhas
  obtain ⟨l, hl⟩ := exists_locate_of_has hhas
  rw [locate_pathOf hroot hfile] at hl
  obtain ⟨here, hhere, hrest⟩ := Except.bind_eq_ok.mp hl
  obtain rfl : here = root := foldlM_step_names hroot hhere
  obtain ⟨part, ps, hps⟩ := List.exists_cons_of_ne_nil (Path.parts_ne_nil file.toList)
  rw [hps, List.foldlM_cons, step, hmissing] at hrest
  cases hrest

/-- Two trees that agree under a directory show alike what joined paths lead to, or the directory
is missing on both. -/
lemma AgreeUnder.find_pathOf (h : AgreeUnder root d d') (hd : d.IsTree) (hd' : d'.IsTree)
    (hroot : ∀ name ∈ root, IsName name) (hfile : Path.staysInside file = true) :
    d.find (Index.pathOf root file) = d'.find (Index.pathOf root file) ∨
      d.has (Index.pathOf root file) = false ∧ d'.has (Index.pathOf root file) = false := by
  have hat := h root List.prefix_rfl
  cases hthere : d.at? root with
  | none =>
    exact .inr ⟨has_pathOf_of_missing hroot hfile hthere,
      has_pathOf_of_missing hroot hfile (hat.symm.trans hthere)⟩
  | some entry =>
    have hway : (root.map String.toList).foldlM d.step [] = .ok root :=
      hd.foldlM_step hroot (by rw [List.nil_append, hthere]; rfl)
    have hway' : (root.map String.toList).foldlM d'.step [] = .ok root :=
      hd'.foldlM_step hroot (by rw [List.nil_append, ← hat, hthere]; rfl)
    have hps := Path.ne_dots_of_staysInside hfile
    have hlocate : d.locate (Index.pathOf root file) = d'.locate (Index.pathOf root file) := by
      rw [locate_pathOf hroot hfile, locate_pathOf hroot hfile, hway, hway']
      exact h.foldlM_step hps List.prefix_rfl
    left
    rw [find, find, ← hlocate]
    cases hl : d.locate (Index.pathOf root file) with
    | error fault => rfl
    | ok l =>
      have hsame : d.at? l = d'.at? l := h l (prefix_of_locate_pathOf hroot hfile hl)
      simp only [bind, Except.bind, hsame]

end Disk

end CodeSearch
