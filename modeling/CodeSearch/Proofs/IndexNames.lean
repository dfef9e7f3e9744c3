import CodeSearch.Index.Basic
import CodeSearch.Proofs.Outcomes
import CodeSearch.Proofs.PathSteps

/-!
# Names of files in the index

The index keeps a file of the workspace under the names on the way to it from the root, with
slashes between them. Read from the root, such a name leads back to the file and to no other
one, unless a backslash has been taken for a slash.
-/
namespace CodeSearch

structure IsName (name : String) : Prop where
  ne_empty : name ≠ ""
  ne_current : name ≠ "."
  ne_parent : name ≠ ".."
  slash_notMem : '/' ∉ name.toList

namespace Path

lemma parts_of_slash_notMem {cs : List Char} (h : '/' ∉ cs) : parts cs = [cs] := by
  induction cs with
  | nil => rfl
  | cons c cs ih =>
    rw [List.mem_cons, not_or] at h
    rw [parts_cons, if_neg (Ne.symm h.1), ih h.2]

lemma slash_notMem_of_mem_parts {cs part : List Char} (h : part ∈ parts cs) : '/' ∉ part := by
  induction cs generalizing part with
  | nil =>
    obtain rfl := List.mem_singleton.mp h
    simp
  | cons c cs ih =>
    rw [parts_cons] at h
    split at h
    · rcases List.mem_cons.mp h with rfl | h
      · simp
      · exact ih h
    · next hc =>
      cases hparts : parts cs with
      | nil => exact absurd hparts (parts_ne_nil cs)
      | cons first rest =>
        rw [hparts] at h ih
        rcases List.mem_cons.mp h with rfl | h
        · simpa [Ne.symm hc] using ih List.mem_cons_self
        · exact ih (List.mem_cons_of_mem _ h)

/-- Texts with slashes between them, put behind each other. -/
lemma intercalate_append {ls ms : List (List Char)} (hls : ls ≠ []) (hms : ms ≠ []) :
    ['/'].intercalate (ls ++ ms) = ['/'].intercalate ls ++ '/' :: ['/'].intercalate ms := by
  induction ls with
  | nil => exact absurd rfl hls
  | cons l ls ih =>
    cases ls with
    | nil =>
      obtain ⟨m, ms, rfl⟩ := List.exists_cons_of_ne_nil hms
      simp [List.intercalate_cons_cons]
    | cons l' ls =>
      rw [List.cons_append, List.cons_append, List.intercalate_cons_cons, ← List.cons_append,
        ih (by simp), List.intercalate_cons_cons]
      simp

lemma map_intercalate {f : Char → Char} (hf : f '/' = '/') (ls : List (List Char)) :
    (['/'].intercalate ls).map f = ['/'].intercalate (ls.map (List.map f)) := by
  induction ls with
  | nil => rfl
  | cons l ls ih =>
    cases ls with
    | nil => simp
    | cons l' ls =>
      rw [List.intercalate_cons_cons, List.map_append, List.map_append, ih]
      simp [List.intercalate_cons_cons, hf]

lemma indexName_eq (root path : String) : indexName root path =
    String.ofList (((relative? root path).getD path).toList.map
      fun c => if c = '\\' then '/' else c) := by
  rw [indexName, ← String.toList_inj, String.toList_map, String.toList_ofList]

section Names

variable {ps : List (List Char)}

lemma dropIdle_eq (hps : ∀ part ∈ ps, isIdle part = false) : dropIdle ps = ps := by
  cases ps with
  | nil => rfl
  | cons part ps => rw [dropIdle, hps part List.mem_cons_self, if_neg Bool.false_ne_true]

lemma dropIdleEnd_eq (hps : ∀ part ∈ ps, isIdle part = false) : dropIdleEnd ps = ps := by
  rw [dropIdleEnd, dropIdle_eq (by simpa using hps), List.reverse_reverse]

lemma dropSteps_eq_drop (hps : ∀ part ∈ ps, isIdle part = false) (n : ℕ) :
    dropSteps n ps = ps.drop n := by
  induction ps generalizing n with
  | nil => cases n <;> rfl
  | cons part ps ih =>
    rw [List.forall_mem_cons] at hps
    cases n with
    | zero => rfl
    | succ n => rw [dropSteps, hps.1, if_neg Bool.false_ne_true, ih hps.2, List.drop_succ_cons]

end Names

end Path

namespace IsName

variable {name : String}

lemma isIdle_eq (h : IsName name) : Path.isIdle name.toList = false := by
  have hempty : name.toList ≠ [] := fun heq => h.ne_empty (String.toList_eq_nil_iff.mp heq)
  have hdot : name.toList ≠ ['.'] := fun heq => h.ne_current (String.toList_inj.mp heq)
  simp [Path.isIdle, hempty, hdot]

lemma ne_dots (h : IsName name) : name.toList ≠ ['.', '.'] :=
  fun heq => h.ne_parent (String.toList_inj.mp heq)

/-- A part of a path that goes on to something is its name. -/
lemma of_part {part : List Char} (hslash : '/' ∉ part) (hidle : Path.isIdle part = false)
    (hdots : part ≠ ['.', '.']) : IsName (String.ofList part) := by
  have hlist (cs : List Char) (h : String.ofList part = String.ofList cs) : part = cs := by
    have := congrArg String.toList h
    rwa [String.toList_ofList, String.toList_ofList] at this
  refine ⟨fun h => ?_, fun h => ?_, fun h => hdots (hlist _ h), by rwa [String.toList_ofList]⟩
  · rw [hlist [] h] at hidle
    cases hidle
  · rw [hlist ['.'] h] at hidle
    cases hidle

lemma steps_parts (h : IsName name) : Path.steps (Path.parts name.toList) = [.normal name] := by
  rw [Path.parts_of_slash_notMem h.slash_notMem, Path.steps]
  simp [h.isIdle_eq, Path.stepOf, h.ne_dots]

end IsName

namespace Location

variable {l root rel : Location}

lemma toList_path (l : Location) :
    l.path.toList = '/' :: ['/'].intercalate (l.map String.toList) := by
  simp [path, String.toList_intercalate]

lemma parts_path (hl : ∀ name ∈ l, IsName name) (hne : l ≠ []) :
    Path.parts l.path.toList = [] :: l.map String.toList := by
  have hparts : Path.parts (['/'].intercalate (l.map String.toList)) = l.map String.toList := by
    induction l with
    | nil => exact absurd rfl hne
    | cons name l ih =>
      rw [List.forall_mem_cons] at hl
      have hname := Path.parts_of_slash_notMem hl.1.slash_notMem
      cases l with
      | nil => simpa using hname
      | cons next l =>
        rw [List.map_cons, List.map_cons, List.intercalate_cons_cons, List.append_assoc,
          List.singleton_append, Path.parts_append_slash, hname, ← List.map_cons,
          ih hl.2 (by simp)]
        rfl
  rw [toList_path, Path.parts_cons, if_pos rfl, hparts]

lemma components_path_of_names (hl : ∀ name ∈ l, IsName name) :
    Path.components l.path = .root :: l.map .normal := by
  rw [Path.components_path]
  congr 1
  induction l with
  | nil => rfl
  | cons name l ih =>
    rw [List.forall_mem_cons] at hl
    rw [List.flatMap_cons, ih hl.2, hl.1.steps_parts]
    rfl

end Location

namespace Disk

variable {d : Disk} {l here there : Location}

/-- A part of a path says nothing, leads upwards or leads to what it names. -/
lemma step_cases {part : List Char} (h : d.step here part = .ok there) :
    (Path.isIdle part = true ∧ there = here) ∨
    (part = ['.', '.'] ∧ there = here.dropLast) ∨
    (Path.isIdle part = false ∧ part ≠ ['.', '.'] ∧ there = here ++ [String.ofList part]) := by
  unfold step at h
  split at h
  · cases h
  · cases h
  · split at h
    · next hidle => exact .inl ⟨hidle, (Except.ok.inj h).symm⟩
    · next hidle =>
      split at h
      · next hdots => exact .inr (.inl ⟨hdots, (Except.ok.inj h).symm⟩)
      · next hdots =>
        exact .inr (.inr ⟨Bool.eq_false_iff.mpr hidle, hdots, (Except.ok.inj h).symm⟩)

lemma foldlM_step_names (hl : ∀ name ∈ l, IsName name)
    (h : (l.map String.toList).foldlM d.step here = .ok there) : there = here ++ l := by
  induction l generalizing here with
  | nil =>
    obtain rfl := Except.ok.inj h
    simp
  | cons name l ih =>
    rw [List.forall_mem_cons] at hl
    rw [List.map_cons, List.foldlM_cons] at h
    obtain ⟨next, hstep, hrest⟩ := Except.bind_eq_ok.mp h
    rcases step_cases hstep with ⟨hidle, -⟩ | ⟨hdots, -⟩ | ⟨-, -, rfl⟩
    · exact absurd (hidle.symm.trans hl.1.isIdle_eq) (by simp)
    · exact absurd hdots hl.1.ne_dots
    · rw [ih hl.2 hrest, String.ofList_toList, List.append_assoc, List.singleton_append]

/-- The path of a location leads to it, if it leads anywhere. -/
lemma eq_of_locate_path (hl : ∀ name ∈ l, IsName name) (hne : l ≠ [])
    (h : d.locate l.path = .ok there) : there = l := by
  have hpath : l.path.isEmpty = false := by
    rw [Bool.eq_false_iff, ne_eq, String.isEmpty_iff, ← String.toList_eq_nil_iff,
      Location.toList_path]
    simp
  rw [locate, hpath, Location.parts_path hl hne] at h
  exact foldlM_step_names hl h

/-- A path under which something stands leads somewhere. -/
lemma exists_locate_of_has {path : String} (h : d.has path = true) :
    ∃ there, d.locate path = .ok there := by
  cases hlocate : d.locate path with
  | ok there => exact ⟨there, rfl⟩
  | error fault =>
    rw [has, find, hlocate] at h
    cases h

/-- Whatever way a path leads, it goes by names. -/
lemma isName_of_locate {path : String} (h : d.locate path = .ok l) : ∀ name ∈ l, IsName name := by
  have hfold {parts : List (List Char)} (hparts : ∀ part ∈ parts, '/' ∉ part) {here : Location}
      (hhere : ∀ name ∈ here, IsName name) (hl : parts.foldlM d.step here = .ok l) :
      ∀ name ∈ l, IsName name := by
    induction parts generalizing here with
    | nil =>
      obtain rfl := Except.ok.inj hl
      exact hhere
    | cons part parts ih =>
      rw [List.forall_mem_cons] at hparts
      obtain ⟨next, hstep, hrest⟩ := Except.bind_eq_ok.mp hl
      refine ih hparts.2 ?_ hrest
      rcases step_cases hstep with ⟨-, rfl⟩ | ⟨-, rfl⟩ | ⟨hidle, hdots, rfl⟩
      · exact hhere
      · exact fun name hname => hhere name (List.dropLast_subset here hname)
      · intro name hname
        rcases List.mem_append.mp hname with hold | hnew
        · exact hhere name hold
        · obtain rfl := List.mem_singleton.mp hnew
          exact .of_part hparts.1 hidle hdots
  unfold locate at h
  split at h
  · cases h
  · exact hfold (fun part hpart => Path.slash_notMem_of_mem_parts hpart) (by simp) h

end Disk

namespace Location

variable {root rel : Location}

/-- The names of a location with slashes between them. -/
def relative (rel : Location) : String :=
  "/".intercalate rel

lemma toList_relative (rel : Location) :
    rel.relative.toList = ['/'].intercalate (rel.map String.toList) := by
  simp [relative, String.toList_intercalate]

/-- The path of a location below the top does not end in a slash. -/
lemma getLast?_path_ne (hroot : ∀ name ∈ root, IsName name) (hne : root ≠ []) :
    root.path.toList.getLast? ≠ some '/' := by
  rcases List.eq_nil_or_concat' root with rfl | ⟨front, name, rfl⟩
  · exact absurd rfl hne
  have hname := hroot name (by simp)
  obtain ⟨before, hbefore⟩ :
      ∃ before, (path (front ++ [name])).toList = before ++ name.toList := by
    cases front with
    | nil => exact ⟨['/'], by simp [toList_path]⟩
    | cons first front =>
      rw [toList_path, List.map_append, Path.intercalate_append (by simp) (by simp)]
      exact ⟨'/' :: ['/'].intercalate ((first :: front).map String.toList) ++ ['/'], by simp⟩
  rw [hbefore, List.getLast?_append]
  intro hslash
  cases hlast : name.toList.getLast? with
  | none => exact hname.ne_empty (String.toList_eq_nil_iff.mp (List.getLast?_eq_none_iff.mp hlast))
  | some c =>
    rw [hlast, Option.some_or] at hslash
    obtain rfl := Option.some.inj hslash
    exact hname.slash_notMem (List.mem_of_getLast? hlast)

/-- Names with slashes between them do not begin with a slash. -/
lemma isAbsolute_relative (hrel : ∀ name ∈ rel, IsName name) (hne : rel ≠ []) :
    Path.isAbsolute rel.relative = false := by
  obtain ⟨name, rest, rfl⟩ := List.exists_cons_of_ne_nil hne
  have hname := hrel name List.mem_cons_self
  obtain ⟨c, cs, hcs⟩ := List.exists_cons_of_ne_nil fun h : name.toList = [] =>
    hname.ne_empty (String.toList_eq_nil_iff.mp h)
  have hc : c ≠ '/' := by
    rintro rfl
    exact hname.slash_notMem (hcs ▸ List.mem_cons_self)
  have hhead : (relative (name :: rest)).toList.head? = some c := by
    rw [toList_relative, List.map_cons, hcs]
    cases rest with
    | nil => rfl
    | cons next rest => rw [List.map_cons, List.intercalate_cons_cons]; rfl
  simp [Path.isAbsolute, hhead, hc]

/-- Seen from the root, the names lead to the location. -/
lemma pathOf_relative (hroot : ∀ name ∈ root, IsName name) (hrel : ∀ name ∈ rel, IsName name)
    (hne : rel ≠ []) : Index.pathOf root rel.relative = path (root ++ rel) := by
  have hempty : root.path.isEmpty = false := by
    rw [Bool.eq_false_iff, ne_eq, String.isEmpty_iff, ← String.toList_eq_nil_iff, toList_path]
    simp
  rw [Index.pathOf, Path.join, isAbsolute_relative hrel hne, hempty]
  simp only [Bool.false_eq_true, ↓reduceIte]
  by_cases hnil : root = []
  · subst hnil
    rw [if_pos (by decide)]
    rfl
  · rw [if_neg (getLast?_path_ne hroot hnil), ← String.toList_inj]
    simp only [String.toList_append, toList_path, toList_relative, List.map_append]
    rw [Path.intercalate_append (by simpa using hnil) (by simpa using hne)]
    simp

/-- The path of a location below the root, without the way to the root. -/
lemma relative?_path (hroot : ∀ name ∈ root, IsName name) (hrel : ∀ name ∈ rel, IsName name)
    (hne : root ++ rel ≠ []) :
    Path.relative? root.path (path (root ++ rel)) = some rel.relative := by
  have hboth : ∀ name ∈ root ++ rel, IsName name :=
    fun name hname => (List.mem_append.mp hname).elim (hroot name) (hrel name)
  have hidle : ∀ part ∈ (root ++ rel).map String.toList, Path.isIdle part = false := by
    simpa only [List.forall_mem_map] using fun name hname => (hboth name hname).isIdle_eq
  have hunder : Path.isUnder (path (root ++ rel)) root.path = true := by
    rw [Path.isUnder, List.isPrefixOf_iff_prefix, components_path_of_names hroot,
      components_path_of_names hboth, List.map_append, ← List.cons_append]
    exact List.prefix_append _ _
  rw [Path.relative?, hunder, components_path_of_names hroot, parts_path hboth hne]
  dsimp only
  rw [List.length_map, List.tail_cons, Path.dropSteps_eq_drop hidle, List.map_append,
    List.drop_left' (by simp)]
  have hrest : ∀ part ∈ rel.map String.toList, Path.isIdle part = false :=
    fun part hpart => hidle part (by rw [List.map_append]; exact List.mem_append_right _ hpart)
  rw [Path.dropIdle_eq hrest, Path.dropIdleEnd_eq hrest, Path.ofParts, ← toList_relative,
    String.ofList_toList]
  rfl

/-- The index keeps a file below the root under the names behind it, if no name has a
backslash. -/
lemma indexName_path (hroot : ∀ name ∈ root, IsName name) (hrel : ∀ name ∈ rel, IsName name)
    (hplain : ∀ name ∈ rel, '\\' ∉ name.toList) (hne : root ++ rel ≠ []) :
    Path.indexName root.path (path (root ++ rel)) = rel.relative := by
  rw [Path.indexName_eq, relative?_path hroot hrel hne, Option.getD_some, ← String.toList_inj,
    String.toList_ofList, toList_relative, Path.map_intercalate rfl, List.map_map]
  congr 1
  refine List.map_congr_left fun name hname => ?_
  have hsame : ∀ c ∈ name.toList, (if c = '\\' then '/' else c) = c := by
    intro c hc
    rw [if_neg]
    rintro rfl
    exact hplain name hname hc
  exact (List.map_congr_left hsame).trans (List.map_id' name.toList)

end Location

end CodeSearch
