import CodeSearch.Disk.Basic
import Mathlib.Data.List.Basic

/-!
# The steps of a path

A path is cut into parts at its slashes, and the parts that say something are its steps.
The steps of a location are those of its names, one after the other.
-/
namespace CodeSearch.Path

lemma parts_cons (c : Char) (cs : List Char) : parts (c :: cs) =
    if c = '/' then [] :: parts cs
    else match parts cs with
      | [] => [[c]]
      | part :: rest => (c :: part) :: rest := rfl

lemma parts_ne_nil (cs : List Char) : parts cs ≠ [] := by
  cases cs with
  | nil => simp [parts]
  | cons c cs =>
    rw [parts_cons]
    split
    · simp
    · split <;> simp

/-- The last part of a path ends as the path does. -/
lemma exists_parts_concat (cs : List Char) {c : Char} (hc : c ≠ '/') :
    ∃ front part, parts (cs ++ [c]) = front ++ [part ++ [c]] := by
  induction cs with
  | nil => exact ⟨[], [], by simp [parts, hc]⟩
  | cons d cs ih =>
    obtain ⟨front, part, h⟩ := ih
    rw [List.cons_append, parts_cons, h]
    split
    · exact ⟨[] :: front, part, rfl⟩
    · cases front with
      | nil => exact ⟨[], d :: part, rfl⟩
      | cons first front => exact ⟨(d :: first) :: front, part, rfl⟩

lemma steps_concat (front : List (List Char)) {part : List Char} (hpart : isIdle part = false) :
    steps (front ++ [part]) = steps front ++ [stepOf part] := by
  simp [steps, List.filter_append, hpart]

/-- The last step of a path is that of its last part, if that says anything. -/
lemma getLast?_components {path : String} {front : List (List Char)} {part : List Char}
    (hparts : parts path.toList = front ++ [part]) (hpart : isIdle part = false) :
    (components path).getLast? = some (stepOf part) := by
  rw [components, hparts]
  cases front with
  | nil =>
    have hroot : path.toList.head? ≠ some '/' := by
      intro hhead
      obtain ⟨cs, hcs⟩ := List.head?_eq_some_iff.mp hhead
      rw [hcs, parts_cons, if_pos rfl, List.nil_append] at hparts
      obtain ⟨rfl, -⟩ := List.cons.inj hparts
      cases hpart
    have hdot : part ≠ ['.'] := by
      rintro rfl
      cases hpart
    simp only [List.nil_append, hroot, hdot, ↓reduceIte]
    exact congrArg List.getLast? (steps_concat [] hpart)
  | cons first front =>
    simp only [List.cons_append]
    have hsteps := steps_concat front hpart
    split
    · rw [hsteps, ← List.cons_append, List.getLast?_concat]
    · split
      · rw [hsteps, ← List.cons_append, List.getLast?_concat]
      · rw [← List.cons_append, steps_concat (first :: front) hpart, List.getLast?_concat]

lemma parts_append_slash (cs ds : List Char) : parts (cs ++ '/' :: ds) = parts cs ++ parts ds := by
  induction cs with
  | nil =>
    rw [List.nil_append, parts_cons, if_pos rfl]
    rfl
  | cons c cs ih =>
    rw [List.cons_append, parts_cons, parts_cons, ih]
    split
    · rfl
    · cases hparts : parts cs with
      | nil => exact absurd hparts (parts_ne_nil cs)
      | cons part rest => rfl

lemma steps_append (ps qs : List (List Char)) : steps (ps ++ qs) = steps ps ++ steps qs := by
  simp [steps]

lemma steps_parts_intercalate (l : Location) :
    steps (parts (['/'].intercalate (l.map String.toList))) =
      l.flatMap fun name => steps (parts name.toList) := by
  induction l with
  | nil => rfl
  | cons name l ih =>
    cases l with
    | nil => simp
    | cons next l =>
      rw [List.map_cons, List.map_cons, List.intercalate_cons_cons, ← List.map_cons,
        List.flatMap_cons, ← ih, List.append_assoc, List.singleton_append, parts_append_slash,
        steps_append]

lemma components_path (l : Location) : components l.path =
    .root :: l.flatMap fun name => steps (parts name.toList) := by
  have hpath : l.path.toList = '/' :: ['/'].intercalate (l.map String.toList) := by
    simp [Location.path, String.toList_intercalate]
  rw [components, hpath, parts_cons, if_pos rfl, ← steps_parts_intercalate]
  simp

/-- What lies under a directory on the way to a location does so with the location. -/
lemma isUnder_of_take {l : Location} {k : ℕ} {dir : String}
    (h : isUnder (Location.path (l.take k)) dir = true) : isUnder l.path dir = true := by
  rw [isUnder, List.isPrefixOf_iff_prefix, components_path] at h ⊢
  obtain ⟨rest, hrest⟩ := List.take_prefix k l
  refine h.trans ⟨rest.flatMap fun name => steps (parts name.toList), ?_⟩
  rw [List.cons_append, ← List.flatMap_append, hrest]

lemma steps_ne_root (ps : List (List Char)) : Component.root ∉ steps ps := by
  intro h
  obtain ⟨part, -, hpart⟩ := List.mem_map.mp h
  unfold stepOf at hpart
  split at hpart <;> cases hpart

lemma root_mem_components_iff (path : String) :
    .root ∈ components path ↔ isAbsolute path = true := by
  have habsolute : isAbsolute path = true ↔ path.toList.head? = some '/' := by simp [isAbsolute]
  rw [habsolute, components.eq_def]
  split
  · next hparts => simp [parts_ne_nil] at hparts
  · split
    · next hroot => simp [hroot]
    · next hroot =>
      split
      · simp [hroot, steps_ne_root]
      · simp [hroot, steps_ne_root]

/-- A path leads outside if it is empty, absolute or has a step upwards. -/
lemma staysInside_eq_false_iff (path : String) : staysInside path = false ↔
    path = "" ∨ isAbsolute path = true ∨ .parent ∈ components path := by
  rw [← root_mem_components_iff, staysInside, Bool.and_eq_false_iff, Bool.not_eq_false',
    String.isEmpty_iff, List.all_eq_false]
  refine or_congr_right ⟨?_, ?_⟩
  · rintro ⟨step, hmem, hstep⟩
    cases step with
    | root => exact .inl hmem
    | parent => exact .inr hmem
    | current => exact absurd rfl hstep
    | normal name => exact absurd rfl hstep
  · rintro (hroot | hparent)
    · exact ⟨.root, hroot, Bool.false_ne_true⟩
    · exact ⟨.parent, hparent, Bool.false_ne_true⟩

end CodeSearch.Path
