import CodeSearch.Chunk.Basic
import CodeSearch.Language.Basic
import CodeSearch.Proofs.PathSteps
import Mathlib.Data.List.Infix

/-!
# Names of files in identifiers

The identifier of a chunk can be parted again into its file and its path if the name of
the file has no separator in it and does not end in the middle of one. Names of files in
a supported language do not: their last character belongs to an extension.
-/
namespace CodeSearch

namespace ChunkId

/-- A name in which the parts of an identifier are not separated. -/
def Separable (file : String) : Prop :=
  ¬ separator.toList <:+: file.toList

instance (file : String) : Decidable (Separable file) :=
  inferInstanceAs (Decidable (¬ _))

lemma splitChars?_append {file : List Char} (hfile : ¬ [':', ':'] <:+: file)
    (hlast : file.getLast? ≠ some ':') (path : List Char) :
    splitChars? (file ++ ':' :: ':' :: path) = some (file, path) := by
  induction file with
  | nil => rfl
  | cons c cs ih =>
    have hcs : ¬ [':', ':'] <:+: cs := fun h => hfile (h.trans (List.suffix_cons c cs).isInfix)
    have hlast' : cs.getLast? ≠ some ':' := by
      cases cs with
      | nil => simp
      | cons d ds => rwa [List.getLast?_cons_cons] at hlast
    have hhead : ¬ [':', ':'] <+: c :: (cs ++ ':' :: ':' :: path) := by
      rintro ⟨rest, hrest⟩
      obtain ⟨rfl, htail⟩ := List.cons.inj hrest
      cases cs with
      | nil => exact hlast rfl
      | cons d ds =>
        obtain ⟨rfl, -⟩ := List.cons.inj htail
        exact hfile ⟨[], ds, rfl⟩
    rw [List.cons_append, splitChars?, ih hcs hlast']
    · rfl
    · rintro rest rfl hcons
      exact hhead ⟨rest, by rw [hcons]; rfl⟩

/-- The characters are parted at a separator, and there is none before it. -/
lemma splitChars?_eq_some {cs front back : List Char} (h : splitChars? cs = some (front, back)) :
    cs = front ++ ':' :: ':' :: back ∧ ¬ [':', ':'] <:+: front := by
  fun_induction splitChars? cs generalizing front back with
  | case1 => cases h
  | case2 cs =>
    obtain ⟨rfl, rfl⟩ := Prod.mk.inj (Option.some.inj h)
    exact ⟨rfl, by simp⟩
  | case3 c cs hne ih =>
    obtain ⟨⟨front', back'⟩, hcs, hparts⟩ := Option.map_eq_some_iff.mp h
    obtain ⟨rfl, rfl⟩ := Prod.mk.inj hparts
    obtain ⟨rfl, hfront⟩ := ih hcs
    refine ⟨rfl, fun hinfix => ?_⟩
    rcases List.infix_cons_iff.mp hinfix with ⟨rest, hrest⟩ | hinfix
    · -- then the separator would have been found one character earlier
      obtain ⟨rfl, rfl⟩ := List.cons.inj hrest
      exact hne _ rfl rfl
    · exact hfront hinfix

theorem split?_ofParts {file : String} (hfile : Separable file)
    (hlast : file.toList.getLast? ≠ some ':') (path : String) :
    split? (ofParts file path) = some (file, path) := by
  have hchars : (ofParts file path).toList = file.toList ++ ':' :: ':' :: path.toList := by
    simp [ofParts, separator]
  simp [split?, hchars, splitChars?_append hfile hlast]

/-- The file that an identifier is parted into has no separator in it. -/
lemma separable_of_split? {id file path : String} (h : split? id = some (file, path)) :
    Separable file := by
  obtain ⟨⟨front, back⟩, hchars, hparts⟩ := Option.map_eq_some_iff.mp h
  obtain ⟨rfl, -⟩ := Prod.mk.inj hparts
  rw [Separable, String.toList_ofList]
  exact (splitChars?_eq_some hchars).2

end ChunkId

namespace Text

/-- A character that is its own lower case stays in a text. -/
lemma mem_lowerFrom {c : Char} (hc : lowerChar c = [c]) (hsigma : c ≠ 'Σ') {cs : List Char}
    (hmem : c ∈ cs) (before : List Char) : c ∈ lowerFrom before cs := by
  induction cs generalizing before with
  | nil => simp at hmem
  | cons d cs ih =>
    rw [lowerFrom, List.mem_append]
    rcases List.mem_cons.mp hmem with rfl | hmem
    · exact .inl (by simp [hsigma, hc])
    · exact .inr (ih hmem _)

end Text

namespace Language

lemma colon_notMem_extensions (l : Language) : ∀ e ∈ l.extensions, ':' ∉ e.toList := by
  cases l <;> decide

lemma colon_notMem_of_ofExtension? {extension : List Char}
    (h : (ofExtension? extension).isSome = true) : ':' ∉ extension := by
  intro hmem
  obtain ⟨l, hl⟩ := Option.isSome_iff_exists.mp h
  have hfound := List.find?_some hl
  have hextension : String.ofList (Text.lower extension) ∈ l.extensions := by
    simpa using hfound
  refine l.colon_notMem_extensions _ hextension ?_
  rw [String.toList_ofList]
  exact Text.mem_lowerFrom (by decide) (by decide) hmem []

/-- The name of a file in a supported language does not end with a colon. -/
theorem getLast?_ne_colon {file : String} (h : (ofPath? file).isSome = true) :
    file.toList.getLast? ≠ some ':' := by
  intro hlast
  obtain ⟨cs, hcs⟩ := List.getLast?_eq_some_iff.mp hlast
  obtain ⟨front, part, hparts⟩ := Path.exists_parts_concat cs (by decide : ':' ≠ '/')
  rw [← hcs] at hparts
  have hidle : Path.isIdle (part ++ [':']) = false := by
    cases part <;> simp [Path.isIdle]
  have hstep : Path.stepOf (part ++ [':']) = .normal (String.ofList (part ++ [':'])) := by
    rw [Path.stepOf, if_neg]
    intro heq
    have hcolon : some ':' = some '.' := by
      simpa using congrArg List.getLast? heq
    exact absurd hcolon (by decide)
  have hname : Path.fileName? file = some (String.ofList (part ++ [':'])) := by
    rw [Path.fileName?, Path.getLast?_components hparts hidle, hstep]
  rw [ofPath?, Path.extension?, hname, Option.bind_some, String.toList_ofList] at h
  cases hextension : Path.extensionOf? (part ++ [':']) with
  | none => simp [hextension] at h
  | some extension =>
    rw [hextension, Option.bind_some] at h
    refine colon_notMem_of_ofExtension? h ?_
    -- the characters behind the last dot start, from the end, with the colon
    have hreverse : (part ++ [':']).reverse = ':' :: part.reverse := by simp
    simp only [Path.extensionOf?, hreverse] at hextension
    split at hextension
    · cases hextension
    · obtain rfl := Option.some.inj hextension
      simp

end Language

end CodeSearch
