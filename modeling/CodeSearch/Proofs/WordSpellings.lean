import CodeSearch.Embedding.Words
import Mathlib.Data.List.Basic

/-!
# Spellings of a word

A word that is put together from several is spelled in one of three ways: with underscores
between them, or with capitals where they begin, from the first or only from the second one on.
The parts of any word are not empty and hold, as small letters, all of its characters but the
underscores. The three spellings of the same words have the same parts, which are these words.
-/
namespace CodeSearch.Words

open CodeSearch.Text

/-- A small letter or a digit. -/
def IsSmall (c : Char) : Prop :=
  c.isLower = true ∨ c.isDigit = true

instance (c : Char) : Decidable (IsSmall c) :=
  inferInstanceAs (Decidable (_ ∨ _))

/-- A small letter with small letters and digits behind it, of which there is at least one. -/
def IsPlain (word : List Char) : Prop :=
  ∃ c cs, word = c :: cs ∧ c.isLower = true ∧ cs ≠ [] ∧ ∀ d ∈ cs, IsSmall d

/-- A word with its first letter as a capital. -/
def capitalized : List Char → List Char
  | [] => []
  | c :: cs => c.toUpper :: cs

/-- Underscores between the words. -/
def snakeCase (words : List (List Char)) : List Char :=
  ['_'].intercalate words

/-- A capital at the beginning of each word. -/
def pascalCase (words : List (List Char)) : List Char :=
  words.flatMap capitalized

/-- A capital at the beginning of each word but the first. -/
def camelCase : List (List Char) → List Char
  | [] => []
  | word :: words => word ++ pascalCase words

section Parts

lemma flatten_finished (part : List Char) : (finished part).flatten = part := by
  cases part <;> simp [finished]

lemma nil_notMem_finished (part : List Char) : [] ∉ finished part := by
  cases part <;> simp [finished]

lemma finished_of_ne_nil {part : List Char} (h : part ≠ []) : finished part = [part] := by
  rw [finished, if_neg (by simpa using h)]

/-- No part is empty: one that has no characters yet is not finished. -/
lemma nil_notMem_splitFrom (previous : Option Char) (part cs : List Char) :
    [] ∉ splitFrom previous part cs := by
  induction cs generalizing previous part with
  | nil => exact nil_notMem_finished part
  | cons c cs ih =>
    rw [splitFrom]
    split_ifs
    · exact List.mem_append.not.mpr (not_or.mpr ⟨nil_notMem_finished part, ih _ _⟩)
    · exact List.mem_append.not.mpr (not_or.mpr ⟨nil_notMem_finished part, ih _ _⟩)
    · exact ih _ _

/-- The characters of the current part come first, then those behind it. -/
lemma flatten_splitFrom (previous : Option Char) (part cs : List Char) :
    (splitFrom previous part cs).flatten = part ++ (cs.filter (· ≠ '_')).flatMap lowerChar := by
  induction cs generalizing previous part with
  | nil => simp [splitFrom, flatten_finished]
  | cons c cs ih =>
    rw [splitFrom]
    split_ifs with hunderscore hstarts
    · simp [flatten_finished, ih, hunderscore]
    · simp [flatten_finished, ih, hunderscore]
    · simp [ih, hunderscore]

end Parts

section Characters

variable {c : Char}

/-- Small characters are in lower case already and separate nothing. -/
lemma small_codes : ∀ n < 0x80, IsSmall (Char.ofNat n) →
    Char.ofNat n ≠ '_' ∧ isUpper (Char.ofNat n) = false ∧
    (isLower (Char.ofNat n) || isNumber (Char.ofNat n)) = true ∧
    lowerChar (Char.ofNat n) = [Char.ofNat n] := by
  decide

/-- The capital of a small letter is a capital, and the small letter is its lower case. -/
lemma letter_codes : ∀ n < 0x80, (Char.ofNat n).isLower = true →
    (Char.ofNat n).toUpper ≠ '_' ∧ isUpper (Char.ofNat n).toUpper = true ∧
    lowerChar (Char.ofNat n).toUpper = [Char.ofNat n] := by
  decide

lemma IsSmall.toNat_lt (hc : IsSmall c) : c.toNat < 0x80 := by
  rcases hc with hletter | hdigit
  · have hle : c.toNat ≤ 122 := of_decide_eq_true (Bool.and_eq_true_iff.mp hletter).2
    omega
  · have hle : c.toNat ≤ 57 := of_decide_eq_true (Bool.and_eq_true_iff.mp hdigit).2
    omega

lemma IsSmall.codes (hc : IsSmall c) : c ≠ '_' ∧ isUpper c = false ∧
    (isLower c || isNumber c) = true ∧ lowerChar c = [c] := by
  have hcode := small_codes c.toNat hc.toNat_lt
  rw [Char.ofNat_toNat] at hcode
  exact hcode hc

lemma toUpper_codes (hc : c.isLower = true) :
    c.toUpper ≠ '_' ∧ isUpper c.toUpper = true ∧ lowerChar c.toUpper = [c] := by
  have hcode := letter_codes c.toNat (IsSmall.toNat_lt (.inl hc))
  rw [Char.ofNat_toNat] at hcode
  exact hcode hc

end Characters

section Plain

variable {word : List Char}

lemma IsPlain.ne_nil (h : IsPlain word) : word ≠ [] := by
  obtain ⟨c, cs, rfl, -⟩ := h
  exact List.cons_ne_nil c cs

lemma IsPlain.isSmall (h : IsPlain word) : ∀ d ∈ word, IsSmall d := by
  obtain ⟨c, cs, rfl, hc, -, hcs⟩ := h
  exact List.forall_mem_cons.mpr ⟨.inl hc, hcs⟩

end Plain

section Boundaries

variable {previous : Option Char} {p c : Char} {part cs rest word : List Char}
  {words : List (List Char)}

/-- A run of small characters goes into the current part. -/
lemma splitFrom_small (hne : cs ≠ []) (hcs : ∀ c ∈ cs, IsSmall c) :
    splitFrom previous part (cs ++ rest) = splitFrom (some (cs.getLast hne)) (part ++ cs) rest := by
  induction cs generalizing previous part with
  | nil => exact absurd rfl hne
  | cons c cs ih =>
    rw [List.forall_mem_cons] at hcs
    obtain ⟨hunderscore, hupper, -, hlower⟩ := hcs.1.codes
    have hstarts : startsPart previous c (cs ++ rest).head? = false := by
      rw [startsPart, hupper, Bool.false_and]
    have hstep : splitFrom previous part (c :: (cs ++ rest)) =
        splitFrom (some c) (part ++ [c]) (cs ++ rest) := by
      rw [splitFrom, if_neg hunderscore, hstarts, if_neg Bool.false_ne_true, hlower]
    rw [List.cons_append, hstep]
    by_cases hlast : cs = []
    · subst hlast
      rfl
    · rw [ih hlast hcs.2, List.append_assoc, List.getLast_cons hlast]
      rfl

/-- A capital behind a small character begins a part. -/
lemma splitFrom_capital (hp : IsSmall p) (hc : c.isLower = true) :
    splitFrom (some p) part (c.toUpper :: rest) =
      finished part ++ splitFrom (some c.toUpper) [c] rest := by
  obtain ⟨hunderscore, hupper, hlower⟩ := toUpper_codes hc
  obtain ⟨-, -, hsmall, -⟩ := hp.codes
  have hstarts : startsPart (some p) c.toUpper rest.head? = true := by
    rw [startsPart, hupper, Option.any_some, hsmall]
    rfl
  rw [splitFrom, if_neg hunderscore, if_pos hstarts, hlower]

/-- A capital at the beginning has no part in front of it. -/
lemma splitFrom_first (hc : c.isLower = true) :
    splitFrom none [] (c.toUpper :: rest) = splitFrom (some c.toUpper) [c] rest := by
  obtain ⟨hunderscore, -, hlower⟩ := toUpper_codes hc
  have hstarts : startsPart none c.toUpper rest.head? = false := by
    rw [startsPart, Option.any_none, Bool.and_false]
  rw [splitFrom, if_neg hunderscore, hstarts, if_neg Bool.false_ne_true, hlower, List.nil_append]

/-- Behind a whole word the part is finished by the capital of the next one. -/
lemma splitFrom_pascalCase (hp : IsSmall p) (hpart : part ≠ []) (hwords : ∀ w ∈ words, IsPlain w) :
    splitFrom (some p) part (pascalCase words) = part :: words := by
  induction words generalizing p part with
  | nil => exact finished_of_ne_nil hpart
  | cons word words ih =>
    rw [List.forall_mem_cons] at hwords
    obtain ⟨⟨c, cs, rfl, hc, hne, hcs⟩, hrest⟩ := hwords
    calc splitFrom (some p) part (c.toUpper :: (cs ++ pascalCase words))
        = finished part ++ splitFrom (some c.toUpper) [c] (cs ++ pascalCase words) :=
          splitFrom_capital hp hc
      _ = [part] ++ splitFrom (some (cs.getLast hne)) (c :: cs) (pascalCase words) := by
          rw [finished_of_ne_nil hpart, splitFrom_small hne hcs]
          rfl
      _ = part :: (c :: cs) :: words := by
          rw [ih (hcs _ (List.getLast_mem hne)) (List.cons_ne_nil c cs) hrest]
          rfl

/-- Behind a whole word the part is finished by the underscore in front of the next one. -/
lemma splitFrom_underscores (hpart : part ≠ []) (hwords : ∀ w ∈ words, IsPlain w) :
    splitFrom previous part (words.flatMap ('_' :: ·)) = part :: words := by
  induction words generalizing previous part with
  | nil => exact finished_of_ne_nil hpart
  | cons word words ih =>
    rw [List.forall_mem_cons] at hwords
    obtain ⟨hword, hrest⟩ := hwords
    calc splitFrom previous part ('_' :: (word ++ words.flatMap ('_' :: ·)))
        = finished part ++ splitFrom (some '_') [] (word ++ words.flatMap ('_' :: ·)) := rfl
      _ = [part] ++ splitFrom (some (word.getLast hword.ne_nil)) word
            (words.flatMap ('_' :: ·)) := by
          rw [finished_of_ne_nil hpart, splitFrom_small hword.ne_nil hword.isSmall, List.nil_append]
      _ = part :: word :: words := by
          rw [ih hword.ne_nil hrest]
          rfl

lemma intercalate_cons (word : List Char) (words : List (List Char)) :
    ['_'].intercalate (word :: words) = word ++ words.flatMap ('_' :: ·) := by
  induction words generalizing word with
  | nil => simp
  | cons next words ih => rw [List.intercalate_cons_cons, ih]; simp

end Boundaries

section Spellings

variable {words : List (List Char)}

lemma split_snakeCase (hwords : ∀ w ∈ words, IsPlain w) : split (snakeCase words) = words := by
  cases words with
  | nil => rfl
  | cons word words =>
    rw [List.forall_mem_cons] at hwords
    obtain ⟨hword, hrest⟩ := hwords
    rw [split, snakeCase, intercalate_cons, splitFrom_small hword.ne_nil hword.isSmall,
      List.nil_append, splitFrom_underscores hword.ne_nil hrest]

lemma split_camelCase (hwords : ∀ w ∈ words, IsPlain w) : split (camelCase words) = words := by
  cases words with
  | nil => rfl
  | cons word words =>
    rw [List.forall_mem_cons] at hwords
    obtain ⟨hword, hrest⟩ := hwords
    have hlast : IsSmall (word.getLast hword.ne_nil) := hword.isSmall _ (List.getLast_mem _)
    rw [split, camelCase, splitFrom_small hword.ne_nil hword.isSmall, List.nil_append,
      splitFrom_pascalCase hlast hword.ne_nil hrest]

lemma split_pascalCase (hwords : ∀ w ∈ words, IsPlain w) : split (pascalCase words) = words := by
  cases words with
  | nil => rfl
  | cons word words =>
    rw [List.forall_mem_cons] at hwords
    obtain ⟨⟨c, cs, rfl, hc, hne, hcs⟩, hrest⟩ := hwords
    calc split (c.toUpper :: (cs ++ pascalCase words))
        = splitFrom (some c.toUpper) [c] (cs ++ pascalCase words) := splitFrom_first hc
      _ = splitFrom (some (cs.getLast hne)) (c :: cs) (pascalCase words) := splitFrom_small hne hcs
      _ = (c :: cs) :: words :=
          splitFrom_pascalCase (hcs _ (List.getLast_mem hne)) (List.cons_ne_nil c cs) hrest

/-- The parts of any word are not empty and hold its characters in lower case, in order, except
for the underscores. Plain words are the parts of all three of their spellings. -/
theorem split_loses_nothing_in_any_spelling :
    (∀ word, [] ∉ split word ∧
      (split word).flatten = (word.filter (· ≠ '_')).flatMap lowerChar) ∧
    ∀ words, (∀ w ∈ words, IsPlain w) →
      split (snakeCase words) = words ∧ split (camelCase words) = words ∧
      split (pascalCase words) = words := by
  refine ⟨fun word => ⟨nil_notMem_splitFrom none [] word, ?_⟩, fun words hwords => ?_⟩
  · rw [split, flatten_splitFrom, List.nil_append]
  · exact ⟨split_snakeCase hwords, split_camelCase hwords, split_pascalCase hwords⟩

/-- A word may end in a digit, and the next one begins behind it. -/
theorem http2_server_is_split :
    let words := ["http2".toList, "server".toList, "v1".toList]
    (∀ w ∈ words, IsPlain w) ∧
    snakeCase words = "http2_server_v1".toList ∧ camelCase words = "http2ServerV1".toList ∧
    pascalCase words = "Http2ServerV1".toList ∧
    split (snakeCase words) = words ∧ split (camelCase words) = words ∧
    split (pascalCase words) = words := by
  intro words
  have hplain : ∀ w ∈ words, IsPlain w := by
    simp only [words, List.forall_mem_cons, List.not_mem_nil, false_implies, implies_true,
      and_true]
    exact ⟨⟨'h', ['t', 't', 'p', '2'], rfl, rfl, by simp, by simp [IsSmall]⟩,
      ⟨'s', ['e', 'r', 'v', 'e', 'r'], rfl, rfl, by simp, by simp [IsSmall]⟩,
      ⟨'v', ['1'], rfl, rfl, by simp, by simp [IsSmall]⟩⟩
  exact ⟨hplain, by decide, by decide, by decide,
    split_loses_nothing_in_any_spelling.2 words hplain⟩

end Spellings

end CodeSearch.Words
