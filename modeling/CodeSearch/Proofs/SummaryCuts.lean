import CodeSearch.Proofs.HitLines
import CodeSearch.Proofs.TextPlaces
import Mathlib.Data.List.DropRight

/-!
# Where summaries are cut

A summary is the first line that is not blank, trimmed. If that is too long, it is cut behind a
word: of all places with a blank behind them at the last one that leaves room for the ellipsis,
or, where there is no such place, as late as possible. The cut falls between two characters, and
a summary is its own summary.
-/
namespace CodeSearch

namespace Text

/-- The last character, if there is one, is not blank. -/
def EndsInWord (cs : List Char) : Prop :=
  ∀ c ∈ cs.getLast?, isBlank c = false

/-- Neither the first character nor the last one is blank. -/
structure IsTrimmed (cs : List Char) : Prop where
  starts : ∀ c ∈ cs.head?, isBlank c = false
  ends : EndsInWord cs

variable {cs : List Char}

lemma trimEnd_eq (cs : List Char) : trimEnd cs = cs.rdropWhile isBlank := rfl

lemma endsInWord_trimEnd (cs : List Char) : EndsInWord (trimEnd cs) := by
  intro c hc
  obtain ⟨hne, rfl⟩ := List.mem_getLast?_eq_getLast hc
  rw [trimEnd_eq] at hne
  simpa [trimEnd_eq] using List.rdropWhile_last_not isBlank cs hne

lemma exists_trimEnd (cs : List Char) :
    ∃ gap, cs = trimEnd cs ++ gap ∧ ∀ c ∈ gap, isBlank c = true :=
  ⟨cs.rtakeWhile isBlank, List.rdropWhile_append_rtakeWhile.symm, fun _ hc =>
    List.mem_rtakeWhile_imp hc⟩

lemma trimEnd_eq_self (h : EndsInWord cs) : trimEnd cs = cs := by
  refine List.rdropWhile_eq_self_iff.mpr fun hne => ?_
  simp [h _ (List.getLast?_eq_getLast_of_ne_nil hne)]

lemma trimEnd_concat_blank (cs : List Char) {c : Char} (hc : isBlank c = true) :
    trimEnd (cs ++ [c]) = trimEnd cs :=
  List.rdropWhile_concat_pos isBlank cs c hc

/-- Trimming drops blanks at both ends and leaves none there. -/
lemma exists_trim (cs : List Char) : ∃ front back, cs = front ++ (trim cs ++ back) ∧
    (∀ c ∈ front, isBlank c = true) ∧ (∀ c ∈ back, isBlank c = true) ∧ IsTrimmed (trim cs) := by
  obtain ⟨back, hback, hblank⟩ := exists_trimEnd (trimStart cs)
  refine ⟨cs.takeWhile isBlank, back, ?_, fun c hc => List.mem_takeWhile_imp hc, hblank, ?_,
    endsInWord_trimEnd _⟩
  · rw [trim, ← hback, trimStart, List.takeWhile_append_dropWhile]
  · intro c hc
    have hstart : (trimStart cs).head? = some c := by
      rw [hback, List.head?_append, show (trimEnd (trimStart cs)).head? = some c from hc]
      rfl
    have hnot := List.head?_dropWhile_not isBlank cs
    rw [show (cs.dropWhile isBlank).head? = some c from hstart] at hnot
    exact hnot

lemma trim_eq_self (h : IsTrimmed cs) : trim cs = cs := by
  have hstart : trimStart cs = cs := by
    refine List.dropWhile_eq_self_iff.mpr fun hlength => ?_
    simp [h.starts cs[0] (by simp [List.head?_eq_getElem?])]
  rw [trim, hstart, trimEnd_eq_self h.ends]

/-- Nothing is left of a line that is blank, and of no other. -/
lemma trim_eq_nil_iff : trim cs = [] ↔ ∀ c ∈ cs, isBlank c = true := by
  obtain ⟨front, back, heq, hfront, hback, htrimmed⟩ := exists_trim cs
  constructor
  · intro hnil c hc
    rw [heq, hnil, List.nil_append, List.mem_append] at hc
    exact hc.elim (hfront c) (hback c)
  · intro hblank
    cases htrim : trim cs with
    | nil => rfl
    | cons c rest =>
      have hc := hblank c (trim_subset cs (htrim ▸ List.mem_cons_self))
      rw [htrimmed.starts c (by rw [htrim]; rfl)] at hc
      cases hc

end Text

namespace Summary

open Text

/-- The line that a summary is taken from: the first one that is not blank, without the blanks
at its ends, or nothing if all are blank. -/
inductive IsFirstLine (text : List Char) : List Char → Prop
  | missing (hblank : ∀ l ∈ lines text, ∀ c ∈ l, isBlank c = true) : IsFirstLine text []
  | found {before after : List (List Char)} {front line back : List Char}
      (hlines : lines text = before ++ (front ++ (line ++ back)) :: after)
      (hbefore : ∀ l ∈ before, ∀ c ∈ l, isBlank c = true)
      (hfront : ∀ c ∈ front, isBlank c = true) (hback : ∀ c ∈ back, isBlank c = true)
      (hne : line ≠ []) (htrimmed : IsTrimmed line) : IsFirstLine text line

/-- A beginning of a line at which it may be cut: it ends in a word, has a blank behind it, and
leaves room for the ellipsis. -/
structure IsBreak (line kept : List Char) : Prop where
  nonempty : kept ≠ []
  ends : EndsInWord kept
  length_le : kept.length ≤ 77
  followed : ∃ c rest, line = kept ++ c :: rest ∧ isBlank c = true

/-- What is kept of a long line: its longest beginning at which it may be cut, if the blank
behind that is among the first 78 characters, and otherwise the first 77 ones. -/
structure IsCut (line kept : List Char) : Prop where
  nonempty : kept ≠ []
  isPrefix : kept <+: line
  ends : EndsInWord kept
  length_le : kept.length ≤ 77
  longest : (∃ c ∈ line.take 78, isBlank c = true) →
    IsBreak line kept ∧ ∀ other, IsBreak line other → other.length ≤ kept.length
  hard : (∀ c ∈ line.take 78, isBlank c = false) → kept = line.take 77

variable {text line : List Char}

lemma isFirstLine_firstLine (text : List Char) : IsFirstLine text (firstLine text) := by
  rw [firstLine, List.find?_map]
  cases hfind : (lines text).find? ((! ·.isEmpty) ∘ trim) with
  | none =>
    refine .missing fun l hl => trim_eq_nil_iff.mp ?_
    simpa using List.find?_eq_none.mp hfind l hl
  | some whole =>
    obtain ⟨hne, before, after, hlines, hbefore⟩ := List.find?_eq_some_iff_append.mp hfind
    obtain ⟨front, back, hwhole, hfront, hback, htrimmed⟩ := exists_trim whole
    refine .found (hwhole ▸ hlines) (fun l hl => trim_eq_nil_iff.mp ?_) hfront hback ?_ htrimmed
    · simpa using hbefore l hl
    · simpa using hne

lemma IsFirstLine.isTrimmed (h : IsFirstLine text line) : IsTrimmed line := by
  cases h with
  | missing => exact ⟨by simp, by simp [EndsInWord]⟩
  | found _ _ _ _ _ htrimmed => exact htrimmed

section Cut

lemma throughLastBlank_eq (cs : List Char) :
    throughLastBlank cs = cs.rdropWhile (! isBlank ·) := rfl

lemma throughLastBlank_eq_nil_iff {cs : List Char} :
    throughLastBlank cs = [] ↔ ∀ c ∈ cs, isBlank c = false := by
  simp [throughLastBlank_eq]

lemma exists_lastBlank {cs : List Char} (h : ∃ c ∈ cs, isBlank c = true) :
    ∃ front b word, cs = front ++ b :: word ∧ isBlank b = true ∧
      (∀ c ∈ word, isBlank c = false) ∧ throughLastBlank cs = front ++ [b] := by
  have hne : throughLastBlank cs ≠ [] := by
    intro hnil
    obtain ⟨c, hc, hblank⟩ := h
    rw [throughLastBlank_eq_nil_iff.mp hnil c hc] at hblank
    cases hblank
  have hlast := List.rdropWhile_last_not (! isBlank ·) cs hne
  have hsplit := (List.dropLast_append_getLast hne).symm
  refine ⟨(throughLastBlank cs).dropLast, (throughLastBlank cs).getLast hne,
    cs.rtakeWhile (! isBlank ·), ?_, by simpa [throughLastBlank_eq] using hlast, fun c hc => ?_,
    hsplit⟩
  · rw [List.append_cons, ← hsplit]
    exact List.rdropWhile_append_rtakeWhile.symm
  · simpa using List.mem_rtakeWhile_imp hc

/-- A text with a blank falls into a part that ends in a word, the last blanks, and the rest of
a word behind them. -/
lemma exists_gap {cs : List Char} (h : ∃ c ∈ cs, isBlank c = true) :
    ∃ gap word, cs = trimEnd (throughLastBlank cs) ++ (gap ++ word) ∧ gap ≠ [] ∧
      (∀ c ∈ gap, isBlank c = true) ∧ ∀ c ∈ word, isBlank c = false := by
  obtain ⟨front, b, word, hcs, hb, hword, hwords⟩ := exists_lastBlank h
  obtain ⟨gap, hgap, hblank⟩ := exists_trimEnd front
  refine ⟨gap ++ [b], word, ?_, by simp, ?_, hword⟩
  · rw [hwords, trimEnd_concat_blank front hb, List.append_assoc, ← List.append_assoc, ← hgap, hcs]
    rfl
  · intro c hc
    rcases List.mem_append.mp hc with hc | hc
    · exact hblank c hc
    · rwa [List.mem_singleton.mp hc]

lemma exists_drop_eq_cons (hlong : 80 < line.length) : ∃ c rest, line.drop 77 = c :: rest := by
  refine List.exists_cons_of_ne_nil fun hnil => ?_
  have hlength := List.drop_eq_nil_iff.mp hnil
  omega

/-- What is kept of a long line depends on its first 78 characters: the one behind the 77 that
there is room for tells whether a word ends with them. -/
lemma keep_eq (hlong : 80 < line.length) : keep line =
    if (line.take 78).any isBlank then trimEnd (throughLastBlank (line.take 78))
    else line.take 77 := by
  obtain ⟨c, rest, hdrop⟩ := exists_drop_eq_cons hlong
  have hrest : (line.drop 77).head? = some c := by rw [hdrop, List.head?_cons]
  have hwindow : line.take 78 = line.take 77 ++ [c] := by
    rw [List.take_add_one, ← List.head?_drop, hrest]
    rfl
  have hlimit : limit - ellipsis.length = 77 := rfl
  rw [keep, hlimit, hrest, hwindow]
  cases hblank : isBlank c with
  | true =>
    have hwords : throughLastBlank (line.take 77 ++ [c]) = line.take 77 ++ [c] :=
      List.rdropWhile_concat_neg _ _ c (by simp [hblank])
    rw [if_pos (by simp [hblank]), if_pos (by simp [hblank]), hwords,
      trimEnd_concat_blank _ hblank]
  | false =>
    have hwords : throughLastBlank (line.take 77 ++ [c]) = throughLastBlank (line.take 77) :=
      List.rdropWhile_concat_pos _ _ c (by simp [hblank])
    by_cases hnone : ∀ d ∈ line.take 77, isBlank d = false
    · have hends : EndsInWord (line.take 77) := fun d hd => hnone d (List.mem_of_getLast? hd)
      have hnowhere : ((line.take 77 ++ [c]).any isBlank) = false := by
        rw [List.any_append, List.any_eq_false.mpr fun d hd => by simp [hnone d hd]]
        simp [hblank]
      rw [if_pos (by simp [throughLastBlank_eq_nil_iff.mpr hnone]), if_neg (by simp [hnowhere]),
        trimEnd_eq_self hends]
    · have hwords' : throughLastBlank (line.take 77) ≠ [] :=
        fun hnil => hnone (throughLastBlank_eq_nil_iff.mp hnil)
      obtain ⟨d, hd, hdb⟩ : ∃ d ∈ line.take 77, isBlank d = true := by simpa using hnone
      have hsome : ((line.take 77 ++ [c]).any isBlank) = true :=
        List.any_eq_true.mpr ⟨d, by simp [hd], hdb⟩
      rw [if_neg (by simp [hblank, hwords']), if_pos hsome, hwords]

/-- Where only the end of a word follows on some blanks, the last place to cut at is in front of
them: the blank behind a later one would be among them, and so would the character before it. -/
lemma IsBreak.length_le_of_gap {kept gap word other : List Char} (h : IsBreak line other)
    (hwindow : line.take 78 = kept ++ (gap ++ word)) (hgap : ∀ c ∈ gap, isBlank c = true)
    (hword : ∀ c ∈ word, isBlank c = false) : other.length ≤ kept.length := by
  obtain ⟨hother, hends, hle, c, rest, heq, hc⟩ := h
  have hpos := List.length_pos_iff.mpr hother
  by_contra hlt
  have hbehind : (kept ++ (gap ++ word))[other.length]? = some c := by
    rw [← hwindow, List.getElem?_take_of_lt (by omega), heq]
    simp
  have hbefore : (kept ++ (gap ++ word))[other.length - 1]? = some (other.getLast hother) := by
    rw [← hwindow, List.getElem?_take_of_lt (by omega), heq,
      List.getElem?_append_left (by omega), List.getLast_eq_getElem, List.getElem?_eq_getElem]
  rw [List.getElem?_append_right (by omega)] at hbehind hbefore
  have hinside : other.length - kept.length < gap.length := by
    by_contra hout
    rw [List.getElem?_append_right (by omega)] at hbehind
    rw [hword c (List.mem_of_getElem? hbehind)] at hc
    cases hc
  rw [List.getElem?_append_left (by omega)] at hbefore
  have hblank := hgap _ (List.mem_of_getElem? hbefore)
  rw [hends _ (List.getLast?_eq_getLast_of_ne_nil hother)] at hblank
  cases hblank

lemma isCut_of_gap {kept gap word : List Char} (htrimmed : IsTrimmed line)
    (hlong : 80 < line.length) (hwindow : line.take 78 = kept ++ (gap ++ word))
    (hends : EndsInWord kept) (hne : gap ≠ []) (hgap : ∀ c ∈ gap, isBlank c = true)
    (hword : ∀ c ∈ word, isBlank c = false) : IsCut line kept := by
  have hlength : kept.length + (gap.length + word.length) = 78 := by
    have h := congrArg List.length hwindow
    simp only [List.length_take, List.length_append] at h
    omega
  have hlast {other : List Char} (h : IsBreak line other) : other.length ≤ kept.length :=
    h.length_le_of_gap hwindow hgap hword
  obtain ⟨b, gap, rfl⟩ := List.exists_cons_of_ne_nil hne
  rw [List.length_cons] at hlength
  have hb := hgap b List.mem_cons_self
  have hline : line = kept ++ b :: (gap ++ word ++ line.drop 78) := by
    conv_lhs => rw [← List.take_append_drop 78 line, hwindow]
    simp
  have hnonempty : kept ≠ [] := by
    rintro rfl
    rw [htrimmed.starts b (by rw [hline]; rfl)] at hb
    cases hb
  have hbreak : IsBreak line kept := ⟨hnonempty, hends, by omega, b, _, hline, hb⟩
  refine ⟨hnonempty, ⟨_, hline.symm⟩, hends, hbreak.length_le, fun _ => ⟨hbreak, fun _ => hlast⟩,
    fun hnone => ?_⟩
  rw [hnone b (by simp [hwindow])] at hb
  cases hb

lemma isCut_keep (htrimmed : IsTrimmed line) (hlong : 80 < line.length) :
    IsCut line (keep line) := by
  rw [keep_eq hlong]
  split
  · next hblank =>
    obtain ⟨gap, word, hwindow, hne, hgap, hword⟩ := exists_gap (List.any_eq_true.mp hblank)
    exact isCut_of_gap htrimmed hlong hwindow (endsInWord_trimEnd _) hne hgap hword
  · next hnone =>
    rw [List.any_eq_true] at hnone
    have hsub : line.take 77 ⊆ line.take 78 := (List.take_prefix_take_left (by omega)).subset
    have hlength : (line.take 77).length = 77 := by
      rw [List.length_take]
      omega
    refine ⟨?_, List.take_prefix _ _, fun c hc => ?_, hlength.le, fun h => absurd h hnone,
      fun _ => rfl⟩
    · rw [← List.length_pos_iff, hlength]
      omega
    · have hmem := hsub (List.mem_of_getLast? hc)
      by_contra hblank
      exact hnone ⟨c, hmem, by simpa using hblank⟩

end Cut

section Bytes

/-- The characters of a text that starts at an offset, each with its own. -/
def charIndices (offset : ℕ) : List Char → List (ℕ × Char)
  | [] => []
  | c :: cs => (offset, c) :: charIndices (offset + c.utf8Size) cs

/-- What is kept of a long line, cut out of its bytes: at the offset of the first character that
there is no room for, or, if that is no blank, at the offset of the last blank before it. A
slice that starts or ends inside a character is none. -/
def keepBytes? (line : List Char) : Option (List Char) := do
  let cut := ((charIndices 0 line)[limit - ellipsis.length]?.map (·.1)).getD (size line)
  let head ← slice? line 0 cut
  let rest ← slice? line cut (size line)
  let lastBlank := ((charIndices 0 head).reverse.find? fun x => isBlank x.2).map (·.1)
  let stop :=
    if rest.head?.any isBlank then size head else (lastBlank.filter (0 < ·)).getD (size head)
  return trimEnd (← slice? head 0 stop)

/-- The summary of a text whose lines are cut by bytes. -/
def ofBytes? (text : List Char) : Option (List Char) :=
  let line := firstLine text
  if line.length ≤ limit then some line else (keepBytes? line).map (· ++ ellipsis)

lemma charIndices_append (offset : ℕ) (front back : List Char) :
    charIndices offset (front ++ back) =
      charIndices offset front ++ charIndices (offset + size front) back := by
  induction front generalizing offset with
  | nil => rfl
  | cons c front ih => simp [charIndices, ih, Nat.add_assoc]

lemma map_snd_charIndices (offset : ℕ) (cs : List Char) :
    (charIndices offset cs).map (·.2) = cs := by
  induction cs generalizing offset with
  | nil => rfl
  | cons c cs ih => rw [charIndices, List.map_cons, ih]

lemma length_charIndices (offset : ℕ) (cs : List Char) :
    (charIndices offset cs).length = cs.length := by
  rw [← List.length_map, map_snd_charIndices]

/-- The offset of a character is the size of the text in front of it. -/
lemma getElem?_charIndices (front : List Char) (c : Char) (back : List Char) :
    (charIndices 0 (front ++ c :: back))[front.length]? = some (size front, c) := by
  rw [charIndices_append, List.getElem?_append_right (length_charIndices 0 front).le,
    length_charIndices, Nat.sub_self, charIndices, Nat.zero_add]
  rfl

lemma find?_charIndices_of_word (offset : ℕ) {word : List Char}
    (hword : ∀ c ∈ word, isBlank c = false) :
    ((charIndices offset word).reverse.find? fun x => isBlank x.2) = none := by
  rw [List.find?_eq_none]
  intro x hx
  have hmem : x.2 ∈ (charIndices offset word).map (·.2) :=
    List.mem_map_of_mem (List.mem_reverse.mp hx)
  rw [map_snd_charIndices] at hmem
  simp [hword _ hmem]

lemma find?_charIndices (front : List Char) {b : Char} (hb : isBlank b = true) {word : List Char}
    (hword : ∀ c ∈ word, isBlank c = false) :
    ((charIndices 0 (front ++ b :: word)).reverse.find? fun x => isBlank x.2) =
      some (size front, b) := by
  rw [charIndices_append, List.reverse_append, List.find?_append, charIndices, List.reverse_cons,
    List.find?_append, find?_charIndices_of_word _ hword, Nat.zero_add]
  simp [hb]

lemma slice?_front (front back : List Char) :
    slice? (front ++ back) 0 (size front) = some front :=
  slice?_append [] front back

lemma slice?_back (front back : List Char) :
    slice? (front ++ back) (size front) (size (front ++ back)) = some back := by
  have h := slice?_append front back []
  rwa [List.append_nil] at h

/-- The bytes of a long line are cut between characters, and as its characters are. -/
lemma keepBytes?_eq (htrimmed : IsTrimmed line) (hlong : 80 < line.length) :
    keepBytes? line = some (keep line) := by
  obtain ⟨head, c, rest, rfl, hhead⟩ : ∃ head c rest, line = head ++ c :: rest ∧
      head.length = 77 := by
    obtain ⟨c, rest, hdrop⟩ := exists_drop_eq_cons hlong
    refine ⟨line.take 77, c, rest, ?_, ?_⟩
    · rw [← hdrop, List.take_append_drop]
    · rw [List.length_take]
      omega
  have htake : (head ++ c :: rest).take 77 = head := by rw [← hhead, List.take_left]
  have hdrop : (head ++ c :: rest).drop 77 = c :: rest := by rw [← hhead, List.drop_left]
  have hcut := getElem?_charIndices head c rest
  rw [hhead] at hcut
  have hlimit : limit - ellipsis.length = 77 := rfl
  simp only [keepBytes?, keep, hlimit, hcut, htake, hdrop, Option.map_some, Option.getD_some,
    slice?_front, slice?_back, Option.bind_eq_bind, Option.bind_some, List.head?_cons,
    Option.any_some]
  have hwhole : slice? head 0 (size head) = some head := by
    simpa using slice?_front head []
  by_cases hblank : isBlank c = true
  · simp [hblank, hwhole]
  by_cases hnone : ∀ d ∈ head, isBlank d = false
  · simp [hblank, find?_charIndices_of_word 0 hnone, throughLastBlank_eq_nil_iff.mpr hnone, hwhole]
  · obtain ⟨front, b, word, rfl, hb, hword, hwords⟩ := exists_lastBlank (by simpa using hnone)
    -- the first character is not blank, so there is something in front of the last blank
    have hpos : 0 < size front := by
      cases front with
      | nil =>
        rw [htrimmed.starts b rfl] at hb
        cases hb
      | cons d front => exact Nat.add_pos_left d.utf8Size_pos _
    have hstop : Option.filter (fun x => decide (0 < x)) (some (size front)) = some (size front) :=
      Option.filter_some_pos (by simpa using hpos)
    simp only [hblank, Bool.false_eq_true, if_false, find?_charIndices front hb hword,
      Option.map_some, hstop, Option.getD_some, slice?_front, Option.bind_some, hwords]
    simp [trimEnd_concat_blank _ hb]

/-- Cutting bytes gives the summary, so no slice starts or ends inside a character. -/
lemma ofBytes?_eq (text : List Char) : ofBytes? text = some (ofChars text) := by
  unfold ofBytes? ofChars
  dsimp only
  split
  · rfl
  · next hlong =>
    rw [keepBytes?_eq (isFirstLine_firstLine text).isTrimmed (not_le.mp hlong)]
    rfl

end Bytes

lemma ofChars_of_isTrimmed (htrimmed : IsTrimmed line) (hline : '\n' ∉ line)
    (hshort : line.length ≤ 80) : ofChars line = line := by
  have hfirst : firstLine line = line := by
    rw [firstLine, lines_of_not_mem hline]
    cases line with
    | nil => rfl
    | cons c cs => simp [trim_eq_self htrimmed]
  rw [ofChars, hfirst]
  exact if_pos hshort

lemma toList_of_short {text : String} (hshort : (firstLine text.toList).length ≤ 80) :
    (summarize text).toList = firstLine text.toList := by
  rw [summarize, String.toList_ofList, ofChars]
  exact if_pos hshort

lemma toList_of_long {text : String} (hlong : 80 < (firstLine text.toList).length) :
    (summarize text).toList = keep (firstLine text.toList) ++ ['.', '.', '.'] := by
  rw [summarize, String.toList_ofList, ofChars]
  exact if_neg (not_le.mpr hlong)

lemma isTrimmed_summarize (text : String) : IsTrimmed (summarize text).toList := by
  have htrimmed := (isFirstLine_firstLine text.toList).isTrimmed
  rcases le_or_gt (firstLine text.toList).length 80 with hshort | hlong
  · rwa [toList_of_short hshort]
  · have hcut := isCut_keep htrimmed hlong
    obtain ⟨c, kept, hkept⟩ := List.exists_cons_of_ne_nil hcut.nonempty
    obtain ⟨rest, hrest⟩ := hcut.isPrefix
    have hstarts := htrimmed.starts
    rw [← hrest, hkept] at hstarts
    rw [toList_of_long hlong, hkept]
    refine ⟨hstarts, fun d hd => ?_⟩
    rw [List.getLast?_append_of_ne_nil _ (by simp)] at hd
    obtain rfl : '.' = d := by simpa using hd
    decide

lemma length_summarize_le (text : String) : (summarize text).toList.length ≤ 80 := by
  have htrimmed := (isFirstLine_firstLine text.toList).isTrimmed
  rcases le_or_gt (firstLine text.toList).length 80 with hshort | hlong
  · rwa [toList_of_short hshort]
  · have hkept := (isCut_keep htrimmed hlong).length_le
    rw [toList_of_long hlong, List.length_append]
    simp only [List.length_cons, List.length_nil]
    omega

/-- A summary has at most 80 characters and no newline. It is the first line that is not blank,
trimmed, if that is not longer; otherwise it is what is kept of that line, and the ellipsis. The
same comes of cutting the bytes of the line, which never cuts a character, and a summary is its
own summary. -/
theorem summary_is_well_cut (text : String) : ∃ line, IsFirstLine text.toList line ∧
    (summarize text).toList.length ≤ 80 ∧ IsLine (summarize text) ∧
    (line.length ≤ 80 → (summarize text).toList = line) ∧
    (80 < line.length → ∃ kept, (summarize text).toList = kept ++ ['.', '.', '.'] ∧
      IsCut line kept) ∧
    ofBytes? text.toList = some (summarize text).toList ∧
    summarize (summarize text) = summarize text := by
  have hfirst := isFirstLine_firstLine text.toList
  have hbytes : ofBytes? text.toList = some (summarize text).toList := by
    rw [ofBytes?_eq, summarize, String.toList_ofList]
  have hself : ofChars (summarize text).toList = (summarize text).toList :=
    ofChars_of_isTrimmed (isTrimmed_summarize text) (isLine_summarize text)
      (length_summarize_le text)
  refine ⟨_, hfirst, length_summarize_le text, isLine_summarize text, toList_of_short,
    fun hlong => ⟨_, toList_of_long hlong, isCut_keep hfirst.isTrimmed hlong⟩, hbytes, ?_⟩
  rw [summarize, hself, String.ofList_toList]

end Summary

end CodeSearch
