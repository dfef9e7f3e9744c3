import CodeSearch.Proofs.LogReplay
import CodeSearch.Proofs.ReadPrefixes
import Mathlib.Data.List.DropRight

/-!
# How a log ends

Records that are appended join whatever stands behind the last newline of a log. They are
replayed as they are if that is nothing but gaps. A log that ends so keeps in step with the
collection in memory, whoever has written it.
-/
namespace CodeSearch

namespace Text

/-- What stands behind the last newline. -/
def unfinished (cs : List Char) : List Char :=
  cs.rtakeWhile (· != '\n')

/-- All up to the last newline. -/
def finished (cs : List Char) : List Char :=
  cs.rdropWhile (· != '\n')

/-- Gaps in front of something on a line. -/
def IsIndent (cs : List Char) : Prop :=
  ∀ c ∈ cs, c ≠ '\n' ∧ Json.Reader.isGap c = true

/-- A text whose last line may be gone on with. -/
def IsSettled (cs : List Char) : Prop :=
  IsIndent (unfinished cs)

lemma IsIndent.newline_not_mem {cs : List Char} (h : IsIndent cs) : '\n' ∉ cs :=
  fun hmem => (h _ hmem).1 rfl

lemma IsIndent.isGap {cs : List Char} (h : IsIndent cs) : ∀ c ∈ cs, Json.Reader.isGap c = true :=
  fun c hc => (h c hc).2

lemma isIndent_nil : IsIndent [] := by
  simp [IsIndent]

lemma finished_append_unfinished (cs : List Char) : finished cs ++ unfinished cs = cs :=
  List.rdropWhile_append_rtakeWhile

lemma newline_not_mem_unfinished (cs : List Char) : '\n' ∉ unfinished cs := by
  intro h
  simpa using List.mem_rtakeWhile_imp h

lemma finished_cases (cs : List Char) : finished cs = [] ∨ ∃ a, finished cs = a ++ ['\n'] := by
  by_cases hne : finished cs = []
  · exact .inl hne
  · right
    have hlast := List.rdropWhile_last_not _ _ hne
    refine ⟨(finished cs).dropLast, ?_⟩
    have hnewline : (finished cs).getLast hne = '\n' := by
      change (cs.rdropWhile (· != '\n')).getLast hne = '\n'
      simpa using hlast
    rw [← hnewline, List.dropLast_append_getLast]

lemma linesFrom_newline (before a b : List Char) :
    linesFrom before (a ++ '\n' :: b) = linesFrom before (a ++ ['\n']) ++ lines b := by
  induction a generalizing before with
  | nil => simp [linesFrom, lines]
  | cons c a ih =>
    rw [List.cons_append, List.cons_append, linesFrom, linesFrom]
    split
    · rw [ih, List.cons_append]
    · exact ih _

lemma lines_append (cs more : List Char) :
    lines (cs ++ more) = lines (finished cs) ++ lines (unfinished cs ++ more) := by
  conv_lhs => rw [← finished_append_unfinished cs, List.append_assoc]
  rcases finished_cases cs with hnil | ⟨a, ha⟩
  · rw [hnil]
    rfl
  · rw [ha, List.append_assoc, List.singleton_append]
    exact linesFrom_newline [] a _

lemma lines_of_not_mem {line : List Char} (h : '\n' ∉ line) :
    lines line = if line = [] then [] else [line] := by
  have hfrom (before : List Char) : linesFrom before line =
      if before.reverse ++ line = [] then [] else [before.reverse ++ line] := by
    induction line generalizing before with
    | nil => simp [linesFrom]
    | cons c line ih =>
      rw [List.mem_cons, not_or] at h
      rw [linesFrom, if_neg (Ne.symm h.1), ih h.2]
      simp
  exact hfrom []

end Text

namespace Record

def line (r : Record) : List Char :=
  r.print ++ ['\n']

lemma apply_keyed {c : Catalog StoredDocument} (hc : c.Keyed) (r : Record) : (r.apply c).Keyed := by
  intro id d h
  cases r with
  | put d' =>
    rw [apply, Catalog.get?_insert] at h
    split at h
    · next hid =>
      obtain rfl := Option.some.inj h
      exact hid.symm
    · exact hc id d h
  | delete id' =>
    rw [apply, Catalog.get?_erase] at h
    split at h
    · cases h
    · exact hc id d h

end Record

lemma Text.IsSettled.append_lines {text : List Char} (h : Text.IsSettled text)
    (records : List Record) : Text.IsSettled (text ++ records.flatMap Record.line) := by
  rcases records.eq_nil_or_concat with rfl | ⟨before, r, rfl⟩
  · simpa using h
  · have hend : text ++ (before ++ [r]).flatMap Record.line =
        text ++ before.flatMap Record.line ++ r.print ++ ['\n'] := by
      simp [Record.line]
    have hnil : Text.unfinished (text ++ (before ++ [r]).flatMap Record.line) = [] := by
      rw [hend]
      exact List.rtakeWhile_concat_neg _ _ _ (by simp)
    rw [Text.IsSettled, List.concat_eq_append, hnil]
    exact Text.isIndent_nil

namespace Replay

variable {s : Replay} {gaps : List Char} {records : List Record}

def follow (s : Replay) (records : List Record) : Replay :=
  { s with
    documents := records.foldl Record.apply s.documents
    records := s.records + records.length }

lemma step_cases (s : Replay) (line : List Char) :
    (Text.allBlank line = true ∧ s.step line = s) ∨
      (∃ r, Record.parse? line = some r ∧ s.step line = s.follow [r]) ∨
      s.step line = { s with malformed := s.malformed + 1 } := by
  unfold step
  split
  · next hblank => exact .inl ⟨hblank, rfl⟩
  split
  · next r hparse => exact .inr (.inl ⟨r, hparse, rfl⟩)
  · exact .inr (.inr rfl)

def takeIn (s : Replay) (text : List Char) : Replay :=
  (Text.lines text).foldl step s

lemma ofText_append (cs more : List Char) :
    ofText (cs ++ more) = (ofText (Text.finished cs)).takeIn (Text.unfinished cs ++ more) := by
  rw [ofText, Text.lines_append, List.foldl_append]
  rfl

lemma allBlank_of_isGap {cs : List Char} (h : ∀ c ∈ cs, Json.Reader.isGap c = true) :
    Text.allBlank cs = true := by
  have hblank : ∀ c, Json.Reader.isGap c = true → Text.isBlank c = true := by
    intro c hc
    simp only [Json.Reader.isGap, Bool.or_eq_true, beq_iff_eq] at hc
    rcases hc with ((rfl | rfl) | rfl) | rfl <;> decide
  rw [Text.allBlank, List.all_eq_true]
  exact fun c hc => hblank c (h c hc)

lemma takeIn_line {line : List Char} (h : '\n' ∉ line) : s.takeIn line = s.step line := by
  rw [takeIn, Text.lines_of_not_mem h]
  split
  · next hnil =>
    subst hnil
    rfl
  · rfl

lemma takeIn_indent (hgaps : Text.IsIndent gaps) : s.takeIn gaps = s := by
  rw [takeIn_line hgaps.newline_not_mem, step, if_pos (allBlank_of_isGap hgaps.isGap)]

lemma step_indent_print (s : Replay) (hgaps : Text.IsIndent gaps) {r : Record} (hr : r.IsFinite) :
    s.step (gaps ++ r.print) = s.follow [r] := by
  exact step_of_isLine s ⟨r.allBlank_append_print gaps, Record.parse?_gaps_print hr hgaps.isGap⟩

/-- A record that is appended to an unfinished line is the end of that line. -/
lemma lines_append_line {before : List Char} (hbefore : '\n' ∉ before) (r : Record)
    (rest : List Char) :
    Text.lines (before ++ (r.line ++ rest)) = (before ++ r.print) :: Text.lines rest := by
  have hline : '\n' ∉ before ++ r.print := by
    rw [List.mem_append, not_or]
    exact ⟨hbefore, r.newline_not_mem_print⟩
  have hfirst := Text.linesFrom_append hline [] rest
  rw [List.reverse_nil, List.nil_append, r.dropReturn_append_print, List.append_assoc] at hfirst
  rw [Record.line, List.append_assoc, List.singleton_append]
  exact hfirst

lemma takeIn_line_append (hgaps : Text.IsIndent gaps) {r : Record} (hr : r.IsFinite)
    (rest : List Char) : s.takeIn (gaps ++ (r.line ++ rest)) = (s.follow [r]).takeIn rest := by
  rw [takeIn, lines_append_line hgaps.newline_not_mem, List.foldl_cons,
    step_indent_print s hgaps hr]
  rfl

/-- Whole lines of records, and then some text. Gaps in front stay where no line follows. -/
theorem takeIn_lines (hgaps : Text.IsIndent gaps) (hrecords : ∀ r ∈ records, r.IsFinite)
    (rest : List Char) : s.takeIn (gaps ++ (records.flatMap Record.line ++ rest)) =
      (s.follow records).takeIn ((if records = [] then gaps else []) ++ rest) := by
  induction records generalizing s gaps with
  | nil => rfl
  | cons r records ih =>
    rw [List.forall_mem_cons] at hrecords
    rw [List.flatMap_cons, List.append_assoc, takeIn_line_append hgaps hrecords.1,
      ← List.nil_append (records.flatMap Record.line ++ rest), ih Text.isIndent_nil hrecords.2]
    simp [follow, Nat.add_assoc, Nat.add_comm 1]

variable {text : List Char}

lemma ofText_finished (h : Text.IsSettled text) : ofText (Text.finished text) = ofText text := by
  have hsplit := ofText_append text []
  rw [List.append_nil, List.append_nil, takeIn_indent h] at hsplit
  exact hsplit.symm

lemma takeIn_flatMap_line (hrecords : ∀ r ∈ records, r.IsFinite) :
    s.takeIn (records.flatMap Record.line) = s.follow records := by
  have hlines := takeIn_lines (s := s) Text.isIndent_nil hrecords []
  rw [List.append_nil, List.nil_append, List.append_nil, ite_self] at hlines
  exact hlines

theorem ofText_append_lines (h : Text.IsSettled text) (hrecords : ∀ r ∈ records, r.IsFinite) :
    ofText (text ++ records.flatMap Record.line) = (ofText text).follow records := by
  have hlines := takeIn_lines (s := ofText text) h hrecords []
  rw [List.append_nil, List.append_nil] at hlines
  rw [ofText_append, ofText_finished h, hlines]
  apply takeIn_indent
  split
  · exact h
  · exact Text.isIndent_nil

/-- A record that is appended to a record, or to blanks that are no gaps, cannot be read. -/
lemma parse?_joined {before : List Char} (hbefore : ∃ c ∈ before, Json.Reader.isGap c = false)
    (hread : Text.allBlank before = true ∨ ∃ r, Record.parse? before = some r) (r : Record) :
    Record.parse? (before ++ r.print) = none := by
  rcases hread with hblank | ⟨r', hparse⟩
  · by_contra hsome
    obtain ⟨r', hparse⟩ := Option.ne_none_iff_exists'.mp hsome
    obtain ⟨rest, hbrace⟩ := Record.exists_skip_of_parse? hparse
    cases hskip : Json.Reader.skip before with
    | nil =>
      obtain ⟨c, hc, hgap⟩ := hbefore
      have hgaps := List.dropWhile_eq_nil_iff.mp hskip c hc
      rw [hgap] at hgaps
      cases hgaps
    | cons c inner =>
      rw [Json.Reader.skip_append hskip] at hbrace
      obtain ⟨rfl, -⟩ := List.cons.inj hbrace
      have hmem : '{' ∈ before := by
        have hinner : '{' ∈ Json.Reader.skip before := by
          rw [hskip]
          exact List.mem_cons_self
        exact (List.dropWhile_sublist _).subset hinner
      exact absurd (List.all_eq_true.mp hblank '{' hmem) (by decide)
  · apply Record.parse?_append_eq_none hparse
    obtain ⟨inner, hprint⟩ := r.exists_print
    rw [hprint, Json.skip_cons (by decide)]
    exact List.cons_ne_nil _ _

/-- A text whose last line is unfinished, but has been read, loses it together with the first
record that is appended. -/
theorem ofText_append_joined (hsettled : ¬Text.IsSettled text) (hread : (ofText text).malformed = 0)
    {r : Record} (hrecords : ∀ r ∈ records, r.IsFinite) :
    ofText (text ++ (r :: records).flatMap Record.line) =
      { (ofText (Text.finished text)).follow records with malformed := 1 } := by
  set before := Text.unfinished text
  have hnewline : '\n' ∉ before := Text.newline_not_mem_unfinished text
  have hlast := ofText_append text []
  rw [List.append_nil, List.append_nil, takeIn_line hnewline] at hlast
  have hgap : ∃ c ∈ before, Json.Reader.isGap c = false := by
    by_contra hnone
    push Not at hnone
    apply hsettled
    intro c hc
    refine ⟨?_, by simpa using hnone c hc⟩
    rintro rfl
    exact hnewline hc
  obtain ⟨hbefore, hnone⟩ : (Text.allBlank before = true ∨ ∃ r, Record.parse? before = some r) ∧
      (ofText (Text.finished text)).malformed = 0 := by
    rw [hlast] at hread
    rcases (ofText (Text.finished text)).step_cases before with ⟨hblank, hstep⟩ |
      ⟨r, hparse, hstep⟩ | hstep
    · exact ⟨.inl hblank, by rwa [hstep] at hread⟩
    · exact ⟨.inr ⟨r, hparse⟩, by rwa [hstep] at hread⟩
    · rw [hstep] at hread
      cases hread
  have hstep : (ofText (Text.finished text)).step (before ++ r.print) =
      { ofText (Text.finished text) with malformed := 1 } := by
    simp [step, r.allBlank_append_print, parse?_joined hgap hbefore, hnone]
  rw [ofText_append, List.flatMap_cons, takeIn, lines_append_line hnewline, List.foldl_cons, hstep]
  exact takeIn_flatMap_line hrecords

lemma keyed_step (hs : s.documents.Keyed) (line : List Char) : (s.step line).documents.Keyed := by
  rcases s.step_cases line with ⟨-, hstep⟩ | ⟨r, -, hstep⟩ | hstep
  · rwa [hstep]
  · rw [hstep]
    exact Record.apply_keyed hs r
  · rw [hstep]
    exact hs

lemma keyed_ofText (text : List Char) : (ofText text).documents.Keyed := by
  have hfoldl (lines : List (List Char)) {s : Replay} (hs : s.documents.Keyed) :
      (lines.foldl step s).documents.Keyed := by
    induction lines generalizing s with
    | nil => exact hs
    | cons line lines ih => exact ih (keyed_step hs line)
  exact hfoldl _ fun id d hd => by cases hd

end Replay

namespace Log

variable {l l' : Log} {documents : Catalog StoredDocument} {records : List Record}

/-- A log keeps in step with a collection: it replays to it without a malformed line, and may
be gone on with. -/
def Tracks (l : Log) (documents : Catalog StoredDocument) : Prop :=
  ∃ text : String, l.file.bytes = text.toUTF8 ∧ Text.IsSettled text.toList ∧
    Replay.ofText text.toList = ⟨documents, l.records, 0⟩ ∧ documents.Sound

lemma toUTF8_append_encode (text : String) (records : List Record) :
    text.toUTF8 ++ encode records =
      (text ++ String.ofList (records.flatMap Record.line)).toUTF8 := by
  simp only [encode, String.toUTF8_eq_toByteArray, String.toByteArray_append]
  rfl

lemma Describes.tracks (h : l.Describes documents) : l.Tracks documents := by
  have hsound := h.sound
  obtain ⟨records, hbytes, hcount, hfinite, rfl⟩ := h
  have hempty : Text.IsSettled [] := Text.isIndent_nil
  refine ⟨String.ofList (records.flatMap Record.line), hbytes, ?_, ?_, hsound⟩
  · rw [String.toList_ofList]
    exact hempty.append_lines records
  · rw [String.toList_ofList, ← List.nil_append (records.flatMap Record.line),
      Replay.ofText_append_lines hempty hfinite, hcount, Replay.follow]
    simp [Replay.ofText, Text.lines, Text.linesFrom]

namespace Tracks

lemma sound (h : l.Tracks documents) : documents.Sound := by
  obtain ⟨-, -, -, -, hsound⟩ := h
  exact hsound

theorem replay (h : l.Tracks documents) :
    Replay.ofBytes l.file.bytes = .ok ⟨documents, l.records, 0⟩ := by
  obtain ⟨text, hbytes, -, htext, -⟩ := h
  rw [hbytes, Replay.ofBytes_toUTF8, htext]

theorem append (h : l.Tracks documents) (hrecords : ∀ r ∈ records, r.IsFinite) :
    (l.append records).Tracks (records.foldl Record.apply documents) := by
  obtain ⟨text, hbytes, hsettled, htext, hsound⟩ := h
  refine ⟨text ++ String.ofList (records.flatMap Record.line), ?_, ?_, ?_,
    Record.foldl_apply_sound hrecords hsound⟩
  · rw [Log.append, hbytes, toUTF8_append_encode]
  · rw [String.toList_append, String.toList_ofList]
    exact hsettled.append_lines records
  · rw [String.toList_append, String.toList_ofList,
      Replay.ofText_append_lines hsettled hrecords, htext]
    rfl

theorem renew (h : l.Tracks documents) (hl : l.renew documents = .ok l') : l'.Tracks documents :=
  (describes_renew h.sound hl).tracks

theorem tidy (h : l.Tracks documents) : (l.tidy documents).Tracks documents := by
  unfold Log.tidy
  split
  · split
    · next heq => exact h.renew heq
    · exact h
  · exact h

end Tracks

end Log

end CodeSearch
