import CodeSearch.Proofs.KeptWrites

/-!
# Appended records

What is appended to a log lists the records: each of them has a line of its own, which is not
blank and is read as the record, and every line ends in a newline. Replaying looks at the lines
alone, so any text that lists some records is replayed to what they make. If the log was empty or
ended in a newline, the new lines do not touch the old ones.
-/
namespace CodeSearch

namespace Text

/-- Nothing stands behind the last newline. -/
def EndsLine (cs : List Char) : Prop :=
  cs = [] ∨ cs.getLast? = some '\n'

lemma EndsLine.lines_append {cs : List Char} (h : EndsLine cs) (more : List Char) :
    lines (cs ++ more) = lines cs ++ lines more := by
  rcases h with rfl | hlast
  · rfl
  · obtain ⟨front, rfl⟩ := List.getLast?_eq_some_iff.mp hlast
    rw [List.append_assoc, List.singleton_append]
    exact linesFrom_newline [] front more

end Text

variable {records : List Record}

namespace Record

/-- A text has one line for each record, in the order of the records, and every line ends in a
newline. -/
structure AreListed (records : List Record) (text : List Char) : Prop where
  lines : List.Forall₂ IsLine records (Text.lines text)
  newlines : text.count '\n' = records.length

lemma count_newline_lines (records : List Record) :
    (records.flatMap line).count '\n' = records.length := by
  have hone (r : Record) : r.line.count '\n' = 1 := by
    rw [line, List.count_append, List.count_eq_zero_of_not_mem r.newline_not_mem_print]
    rfl
  induction records with
  | nil => rfl
  | cons r records ih =>
    rw [List.flatMap_cons, List.count_append, hone, ih, List.length_cons, Nat.add_comm]

theorem areListed_lines (hrecords : ∀ r ∈ records, r.IsFinite) :
    AreListed records (records.flatMap line) where
  lines := by
    have hlines : Text.lines (records.flatMap line) = records.map print :=
      lines_flatMap_print records
    rw [hlines]
    exact forall₂_isLine_print hrecords
  newlines := count_newline_lines records

end Record

/-- Behind whole lines, a text that lists records is replayed to what the records make of the
replay so far. -/
theorem Replay.ofText_append_listed {text added : List Char} (hend : Text.EndsLine text)
    (hadded : Record.AreListed records added) :
    ofText (text ++ added) = (ofText text).follow records := by
  rw [ofText, hend.lines_append, List.foldl_append]
  exact foldl_step_of_isLine hadded.lines _

namespace Log

/-- Records are appended to a log that is empty or ends in a newline. What is written lists them,
and the log replays as it did before, with the records then applied in their order and each of
them counted. -/
theorem appended_lines_read_as_records {l : Log} {text : String}
    (htext : l.file.bytes = text.toUTF8) (hend : Text.EndsLine text.toList)
    (hrecords : ∀ r ∈ records, r.IsFinite) :
    ∃ written : String, (l.append records).file.bytes = l.file.bytes ++ written.toUTF8 ∧
      Record.AreListed records written.toList ∧
      ∃ before after, Replay.ofBytes l.file.bytes = .ok before ∧
        Replay.ofBytes (l.append records).file.bytes = .ok after ∧
        after.documents = records.foldl Record.apply before.documents ∧
        after.records = before.records + records.length ∧
        after.malformed = before.malformed := by
  have hlisted := Record.areListed_lines hrecords
  have hbefore : Replay.ofBytes l.file.bytes = .ok (.ofText text.toList) := by
    rw [htext, Replay.ofBytes_toUTF8]
  have hafter : Replay.ofBytes (l.append records).file.bytes =
      .ok ((Replay.ofText text.toList).follow records) := by
    rw [← Replay.ofText_append_listed hend hlisted]
    exact ofBytes_append htext records
  refine ⟨.ofList (records.flatMap Record.line), rfl, ?_, _, _, hbefore, hafter, rfl, rfl, rfl⟩
  rwa [String.toList_ofList]

/-- A log with a line that holds no record and a blank one. -/
def idleLog : Log :=
  ⟨{ bytes := "?\n\n".toUTF8 }, 0⟩

/-- Records of texts that cannot stand on a line as they are - line ends, quotes, backslashes,
control characters - or take several bytes, and of numbers with a sign or an exponent. -/
def oddRecords : List Record :=
  [.put ⟨⟨"a\r\n", "\"\\\x00\u2028é", .ofList [("\t", "\n")]⟩, [.negativeZero, ⟨1⟩]⟩,
    .delete "\\n\x7f"]

/-- Such records are read back behind such lines. -/
theorem odd_lines_read_as_records :
    idleLog.file.bytes = "?\n\n".toUTF8 ∧ Text.EndsLine "?\n\n".toList ∧
    (∀ r ∈ oddRecords, r.IsFinite) ∧
    ∃ written : String,
      (idleLog.append oddRecords).file.bytes = idleLog.file.bytes ++ written.toUTF8 ∧
      Record.AreListed oddRecords written.toList ∧
      ∃ before after, Replay.ofBytes idleLog.file.bytes = .ok before ∧
        Replay.ofBytes (idleLog.append oddRecords).file.bytes = .ok after ∧
        before.malformed = 1 ∧ after.documents.names = ["a\r\n"] ∧ after.records = 2 ∧
        after.malformed = 1 := by
  have hend : Text.EndsLine "?\n\n".toList := .inr rfl
  have hfinite : ∀ r ∈ oddRecords, r.IsFinite := by
    simp only [oddRecords, List.forall_mem_cons, List.not_mem_nil, false_implies, implies_true,
      and_true, Record.IsFinite, Embedding.IsFinite]
    decide
  obtain ⟨written, hbytes, hlisted, before, after, hbefore, hafter, hdocuments, hcount,
    hmalformed⟩ := appended_lines_read_as_records (l := idleLog) rfl hend hfinite
  obtain rfl := Except.ok.inj ((Replay.ofBytes_toUTF8 "?\n\n").symm.trans hbefore)
  have hone : (Replay.ofText "?\n\n".toList).malformed = 1 := by decide +kernel
  refine ⟨rfl, hend, hfinite, written, hbytes, hlisted, _, after, hbefore, hafter, hone, ?_, ?_, ?_⟩
  · rw [hdocuments]
    decide +kernel
  · rw [hcount]
    decide +kernel
  · rw [hmalformed, hone]

end Log

end CodeSearch
