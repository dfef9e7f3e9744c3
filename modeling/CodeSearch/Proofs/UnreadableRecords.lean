import CodeSearch.Proofs.LogTails

/-!
# Records that cannot be read back

A number that is not finite is written as `null`, which no embedding may hold. So the line of a
document with such a number is passed over when the log is replayed, and everything else on the
log is replayed as if the line were not there.
-/
namespace CodeSearch

open Json Json.Reader Json.Writer

lemma Json.reads_null (depth : ℕ) : Reads depth "null".toList .null := by
  refine ⟨⟨'n', ['u', 'l', 'l'], by decide, by decide, by decide⟩, fun fuel rest hfuel _ => ?_⟩
  have htext : "null".toList ++ rest = 'n' :: 'u' :: 'l' :: 'l' :: rest := rfl
  obtain ⟨fuel, rfl⟩ : ∃ f, fuel = f + 1 := Nat.exists_eq_succ_of_ne_zero (by
    rintro rfl
    exact absurd hfuel (by decide))
  rw [htext, value?, skip_cons (by decide)]
  simp [word?]

namespace Record

instance : DecidablePred IsFinite
  | put d => inferInstanceAs (Decidable (∀ a ∈ d.embedding, a.isFinite = true))
  | delete _ => inferInstanceAs (Decidable True)

/-- The value that a document is written as, with these values for its embedding. -/
def jsonWith (d : StoredDocument) (items : List Json) : Json :=
  .object [("id", .string d.id), ("content", .string d.content),
    ("metadata", .object (d.metadata.entries.map fun e => (e.1, .string e.2))),
    ("embedding", .array items)]

/-- The numbers of an embedding are read as values, and among them is no number exactly where
one is not finite. -/
lemma exists_items (depth : ℕ) (x : Embedding) : ∃ items : List Json,
    List.Forall₂ (Reads depth) (x.map ofSingle) items ∧ (¬x.IsFinite → .null ∈ items) := by
  induction x with
  | nil => exact ⟨[], .nil, fun h => absurd (List.forall_mem_nil _) h⟩
  | cons a x ih =>
    obtain ⟨items, hall, hnull⟩ := ih
    cases ha : a.isFinite with
    | true =>
      obtain ⟨d, -, hread⟩ := exists_reads_ofSingle depth ha
      refine ⟨.number d :: items, .cons hread hall, fun h => ?_⟩
      exact List.mem_cons_of_mem _ (hnull fun hx => h (List.forall_mem_cons.mpr ⟨ha, hx⟩))
    | false =>
      have htext : ofSingle a = "null".toList := if_neg (by simp [ha])
      exact ⟨.null :: items, .cons (htext ▸ reads_null depth) hall, fun _ => List.mem_cons_self⟩

lemma embedding?_of_null_mem {items : List Json} (h : .null ∈ items) :
    embedding? (.array items) = none := by
  rw [embedding?]
  induction items with
  | nil => cases h
  | cons item items ih =>
    rw [List.mapM_cons]
    rcases List.mem_cons.mp h with rfl | hmem
    · rfl
    · rw [ih hmem]
      cases item <;> rfl

lemma document?_jsonWith {d : StoredDocument} {items : List Json} (h : .null ∈ items) :
    document? (jsonWith d items) = none := by
  simp [document?, jsonWith, only?, Json.string?, metadata?_entries, embedding?_of_null_mem h]

/-- A document with a number that is not finite cannot be read back. -/
theorem parse?_gaps_print_eq_none {r : Record} (hr : ¬r.IsFinite) {gaps : List Char}
    (hgaps : ∀ c ∈ gaps, isGap c = true) : parse? (gaps ++ r.print) = none := by
  cases r with
  | delete id => exact absurd trivial hr
  | put d =>
    obtain ⟨items, hall, hnull⟩ := exists_items 124 d.embedding
    have hdocument : Reads 126 (ofDocument d) (jsonWith d items) :=
      reads_ofMembers (.cons ⟨rfl, reads_ofString _ d.id⟩
        (.cons ⟨rfl, reads_ofString _ d.content⟩ (.cons ⟨rfl, reads_metadata 124 _⟩
          (.cons ⟨rfl, reads_ofItems hall⟩ .nil))))
    have hline : Reads depthLimit (print (.put d)) (.object [("put", jsonWith d items)]) :=
      reads_ofMembers (.cons ⟨rfl, hdocument⟩ .nil)
    have hvalue := value?_gaps_of_reads hline hgaps
      (show (print (.put d)).length ≤ 2 * (gaps ++ print (.put d)).length + 2 by
        rw [List.length_append]; omega)
    rw [parse?, Reader.parse?, hvalue]
    change ofJson? (.object [("put", jsonWith d items)]) = none
    rw [ofJson?, if_pos rfl, document?_jsonWith (hnull hr), Option.map_none]

end Record

namespace Replay

variable {s : Replay} {gaps text : List Char}

/-- What some more records make of a replay that can read only those that are finite. -/
def pass (s : Replay) (records : List Record) : Replay where
  documents := (records.filter fun r => r.IsFinite).foldl Record.apply s.documents
  records := s.records + (records.filter fun r => r.IsFinite).length
  malformed := s.malformed + (records.filter fun r => ¬r.IsFinite).length

lemma pass_cons (s : Replay) (r : Record) (records : List Record) :
    s.pass (r :: records) = (s.pass [r]).pass records := by
  by_cases hr : r.IsFinite <;> simp [pass, hr, Nat.add_assoc, Nat.add_comm 1]

lemma step_gaps_print (s : Replay) (hgaps : Text.IsIndent gaps) (r : Record) :
    s.step (gaps ++ r.print) = s.pass [r] := by
  by_cases hr : r.IsFinite
  · rw [step_indent_print s hgaps hr]
    simp [follow, pass, hr]
  · simp [step, r.allBlank_append_print, Record.parse?_gaps_print_eq_none hr hgaps.isGap, pass, hr]

/-- Lines of records are passed over one by one where they cannot be read. -/
theorem takeIn_records (hgaps : Text.IsIndent gaps) (records : List Record) :
    s.takeIn (gaps ++ records.flatMap Record.line) = s.pass records := by
  induction records generalizing s gaps with
  | nil =>
    rw [List.flatMap_nil, List.append_nil, takeIn_indent hgaps]
    rfl
  | cons r records ih =>
    rw [List.flatMap_cons, takeIn, lines_append_line hgaps.newline_not_mem, List.foldl_cons,
      step_gaps_print s hgaps, pass_cons s r records]
    exact ih Text.isIndent_nil

theorem ofText_append_records (h : Text.IsSettled text) (records : List Record) :
    ofText (text ++ records.flatMap Record.line) = (ofText text).pass records := by
  rw [ofText_append, ofText_finished h, takeIn_records h]

end Replay

end CodeSearch
