import CodeSearch.Proofs.WrittenRecords
import CodeSearch.Store.Log

/-!
# What a log replays to

A log of finite records replays to the collection that they make one after the other,
without a malformed line. Appending records and writing the log anew keep the collection
that the log describes in step with the one in memory.
-/
namespace CodeSearch

namespace Text

/-- A line that is written with a newline behind it is the first one. -/
lemma linesFrom_append {line : List Char} (hline : '\n' ∉ line) (before text : List Char) :
    linesFrom before (line ++ '\n' :: text) =
      dropReturn (before.reverse ++ line) :: linesFrom [] text := by
  induction line generalizing before with
  | nil => simp [linesFrom]
  | cons c line ih =>
    rw [List.mem_cons, not_or] at hline
    have hc : c ≠ '\n' := Ne.symm hline.1
    rw [List.cons_append, linesFrom, if_neg hc, ih hline.2]
    simp

/-- Texts without newlines are the lines of what they make with a newline behind each. -/
lemma lines_flatMap {texts : List (List Char)} (h : ∀ t ∈ texts, '\n' ∉ t) :
    lines (texts.flatMap fun t => t ++ ['\n']) = texts.map dropReturn := by
  induction texts with
  | nil => rfl
  | cons t texts ih =>
    rw [List.forall_mem_cons] at h
    have hfirst := linesFrom_append h.1 [] (texts.flatMap fun t => t ++ ['\n'])
    rw [lines] at ih ⊢
    rw [List.flatMap_cons, List.append_assoc, List.singleton_append, hfirst, ih h.2]
    rfl

/-- A text is read back from its bytes. -/
lemma fromUTF8?_toUTF8 (s : String) : String.fromUTF8? s.toUTF8 = some s := by
  rw [String.toUTF8_eq_toByteArray, String.fromUTF8?, dif_pos s.isValidUTF8]
  rfl

/-- Bytes that are read as a text are those of the text. -/
lemma toUTF8_of_fromUTF8? {bytes : ByteArray} {s : String} (h : String.fromUTF8? bytes = some s) :
    bytes = s.toUTF8 := by
  unfold String.fromUTF8? at h
  split at h
  · obtain rfl := Option.some.inj h
    rfl
  · cases h

end Text

/-- Every document stands under its own identifier. -/
def Catalog.Keyed (c : Catalog StoredDocument) : Prop :=
  ∀ id d, c.get? id = some d → d.id = id

/-- Every document stands under its own identifier, with a finite embedding. -/
def Catalog.Sound (c : Catalog StoredDocument) : Prop :=
  ∀ id d, c.get? id = some d → d.id = id ∧ d.embedding.IsFinite

lemma Catalog.Sound.keyed {c : Catalog StoredDocument} (h : c.Sound) : c.Keyed :=
  fun id d hd => (h id d hd).1

namespace Record

/-- A record ends its line with a brace, whatever stands in front of it. -/
lemma dropReturn_append_print (cs : List Char) (r : Record) :
    Text.dropReturn (cs ++ r.print) = cs ++ r.print := by
  obtain ⟨inner, h⟩ := r.exists_print
  have hlast : (cs ++ r.print).getLast? = some '}' := by
    rw [h, ← List.cons_append, ← List.append_assoc, List.getLast?_concat]
  simp [Text.dropReturn, hlast]

lemma allBlank_append_print (cs : List Char) (r : Record) :
    Text.allBlank (cs ++ r.print) = false := by
  obtain ⟨inner, h⟩ := r.exists_print
  have hbrace : Text.isBlank '{' = false := by decide
  simp [Text.allBlank, h, hbrace]

/-- A line that is not blank and is read as a record. -/
structure IsLine (r : Record) (line : List Char) : Prop where
  not_blank : Text.allBlank line = false
  parse?_eq : parse? line = some r

lemma isLine_print {r : Record} (hr : r.IsFinite) : r.IsLine r.print :=
  ⟨r.allBlank_append_print [], parse?_print hr⟩

lemma forall₂_isLine_print {records : List Record} (hrecords : ∀ r ∈ records, r.IsFinite) :
    List.Forall₂ IsLine records (records.map print) :=
  List.forall₂_map_right_iff.mpr (List.forall₂_same.mpr fun r hr => isLine_print (hrecords r hr))

/-- The lines that are written for some records are cut apart again as they were. -/
lemma lines_flatMap_print (records : List Record) :
    Text.lines (records.flatMap fun r => r.print ++ ['\n']) = records.map print := by
  have htext : records.flatMap (fun r => r.print ++ ['\n']) =
      (records.map print).flatMap fun t => t ++ ['\n'] := by
    rw [List.flatMap_map]
  rw [htext, Text.lines_flatMap, List.map_map]
  · exact List.map_congr_left fun r _ => r.dropReturn_append_print []
  · intro t ht
    obtain ⟨r, -, rfl⟩ := List.mem_map.mp ht
    exact r.newline_not_mem_print

lemma apply_sound {c : Catalog StoredDocument} (hc : c.Sound) {r : Record} (hr : r.IsFinite) :
    (r.apply c).Sound := by
  intro id d h
  cases r with
  | put d' =>
    rw [apply, Catalog.get?_insert] at h
    by_cases hid : id = d'.id
    · obtain rfl : d' = d := by simpa [hid] using h
      exact ⟨hid.symm, hr⟩
    · rw [if_neg hid] at h
      exact hc id d h
  | delete id' =>
    rw [apply, Catalog.get?_erase] at h
    split at h
    · cases h
    · exact hc id d h

lemma foldl_apply_sound {records : List Record} (hrecords : ∀ r ∈ records, r.IsFinite)
    {c : Catalog StoredDocument} (hc : c.Sound) : (records.foldl apply c).Sound := by
  induction records generalizing c with
  | nil => exact hc
  | cons r records ih =>
    rw [List.forall_mem_cons] at hrecords
    exact ih hrecords.2 (apply_sound hc hrecords.1)

/-- Putting every document of a collection makes the collection. -/
lemma foldl_put_values {c : Catalog StoredDocument} (hc : c.Keyed) :
    (c.values.map put).foldl apply .empty = c := by
  have hentries : c.values.map (fun d => (d.id, d)) = c.entries := by
    rw [Catalog.values, List.map_map]
    conv_rhs => rw [← List.map_id c.entries]
    refine List.map_congr_left fun e he => ?_
    have hid := hc e.1 e.2 ((c.mem_entries_iff e.1 e.2).mp he)
    simp [hid]
  conv_rhs => rw [← Catalog.ofList_entries c, ← hentries]
  rw [Catalog.ofList, List.foldl_map, List.foldl_map]
  rfl

end Record

namespace Replay

lemma ofBytes_toUTF8 (text : String) : ofBytes text.toUTF8 = .ok (ofText text.toList) := by
  rw [ofBytes, Text.fromUTF8?_toUTF8]

lemma step_of_isLine (s : Replay) {r : Record} {line : List Char} (h : r.IsLine line) :
    s.step line = { s with documents := r.apply s.documents, records := s.records + 1 } := by
  simp [step, h.not_blank, h.parse?_eq]

/-- Lines that hold records are replayed to what the records make, whoever has written them. -/
lemma foldl_step_of_isLine {records : List Record} {lines : List (List Char)}
    (h : List.Forall₂ Record.IsLine records lines) (s : Replay) : lines.foldl step s =
      { s with
        documents := records.foldl Record.apply s.documents
        records := s.records + records.length } := by
  induction h generalizing s with
  | nil => rfl
  | cons hline _ ih =>
    rw [List.foldl_cons, step_of_isLine s hline, ih]
    simp [Nat.add_assoc, Nat.add_comm 1]

theorem ofBytes_encode {records : List Record} (hrecords : ∀ r ∈ records, r.IsFinite) :
    ofBytes (Log.encode records) =
      .ok ⟨records.foldl Record.apply .empty, records.length, 0⟩ := by
  rw [Log.encode, ofBytes_toUTF8]
  simp only [String.toList_ofList, ofText, Record.lines_flatMap_print,
    foldl_step_of_isLine (Record.forall₂_isLine_print hrecords), Nat.zero_add]

end Replay

namespace Log

lemma encode_append (a b : List Record) : encode (a ++ b) = encode a ++ encode b := by
  simp [encode]

/-- A log describes a collection: it consists of finite records, which make the collection
from nothing. -/
def Describes (l : Log) (documents : Catalog StoredDocument) : Prop :=
  ∃ records : List Record, l.file.bytes = encode records ∧ l.records = records.length ∧
    (∀ r ∈ records, r.IsFinite) ∧ records.foldl Record.apply .empty = documents

variable {l l' : Log} {documents : Catalog StoredDocument}

/-- A log that is written anew describes what it was written for. -/
lemma describes_renew (hsound : documents.Sound) (hl : l.renew documents = .ok l') :
    l'.Describes documents := by
  unfold Log.renew at hl
  split at hl
  · cases hl
  · obtain rfl := Except.ok.inj hl
    refine ⟨documents.values.map .put, rfl, by simp, ?_, Record.foldl_put_values hsound.keyed⟩
    intro r hr
    obtain ⟨d, hd, rfl⟩ := List.mem_map.mp hr
    obtain ⟨id, hid⟩ := (documents.mem_values_iff d).mp hd
    exact (hsound id d hid).2

namespace Describes

lemma sound (h : l.Describes documents) : documents.Sound := by
  obtain ⟨records, -, -, hfinite, rfl⟩ := h
  refine Record.foldl_apply_sound hfinite fun id d hd => ?_
  simp at hd

theorem replay (h : l.Describes documents) :
    Replay.ofBytes l.file.bytes = .ok ⟨documents, l.records, 0⟩ := by
  obtain ⟨records, hbytes, hrecords, hfinite, rfl⟩ := h
  rw [hbytes, hrecords, Replay.ofBytes_encode hfinite]

theorem append (h : l.Describes documents) {records : List Record}
    (hrecords : ∀ r ∈ records, r.IsFinite) :
    (l.append records).Describes (records.foldl Record.apply documents) := by
  obtain ⟨before, hbytes, hcount, hfinite, rfl⟩ := h
  refine ⟨before ++ records, ?_, ?_, ?_, ?_⟩
  · simp [Log.append, hbytes, encode_append]
  · simp [Log.append, hcount]
  · intro r hr
    exact (List.mem_append.mp hr).elim (hfinite r) (hrecords r)
  · rw [List.foldl_append]

theorem renew (h : l.Describes documents) (hl : l.renew documents = .ok l') :
    l'.Describes documents :=
  describes_renew h.sound hl

theorem tidy (h : l.Describes documents) : (l.tidy documents).Describes documents := by
  unfold Log.tidy
  split
  · split
    · next heq => exact h.renew heq
    · exact h
  · exact h

end Describes

end Log

end CodeSearch
