import CodeSearch.Proofs.KeptWrites

/-!
# Appends that are cut off

The bytes that a change appends may get to the log only in part. A cut between two
characters leaves the records that are whole by then, be it without the newline of the last
one, and nothing of the others: a change of one record is made or not made, and one of more
records may be made in part. A cut inside a character leaves a log that cannot be opened.
-/
namespace CodeSearch

namespace Record

lemma length_line (r : Record) : r.line.length = r.print.length + 1 :=
  List.length_append

lemma length_print_pos (r : Record) : 0 < r.print.length := by
  obtain ⟨inner, h⟩ := r.exists_print
  rw [h, List.length_cons]
  exact Nat.succ_pos _

end Record

namespace Log

/-- How many records are whole in the first characters of their lines. The newline of the
last one may be missing. -/
def wholeIn : List Record → ℕ → ℕ
  | [], _ => 0
  | r :: records, count =>
      if count < r.print.length then 0 else wholeIn records (count - r.line.length) + 1

lemma wholeIn_zero (records : List Record) : wholeIn records 0 = 0 := by
  cases records with
  | nil => rfl
  | cons r records => rw [wholeIn, if_pos r.length_print_pos]

lemma wholeIn_line (r : Record) (records : List Record) :
    wholeIn (r :: records) r.line.length = 1 := by
  have hlt : ¬r.line.length < r.print.length := by
    rw [r.length_line]
    omega
  rw [wholeIn, if_neg hlt, Nat.sub_self, wholeIn_zero]

lemma wholeIn_le (records : List Record) (count : ℕ) :
    wholeIn records count ≤ records.length := by
  induction records generalizing count with
  | nil => exact Nat.le_refl 0
  | cons r records ih =>
    rw [wholeIn]
    split
    · exact Nat.zero_le _
    · exact Nat.succ_le_succ (ih _)

end Log

namespace Replay

variable {s : Replay} {gaps cut : List Char} {records : List Record} {r : Record}

/-- The beginning of a line adds nothing. -/
lemma documents_takeIn_of_prefix (hgaps : Text.IsIndent gaps) (hr : r.IsFinite)
    (hcut : cut <+: r.print) (hlt : cut.length < r.print.length) :
    (s.takeIn (gaps ++ cut)).documents = s.documents := by
  obtain ⟨more, hmore⟩ := hcut
  have hne : more ≠ [] := by
    rintro rfl
    rw [List.append_nil] at hmore
    rw [hmore] at hlt
    exact Nat.lt_irrefl _ hlt
  have hnewline : '\n' ∉ gaps ++ cut := by
    rw [List.mem_append, not_or]
    refine ⟨hgaps.newline_not_mem, fun hmem => r.newline_not_mem_print ?_⟩
    rw [← hmore]
    exact List.mem_append_left _ hmem
  rw [takeIn_line hnewline]
  rcases s.step_cases (gaps ++ cut) with ⟨-, hstep⟩ | ⟨r', hparse, -⟩ | hstep
  · rw [hstep]
  · rw [Record.parse?_of_prefix hr hgaps.isGap hmore hne] at hparse
    cases hparse
  · rw [hstep]

theorem documents_takeIn_cut (hgaps : Text.IsIndent gaps) (hrecords : ∀ r ∈ records, r.IsFinite)
    (hcut : cut <+: records.flatMap Record.line) : (s.takeIn (gaps ++ cut)).documents =
      (records.take (Log.wholeIn records cut.length)).foldl Record.apply s.documents := by
  induction records generalizing s gaps cut with
  | nil =>
    obtain rfl : cut = [] := List.prefix_nil.mp hcut
    rw [List.append_nil, takeIn_indent hgaps]
    rfl
  | cons r records ih =>
    rw [List.forall_mem_cons] at hrecords
    rw [List.flatMap_cons] at hcut
    rw [Log.wholeIn]
    have hprint : r.print <+: r.line ++ records.flatMap Record.line :=
      ((List.prefix_append _ _).trans (List.prefix_append _ _))
    by_cases hlt : cut.length < r.print.length
    · have hshort : cut <+: r.print := List.prefix_of_prefix_length_le hcut hprint hlt.le
      rw [if_pos hlt, documents_takeIn_of_prefix hgaps hrecords.1 hshort hlt]
      rfl
    rw [if_neg hlt, List.take_succ_cons, List.foldl_cons]
    by_cases heq : cut.length = r.print.length
    · -- only the newline of the record is missing
      obtain rfl : cut = r.print :=
        (List.prefix_of_prefix_length_le hcut hprint heq.le).eq_of_length heq
      have hnewline : '\n' ∉ gaps ++ r.print := by
        rw [List.mem_append, not_or]
        exact ⟨hgaps.newline_not_mem, r.newline_not_mem_print⟩
      have hnone : r.print.length - r.line.length = 0 := by
        rw [r.length_line]
        omega
      rw [takeIn_line hnewline, step_indent_print s hgaps hrecords.1, hnone, Log.wholeIn_zero]
      rfl
    · have hline : r.line <+: cut := by
        refine List.prefix_of_prefix_length_le (List.prefix_append _ _) hcut ?_
        rw [r.length_line]
        omega
      obtain ⟨cut', rfl⟩ := hline
      have hrest := ih (s := s.follow [r]) Text.isIndent_nil hrecords.2
        ((List.prefix_append_right_inj r.line).mp hcut)
      rw [List.nil_append] at hrest
      rw [takeIn_line_append hgaps hrecords.1, hrest, List.length_append, Nat.add_sub_cancel_left]
      rfl

end Replay

namespace Text

lemma isValidUTF8_append_iff (cs : List Char) (bytes : ByteArray) :
    (cs.utf8Encode ++ bytes).IsValidUTF8 ↔ bytes.IsValidUTF8 := by
  induction cs with
  | nil => simp
  | cons c cs ih =>
    rw [← List.singleton_append, List.utf8Encode_append, ByteArray.append_assoc,
      ByteArray.isValidUTF8_utf8Encode_singleton_append_iff, ih]

lemma fromUTF8?_append (text : String) (bytes : ByteArray) :
    String.fromUTF8? (text.toUTF8 ++ bytes) = (String.fromUTF8? bytes).map (text ++ ·) := by
  have hvalid := isValidUTF8_append_iff text.toList bytes
  rw [String.utf8Encode_toList, ← String.toUTF8_eq_toByteArray] at hvalid
  cases h : String.fromUTF8? bytes with
  | none =>
    have hbytes : ¬bytes.IsValidUTF8 := by
      intro hbytes
      rw [String.fromUTF8?, dif_pos hbytes] at h
      cases h
    rw [String.fromUTF8?, dif_neg (mt hvalid.mp hbytes)]
    rfl
  | some cut =>
    rw [toUTF8_of_fromUTF8? h, String.toUTF8_eq_toByteArray, String.toUTF8_eq_toByteArray,
      ← String.toByteArray_append, ← String.toUTF8_eq_toByteArray, fromUTF8?_toUTF8]
    rfl

/-- The beginning of the bytes of a text is the beginning of the text, if it is a text. -/
lemma prefix_of_fromUTF8?_extract {text : List Char} {n : ℕ} {cut : String}
    (h : String.fromUTF8? ((String.ofList text).toUTF8.extract 0 n) = some cut) :
    cut.toList <+: text := by
  set bytes := (String.ofList text).toUTF8 with hbytes
  apply List.isPrefix_of_utf8Encode_append_eq_utf8Encode (bytes.extract n bytes.size)
  rw [String.utf8Encode_toList, ← String.toUTF8_eq_toByteArray, ← toUTF8_of_fromUTF8? h,
    ByteArray.extract_append_extract, Nat.zero_min, ByteArray.extract_zero_max_size, hbytes,
    String.toUTF8_eq_toByteArray, String.toByteArray_ofList]

end Text

namespace Log

variable {l : Log} {documents : Catalog StoredDocument} {records : List Record}

/-- The first bytes of what is written of some records. -/
def cutOff (records : List Record) (n : ℕ) : ByteArray :=
  (encode records).extract 0 n

/-- A cut between two characters leaves a text. -/
lemma fromUTF8?_cutOff {before after : List Char}
    (h : records.flatMap Record.line = before ++ after) :
    String.fromUTF8? (cutOff records (String.ofList before).toUTF8.size) =
      some (String.ofList before) := by
  have hbytes : encode records = (String.ofList before).toUTF8 ++ (String.ofList after).toUTF8 := by
    change (String.ofList (records.flatMap Record.line)).toUTF8 = _
    simp only [h, String.ofList_append, String.toUTF8_eq_toByteArray, String.toByteArray_append]
  rw [cutOff, hbytes, ByteArray.extract_append_eq_left rfl, Text.fromUTF8?_toUTF8]

lemma size_utf8Encode_singleton (c : Char) : [c].utf8Encode.size = c.utf8Size := by
  rw [List.utf8Encode_singleton, List.size_toByteArray, String.length_utf8EncodeChar]

/-- A cut inside a character does not: a shorter text has fewer bytes, a longer one more. -/
lemma fromUTF8?_cutOff_inside {before after : List Char} {c : Char} {k : ℕ}
    (h : records.flatMap Record.line = before ++ c :: after) (hpos : 0 < k)
    (hlt : k < c.utf8Size) :
    String.fromUTF8? (cutOff records ((String.ofList before).toUTF8.size + k)) = none := by
  by_contra hsome
  obtain ⟨cut, hcut⟩ := Option.ne_none_iff_exists'.mp hsome
  have hprefix : cut.toList <+: before ++ [c] ++ after := by
    rw [List.append_assoc, List.singleton_append, ← h]
    exact Text.prefix_of_fromUTF8?_extract hcut
  have hsize : cut.toList.utf8Encode.size = before.utf8Encode.size + k := by
    have hbytes := congrArg ByteArray.size (Text.toUTF8_of_fromUTF8? hcut)
    have hall : (encode records).size =
        before.utf8Encode.size + (c.utf8Size + after.utf8Encode.size) := by
      change (String.ofList (records.flatMap Record.line)).toUTF8.size = _
      rw [h, ← List.singleton_append, String.toUTF8_eq_toByteArray, String.toByteArray_ofList,
        List.utf8Encode_append, List.utf8Encode_append, ByteArray.size_append,
        ByteArray.size_append, size_utf8Encode_singleton]
    rw [cutOff, ByteArray.size_extract, hall] at hbytes
    rw [String.utf8Encode_toList, ← String.toUTF8_eq_toByteArray, ← hbytes,
      String.toUTF8_eq_toByteArray, String.toByteArray_ofList]
    omega
  rcases Nat.lt_or_ge before.length cut.toList.length with hlong | hshort
  · have hwhole : before ++ [c] <+: cut.toList := by
      refine List.prefix_of_prefix_length_le (List.prefix_append _ after) hprefix ?_
      rw [List.length_append, List.length_singleton]
      exact hlong
    obtain ⟨more, hmore⟩ := hwhole
    rw [← hmore, List.utf8Encode_append, List.utf8Encode_append, ByteArray.size_append,
      ByteArray.size_append, size_utf8Encode_singleton] at hsize
    omega
  · obtain ⟨more, hmore⟩ := List.prefix_of_prefix_length_le hprefix
      ((List.prefix_append before [c]).trans (List.prefix_append _ after)) hshort
    rw [← hmore, List.utf8Encode_append, ByteArray.size_append] at hsize
    omega

theorem Tracks.replay_cutOff (h : l.Tracks documents) (hrecords : ∀ r ∈ records, r.IsFinite)
    (n : ℕ) : (String.fromUTF8? (cutOff records n) = none ∧
        Replay.ofBytes (l.file.bytes ++ cutOff records n) = .error (.io .notText)) ∨
      ∃ cut r, String.fromUTF8? (cutOff records n) = some cut ∧
        Replay.ofBytes (l.file.bytes ++ cutOff records n) = .ok r ∧
        r.documents =
          (records.take (wholeIn records cut.toList.length)).foldl Record.apply documents := by
  obtain ⟨text, hbytes, hsettled, htext, -⟩ := h
  have hread := Text.fromUTF8?_append text (cutOff records n)
  rw [Replay.ofBytes, hbytes, hread]
  cases hcut : String.fromUTF8? (cutOff records n) with
  | none => exact .inl ⟨rfl, rfl⟩
  | some cut =>
    have hprefix : cut.toList <+: records.flatMap Record.line :=
      Text.prefix_of_fromUTF8?_extract hcut
    refine .inr ⟨cut, _, rfl, rfl, ?_⟩
    rw [String.toList_append, Replay.ofText_append, Replay.ofText_finished hsettled, htext]
    exact Replay.documents_takeIn_cut hsettled hrecords hprefix

end Log

namespace Store

variable {s s' : Store} {c : Change} {l : Log}

/-- The stores that come of logs which end well and hold finite embeddings, by changes, by
opening them again, and by what gets in the way of a new log or is taken out of it. -/
inductive Reached : Store → Prop
  | opened {file : LogFile} {e : Embedder} {s : Store} (hopen : ofFile file e = .ok s)
      (hends : file.EndsWell)
      (hfinite : ∀ id d, s.documents.get? id = some d → d.embedding.IsFinite) : Reached s
  | changed {s s' : Store} {c : Change} (h : Reached s) (hc : c.IsFinite s.embedder)
      (hrun : s.change c = .ok s') : Reached s'
  | reopened {s s' : Store} {l : Log} {e : Embedder} (h : Reached s) (hlog : s.log = some l)
      (hopen : ofFile l.file e = .ok s') : Reached s'
  | blocked {s : Store} (h : Reached s) (blocked : Bool) :
      Reached { s with log := s.log.map fun l => { l with file := { l.file with blocked } } }

lemma Reached.isKept (h : Reached s) : s.IsKept := by
  induction h with
  | opened hopen hends hfinite => exact isKept_ofFile hends hopen hfinite
  | changed _ hc hrun ih => exact (ih.change hc hrun).1
  | reopened _ hlog hopen ih => exact ih.reopen hlog hopen
  | blocked _ blocked ih => exact ih.withBlocked blocked

lemma ofFile_of_notText {bytes : ByteArray} (h : Replay.ofBytes bytes = .error (.io .notText))
    (e : Embedder) : ofFile { bytes } e = .error (.io .notText) := by
  rw [ofFile, Log.ofFile, h]
  rfl

/-- The documents after a change are those before it with its records applied. -/
lemma documents_of_change (hrun : s.change c = .ok s') :
    s'.documents = (s.written c).foldl Record.apply s.documents := by
  rcases change_cases hrun with rfl | ⟨hnone, rfl⟩ | ⟨hnone, l, l', -, -, rfl⟩
  · rfl
  · rw [hnone]
    rfl
  · rw [hnone]
    rfl

/-- The program stops while a change is being appended, after any number of bytes. If it stops
inside a character the log cannot be opened any more. Otherwise the records are there that
were whole by then: all or none of one record, but of several perhaps only the first ones. -/
theorem crash_during_change (hs : Reached s) (hlog : s.log = some l)
    (hc : c.IsFinite s.embedder) (hrun : s.change c = .ok s') (n : ℕ) (next : Embedder) :
    let bytes := Log.cutOff (s.written c) n
    match String.fromUTF8? bytes with
    | none => ofFile { bytes := l.file.bytes ++ bytes } next = .error (.io .notText)
    | some cut =>
        let whole := Log.wholeIn (s.written c) cut.toList.length
        ∃ t, ofFile { bytes := l.file.bytes ++ bytes } next = .ok t ∧
          t.documents = ((s.written c).take whole).foldl Record.apply s.documents ∧
          (whole = 0 → t.documents = s.documents) ∧
          (whole = (s.written c).length → t.documents = s'.documents) ∧
          ((s.written c).length ≤ 1 → t.documents = s.documents ∨ t.documents = s'.documents) := by
  intro bytes
  obtain ⟨l₀, hlog₀, htracks⟩ := hs.isKept
  obtain rfl := Option.some.inj (hlog.symm.trans hlog₀)
  rcases htracks.replay_cutOff (written_isFinite hc) n with ⟨hcut, hreplay⟩ |
    ⟨cut, r, hcut, hreplay, hdocuments⟩
  · rw [show String.fromUTF8? bytes = none from hcut]
    exact ofFile_of_notText hreplay next
  · rw [show String.fromUTF8? bytes = some cut from hcut]
    set whole := Log.wholeIn (s.written c) cut.toList.length
    obtain ⟨l', hopen⟩ := exists_ofFile hreplay next
    have hnone : whole = 0 → r.documents = s.documents := by
      intro hzero
      rw [hdocuments, hzero]
      rfl
    have hall : whole = (s.written c).length → r.documents = s'.documents := by
      intro hlength
      rw [hdocuments, hlength, List.take_length, documents_of_change hrun]
    refine ⟨_, hopen, hdocuments, hnone, hall, fun hone => ?_⟩
    have hle : whole ≤ (s.written c).length := Log.wholeIn_le _ _
    rcases Nat.eq_zero_or_pos whole with hzero | hpos
    · exact .inl (hnone hzero)
    · exact .inr (hall (by omega))

section

open StoreHistory (constant constant_isFinite)

def empty : Store :=
  ⟨constant, .empty, some ⟨{ bytes := .empty }, 0⟩⟩

lemma reached_empty : Reached empty := by
  refine .opened (StoreHistory.ofFile_empty constant false) ?_ fun id d hd => by cases hd
  exact (StoreHistory.describes_empty false).tracks.endsWell

/-- A document of which the embedding is zero. -/
def plain (id content : String) : StoredDocument :=
  ⟨⟨id, content, .empty⟩, [.zero]⟩

/-- A document is there when all of its record but the newline has got to the log. -/
theorem newline_cut_off : ∃ bytes s' t, Reached empty ∧
    (Change.add [⟨"a", "one", .empty⟩]).IsFinite empty.embedder ∧
    empty.change (.add [⟨"a", "one", .empty⟩]) = .ok s' ∧
    String.fromUTF8? bytes = some (String.ofList (Record.put (plain "a" "one")).print) ∧
    ofFile { bytes := .empty ++ bytes } constant = .ok t ∧ t.documents = s'.documents := by
  have hc : (Change.add [⟨"a", "one", .empty⟩]).IsFinite empty.embedder := constant_isFinite _
  obtain ⟨r, hr⟩ : ∃ r : Record, r = .put (plain "a" "one") := ⟨_, rfl⟩
  have hrun : empty.change (.add [⟨"a", "one", .empty⟩]) = .ok (empty.commit [r]) := by
    rw [hr]
    rfl
  have hwritten : empty.written (.add [⟨"a", "one", .empty⟩]) = [r] := by
    rw [hr]
    rfl
  obtain ⟨n, hn⟩ : ∃ n, n = (String.ofList r.print).toUTF8.size := ⟨_, rfl⟩
  have hcut : String.fromUTF8? (Log.cutOff [r] n) = some (String.ofList r.print) := by
    rw [hn]
    exact Log.fromUTF8?_cutOff (List.append_nil r.line)
  have hwhole : Log.wholeIn [r] r.print.length = [r].length := by
    rw [Log.wholeIn, if_neg (Nat.lt_irrefl _)]
    rfl
  have hcrash := crash_during_change reached_empty rfl hc hrun n constant
  simp only [hwritten, hcut, String.toList_ofList] at hcrash
  obtain ⟨t, hopen, -, -, hall, -⟩ := hcrash
  rw [← hr]
  exact ⟨_, _, t, reached_empty, hc, hrun, hcut, hopen, hall hwhole⟩

/-- What is opened behind an empty log after a cut between two characters. -/
lemma exists_ofFile_cutOff {records : List Record} {before after : List Char}
    (hrecords : ∀ r ∈ records, r.IsFinite) (h : records.flatMap Record.line = before ++ after) :
    ∃ n t, ofFile { bytes := Log.cutOff records n } constant = .ok t ∧
      t.documents =
        (records.take (Log.wholeIn records before.length)).foldl Record.apply .empty := by
  have hcut := Log.fromUTF8?_cutOff h
  refine ⟨(String.ofList before).toUTF8.size, ?_⟩
  rcases (StoreHistory.describes_empty false).tracks.replay_cutOff hrecords
    (String.ofList before).toUTF8.size with ⟨hnone, -⟩ | ⟨cut, r, hsome, hreplay, hdocuments⟩
  · rw [hcut] at hnone
    cases hnone
  · obtain rfl := Option.some.inj (hcut.symm.trans hsome)
    rw [ByteArray.empty_append] at hreplay
    obtain ⟨l, hopen⟩ := exists_ofFile hreplay constant
    exact ⟨_, hopen, by rw [hdocuments, String.toList_ofList]⟩

/-- Of two documents that are added together the first one is there without the other, and
after a cut inside a character the log cannot be opened. -/
theorem batch_cut_off : (∃ n s' t, Reached empty ∧
      empty.change (.add [⟨"a", "one", .empty⟩, ⟨"b", "two", .empty⟩]) = .ok s' ∧
      ofFile { bytes := Log.cutOff (empty.written
        (.add [⟨"a", "one", .empty⟩, ⟨"b", "two", .empty⟩])) n } constant = .ok t ∧
      empty.documents.names = [] ∧ t.documents.names = ["a"] ∧ s'.documents.names = ["a", "b"]) ∧
    ∃ n s', empty.change (.add [⟨"a", "é", .empty⟩]) = .ok s' ∧
      ofFile { bytes := Log.cutOff (empty.written (.add [⟨"a", "é", .empty⟩])) n } constant =
        .error (.io .notText) := by
  constructor
  · obtain ⟨r, hr⟩ : ∃ r : Record, r = .put (plain "a" "one") := ⟨_, rfl⟩
    obtain ⟨r', hr'⟩ : ∃ r : Record, r = .put (plain "b" "two") := ⟨_, rfl⟩
    have hwritten : empty.written (.add [⟨"a", "one", .empty⟩, ⟨"b", "two", .empty⟩]) =
        [r, r'] := by
      rw [hr, hr']
      rfl
    have hrun : empty.change (.add [⟨"a", "one", .empty⟩, ⟨"b", "two", .empty⟩]) =
        .ok (empty.commit [r, r']) := by
      rw [hr, hr']
      rfl
    have hfinite := written_isFinite (s := empty)
      (show (Change.add [⟨"a", "one", .empty⟩, ⟨"b", "two", .empty⟩]).IsFinite constant from
        constant_isFinite _)
    rw [hwritten] at hfinite ⊢
    have hlines : [r, r'].flatMap Record.line = r.line ++ [r'].flatMap Record.line :=
      List.flatMap_cons
    obtain ⟨n, t, hopen, hdocuments⟩ := exists_ofFile_cutOff hfinite hlines
    refine ⟨n, _, t, reached_empty, hrun, hopen, rfl, ?_, ?_⟩
    · rw [hdocuments, Log.wholeIn_line, hr, hr']
      decide +kernel
    · rw [hr, hr']
      decide +kernel
  · obtain ⟨before, after, hline⟩ := List.append_of_mem
      (show 'é' ∈ (Record.put (plain "a" "é")).line by decide)
    have hlines : [Record.put (plain "a" "é")].flatMap Record.line = before ++ 'é' :: after := by
      rw [List.flatMap_singleton, hline]
    have hnone := Log.fromUTF8?_cutOff_inside hlines Nat.one_pos (by decide)
    have hreplay : Replay.ofBytes (Log.cutOff [.put (plain "a" "é")]
        ((String.ofList before).toUTF8.size + 1)) = .error (.io .notText) := by
      rw [Replay.ofBytes, hnone]
    exact ⟨_, _, rfl, ofFile_of_notText hreplay constant⟩

end

end Store

end CodeSearch
