import CodeSearch.Proofs.TornAppends
import CodeSearch.Store.Folder

/-!
# Logs with damaged lines

A log is cut into lines at its newlines, and no character but the newline has that byte in its
UTF-8 form. So the lines of the bytes are those of the text, and the bytes are a text exactly if
every line is one. Lines that hold no record add nothing to the collection and change nothing for
the others, as long as they are text. But the log is read as a whole before it is cut: a single
line that is no text, such as a record torn inside a character, makes the whole log unreadable.
-/
namespace CodeSearch

namespace Text

variable {c : Char} {b : UInt8} {bs line : List UInt8} {cs : List Char}

/-- The UTF-8 form of a text. -/
def bytesOf (cs : List Char) : List UInt8 :=
  cs.flatMap String.utf8EncodeChar

/-- The text of some bytes, if they are the UTF-8 form of one. -/
def ofBytes? (bs : List UInt8) : Option (List Char) :=
  (String.fromUTF8? bs.toByteArray).map String.toList

/-- Drop the byte of a carriage return at the end. -/
def dropReturnByte (bs : List UInt8) : List UInt8 :=
  if bs.getLast? = some 13 then bs.dropLast else bs

/-- The lines of some bytes of which the reversed bytes `line` are already read. A line ends at
the byte of a newline. -/
def byteLinesFrom (line : List UInt8) : List UInt8 → List (List UInt8)
  | [] => if line.isEmpty then [] else [line.reverse]
  | b :: bs =>
      if b = 10 then dropReturnByte line.reverse :: byteLinesFrom [] bs
      else byteLinesFrom (b :: line) bs

def byteLines (bs : List UInt8) : List (List UInt8) :=
  byteLinesFrom [] bs

lemma bytesOf_append (cs more : List Char) : bytesOf (cs ++ more) = bytesOf cs ++ bytesOf more :=
  List.flatMap_append

lemma bytesOf_concat (cs : List Char) (c : Char) :
    bytesOf (cs ++ [c]) = bytesOf cs ++ String.utf8EncodeChar c := by
  rw [bytesOf_append, bytesOf, bytesOf, List.flatMap_singleton]

/-- Bytes are read as the one text of which they are the UTF-8 form. -/
lemma ofBytes?_eq_some_iff : ofBytes? bs = some cs ↔ bs = bytesOf cs := by
  have hencode (cs : List Char) : (bytesOf cs).toByteArray = (String.ofList cs).toUTF8 := by
    rw [String.toUTF8_eq_toByteArray, String.toByteArray_ofList]
    rfl
  constructor
  · intro h
    obtain ⟨text, htext, rfl⟩ := Option.map_eq_some_iff.mp h
    have hbytes : bs.toByteArray = (bytesOf text.toList).toByteArray := by
      rw [hencode, String.ofList_toList]
      exact toUTF8_of_fromUTF8? htext
    rw [← List.toList_data_toByteArray (l := bs), hbytes, List.toList_data_toByteArray]
  · rintro rfl
    rw [ofBytes?, hencode, fromUTF8?_toUTF8, Option.map_some, String.toList_ofList]

lemma isSome_ofBytes?_iff : (ofBytes? bs).isSome = true ↔ ∃ cs, bs = bytesOf cs := by
  simp only [Option.isSome_iff_exists, ofBytes?_eq_some_iff]

/-- All bytes of a character that takes more than one are above the ones that stand for
themselves. -/
lemma le_of_mem_utf8EncodeChar (hsize : c.utf8Size ≠ 1) (hb : b ∈ String.utf8EncodeChar c) :
    128 ≤ b.toNat := by
  have hor {x y : UInt8} (hy : 128 ≤ y.toNat) : 128 ≤ (x ||| y).toNat := by
    rw [UInt8.toNat_or]
    exact hy.trans Nat.right_le_or
  rcases c.utf8Size_eq with h | h | h | h
  · exact absurd h hsize
  · rw [String.utf8EncodeChar_eq_cons_cons h] at hb
    simp only [List.mem_cons, List.not_mem_nil, or_false] at hb
    rcases hb with rfl | rfl <;> exact hor (by decide)
  · rw [String.utf8EncodeChar_eq_cons_cons_cons h] at hb
    simp only [List.mem_cons, List.not_mem_nil, or_false] at hb
    rcases hb with rfl | rfl | rfl <;> exact hor (by decide)
  · rw [String.utf8EncodeChar_eq_cons_cons_cons_cons h] at hb
    simp only [List.mem_cons, List.not_mem_nil, or_false] at hb
    rcases hb with rfl | rfl | rfl | rfl <;> exact hor (by decide)

/-- A byte that stands for itself is in the UTF-8 form of its own character only. -/
lemma toNat_of_mem_utf8EncodeChar (hb : b ∈ String.utf8EncodeChar c) (hlow : b.toNat < 128) :
    c.toNat = b.toNat := by
  have hsize : c.utf8Size = 1 := by
    by_contra hmore
    exact absurd (le_of_mem_utf8EncodeChar hmore hb) (Nat.not_le.mpr hlow)
  rw [String.utf8EncodeChar_eq_singleton hsize, List.mem_singleton] at hb
  have hsmall : c.val.toNat ≤ 127 := Char.utf8Size_eq_one_iff.mp hsize
  rw [hb, UInt32.toNat_toUInt8]
  exact (Nat.mod_eq_of_lt (hsmall.trans_lt (by decide))).symm

lemma notMem_utf8EncodeChar (hc : c ≠ '\n') : 10 ∉ String.utf8EncodeChar c := fun h =>
  hc (Char.toNat_inj.mp (toNat_of_mem_utf8EncodeChar h (by decide)))

lemma dropReturnByte_bytesOf (cs : List Char) :
    dropReturnByte (bytesOf cs) = bytesOf (dropReturn cs) := by
  rcases cs.eq_nil_or_concat with rfl | ⟨front, c, rfl⟩
  · rfl
  rw [List.concat_eq_append, bytesOf_concat, dropReturnByte, dropReturn, List.getLast?_concat]
  by_cases hc : c = '\r'
  · have hbytes : String.utf8EncodeChar c = [13] := by
      rw [hc]
      decide
    rw [hbytes, List.getLast?_concat, if_pos rfl, if_pos (by rw [hc]), List.dropLast_concat,
      List.dropLast_concat]
  · have hlast : (bytesOf front ++ String.utf8EncodeChar c).getLast? ≠ some 13 := by
      rw [List.getLast?_append_of_ne_nil _ String.utf8EncodeChar_ne_nil]
      intro h
      exact hc (Char.toNat_inj.mp
        (toNat_of_mem_utf8EncodeChar (List.mem_of_getLast? h) (by decide)))
    rw [if_neg hlast, if_neg (by simpa using hc), bytesOf_concat]

lemma byteLinesFrom_append (hnewline : 10 ∉ bs) (line more : List UInt8) :
    byteLinesFrom line (bs ++ more) = byteLinesFrom (bs.reverse ++ line) more := by
  induction bs generalizing line with
  | nil => rfl
  | cons b bs ih =>
    rw [List.mem_cons, not_or] at hnewline
    rw [List.cons_append, byteLinesFrom, if_neg (Ne.symm hnewline.1), ih hnewline.2]
    simp

lemma byteLinesFrom_bytesOf (before cs : List Char) :
    byteLinesFrom (bytesOf before.reverse).reverse (bytesOf cs) =
      (linesFrom before cs).map bytesOf := by
  induction cs generalizing before with
  | nil =>
    have hempty : (bytesOf before.reverse).reverse.isEmpty = before.isEmpty := by
      cases before with
      | nil => rfl
      | cons c before =>
        have hne : bytesOf (c :: before).reverse ≠ [] := by
          rw [List.reverse_cons, bytesOf_concat]
          exact List.append_ne_nil_of_right_ne_nil _ String.utf8EncodeChar_ne_nil
        simpa using hne
    change byteLinesFrom (bytesOf before.reverse).reverse [] = _
    rw [linesFrom, byteLinesFrom, hempty]
    cases before <;> simp
  | cons c cs ih =>
    rw [linesFrom, show bytesOf (c :: cs) = String.utf8EncodeChar c ++ bytesOf cs from
      List.flatMap_cons]
    by_cases hc : c = '\n'
    · have hbytes : String.utf8EncodeChar c = [10] := by
        rw [hc]
        decide
      rw [hbytes, if_pos hc, List.singleton_append, byteLinesFrom, if_pos rfl,
        List.reverse_reverse, dropReturnByte_bytesOf, List.map_cons]
      exact congrArg _ (ih [])
    · rw [if_neg hc, byteLinesFrom_append (notMem_utf8EncodeChar hc), ← ih (c :: before),
        List.reverse_cons, bytesOf_concat, List.reverse_append]

lemma byteLines_bytesOf (cs : List Char) : byteLines (bytesOf cs) = (lines cs).map bytesOf :=
  byteLinesFrom_bytesOf [] cs

/-- Bytes whose lines are text are text: what is missing of them are whole characters. -/
lemma exists_bytesOf_of_lines (h : ∀ l ∈ byteLinesFrom line bs, ∃ cs, l = bytesOf cs) :
    ∃ cs, line.reverse ++ bs = bytesOf cs := by
  induction bs generalizing line with
  | nil =>
    rw [List.append_nil]
    cases line with
    | nil => exact ⟨[], rfl⟩
    | cons b line => exact h _ (by simp [byteLinesFrom])
  | cons b bs ih =>
    rw [byteLinesFrom] at h
    split at h
    · next hb =>
      rw [List.forall_mem_cons] at h
      obtain ⟨front, hfront⟩ : ∃ cs, line.reverse = bytesOf cs := by
        obtain ⟨cs, hcs⟩ := h.1
        unfold dropReturnByte at hcs
        split at hcs
        · next hlast =>
          refine ⟨cs ++ ['\r'], ?_⟩
          obtain ⟨before, hbefore⟩ := List.getLast?_eq_some_iff.mp hlast
          rw [hbefore, List.dropLast_concat] at hcs
          rw [hbefore, hcs, bytesOf_concat]
          rfl
        · exact ⟨cs, hcs⟩
      obtain ⟨back, hback⟩ := ih h.2
      rw [List.reverse_nil, List.nil_append] at hback
      refine ⟨front ++ '\n' :: back, ?_⟩
      rw [hfront, hback, hb, bytesOf_append]
      rfl
    · obtain ⟨cs, hcs⟩ := ih h
      exact ⟨cs, by rw [← hcs]; simp⟩

theorem isSome_ofBytes?_iff_lines :
    (ofBytes? bs).isSome = true ↔ ∀ l ∈ byteLines bs, (ofBytes? l).isSome = true := by
  simp only [isSome_ofBytes?_iff]
  constructor
  · rintro ⟨cs, rfl⟩ l hl
    rw [byteLines_bytesOf] at hl
    obtain ⟨line, -, rfl⟩ := List.mem_map.mp hl
    exact ⟨line, rfl⟩
  · exact fun h => exists_bytesOf_of_lines h

end Text

namespace Record

/-- The record that the bytes of a line hold. -/
def ofLine? (line : List UInt8) : Option Record :=
  (Text.ofBytes? line).bind parse?

lemma parse?_of_allBlank {line : List Char} (h : Text.allBlank line = true) :
    parse? line = none := by
  by_contra hsome
  obtain ⟨r, hr⟩ := Option.ne_none_iff_exists'.mp hsome
  obtain ⟨rest, hskip⟩ := exists_skip_of_parse? hr
  have hmem : '{' ∈ line := by
    have hsuffix : Json.Reader.skip line <:+ line := List.dropWhile_suffix _
    exact hsuffix.subset (hskip ▸ List.mem_cons_self)
  have hblank : Text.isBlank '{' = true := List.all_eq_true.mp h _ hmem
  exact absurd hblank (by decide)

end Record

namespace Replay

lemma documents_step (s : Replay) (line : List Char) :
    (s.step line).documents =
      ((Record.parse? line).map (Record.apply s.documents)).getD s.documents := by
  unfold step
  split
  · next hblank => rw [Record.parse?_of_allBlank hblank]; rfl
  · cases Record.parse? line <;> rfl

/-- Of the lines of a log those count that hold a record, each on its own. -/
lemma documents_foldl_step (s : Replay) (lines : List (List Char)) :
    (lines.foldl step s).documents =
      (lines.filterMap Record.parse?).foldl Record.apply s.documents := by
  induction lines generalizing s with
  | nil => rfl
  | cons line lines ih =>
    rw [List.foldl_cons, ih, documents_step]
    cases hline : Record.parse? line with
    | none => rw [List.filterMap_cons_none hline]; rfl
    | some r => rw [List.filterMap_cons_some hline]; rfl

/-- A log whose lines are text replays to what its records make, and any other log to nothing. -/
theorem ofBytes_spec (bytes : ByteArray) :
    ((∀ l ∈ Text.byteLines bytes.data.toList, (Text.ofBytes? l).isSome = true) →
      ∃ r, ofBytes bytes = .ok r ∧ r.documents =
        ((Text.byteLines bytes.data.toList).filterMap Record.ofLine?).foldl Record.apply .empty) ∧
    ((∃ l ∈ Text.byteLines bytes.data.toList, Text.ofBytes? l = none) →
      ofBytes bytes = .error (.io .notText)) := by
  have hbytes : bytes.data.toList.toByteArray = bytes := ByteArray.ext (by simp)
  constructor
  · intro hlines
    obtain ⟨cs, hcs⟩ := Option.isSome_iff_exists.mp (Text.isSome_ofBytes?_iff_lines.mpr hlines)
    obtain ⟨text, htext, rfl⟩ := Option.map_eq_some_iff.mp hcs
    rw [hbytes] at htext
    refine ⟨ofText text.toList, by rw [ofBytes, htext], ?_⟩
    have hrecord : Record.ofLine? ∘ Text.bytesOf = Record.parse? := by
      funext line
      rw [Function.comp_apply, Record.ofLine?, Text.ofBytes?_eq_some_iff.mpr rfl, Option.bind_some]
    rw [Text.ofBytes?_eq_some_iff.mp hcs, Text.byteLines_bytesOf, List.filterMap_map, hrecord]
    exact documents_foldl_step _ _
  · rintro ⟨l, hl, hnone⟩
    have hall : ¬(Text.ofBytes? bytes.data.toList).isSome = true := by
      rw [Text.isSome_ofBytes?_iff_lines]
      intro hall
      have hsome := hall l hl
      rw [hnone] at hsome
      cases hsome
    have hread : String.fromUTF8? bytes = none := by
      simpa [Text.ofBytes?, hbytes] using hall
    rw [ofBytes, hread]

end Replay

namespace Store

open StoreHistory (constant)

variable {d made : Disk} {path : String} {directory : Location} {bytes : ByteArray}

/-- A directory with a log, in which a new one can be prepared. -/
structure HoldsLog (d : Disk) (path : String) (made : Disk) (directory : Location)
    (bytes : ByteArray) : Prop where
  makeAlong : d.makeAlong path = .ok (made, directory)
  log : ∃ written, made.at? (directory ++ [LogFile.fileName]) = some (.file bytes written)
  free : made.isDirectory (directory ++ [LogFile.draftName]) = false

lemma HoldsLog.ofDisk_eq (h : HoldsLog d path made directory bytes) :
    LogFile.ofDisk made directory = .ok { bytes } := by
  obtain ⟨-, ⟨written, hlog⟩, hfree⟩ := h
  rw [LogFile.ofDisk, hlog, hfree]

lemma openAt_of_notText (h : HoldsLog d path made directory bytes) {line : List UInt8}
    (hmem : line ∈ Text.byteLines bytes.data.toList) (hline : Text.ofBytes? line = none)
    (e : Embedder) (now : ℤ) : openAt d path e now = (.error (.io .notText), made) := by
  have hopen := ofFile_of_notText ((Replay.ofBytes_spec bytes).2 ⟨line, hmem, hline⟩) e
  simp only [openAt, h.makeAlong, h.ofDisk_eq, hopen]

/-- Opening a store whose log has any bytes. If every line is text, the store has what the lines
make that hold records, each line counting or not on its own. If one line is none, the store
cannot be opened, and its log stays as it is. -/
theorem opening_reads_lines (h : HoldsLog d path made directory bytes) (e : Embedder) (now : ℤ) :
    ((∀ l ∈ Text.byteLines bytes.data.toList, (Text.ofBytes? l).isSome = true) →
      ∃ s, (openAt d path e now).1 = .ok (s, directory) ∧ s.documents =
        ((Text.byteLines bytes.data.toList).filterMap Record.ofLine?).foldl Record.apply .empty) ∧
    ((∃ l ∈ Text.byteLines bytes.data.toList, Text.ofBytes? l = none) →
      openAt d path e now = (.error (.io .notText), made)) := by
  refine ⟨fun hlines => ?_, fun ⟨line, hmem, hline⟩ => openAt_of_notText h hmem hline e now⟩
  obtain ⟨r, hr, hdocuments⟩ := (Replay.ofBytes_spec bytes).1 hlines
  obtain ⟨l, hopen⟩ := exists_ofFile hr e
  refine ⟨⟨e, r.documents, some l⟩, ?_, hdocuments⟩
  simp only [openAt, h.makeAlong, h.ofDisk_eq, hopen]

/-- A disk with a log in a directory of its own. -/
def diskWith (bytes : ByteArray) : Disk :=
  ⟨[(["store"], .directory), (["store", LogFile.fileName], .file bytes 0)]⟩

lemma holdsLog_diskWith (bytes : ByteArray) :
    HoldsLog (diskWith bytes) "/store" (diskWith bytes) ["store"] bytes :=
  ⟨rfl, ⟨0, rfl⟩, rfl⟩

/-- A record that puts a document without a direction. -/
def soleRecord : Record :=
  .put ⟨⟨"a", "one", .empty⟩, []⟩

/-- The record as it stands in a log. -/
def soleBytes : List UInt8 :=
  Text.bytesOf soleRecord.print

lemma ofLine?_soleBytes : Record.ofLine? soleBytes = some soleRecord := by
  rw [Record.ofLine?, soleBytes, Text.ofBytes?_eq_some_iff.mpr rfl, Option.bind_some]
  exact Record.parse?_print fun x hx => by cases hx

/-- A record that is torn behind its first character is passed over, and the record on the next
line counts. -/
theorem torn_record_passed_over : ∃ bytes s,
    HoldsLog (diskWith bytes) "/store" (diskWith bytes) ["store"] bytes ∧
    Text.byteLines bytes.data.toList = [Text.bytesOf ['{'], soleBytes] ∧
    (openAt (diskWith bytes) "/store" constant 0).1 = .ok (s, ["store"]) ∧
    s.documents.names = ["a"] := by
  obtain ⟨bytes, hbytes⟩ : ∃ bytes, bytes = (Text.bytesOf ['{'] ++ 10 :: soleBytes).toByteArray :=
    ⟨_, rfl⟩
  have hlines : Text.byteLines bytes.data.toList = [Text.bytesOf ['{'], soleBytes] := by
    rw [hbytes, List.toList_data_toByteArray]
    decide +kernel
  have hfirst : Record.ofLine? (Text.bytesOf ['{']) = none := by
    rw [Record.ofLine?, Text.ofBytes?_eq_some_iff.mpr rfl, Option.bind_some]
    decide
  obtain ⟨hread, -⟩ := opening_reads_lines (holdsLog_diskWith bytes) constant 0
  rw [hlines] at hread
  obtain ⟨s, hopen, hdocuments⟩ := hread (by simp [Text.isSome_ofBytes?_iff, soleBytes])
  refine ⟨bytes, s, holdsLog_diskWith bytes, hlines, hopen, ?_⟩
  rw [hdocuments, List.filterMap_cons_none hfirst, List.filterMap_cons_some ofLine?_soleBytes]
  decide +kernel

/-- The first byte of a character of two, on a line of its own behind a record, costs the record
too. -/
theorem half_character_costs_log : ∃ bytes,
    HoldsLog (diskWith bytes) "/store" (diskWith bytes) ["store"] bytes ∧
    Text.byteLines bytes.data.toList = [soleBytes, [195]] ∧
    (Text.byteLines bytes.data.toList).filterMap Record.ofLine? = [soleRecord] ∧
    openAt (diskWith bytes) "/store" constant 0 = (.error (.io .notText), diskWith bytes) := by
  obtain ⟨bytes, hbytes⟩ : ∃ bytes, bytes = (soleBytes ++ [10, 195]).toByteArray := ⟨_, rfl⟩
  have hlines : Text.byteLines bytes.data.toList = [soleBytes, [195]] := by
    rw [hbytes, List.toList_data_toByteArray]
    decide +kernel
  have hhalf : Text.ofBytes? [195] = none := by decide +kernel
  have hlast : Record.ofLine? [195] = none := by rw [Record.ofLine?, hhalf, Option.bind_none]
  refine ⟨bytes, holdsLog_diskWith bytes, hlines, ?_, ?_⟩
  · rw [hlines, List.filterMap_cons_some ofLine?_soleBytes, List.filterMap_cons_none hlast,
      List.filterMap_nil]
  · exact openAt_of_notText (holdsLog_diskWith bytes) (hlines ▸ by simp) hhalf constant 0

end Store

end CodeSearch
