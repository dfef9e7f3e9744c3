import CodeSearch.Index.Metadata
import CodeSearch.Proofs.Catalogs
import CodeSearch.Proofs.Outcomes

/-!
# Chunks read back from their documents

What is remembered of a chunk can be read from its document: the type, the path and the
time of reading come back as they were written, as long as the time fits into 64 bits.
-/
namespace CodeSearch

namespace Integer

/-- A number of 64 bits with a sign. -/
def Fits (n : ℤ) : Prop :=
  -(greatest + 1 : ℤ) ≤ n ∧ n ≤ greatest

instance (n : ℤ) : Decidable (Fits n) :=
  inferInstanceAs (Decidable (_ ∧ _))

/-- Further digits do not make a number smaller. -/
lemma le_ofDigitChars (cs : List Char) (n : ℕ) : n ≤ Nat.ofDigitChars 10 cs n := by
  rw [Nat.ofDigitChars_eq_ofDigitChars_zero]
  calc n = 1 * n := (Nat.one_mul n).symm
    _ ≤ 10 ^ cs.length * n := Nat.mul_le_mul_right n (Nat.pow_pos (by decide))
    _ ≤ 10 ^ cs.length * n + Nat.ofDigitChars 10 cs 0 := Nat.le_add_right _ _

lemma digitsFrom_eq_ok {limit : ℕ} (beyond : Fault) {cs : List Char}
    (hcs : ∀ c ∈ cs, c.isDigit = true) {n : ℕ} (hlimit : Nat.ofDigitChars 10 cs n ≤ limit) :
    digitsFrom limit beyond n cs = .ok (Nat.ofDigitChars 10 cs n) := by
  induction cs generalizing n with
  | nil => rfl
  | cons c cs ih =>
    rw [List.forall_mem_cons] at hcs
    rw [Nat.ofDigitChars_cons] at hlimit ⊢
    have hsmall : ¬ limit < 10 * n + (c.toNat - 48) :=
      Nat.not_lt.mpr ((le_ofDigitChars cs _).trans hlimit)
    rw [digitsFrom, if_neg (by simp [hcs.1])]
    dsimp only
    rw [if_neg hsmall]
    exact ih hcs.2 hlimit

lemma digits_toDigits {limit n : ℕ} (beyond : Fault) (hn : n ≤ limit) :
    digits limit beyond (Nat.toDigits 10 n) = .ok n := by
  have hvalue : Nat.ofDigitChars 10 (Nat.toDigits 10 n) 0 = n := Nat.ofDigitChars_ten_toDigits
  have hdigits : ∀ c ∈ Nat.toDigits 10 n, c.isDigit = true :=
    fun c hc => Nat.isDigit_of_mem_toDigits (by decide) (by decide) hc
  rw [digits, if_neg (by simp), digitsFrom_eq_ok beyond hdigits (hvalue.trans_le hn), hvalue]

lemma isDigit_of_toDigits_eq_cons {n : ℕ} {c : Char} {cs : List Char}
    (h : Nat.toDigits 10 n = c :: cs) : c.isDigit = true :=
  Nat.isDigit_of_mem_toDigits (b := 10) (n := n) (by decide) (by decide) (by simp [h])

/-- Digits are read as the number that they stand for, if they are read at all. -/
lemma eq_of_digitsFrom {limit : ℕ} {beyond : Fault} {cs : List Char} {n m : ℕ}
    (h : digitsFrom limit beyond n cs = .ok m) : m = Nat.ofDigitChars 10 cs n := by
  induction cs generalizing n with
  | nil => exact (Except.ok.inj h).symm
  | cons c cs ih =>
    rw [digitsFrom] at h
    split at h
    · cases h
    · dsimp only at h
      split at h
      · cases h
      · exact (ih h).trans Nat.ofDigitChars_cons.symm

/-- A number of 64 bits without a sign is read back from its digits. -/
theorem parseNat_repr {n : ℕ} (hn : n ≤ greatestNat) : parseNat n.repr.toList = .ok n := by
  rw [Nat.toList_repr, parseNat.eq_def]
  split
  · next hnil => exact absurd hnil Nat.toDigits_ne_nil
  · next hplus => exact absurd (isDigit_of_toDigits_eq_cons hplus) (by decide)
  · exact digits_toDigits .tooLarge hn

/-- What is read from the digits of a number is the number. -/
lemma eq_of_parseNat_repr {n m : ℕ} (h : parseNat n.repr.toList = .ok m) : m = n := by
  rw [Nat.toList_repr, parseNat.eq_def] at h
  split at h
  · next hnil => exact absurd hnil Nat.toDigits_ne_nil
  · next hplus => exact absurd (isDigit_of_toDigits_eq_cons hplus) (by decide)
  · rw [digits, if_neg (by simp)] at h
    exact (eq_of_digitsFrom h).trans Nat.ofDigitChars_ten_toDigits

/-- A number of 64 bits is read back from its digits. -/
theorem parseInt_repr {n : ℤ} (hn : Fits n) : parseInt n.repr.toList = .ok n := by
  obtain ⟨hleast, hgreatest⟩ := hn
  cases n with
  | ofNat n =>
    have htext : (Int.ofNat n).repr.toList = Nat.toDigits 10 n := by
      simp [Int.repr, Nat.toList_repr]
    have hread : digits greatest .tooLarge (Nat.toDigits 10 n) = .ok n :=
      digits_toDigits .tooLarge (Int.ofNat_le.mp hgreatest)
    rw [htext, parseInt.eq_def]
    split
    · next hnil => exact absurd hnil Nat.toDigits_ne_nil
    · next hplus => exact absurd (isDigit_of_toDigits_eq_cons hplus) (by decide)
    · next hminus => exact absurd (isDigit_of_toDigits_eq_cons hminus) (by decide)
    · rw [hread]
      rfl
  | negSucc n =>
    have htext : (Int.negSucc n).repr.toList = '-' :: Nat.toDigits 10 (n + 1) := by
      simp [Int.repr, Nat.toList_repr]
    have hread : digits (greatest + 1) .tooSmall (Nat.toDigits 10 (n + 1)) = .ok (n + 1) :=
      digits_toDigits .tooSmall (by omega)
    rw [htext, parseInt, hread]
    rfl

end Integer

lemma FileType.parse_name (t : FileType) : FileType.parse t.name = .ok t := by
  cases t <;> rfl

/-- What is written of a chunk beside its source. -/
def Chunk.entries (c : Chunk) : List (String × String) :=
  [("file", c.file), ("type", c.fileType.name), ("path", c.path), ("summary", c.summary),
    ("startLine", c.start.line.repr), ("startColumn", c.start.column.repr),
    ("endLine", c.stop.line.repr), ("endColumn", c.stop.column.repr),
    ("parsedAt", c.parsedAt.repr)]

lemma Chunk.get?_metadata (c : Chunk) (name : String) :
    c.document.metadata.get? name = c.entries.reverse.lookup name :=
  Catalog.get?_ofList c.entries name

lemma StoredDocument.field_of_chunk {d : StoredDocument} {c : Chunk}
    (hd : d.toDocument = c.document) (name : String) {value : String}
    (hvalue : c.entries.reverse.lookup name = some value) : d.field name = .ok value := by
  rw [field, hd, Chunk.get?_metadata, hvalue]

/-- A number that is read from the document of a chunk is the one that was written. -/
lemma StoredDocument.natField_of_chunk {d : StoredDocument} {c : Chunk}
    (hd : d.toDocument = c.document) (name : String) {n m : ℕ}
    (hvalue : c.entries.reverse.lookup name = some n.repr) (hread : d.natField name = .ok m) :
    m = n := by
  obtain ⟨text, hfield, hread⟩ := Except.bind_eq_ok.mp hread
  obtain rfl := Except.ok.inj ((field_of_chunk hd name hvalue).symm.trans hfield)
  split at hread
  · next hnumber =>
    obtain rfl := Except.pure_eq_ok.mp hread
    exact Integer.eq_of_parseNat_repr hnumber
  · exact absurd hread Except.throw_ne_ok

/-- What is remembered of a chunk can be read from the document that keeps it. -/
theorem StoredDocument.cached_of_chunk {d : StoredDocument} {c : Chunk}
    (hd : d.toDocument = c.document) (htime : Integer.Fits c.parsedAt) :
    d.cached = .ok c.cached := by
  simp only [cached, fileType, parsedAt, readField, bind, Except.bind,
    field_of_chunk hd "type" rfl, field_of_chunk hd "path" rfl, field_of_chunk hd "parsedAt" rfl,
    FileType.parse_name, Integer.parseInt_repr htime]
  rfl

/-- The numbers of a chunk fit into 64 bits. -/
structure Chunk.Fits (c : Chunk) : Prop where
  parsedAt : Integer.Fits c.parsedAt
  startLine : c.start.line ≤ Integer.greatestNat
  startColumn : c.start.column ≤ Integer.greatestNat
  stopLine : c.stop.line ≤ Integer.greatestNat
  stopColumn : c.stop.column ≤ Integer.greatestNat

theorem StoredDocument.chunk_of_chunk {d : StoredDocument} {c : Chunk}
    (hd : d.toDocument = c.document) (hfits : c.Fits) : d.chunk = .ok c := by
  have hcontent : d.content = c.source := congrArg Document.content hd
  simp only [chunk, fileType, natField, parsedAt, readField, bind, Except.bind,
    field_of_chunk hd "file" rfl, field_of_chunk hd "type" rfl, field_of_chunk hd "path" rfl,
    field_of_chunk hd "summary" rfl, field_of_chunk hd "startLine" rfl,
    field_of_chunk hd "startColumn" rfl, field_of_chunk hd "endLine" rfl,
    field_of_chunk hd "endColumn" rfl, field_of_chunk hd "parsedAt" rfl, FileType.parse_name,
    Integer.parseNat_repr hfits.startLine, Integer.parseNat_repr hfits.startColumn,
    Integer.parseNat_repr hfits.stopLine, Integer.parseNat_repr hfits.stopColumn,
    Integer.parseInt_repr hfits.parsedAt, hcontent]
  rfl

/-- A search makes a hit of the document of a chunk. -/
theorem StoredDocument.hit_of_chunk {d : StoredDocument} {c : Chunk}
    (hd : d.toDocument = c.document) (hfits : c.Fits) (similarity : Single) :
    d.hit similarity =
      .ok ⟨c.id, c.fileType, c.summary, c.start.line, c.stop.line, similarity⟩ := by
  have hid : d.id = c.id := congrArg Document.id hd
  have hsummary : d.metadata.get? "summary" = some c.summary := by
    rw [hd, Chunk.get?_metadata]
    rfl
  simp only [hit, fileType, natField, readField, bind, Except.bind,
    field_of_chunk hd "type" rfl, field_of_chunk hd "startLine" rfl,
    field_of_chunk hd "endLine" rfl, FileType.parse_name,
    Integer.parseNat_repr hfits.startLine, Integer.parseNat_repr hfits.stopLine, hid, hsummary]
  rfl

end CodeSearch
