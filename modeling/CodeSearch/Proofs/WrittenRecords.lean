import CodeSearch.Proofs.Catalogs
import CodeSearch.Proofs.WrittenJson
import CodeSearch.Store.Record

/-!
# Written records read back

A record is read back from its line: the texts and the metadata as they are, and the
embedding bit by bit, as long as it is finite. A line holds no newline.
-/
namespace CodeSearch

open Json Json.Reader Json.Writer

def Embedding.IsFinite (x : Embedding) : Prop :=
  ∀ a ∈ x, a.isFinite = true

namespace Record

/-- The numbers that a record writes are finite. -/
def IsFinite : Record → Prop
  | put d => d.embedding.IsFinite
  | delete _ => True

/-- The value that a document is written as, with these numerals for its embedding. -/
def jsonOf (d : StoredDocument) (numerals : List Decimal) : Json :=
  .object [("id", .string d.id), ("content", .string d.content),
    ("metadata", .object (d.metadata.entries.map fun e => (e.1, .string e.2))),
    ("embedding", .array (numerals.map .number))]

lemma exists_numerals (depth : ℕ) {x : Embedding} (hx : x.IsFinite) :
    ∃ numerals : List Decimal, numerals.map Decimal.toSingle = x ∧
      List.Forall₂ (Reads depth) (x.map ofSingle) (numerals.map .number) := by
  induction x with
  | nil => exact ⟨[], rfl, .nil⟩
  | cons a x ih =>
    obtain ⟨d, hd, hread⟩ := exists_reads_ofSingle depth (hx a List.mem_cons_self)
    obtain ⟨numerals, hmap, hall⟩ := ih fun b hb => hx b (List.mem_cons_of_mem a hb)
    exact ⟨d :: numerals, by rw [List.map_cons, hd, hmap], .cons hread hall⟩

lemma reads_metadata (depth : ℕ) (entries : List (String × String)) :
    Reads (depth + 1) (ofMembers (entries.map fun e => (e.1, ofString e.2)))
      (.object (entries.map fun e => (e.1, .string e.2))) := by
  refine reads_ofMembers ?_
  induction entries with
  | nil => exact .nil
  | cons e entries ih => exact .cons ⟨rfl, reads_ofString depth e.2⟩ ih

lemma exists_reads_ofDocument (depth : ℕ) {d : StoredDocument} (hd : d.embedding.IsFinite) :
    ∃ numerals : List Decimal, numerals.map Decimal.toSingle = d.embedding ∧
      Reads (depth + 2) (ofDocument d) (jsonOf d numerals) := by
  obtain ⟨numerals, hmap, hall⟩ := exists_numerals depth hd
  exact ⟨numerals, hmap, reads_ofMembers (.cons ⟨rfl, reads_ofString _ d.id⟩
    (.cons ⟨rfl, reads_ofString _ d.content⟩ (.cons ⟨rfl, reads_metadata depth _⟩
      (.cons ⟨rfl, reads_ofItems hall⟩ .nil))))⟩

/-- Reading all of what was made of some items gives what each of them is read as. -/
lemma mapM_map {α β γ : Type} (read : β → Option γ) (make : α → β) (result : α → γ)
    (h : ∀ a, read (make a) = some (result a)) (l : List α) :
    (l.map make).mapM read = some (l.map result) := by
  induction l with
  | nil => rfl
  | cons a l ih => simp [h, ih]

lemma metadata?_entries (m : Metadata) :
    metadata? (.object (m.entries.map fun e => (e.1, .string e.2))) = some m := by
  have hentries := mapM_map (fun e : String × Json => e.2.string?.map fun s => (e.1, s))
    (fun e : String × String => (e.1, .string e.2)) id (fun _ => rfl) m.entries
  rw [metadata?, hentries, List.map_id, Option.bind_eq_bind, Option.bind_some,
    Catalog.ofList_entries]
  rfl

lemma embedding?_numerals (numerals : List Decimal) :
    embedding? (.array (numerals.map .number)) = some (numerals.map Decimal.toSingle) := by
  rw [embedding?]
  exact mapM_map _ Json.number Decimal.toSingle (fun _ => rfl) numerals

lemma document?_jsonOf {d : StoredDocument} {numerals : List Decimal}
    (h : numerals.map Decimal.toSingle = d.embedding) :
    document? (jsonOf d numerals) = some d := by
  simp [document?, jsonOf, only?, Json.string?, metadata?_entries, embedding?_numerals, h]

/-- A record is read back from its line. -/
theorem parse?_print {r : Record} (hr : r.IsFinite) : parse? r.print = some r := by
  cases r with
  | put d =>
    obtain ⟨numerals, hmap, hread⟩ := exists_reads_ofDocument 124 hr
    have hline : Reads depthLimit (print (.put d)) (.object [("put", jsonOf d numerals)]) :=
      reads_ofMembers (.cons ⟨rfl, hread⟩ .nil)
    rw [parse?, parse?_of_reads hline, Option.bind_some, ofJson?, if_pos rfl,
      document?_jsonOf hmap, Option.map_some]
  | delete id =>
    have hline : Reads depthLimit (print (.delete id)) (.object [("delete", .string id)]) :=
      reads_ofMembers (.cons ⟨rfl, reads_ofString 126 id⟩ .nil)
    rw [parse?, parse?_of_reads hline, Option.bind_some, ofJson?, if_neg (by decide), if_pos rfl]
    rfl

end Record

namespace Json.Writer

lemma newline_not_mem_ofChar (c : Char) : '\n' ∉ ofChar c := by
  have hhex : ∀ n < 16, '\n' ≠ hexDigit n := by decide
  have hhigh : ∀ h : c.toNat < 0x20, '\n' ≠ hexDigit (c.toNat / 16) := fun h =>
    hhex _ (by omega)
  have hlow : '\n' ≠ hexDigit (c.toNat % 16) := hhex _ (by omega)
  unfold ofChar
  split_ifs with _ _ _ _ hnewline _ _ hcontrol
  all_goals first | decide | skip
  · simp [hhigh hcontrol, hlow]
  · simpa using Ne.symm hnewline

lemma newline_not_mem_ofString (s : String) : '\n' ∉ ofString s := by
  simp [ofString, newline_not_mem_ofChar]

lemma newline_not_mem_commas {texts : List (List Char)} (h : ∀ t ∈ texts, '\n' ∉ t) :
    '\n' ∉ commas texts := by
  induction texts with
  | nil => simp [commas]
  | cons t texts ih =>
    rw [List.forall_mem_cons] at h
    cases texts with
    | nil => simpa [commas] using h.1
    | cons t' texts => simpa [commas_cons_cons, h.1] using ih h.2

lemma newline_not_mem_ofMembers {ms : List (String × List Char)} (h : ∀ m ∈ ms, '\n' ∉ m.2) :
    '\n' ∉ ofMembers ms := by
  have hmembers : '\n' ∉ commas (ms.map memberText) := by
    refine newline_not_mem_commas fun t ht => ?_
    obtain ⟨m, hm, rfl⟩ := List.mem_map.mp ht
    simp [memberText, newline_not_mem_ofString, h m hm]
  simp [ofMembers_eq, hmembers]

lemma newline_not_mem_ofItems {texts : List (List Char)} (h : ∀ t ∈ texts, '\n' ∉ t) :
    '\n' ∉ ofItems texts := by
  simp [ofItems, newline_not_mem_commas h]

end Json.Writer

namespace Record

lemma newline_not_mem_ofDocument (d : StoredDocument) : '\n' ∉ ofDocument d := by
  have hmetadata : ∀ m ∈ d.metadata.entries.map (fun e => (e.1, ofString e.2)), '\n' ∉ m.2 := by
    intro m hm
    obtain ⟨e, -, rfl⟩ := List.mem_map.mp hm
    exact newline_not_mem_ofString e.2
  have hembedding : ∀ t ∈ d.embedding.map ofSingle, '\n' ∉ t := by
    intro t ht
    obtain ⟨x, -, rfl⟩ := List.mem_map.mp ht
    exact newline_not_mem_ofSingle x
  refine newline_not_mem_ofMembers ?_
  simp [newline_not_mem_ofString, newline_not_mem_ofMembers hmetadata,
    newline_not_mem_ofItems hembedding]

theorem newline_not_mem_print (r : Record) : '\n' ∉ r.print := by
  cases r with
  | put d => exact newline_not_mem_ofMembers (by simp [newline_not_mem_ofDocument])
  | delete id => exact newline_not_mem_ofMembers (by simp [newline_not_mem_ofString])

lemma exists_print (r : Record) : ∃ inner, r.print = '{' :: (inner ++ ['}']) := by
  cases r with
  | put d => exact ⟨_, rfl⟩
  | delete id => exact ⟨_, rfl⟩

end Record

end CodeSearch
