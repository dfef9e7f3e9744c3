import CodeSearch.Index.Basic
import CodeSearch.Proofs.ChunkNames
import CodeSearch.Proofs.StoreCalls

/-!
# Files in the store

A stored chunk belongs to the file that its metadata name, and its identifier begins with
that file. So chunks of different files never stand under the same identifier, and putting
chunks in place of those of one file leaves the other files alone.
-/
namespace CodeSearch

/-- The metadata name the file, and the identifier begins with it. -/
def Document.BelongsTo (file : String) (d : Document) : Prop :=
  (∃ path, ChunkId.split? d.id = some (file, path)) ∧ d.metadata.get? "file" = some file

namespace Document

lemma matches_fileFilter (d : Document) (file : String) :
    d.matchesFilter (Index.fileFilter file) = (d.metadata.get? "file" == some file) := by
  have hentries : (Index.fileFilter file).entries = [("file", file)] := rfl
  simp [matchesFilter, hentries]

/-- Documents of different files have different identifiers. -/
lemma BelongsTo.file_eq {d d' : Document} {file file' : String} (h : d.BelongsTo file)
    (h' : d'.BelongsTo file') (hid : d.id = d'.id) : file = file' := by
  obtain ⟨⟨path, hpath⟩, -⟩ := h
  obtain ⟨⟨path', hpath'⟩, -⟩ := h'
  rw [hid, hpath'] at hpath
  exact (Prod.mk.inj (Option.some.inj hpath)).1.symm

end Document

lemma Chunk.get?_file_document (c : Chunk) : c.document.metadata.get? "file" = some c.file := by
  rw [document, Catalog.get?_ofList]
  rfl

lemma Chunk.document_belongsTo {c : Chunk} (hfile : ChunkId.Separable c.file)
    (hlanguage : (Language.ofPath? c.file).isSome = true) : c.document.BelongsTo c.file := by
  have hsplit := ChunkId.split?_ofParts hfile (Language.getLast?_ne_colon hlanguage) c.path
  exact ⟨⟨c.path, hsplit⟩, c.get?_file_document⟩

namespace Contents

def ofFile (m : Contents) (file : String) : Contents := fun id =>
  (m id).filter fun d => d.metadata.get? "file" == some file

/-- Every document stands under its identifier and belongs to some file. -/
def Filed (m : Contents) : Prop :=
  ∀ id d, m id = some d → d.id = id ∧ ∃ file, d.BelongsTo file

/-- Put documents in place of those of a file. -/
def refile (m : Contents) (file : String) (documents : List StoredDocument) : Contents :=
  (m.drop (Index.fileFilter file)).put documents

variable {m : Contents} {file : String} {documents : List StoredDocument}

lemma refile_nil (m : Contents) (file : String) :
    m.refile file [] = m.drop (Index.fileFilter file) := by
  funext id
  simp [refile, put]

/-- Under an identifier stands one of the new documents or an old one of another file. -/
lemma refile_cases {id : String} {d : StoredDocument} (h : m.refile file documents id = some d) :
    (d ∈ documents ∧ d.id = id) ∨ (m id = some d ∧ d.metadata.get? "file" ≠ some file) := by
  rw [refile, put, Option.or_eq_some_iff] at h
  rcases h with hnew | ⟨-, hold⟩
  · have hid := List.find?_some hnew
    exact .inl ⟨List.mem_reverse.mp (List.mem_of_find?_eq_some hnew), by simpa using hid⟩
  · rw [drop, Option.filter_eq_some_iff, Document.matches_fileFilter] at hold
    exact .inr ⟨hold.1, by simpa using hold.2⟩

lemma Filed.refile (hm : m.Filed) (h : ∀ d ∈ documents, d.BelongsTo file) :
    (m.refile file documents).Filed := by
  intro id d hd
  rcases refile_cases hd with ⟨hmem, hid⟩ | ⟨hold, -⟩
  · exact ⟨hid, file, h d hmem⟩
  · exact hm id d hold

/-- Documents with different identifiers are found by them, from either end. -/
lemma find?_id_eq_some_iff (hids : (documents.map (·.id)).Nodup) (id : String)
    (d : StoredDocument) :
    (documents.find? fun d => d.id == id) = some d ↔ d ∈ documents ∧ d.id = id := by
  constructor
  · intro h
    exact ⟨List.mem_of_find?_eq_some h, by simpa using List.find?_some h⟩
  · rintro ⟨hmem, hid⟩
    cases hfind : documents.find? fun d => d.id == id with
    | none => exact absurd (beq_iff_eq.mpr hid) (List.find?_eq_none.mp hfind d hmem)
    | some d' =>
      have hid' : d'.id = id := by simpa using List.find?_some hfind
      rw [List.inj_on_of_nodup_map hids (List.mem_of_find?_eq_some hfind) hmem
        (hid'.trans hid.symm)]

lemma ofFile_refile (h : ∀ d ∈ documents, d.BelongsTo file)
    (hids : (documents.map (·.id)).Nodup) (id : String) :
    (m.refile file documents).ofFile file id = documents.find? fun d => d.id == id := by
  have hreverse : (documents.reverse.find? fun d => d.id == id) =
      documents.find? fun d => d.id == id := by
    refine Option.ext fun d => ?_
    have hids' : (documents.reverse.map (·.id)).Nodup := by
      rwa [List.map_reverse, List.nodup_reverse]
    rw [find?_id_eq_some_iff hids, find?_id_eq_some_iff hids', List.mem_reverse]
  rw [ofFile, Contents.refile, put, hreverse]
  cases hfind : documents.find? fun d => d.id == id with
  | some d =>
    have hd := h d (List.mem_of_find?_eq_some hfind)
    simp [hd.2]
  | none =>
    rw [Option.none_or, drop, Option.filter_filter, Option.filter_eq_none_iff]
    intro d hd
    simp [Document.matches_fileFilter]

lemma ofFile_drop_of_ne (m : Contents) {other : String} (hne : other ≠ file) :
    (m.drop (Index.fileFilter file)).ofFile other = m.ofFile other := by
  funext id
  rw [ofFile, drop, Option.filter_filter, ofFile]
  congr 1
  funext d
  rw [Document.matches_fileFilter]
  by_cases hd : d.metadata.get? "file" = some other
  · simp [hd, hne]
  · simp [hd]

lemma ofFile_refile_of_ne (hm : m.Filed) (h : ∀ d ∈ documents, d.BelongsTo file)
    {other : String} (hne : other ≠ file) :
    (m.refile file documents).ofFile other = m.ofFile other := by
  funext id
  rw [ofFile, Contents.refile, put]
  cases hfind : documents.reverse.find? fun d => d.id == id with
  | some d =>
    have hd := h d (List.mem_reverse.mp (List.mem_of_find?_eq_some hfind))
    have hid : d.id = id := by simpa using List.find?_some hfind
    have hnew : (some d).filter (fun d => d.metadata.get? "file" == some other) = none := by
      simp [Option.filter, hd.2, hne.symm]
    rw [Option.some_or, hnew, ofFile, eq_comm, Option.filter_eq_none_iff]
    -- an old document under the same identifier belongs to the same file
    intro e he
    obtain ⟨hide, file', hfile'⟩ := hm id e he
    have hsame := hfile'.file_eq hd (hide.trans hid.symm)
    simp [hfile'.2, hsame, hne.symm]
  | none =>
    rw [Option.none_or]
    exact congrFun (ofFile_drop_of_ne m hne) id

end Contents

end CodeSearch
