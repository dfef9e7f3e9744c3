import CodeSearch.Proofs.Outcomes
import CodeSearch.Proofs.PlainMap

/-!
# Calls of the store

What a call of the store comes to: when it is refused, and what the map of the documents
becomes when it is not.
-/
namespace CodeSearch

/-- The vectors that an embedder makes of documents: one for each, of the promised size. -/
def Embedder.Fits (e : Embedder) (documents : List Document) (vectors : List Embedding) : Prop :=
  e.embedBatch (documents.map (·.content)) = .ok vectors ∧ vectors.length = documents.length ∧
    ∀ x ∈ vectors, x.length = e.dimensions

/-- An embedder makes fitting vectors of documents, if there are any. -/
def Embedder.Takes (e : Embedder) (documents : List Document) : Prop :=
  documents = [] ∨ ∃ vectors, e.Fits documents vectors

namespace Store

lemma checkSize_eq_ok (s : Store) (x : Embedding) :
    s.checkSize x = .ok () ↔ x.length = s.embedder.dimensions := by
  unfold checkSize
  split <;> simp [*]

lemma embedAll_eq_ok {s : Store} {documents : List Document} {vectors : List Embedding} :
    s.embedAll documents = .ok vectors ↔ s.embedder.Fits documents vectors := by
  unfold embedAll Embedder.Fits
  rw [Except.bind_eq_ok]
  constructor
  · rintro ⟨made, hbatch, h⟩
    by_cases hlength : made.length = documents.length
    · rw [if_neg (not_not.mpr hlength)] at h
      obtain ⟨_, hsizes, h⟩ := Except.bind_eq_ok.mp h
      obtain rfl := Except.pure_eq_ok.mp h
      refine ⟨hbatch, hlength, fun x hx => ?_⟩
      exact (s.checkSize_eq_ok x).mp (Except.forM_eq_ok.mp hsizes x hx)
    · rw [if_pos hlength] at h
      obtain ⟨_, hthrow, -⟩ := Except.bind_eq_ok.mp h
      exact absurd hthrow Except.throw_ne_ok
  · rintro ⟨hbatch, hlength, hsizes⟩
    refine ⟨vectors, hbatch, ?_⟩
    rw [if_neg (not_not.mpr hlength)]
    refine Except.bind_eq_ok.mpr ⟨(), Except.forM_eq_ok.mpr fun x hx => ?_, rfl⟩
    exact (s.checkSize_eq_ok x).mpr (hsizes x hx)

def embedded (documents : List Document) (vectors : List Embedding) : List StoredDocument :=
  List.zipWith (fun d x => { d with embedding := x }) documents vectors

lemma embedding_mem_of_mem_embedded {documents : List Document} {vectors : List Embedding}
    {d : StoredDocument} (hd : d ∈ embedded documents vectors) : d.embedding ∈ vectors := by
  rw [embedded, ← List.map_uncurry_zip_eq_zipWith] at hd
  obtain ⟨⟨d', x⟩, hpair, rfl⟩ := List.mem_map.mp hd
  exact (List.of_mem_zip hpair).2

/-- Adding succeeds exactly if the embedder makes fitting vectors, or for no documents. -/
lemma add_cases (s : Store) (documents : List Document) :
    (documents = [] ∧ s.add documents = .ok s) ∨
    (∃ vectors, s.embedder.Fits documents vectors ∧
      s.add documents = .ok (s.commit ((embedded documents vectors).map .put))) ∨
    (documents ≠ [] ∧ (¬∃ vectors, s.embedder.Fits documents vectors) ∧
      ∃ e, s.add documents = .error e) := by
  by_cases hnil : documents = []
  · exact .inl ⟨hnil, by simp [add, hnil]⟩
  have hcons : documents.isEmpty = false := by simpa using hnil
  cases hembed : s.embedAll documents with
  | ok vectors =>
    refine .inr (.inl ⟨vectors, embedAll_eq_ok.mp hembed, ?_⟩)
    simp only [add, hcons, Bool.false_eq_true, ↓reduceIte, hembed, embedded, List.map_zipWith]
    rfl
  | error e =>
    refine .inr (.inr ⟨hnil, ?_, e, ?_⟩)
    · rintro ⟨vectors, hfits⟩
      rw [embedAll_eq_ok.mpr hfits] at hembed
      cases hembed
    · simp only [add, hcons, Bool.false_eq_true, ↓reduceIte, hembed]
      rfl

/-- Deleting by an empty filter is refused. Otherwise nothing is written if no document
matches. -/
lemma delete_eq (s : Store) (filter : Metadata) : s.delete filter =
    if filter.entries = [] then .error (.invalidFilter "refusing to delete with an empty filter")
    else if s.matching filter = [] then .ok (0, s)
    else .ok ((s.matching filter).length, s.commit ((s.matching filter).map .delete)) := by
  simp only [delete, List.isEmpty_iff]

lemma exists_put_of_add {s s' : Store} {documents : List Document}
    (h : s.add documents = .ok s') : ∃ stored : List StoredDocument,
      stored.map (·.toDocument) = documents ∧
      s'.documents.Holds (Contents.put s.documents.get? stored) := by
  have hself : s.documents.Holds s.documents.get? := fun _ => rfl
  rcases s.add_cases documents with ⟨rfl, hadd⟩ | ⟨vectors, hfits, hadd⟩ | ⟨-, -, e, hadd⟩
  · obtain rfl := Except.ok.inj (hadd.symm.trans h)
    exact ⟨[], rfl, fun id => by simp [Contents.put]⟩
  · obtain rfl := Except.ok.inj (hadd.symm.trans h)
    refine ⟨embedded documents vectors, ?_, Record.foldl_put_holds hself _⟩
    rw [embedded, ← List.map_uncurry_zip_eq_zipWith, List.map_map]
    exact List.map_fst_zip hfits.2.1.ge
  · rw [hadd] at h
    cases h

/-- Documents that match a filter are dropped from the map; a filter with an entry is never
refused. -/
lemma exists_drop_of_delete {s : Store} (hs : s.documents.Keyed) {filter : Metadata}
    (hfilter : filter.entries ≠ []) : ∃ count s', s.delete filter = .ok (count, s') ∧
      s'.documents.Holds (Contents.drop s.documents.get? filter) := by
  have hdropped := foldl_delete_holds hs (fun _ => rfl) filter
  rw [delete_eq, if_neg hfilter]
  by_cases hnone : s.matching filter = []
  · rw [hnone] at hdropped
    rw [if_pos hnone]
    exact ⟨0, s, rfl, hdropped⟩
  · rw [if_neg hnone]
    exact ⟨_, _, rfl, hdropped⟩

lemma embedder_of_delete {s s' : Store} {filter : Metadata} {count : ℕ}
    (h : s.delete filter = .ok (count, s')) : s'.embedder = s.embedder := by
  rw [delete_eq] at h
  split at h
  · cases h
  · split at h
    · obtain ⟨-, rfl⟩ := Prod.mk.inj (Except.ok.inj h)
      rfl
    · obtain ⟨-, rfl⟩ := Prod.mk.inj (Except.ok.inj h)
      rfl

lemma embedder_of_add {s s' : Store} {documents : List Document}
    (h : s.add documents = .ok s') :
    s'.embedder = s.embedder := by
  rcases s.add_cases documents with ⟨-, hadd⟩ | ⟨vectors, -, hadd⟩ | ⟨-, -, e, hadd⟩
  · obtain rfl := Except.ok.inj (hadd.symm.trans h)
    rfl
  · obtain rfl := Except.ok.inj (hadd.symm.trans h)
    rfl
  · rw [hadd] at h
    cases h

lemma exists_add {s : Store} {documents : List Document}
    (hs : s.embedder.Takes documents) : ∃ s', s.add documents = .ok s' := by
  rcases s.add_cases documents with ⟨-, hadd⟩ | ⟨vectors, -, hadd⟩ | ⟨hcons, hfits, -⟩
  · exact ⟨s, hadd⟩
  · exact ⟨_, hadd⟩
  · exact absurd hs (not_or.mpr ⟨hcons, hfits⟩)

end Store

end CodeSearch
