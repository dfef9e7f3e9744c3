import CodeSearch.Proofs.LogReplay
import CodeSearch.Store.Basic
import Mathlib.Data.Set.Card

/-!
# The store as a plain map

What a store holds is a map from identifiers to documents. Adding puts documents into the
map, of which the last of an identifier stays; deleting drops those that match a filter;
and everything that the store tells of its documents can be told from the map.
-/
namespace CodeSearch

namespace Match

lemma precedes_iff (a b : Match) : a.precedes b = true ↔
    b.similarity.rank < a.similarity.rank ∨
      (a.similarity.rank = b.similarity.rank ∧ a.id ≤ b.id) := by
  simp [precedes]

lemma precedes_trans {a b c : Match} (hab : a.precedes b = true) (hbc : b.precedes c = true) :
    a.precedes c = true := by
  rw [precedes_iff] at hab hbc ⊢
  rcases hab with hab | ⟨hab, hid⟩
  · rcases hbc with hbc | ⟨hbc, -⟩
    · exact .inl (hbc.trans hab)
    · exact .inl (hbc ▸ hab)
  · rcases hbc with hbc | ⟨hbc, hid'⟩
    · exact .inl (hab ▸ hbc)
    · exact .inr ⟨hab.trans hbc, String.le_trans hid hid'⟩

lemma precedes_total (a b : Match) : (a.precedes b || b.precedes a) = true := by
  rw [Bool.or_eq_true, precedes_iff, precedes_iff]
  rcases lt_trichotomy a.similarity.rank b.similarity.rank with h | h | h
  · exact .inr (.inl h)
  · exact (String.le_total a.id b.id).imp (fun hid => .inr ⟨h, hid⟩) fun hid => .inr ⟨h.symm, hid⟩
  · exact .inl (.inl h)

lemma precedes_antisymm {a b : Match} (hab : a.precedes b = true) (hba : b.precedes a = true) :
    a = b := by
  rw [precedes_iff] at hab hba
  obtain ⟨hrank, hid⟩ : a.similarity.rank = b.similarity.rank ∧ a.id ≤ b.id := by
    rcases hab with hab | hab
    · rcases hba with hba | hba <;> omega
    · exact hab
  have hid' : b.id ≤ a.id := by
    rcases hba with hba | hba
    · omega
    · exact hba.2
  cases a
  cases b
  simp only [Match.mk.injEq]
  exact ⟨String.le_antisymm hid hid', Single.rank_inj.mp hrank⟩

end Match

/-- The documents under their identifiers. -/
abbrev Contents := String → Option StoredDocument

namespace Contents

/-- Put documents into the map; the last of an identifier stays. -/
def put (m : Contents) (documents : List StoredDocument) : Contents := fun id =>
  (documents.reverse.find? fun d => d.id == id).or (m id)

/-- Drop the documents that match a filter. -/
def drop (m : Contents) (filter : Metadata) : Contents := fun id =>
  (m id).filter fun d => !d.matchesFilter filter

/-- The identifiers of the documents that match a filter. -/
def matching (m : Contents) (filter : Metadata) : Set String :=
  {id | ∃ d, m id = some d ∧ d.matchesFilter filter = true}

/-- All documents of the map, the most similar to a vector first and equally similar ones
in the order of their identifiers. -/
structure IsRanking (m : Contents) (x : Embedding) (ranked : List Match) : Prop where
  nodup : (ranked.map (·.id)).Nodup
  mem_iff : ∀ id similarity, ⟨id, similarity⟩ ∈ ranked ↔
    ∃ d, m id = some d ∧ similarity = x.similarity d.embedding
  sorted : ranked.Pairwise fun a b => a.precedes b = true

theorem IsRanking.unique {m : Contents} {x : Embedding} {a b : List Match}
    (ha : m.IsRanking x a) (hb : m.IsRanking x b) : a = b := by
  have hperm : a.Perm b := by
    rw [List.perm_ext_iff_of_nodup (List.Nodup.of_map _ ha.nodup) (List.Nodup.of_map _ hb.nodup)]
    rintro ⟨id, similarity⟩
    rw [ha.mem_iff, hb.mem_iff]
  exact hperm.eq_of_pairwise (fun _ _ _ _ => Match.precedes_antisymm) ha.sorted hb.sorted

end Contents

/-- A collection holds what a map says. -/
def Catalog.Holds (c : Catalog StoredDocument) (m : Contents) : Prop :=
  ∀ id, c.get? id = m id

namespace Record

lemma foldl_put_holds {c : Catalog StoredDocument} {m : Contents} (h : c.Holds m)
    (documents : List StoredDocument) :
    ((documents.map put).foldl apply c).Holds (m.put documents) := by
  induction documents generalizing c m with
  | nil =>
    intro id
    simp [Contents.put, h id]
  | cons d documents ih =>
    have hone : (apply c (put d)).Holds (m.put [d]) := by
      intro id
      rw [apply, Catalog.get?_insert, h id, Contents.put]
      by_cases hid : id = d.id
      · simp [hid]
      · simp [hid, Ne.symm hid]
    intro id
    rw [List.map_cons, List.foldl_cons, ih hone id]
    simp only [Contents.put, List.reverse_cons, List.reverse_nil, List.nil_append,
      List.find?_append, Option.or_assoc]

lemma get?_foldl_delete (ids : List String) (c : Catalog StoredDocument) (id : String) :
    ((ids.map delete).foldl apply c).get? id = if id ∈ ids then none else c.get? id := by
  induction ids generalizing c with
  | nil => simp
  | cons a ids ih =>
    rw [List.map_cons, List.foldl_cons, ih, apply, Catalog.get?_erase]
    by_cases ha : id = a <;> by_cases hmem : id ∈ ids <;> simp [ha, hmem]

end Record

namespace Store

variable {s : Store} {m : Contents}

lemma mem_matching_iff (hs : s.documents.Keyed) (h : s.documents.Holds m) (filter : Metadata)
    (id : String) : id ∈ s.matching filter ↔ id ∈ m.matching filter := by
  simp only [matching, List.mem_map, List.mem_filter, Catalog.mem_values_iff,
    Contents.matching, Set.mem_ofPred_eq]
  constructor
  · rintro ⟨d, ⟨⟨name, hname⟩, hfilter⟩, rfl⟩
    have hid := hs name d hname
    exact ⟨d, by rw [← h, hid, hname], hfilter⟩
  · rintro ⟨d, hd, hfilter⟩
    rw [← h] at hd
    exact ⟨d, ⟨⟨id, hd⟩, hfilter⟩, hs id d hd⟩

lemma nodup_values_map_id {c : Catalog StoredDocument} (hc : c.Keyed) :
    (c.values.map (·.id)).Nodup := by
  have hids : c.values.map (·.id) = c.names := by
    rw [Catalog.values, Catalog.names, List.map_map]
    refine List.map_congr_left fun e he => ?_
    exact hc e.1 e.2 ((c.mem_entries_iff e.1 e.2).mp he)
  rw [hids]
  exact c.nodup_names

lemma nodup_matching (hs : s.documents.Keyed) (filter : Metadata) : (s.matching filter).Nodup :=
  (nodup_values_map_id hs).sublist (List.filter_sublist.map _)

/-- As many identifiers are deleted as the map has documents that match. -/
lemma length_matching (hs : s.documents.Keyed) (h : s.documents.Holds m) (filter : Metadata) :
    (s.matching filter).length = (m.matching filter).ncard := by
  have hset : m.matching filter = ((s.matching filter).toFinset : Set String) := by
    ext id
    rw [List.coe_toFinset, Set.mem_ofPred_eq, mem_matching_iff hs h]
  rw [hset, Set.ncard_coe_finset, List.toFinset_card_of_nodup (nodup_matching hs filter)]

lemma foldl_delete_holds (hs : s.documents.Keyed) (h : s.documents.Holds m) (filter : Metadata) :
    (((s.matching filter).map .delete).foldl Record.apply s.documents).Holds (m.drop filter) := by
  intro id
  rw [Record.get?_foldl_delete, h id, Contents.drop]
  cases hm : m id with
  | none => simp
  | some d =>
    have hiff : id ∈ s.matching filter ↔ d.matchesFilter filter = true := by
      rw [mem_matching_iff hs h]
      simp [Contents.matching, hm]
    cases hd : d.matchesFilter filter <;> simp [hiff, hd, Option.filter]

/-- What a store answers is what the map says. -/
structure Answers (s : Store) (m : Contents) : Prop where
  get? : ∀ id, DocumentStore.get? s id = m id
  sorted : (DocumentStore.ids s).Pairwise (· < ·)
  mem_ids : ∀ id, id ∈ DocumentStore.ids s ↔ (m id).isSome = true
  size : s.documents.size = {id | (m id).isSome = true}.ncard
  queryVector : ∀ x, ∃ ranked, m.IsRanking x ranked ∧ ∀ count,
    DocumentStore.queryVector s x count =
      if x.length = s.embedder.dimensions then .ok (ranked.take count)
      else .error (.dimensionMismatch s.embedder.dimensions x.length)

lemma isRanking_matchesOf (hs : s.documents.Keyed) (h : s.documents.Holds m) (x : Embedding) :
    m.IsRanking x ((s.matchesOf x).mergeSort Match.precedes) := by
  refine ⟨?_, fun id similarity => ?_, ?_⟩
  · have hids : (s.matchesOf x).map (·.id) = s.documents.values.map (·.id) := by
      simp [matchesOf, Function.comp_def]
    have hperm := ((s.matchesOf x).mergeSort_perm Match.precedes).map (·.id)
    rw [hperm.nodup_iff, hids]
    exact nodup_values_map_id hs
  · simp only [List.mem_mergeSort, matchesOf, List.mem_map, Catalog.mem_values_iff,
      Match.mk.injEq]
    constructor
    · rintro ⟨d, ⟨name, hname⟩, rfl, rfl⟩
      have hid := hs name d hname
      exact ⟨d, by rw [← h, hid, hname], rfl⟩
    · rintro ⟨d, hd, rfl⟩
      rw [← h] at hd
      exact ⟨d, ⟨id, hd⟩, hs id d hd, rfl⟩
  · exact List.pairwise_mergeSort (fun a b c => @Match.precedes_trans a b c)
      Match.precedes_total (s.matchesOf x)

theorem answers_of_holds (hs : s.documents.Keyed) (h : s.documents.Holds m) : s.Answers m where
  get? := h
  sorted := s.documents.pairwise_names
  mem_ids id := by rw [← h]; exact s.documents.mem_names_iff id
  size := by
    have hset : {id | (m id).isSome = true} = (s.documents.names.toFinset : Set String) := by
      ext id
      rw [List.coe_toFinset, Set.mem_ofPred_eq, Set.mem_ofPred_eq, Catalog.mem_names_iff, h]
    rw [hset, Set.ncard_coe_finset, List.toFinset_card_of_nodup s.documents.nodup_names,
      Catalog.length_names]
  queryVector x := by
    refine ⟨_, isRanking_matchesOf hs h x, fun count => ?_⟩
    have hquery : DocumentStore.queryVector s x count = s.queryVector x count := rfl
    rw [hquery, Store.queryVector, checkSize]
    split <;> rfl

end Store

end CodeSearch
