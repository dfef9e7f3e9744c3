import CodeSearch.Embedding.Table
import CodeSearch.Proofs.KeptWrites

/-!
# The documents most similar to a vector

A query by a vector answers with the first documents of a ranking of all that the store holds: the
more similar ones first, in the total order of the similarities, and equally similar ones in the
order of their identifiers. A query for more documents goes on where one for fewer ends.
-/
namespace CodeSearch

namespace Match

/-- One match comes before another if it is more similar, or as similar and its identifier comes
before the other one. -/
def Before (a b : Match) : Prop :=
  b.similarity.rank < a.similarity.rank ∨ (a.similarity = b.similarity ∧ a.id < b.id)

lemma before_of_precedes {a b : Match} (hab : a.precedes b = true) (hid : a.id ≠ b.id) :
    a.Before b := by
  rcases (precedes_iff a b).mp hab with hlt | ⟨hrank, hle⟩
  · exact .inl hlt
  · refine .inr ⟨Single.rank_inj.mp hrank, ?_⟩
    exact String.not_le.mp fun hge => hid (String.le_antisymm hle hge)

end Match

namespace Store

variable {s : Store} {x : Embedding}

/-- A store that can come about: made in memory, or opened on whatever its log is, and then changed
in any way with any vectors, while the place of a new log may be blocked and freed. -/
inductive Arises : Store → Prop
  | inMemory (e : Embedder) : Arises (.inMemory e)
  | opened {file : LogFile} {e : Embedder} {s : Store} (hopen : ofFile file e = .ok s) : Arises s
  | changed {s s' : Store} {c : Change} (h : Arises s) (hrun : s.change c = .ok s') : Arises s'
  | blocked {s : Store} (h : Arises s) (blocked : Bool) :
      Arises { s with log := s.log.map fun l => { l with file := { l.file with blocked } } }

lemma keyed_ofFile {file : LogFile} {e : Embedder} (hopen : ofFile file e = .ok s) :
    s.documents.Keyed := by
  obtain ⟨⟨documents, l⟩, hlog, heq⟩ := Except.bind_eq_ok.mp hopen
  obtain rfl := Except.pure_eq_ok.mp heq
  obtain ⟨r, hreplay, -⟩ := Except.bind_eq_ok.mp hlog
  obtain rfl := Log.documents_of_ofFile hreplay hlog
  unfold Replay.ofBytes at hreplay
  split at hreplay
  · obtain rfl := Except.ok.inj hreplay
    exact Replay.keyed_ofText _
  · cases hreplay

/-- Every document stands under its own identifier, however the store has come about. -/
lemma Arises.keyed (h : s.Arises) : s.documents.Keyed := by
  induction h with
  | inMemory e => exact nofun
  | opened hopen => exact keyed_ofFile hopen
  | changed _ hrun ih =>
    rcases change_cases hrun with rfl | ⟨-, rfl⟩ | ⟨-, l, l', -, -, rfl⟩
    · exact List.foldlRecOn _ _ ih fun _ hc r _ => Record.apply_keyed hc r
    · exact ih
    · exact ih
  | blocked _ _ ih => exact ih

/-- The documents of a store most similar to a vector, at most so many: as many as there are, each
of them once with its similarity, in order, and before all that are left out. -/
structure IsTop (s : Store) (x : Embedding) (count : ℕ) (found : List Match) : Prop where
  length : found.length = min count s.documents.size
  nodup : (found.map (·.id)).Nodup
  stored : ∀ a ∈ found, ∃ d, s.documents.get? a.id = some d ∧
    a.similarity = x.similarity d.embedding
  sorted : found.Pairwise Match.Before
  rest : ∀ id d, s.documents.get? id = some d → id ∉ found.map (·.id) →
    ∀ a ∈ found, a.Before ⟨id, x.similarity d.embedding⟩

lemma isTop_take {ranked : List Match} (hranked : Contents.IsRanking s.documents.get? x ranked)
    (hlength : ranked.length = s.documents.size) (count : ℕ) :
    s.IsTop x count (ranked.take count) := by
  have hfront : ranked.take count <+: ranked := List.take_prefix count ranked
  have hbefore : ranked.Pairwise Match.Before := by
    refine (hranked.sorted.and (List.pairwise_map.mp hranked.nodup)).imp fun {a b} hab => ?_
    exact Match.before_of_precedes hab.1 hab.2
  refine ⟨by rw [List.length_take, hlength], hranked.nodup.sublist (hfront.sublist.map _),
    fun a ha => (hranked.mem_iff a.id a.similarity).mp (hfront.mem ha),
    hbefore.sublist hfront.sublist, fun id d hd hid a ha => ?_⟩
  have hmem : ⟨id, x.similarity d.embedding⟩ ∈ ranked := (hranked.mem_iff id _).mpr ⟨d, hd, rfl⟩
  rw [← List.take_append_drop count ranked] at hmem hbefore
  rcases List.mem_append.mp hmem with hfound | hleft
  · exact absurd (List.mem_map_of_mem hfound) hid
  · exact (List.pairwise_append.mp hbefore).2.2 a ha _ hleft

/-- Queries by a vector of the right size answer with the documents most similar to it, and the
answer for fewer is the front of the answer for more; a vector of another size has no answer. -/
theorem queries_are_exact_top (h : s.Arises) (x : Embedding) :
    (x.length = s.embedder.dimensions → ∃ answer : ℕ → List Match,
      (∀ count, s.queryVector x count = .ok (answer count) ∧ s.IsTop x count (answer count)) ∧
      ∀ few many, few ≤ many → answer few <+: answer many) ∧
    (x.length ≠ s.embedder.dimensions → ∀ count,
      s.queryVector x count = .error (.dimensionMismatch s.embedder.dimensions x.length)) := by
  have hranking := isRanking_matchesOf h.keyed (fun _ => rfl) x
  obtain ⟨ranked, hranked, hanswer⟩ := (answers_of_holds h.keyed fun _ => rfl).queryVector x
  obtain rfl := hranked.unique hranking
  have hlength : ((s.matchesOf x).mergeSort Match.precedes).length = s.documents.size := by
    rw [List.length_mergeSort, matchesOf, List.length_map, Catalog.length_values]
  refine ⟨fun hsize => ⟨fun count => ((s.matchesOf x).mergeSort Match.precedes).take count,
    fun count => ⟨?_, isTop_take hranked hlength count⟩, fun few many hle => ?_⟩,
    fun hsize count => ?_⟩
  · exact (hanswer count).trans (if_pos hsize)
  · exact List.take_prefix_take_left hle
  · exact (hanswer count).trans (if_neg hsize)

/-- Two documents of one direction, and one that is infinitely long. -/
def threeDocuments : List Document :=
  [⟨"b", "one", .empty⟩, ⟨"long", "infinite", .empty⟩, ⟨"a", "one", .empty⟩]

/-- A store with these documents. -/
def threeStore : Store :=
  let table := .ofList [("one", [.ofNat 1]), ("infinite", [⟨0x7F800000⟩])]
  let s := Store.inMemory (.ofTable table 1)
  (s.add threeDocuments).toOption.getD s

lemma arises_threeStore : threeStore.Arises := by
  have hadd : (Store.inMemory threeStore.embedder).change (.add threeDocuments) =
      .ok threeStore := rfl
  exact .changed (.inMemory _) hadd

/-- The similarity to the long document is not a number, so that it comes last. -/
theorem threeStore_answers : threeStore.Arises ∧
    ([.ofNat 1] : Embedding).length = threeStore.embedder.dimensions ∧
    (∃ answer : ℕ → List Match, (∀ count, threeStore.queryVector [.ofNat 1] count =
        .ok (answer count) ∧ threeStore.IsTop [.ofNat 1] count (answer count)) ∧
      ∀ few many, few ≤ many → answer few <+: answer many) ∧
    threeStore.queryVector [.ofNat 1] 5 =
      .ok [⟨"a", .ofNat 1⟩, ⟨"b", .ofNat 1⟩, ⟨"long", .undefined⟩] ∧
    threeStore.queryVector [] 5 = .error (.dimensionMismatch 1 0) := by
  have hmatches : threeStore.matchesOf [.ofNat 1] =
      [⟨"a", .ofNat 1⟩, ⟨"b", .ofNat 1⟩, ⟨"long", .undefined⟩] := by decide +kernel
  refine ⟨arises_threeStore, rfl, (queries_are_exact_top arises_threeStore _).1 rfl, ?_,
    (queries_are_exact_top arises_threeStore []).2 (by decide) 5⟩
  have hsize : threeStore.checkSize [.ofNat 1] = .ok () := rfl
  rw [queryVector, hmatches, List.mergeSort_of_pairwise (by decide), hsize]
  rfl

end Store

end CodeSearch
