import CodeSearch.Embedding.Table
import CodeSearch.Index.Basic
import CodeSearch.Proofs.StoreCalls

/-!
# Results of a search

A search asks the store for its candidates: the documents most similar to the query,
whatever their types are and whether or not they can be read. Its results are the best ones
among the candidates. They stand at the front of the list that a search through the whole
store would give, and they are cut short only where the candidates run out.
-/
namespace CodeSearch

namespace Hit

/-- More similar hits come first, equally similar ones in the order of their identifiers. -/
def Precedes (a b : Hit) : Prop :=
  b.similarity.rank < a.similarity.rank ∨ (a.similarity = b.similarity ∧ a.id ≤ b.id)

/-- Sorted candidates above the floor are read to their end or until the room is full. -/
lemma collect_eq {o : SearchOptions} {hits : List Hit}
    (hfloor : ∀ h ∈ hits, h.similarity.below o.minSimilarity = false) (room : ℕ) :
    collect o room hits = (hits.filter o.admits).take room := by
  induction hits generalizing room with
  | nil => cases room <;> simp [collect]
  | cons h hits ih =>
    rw [List.forall_mem_cons] at hfloor
    cases room with
    | zero => simp [collect]
    | succ room =>
      rw [collect, hfloor.1, if_neg Bool.false_ne_true, ih hfloor.2, ih hfloor.2]
      cases hadmits : o.admits h with
      | true => rw [if_pos rfl, List.filter_cons_of_pos hadmits, List.take_succ_cons]
      | false => rw [if_neg Bool.false_ne_true, List.filter_cons_of_neg (by simp [hadmits])]

end Hit

namespace StoredDocument

lemma hit_eq_ok {d : StoredDocument} {similarity : Single} {h : Hit}
    (hhit : d.hit similarity = .ok h) : h.id = d.id ∧ h.similarity = similarity := by
  obtain ⟨fileType, -, hhit⟩ := Except.bind_eq_ok.mp hhit
  obtain ⟨first, -, hhit⟩ := Except.bind_eq_ok.mp hhit
  obtain ⟨last, -, hhit⟩ := Except.bind_eq_ok.mp hhit
  obtain rfl := Except.pure_eq_ok.mp hhit
  exact ⟨rfl, rfl⟩

end StoredDocument

namespace Contents

/-- A hit on a stored chunk that a search for a vector may give: the chunk is readable, of a
wanted type, not below the floor, and not the one that is left out. -/
structure IsResult (m : Contents) (v : Embedding) (o : SearchOptions) (h : Hit) : Prop where
  stored : ∃ d, m h.id = some d ∧ d.hit (v.similarity d.embedding) = .ok h
  floor : h.similarity.below o.minSimilarity = false
  allowed : o.allows h.fileType = true
  notExcluded : o.excluded ≠ some h.id

/-- The results among some chunks, the best ones first. -/
structure IsListing (m : Contents) (v : Embedding) (o : SearchOptions) (ids : Set String)
    (hits : List Hit) : Prop where
  nodup : (hits.map (·.id)).Nodup
  mem_iff : ∀ h, h ∈ hits ↔ m.IsResult v o h ∧ h.id ∈ ids
  sorted : hits.Pairwise Hit.Precedes

end Contents

namespace Index

variable {x : Index Store} {v : Embedding} {o : SearchOptions} {found : List Match} {h : Hit}

/-- The results among some matches, in their order. -/
def resultsOf (x : Index Store) (o : SearchOptions) (found : List Match) : List Hit :=
  (found.filterMap (x.hit? o)).filter o.admits

lemma hit?_eq_some_iff {a : Match} : x.hit? o a = some h ↔
    a.similarity.below o.minSimilarity = false ∧
      ∃ d, x.store.documents.get? a.id = some d ∧ d.hit a.similarity = .ok h := by
  have hget : DocumentStore.get? x.store a.id = x.store.documents.get? a.id := rfl
  have hok (y : Except CorruptDocument Hit) : y.toOption = some h ↔ y = .ok h := by
    cases y <;> simp [Except.toOption]
  rw [hit?, hget]
  cases a.similarity.below o.minSimilarity with
  | true => simp
  | false => simp [Option.bind_eq_some_iff, hok]

lemma id_of_hit? (hx : x.store.documents.Keyed) {a : Match} (hhit : x.hit? o a = some h) :
    h.id = a.id ∧ h.similarity = a.similarity := by
  obtain ⟨-, d, hd, hok⟩ := hit?_eq_some_iff.mp hhit
  obtain ⟨hid, hsimilarity⟩ := StoredDocument.hit_eq_ok hok
  exact ⟨hid.trans (hx a.id d hd), hsimilarity⟩

/-- The results among the first matches of a ranking are listed in their order. -/
lemma isListing_resultsOf (hx : x.store.documents.Keyed) {ranked : List Match}
    (hranked : Contents.IsRanking x.store.documents.get? v ranked) (hfound : found <+: ranked) :
    Contents.IsListing x.store.documents.get? v o {id | ∃ a ∈ found, a.id = id}
      (x.resultsOf o found) := by
  have hids : found.Pairwise fun a b => a.id ≠ b.id :=
    (List.pairwise_map.mp hranked.nodup).sublist hfound.sublist
  have hsorted := hranked.sorted.sublist hfound.sublist
  refine ⟨?_, fun h => ?_, ?_⟩
  · refine List.pairwise_map.mpr ((hids.filterMap (x.hit? o) ?_).filter o.admits)
    intro a b hab h hh h' hh'
    rwa [(id_of_hit? hx hh).1, (id_of_hit? hx hh').1]
  · rw [resultsOf, List.mem_filter, List.mem_filterMap]
    constructor
    · rintro ⟨⟨a, ha, hhit⟩, hadmits⟩
      obtain ⟨hfloor, d, hd, hok⟩ := hit?_eq_some_iff.mp hhit
      obtain ⟨hid, hsimilarity⟩ := id_of_hit? hx hhit
      obtain ⟨d', hd', hrank⟩ := (hranked.mem_iff a.id a.similarity).mp (hfound.mem ha)
      obtain rfl := Option.some.inj (hd.symm.trans hd')
      have hallowed : o.excluded ≠ some h.id ∧ o.allows h.fileType = true := by
        simpa [SearchOptions.admits] using hadmits
      refine ⟨⟨⟨d, hid ▸ hd, hrank ▸ hok⟩, hsimilarity ▸ hfloor, hallowed.2, hallowed.1⟩, ?_⟩
      exact ⟨a, ha, hid.symm⟩
    · rintro ⟨hresult, a, ha, hid⟩
      obtain ⟨d, hd, hok⟩ := hresult.stored
      obtain ⟨d', hd', hrank⟩ := (hranked.mem_iff a.id a.similarity).mp (hfound.mem ha)
      rw [hid, hd] at hd'
      obtain rfl := Option.some.inj hd'
      have hsimilarity := (StoredDocument.hit_eq_ok hok).2.trans hrank.symm
      refine ⟨⟨a, ha, hit?_eq_some_iff.mpr ⟨hsimilarity ▸ hresult.floor, d, hid ▸ hd, ?_⟩⟩, ?_⟩
      · rwa [hrank]
      · simp [SearchOptions.admits, hresult.notExcluded, hresult.allowed]
  · refine (hsorted.filterMap (x.hit? o) ?_).filter o.admits
    intro a b hab h hh h' hh'
    obtain ⟨hid, hsimilarity⟩ := id_of_hit? hx hh
    obtain ⟨hid', hsimilarity'⟩ := id_of_hit? hx hh'
    rw [Match.precedes_iff, Single.rank_inj] at hab
    rwa [Hit.Precedes, hid, hid', hsimilarity, hsimilarity']

/-- The results are the best ones among the matches that the store has found. -/
lemma rankMatches_eq (hx : x.store.documents.Keyed)
    (hfound : found.Pairwise fun a b => a.precedes b = true) :
    x.rankMatches o found = (x.resultsOf o found).take o.maxResults := by
  have hsorted : (found.filterMap (x.hit? o)).Pairwise fun a b => a.atLeast b = true := by
    refine hfound.filterMap (x.hit? o) fun a b hab h hh h' hh' => ?_
    rw [Hit.atLeast, (id_of_hit? hx hh).2, (id_of_hit? hx hh').2, decide_eq_true_eq]
    rcases (Match.precedes_iff a b).mp hab with hlt | ⟨heq, -⟩
    · exact hlt.le
    · exact heq.ge
  have hfloor : ∀ h ∈ found.filterMap (x.hit? o), h.similarity.below o.minSimilarity = false := by
    intro h hh
    obtain ⟨a, -, hhit⟩ := List.mem_filterMap.mp hh
    rw [(id_of_hit? hx hhit).2]
    exact (hit?_eq_some_iff.mp hhit).1
  rw [rankMatches, Hit.rank, List.mergeSort_of_pairwise hsorted, Hit.collect_eq hfloor, resultsOf]

lemma isListing_ranked (hx : x.store.documents.Keyed) {ranked : List Match}
    (hranked : Contents.IsRanking x.store.documents.get? v ranked) :
    Contents.IsListing x.store.documents.get? v o Set.univ (x.resultsOf o ranked) := by
  have hall := isListing_resultsOf (o := o) hx hranked (List.prefix_refl ranked)
  refine ⟨hall.nodup, fun h => ?_, hall.sorted⟩
  rw [hall.mem_iff]
  refine and_congr_right fun hresult => iff_of_true ?_ trivial
  obtain ⟨d, hd, -⟩ := hresult.stored
  exact ⟨⟨h.id, v.similarity d.embedding⟩, (hranked.mem_iff _ _).mpr ⟨d, hd, rfl⟩, rfl⟩

/-- The front of a list fills an answer as the whole list does if it is long enough or has
all there is. -/
lemma take_eq_of_front {found all : List Hit} (hfront : found <+: all) (hall : all.Nodup)
    {room : ℕ} (henough : room ≤ found.length ∨ ∀ h ∈ all, h ∈ found) :
    found.take room = all.take room := by
  rcases henough with hroom | hmem
  · obtain ⟨rest, rfl⟩ := hfront
    rw [List.take_append_of_le_length hroom]
  · have hlength : all.length ≤ found.length := hall.length_le_of_subset hmem
    rw [hfront.eq_of_length (hfront.length_le.antisymm hlength)]

/-- A search reads its results off the first documents of the ranking. -/
lemma search_eq_of_ranking (hx : x.store.documents.Keyed) {query : String}
    (hquery : x.store.embedder.embed query = .ok v)
    (hsize : v.length = x.store.embedder.dimensions) {ranked : List Match}
    (hranked : Contents.IsRanking x.store.documents.get? v ranked) (o : SearchOptions) :
    x.search query o =
      .ok ((x.resultsOf o (ranked.take o.candidateCount)).take o.maxResults) := by
  obtain ⟨ranked', hranked', hanswer⟩ :=
    (Store.answers_of_holds hx fun _ => rfl).queryVector v
  obtain rfl := hranked.unique hranked'
  have hfound : DocumentStore.query x.store query o.candidateCount =
      .ok (ranked.take o.candidateCount) := by
    have hvector := hanswer o.candidateCount
    rw [if_pos hsize] at hvector
    exact Except.bind_eq_ok.mpr ⟨v, hquery, hvector⟩
  have hsorted := hranked.sorted.sublist (List.take_sublist o.candidateCount ranked)
  rw [search, hfound]
  dsimp only
  rw [rankMatches_eq hx hsorted]

/-- A search answers with the best results among its candidates. They come first among all
results that the store has, so nothing is missing as long as the candidates fill the answer or
no result lies behind them. -/
structure AnswersBest (x : Index Store) (query : String) (v : Embedding) (o : SearchOptions)
    (ranked : List Match) (found all : List Hit) : Prop where
  ranking : Contents.IsRanking x.store.documents.get? v ranked
  listing : Contents.IsListing x.store.documents.get? v o
    {id | ∃ a ∈ ranked.take o.candidateCount, a.id = id} found
  full : Contents.IsListing x.store.documents.get? v o Set.univ all
  front : found <+: all
  answer : x.search query o = .ok (found.take o.maxResults)
  complete : o.maxResults ≤ found.length ∨ (∀ h ∈ all, h ∈ found) →
    x.search query o = .ok (all.take o.maxResults)

/-- Every search with a vector of the right size answers with the best results among its
candidates. -/
theorem search_best_of_candidates (hx : x.store.documents.Keyed) {query : String}
    (hquery : x.store.embedder.embed query = .ok v)
    (hsize : v.length = x.store.embedder.dimensions) (o : SearchOptions) :
    ∃ ranked found all, x.AnswersBest query v o ranked found all := by
  obtain ⟨ranked, hranked, -⟩ := (Store.answers_of_holds hx fun _ => rfl).queryVector v
  have hcandidates : ranked.take o.candidateCount <+: ranked := List.take_prefix _ _
  have hfull := isListing_ranked (o := o) hx hranked
  have hfront : x.resultsOf o (ranked.take o.candidateCount) <+: x.resultsOf o ranked :=
    (hcandidates.filterMap (x.hit? o)).filter o.admits
  have hanswer := search_eq_of_ranking hx hquery hsize hranked o
  refine ⟨ranked, _, _, hranked, isListing_resultsOf hx hranked hcandidates, hfull, hfront,
    hanswer, fun henough => ?_⟩
  rw [hanswer, take_eq_of_front hfront hfull.nodup.of_map henough]

def namedChunk (file name : String) (fileType : FileType) : Chunk where
  file := file
  fileType := fileType
  path := name
  summary := name
  source := name
  start := ⟨1, 1⟩
  stop := ⟨1, 2⟩
  parsedAt := 0

/-- A test and a source chunk that are equally similar to a query. -/
def crowdedIndex : Index Store :=
  let one : Embedding := [.ofNat 1]
  let x : Index Store := {
    root := ["work"]
    store := .inMemory (.ofTable (.ofList [("q", one), ("t", one), ("s", one)]) 1) }
  let x := (x.replace ⟨"a.go", [namedChunk "a.go" "t" .tests]⟩).2
  (x.replace ⟨"b.go", [namedChunk "b.go" "s" .src]⟩).2

/-- A search for source chunks, with room for so many. -/
def sourceOptions (room : ℕ) : SearchOptions where
  minSimilarity := .zero
  maxResults := room
  fileTypes := [.src]

def sourceHit : Hit where
  id := "b.go::s"
  fileType := .src
  summary := "s"
  firstLine := 1
  lastLine := 1
  similarity := .ofNat 1

lemma keyed_crowdedIndex : crowdedIndex.store.documents.Keyed := by
  have hentries : ∀ e ∈ crowdedIndex.store.documents.entries, e.2.id = e.1 := by decide
  exact Catalog.forall_entries_iff.mp hentries

lemma embed_crowdedIndex : crowdedIndex.store.embedder.embed "q" = .ok [.ofNat 1] := by
  decide

lemma isRanking_crowdedIndex : Contents.IsRanking crowdedIndex.store.documents.get? [.ofNat 1]
    [⟨"a.go::t", .ofNat 1⟩, ⟨"b.go::s", .ofNat 1⟩] := by
  have hranked := Store.isRanking_matchesOf keyed_crowdedIndex (fun _ => rfl) [.ofNat 1]
  have hmatches : crowdedIndex.store.matchesOf [.ofNat 1] =
      [⟨"a.go::t", .ofNat 1⟩, ⟨"b.go::s", .ofNat 1⟩] := by decide +kernel
  rwa [hmatches, List.mergeSort_of_pairwise (by decide)] at hranked

lemma search_crowdedIndex (o : SearchOptions) : crowdedIndex.search "q" o =
    .ok ((crowdedIndex.resultsOf o
      ([⟨"a.go::t", .ofNat 1⟩, ⟨"b.go::s", .ofNat 1⟩].take o.candidateCount)).take o.maxResults) :=
  search_eq_of_ranking keyed_crowdedIndex embed_crowdedIndex (by decide)
    isRanking_crowdedIndex o

theorem both_chunks_are_candidates :
    crowdedIndex.store.documents.Keyed ∧
    crowdedIndex.store.embedder.embed "q" = .ok [.ofNat 1] ∧
    (∃ ranked found all,
      crowdedIndex.AnswersBest "q" [.ofNat 1] (sourceOptions 2) ranked found all) ∧
    crowdedIndex.search "q" (sourceOptions 2) = .ok [sourceHit] := by
  refine ⟨keyed_crowdedIndex, embed_crowdedIndex, ?_, ?_⟩
  · exact search_best_of_candidates keyed_crowdedIndex embed_crowdedIndex (by decide) _
  · rw [search_crowdedIndex]
    decide

/-- The only candidate is a test, so a search for source chunks finds nothing, although a source
chunk is as similar. -/
theorem test_crowds_out_source :
    crowdedIndex.store.documents.Keyed ∧ (sourceOptions 1).fileTypes = [.src] ∧
    (∀ id d, crowdedIndex.store.documents.get? id = some d →
      (Embedding.similarity [.ofNat 1] d.embedding).isNaN = false) ∧
    Contents.IsListing crowdedIndex.store.documents.get? [.ofNat 1] (sourceOptions 1) Set.univ
      [sourceHit] ∧
    crowdedIndex.search "q" (sourceOptions 1) = .ok [] := by
  have hnumbers : ∀ e ∈ crowdedIndex.store.documents.entries,
      (Embedding.similarity [.ofNat 1] e.2.embedding).isNaN = false := by decide +kernel
  have hfull := isListing_ranked (o := sourceOptions 1) keyed_crowdedIndex isRanking_crowdedIndex
  have honly : crowdedIndex.resultsOf (sourceOptions 1)
      [⟨"a.go::t", .ofNat 1⟩, ⟨"b.go::s", .ofNat 1⟩] = [sourceHit] := by decide
  rw [honly] at hfull
  refine ⟨keyed_crowdedIndex, rfl, fun id d hd => ?_, hfull, ?_⟩
  · exact hnumbers (id, d) ((Catalog.mem_entries_iff _ id d).mpr hd)
  · rw [search_crowdedIndex]
    decide

end Index

end CodeSearch
