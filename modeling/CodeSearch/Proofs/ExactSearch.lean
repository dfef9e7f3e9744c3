import CodeSearch.Proofs.SearchResults

/-!
# Searches for chunks of every type

A search that wants chunks of every type asks the store for as many candidates as it has room
for, and for one more if a chunk is left out. That is enough: a candidate that is not a result
is left out or lies below the floor, and behind one below the floor there are no results. So
the answer is the best that the whole store has, whether or not the chunk that is left out is
among the candidates.
-/
namespace CodeSearch

namespace Single

variable {x y floor : Single}

/-- Places in the total order are places in the numeric order, apart from the two zeros. -/
lemma level_le_of_rank_le (h : x.rank ≤ y.rank) : x.level ≤ y.level := by
  unfold rank at h
  unfold level
  split at h <;> split at h <;> simp only [*, ↓reduceIte, Bool.false_eq_true] <;> omega

/-- Numbers that come after one below a floor are below it, too. -/
lemma below_of_rank_le (hx : x.isNaN = false) (hle : x.rank ≤ y.rank)
    (hy : y.below floor = true) : x.below floor = true := by
  simp only [below, Bool.and_eq_true, Bool.not_eq_true', decide_eq_true_eq] at hy ⊢
  exact ⟨⟨hx, hy.1.2⟩, (level_le_of_rank_le hle).trans_lt hy.2⟩

lemma below_eq_false_iff (hx : x.isNaN = false) (hfloor : floor.isNaN = false) :
    x.below floor = false ↔ floor.level ≤ x.level := by
  simp [below, hx, hfloor]

end Single

namespace StoredDocument

/-- The entries that a hit has to show can be read. -/
def Readable (d : StoredDocument) : Prop :=
  d.fileType.isOk = true ∧ (d.natField "startLine").isOk = true ∧
    (d.natField "endLine").isOk = true

lemma Readable.exists_hit {d : StoredDocument} (hd : d.Readable) (similarity : Single) :
    ∃ h, d.hit similarity = .ok h := by
  have hok {ε α : Type} {y : Except ε α} (hy : y.isOk = true) : ∃ a, y = .ok a := by
    cases y with
    | ok a => exact ⟨a, rfl⟩
    | error e => cases hy
  obtain ⟨fileType, hfileType⟩ := hok hd.1
  obtain ⟨first, hfirst⟩ := hok hd.2.1
  obtain ⟨last, hlast⟩ := hok hd.2.2
  rw [hit, hfileType, hfirst, hlast]
  exact ⟨_, rfl⟩

end StoredDocument

namespace SearchOptions

variable {o : SearchOptions}

/-- A search for every type asks for as many candidates as it has room for, and for the chunk
that is left out. -/
lemma candidateCount_eq (htypes : o.fileTypes = []) (hroom : o.maxResults + 1 < countLimit) :
    o.candidateCount = o.maxResults + o.excluded.toList.length := by
  have hexcluded : o.excluded.toList.length ≤ 1 := by cases o.excluded <;> simp
  rw [candidateCount, htypes, List.length_nil, Nat.zero_max, one_mul, Nat.mod_eq_of_lt]
  omega

lemma admits_iff (htypes : o.fileTypes = []) (h : Hit) :
    o.admits h = true ↔ o.excluded ≠ some h.id := by
  simp [admits, allows, htypes]

/-- Of hits on different chunks, no more than the one that is left out are refused. -/
lemma length_le_of_admits (htypes : o.fileTypes = []) {hits : List Hit}
    (hids : (hits.map (·.id)).Nodup) :
    hits.length ≤ (hits.filter o.admits).length + o.excluded.toList.length := by
  have hrefused : ((hits.filter fun h => !o.admits h).map (·.id)).length ≤
      o.excluded.toList.length := by
    refine (hids.sublist (List.filter_sublist.map _)).length_le_of_subset fun id hid => ?_
    obtain ⟨h, hh, rfl⟩ := List.mem_map.mp hid
    have hadmits := (List.mem_filter.mp hh).2
    rw [Bool.not_eq_true', ← Bool.not_eq_true, admits_iff htypes, not_not] at hadmits
    simp [hadmits]
  rw [List.length_map] at hrefused
  have hsplit := hits.length_eq_length_filter_add o.admits
  omega

end SearchOptions

namespace Index

variable {x : Index Store} {v : Embedding} {o : SearchOptions}

/-- Every document of the store can be read, and its vector has the size of the embedder's. -/
structure Comparable (x : Index Store) : Prop where
  keyed : x.store.documents.Keyed
  readable : ∀ id d, x.store.documents.get? id = some d → d.Readable
  sized : ∀ id d, x.store.documents.get? id = some d →
    d.embedding.length = x.store.embedder.dimensions

/-- The similarity of a vector to every document of the store is a number. -/
def HasNumbers (x : Index Store) (v : Embedding) : Prop :=
  ∀ id d, x.store.documents.get? id = some d → (v.similarity d.embedding).isNaN = false

/-- An answer gives the first ones of all stored chunks that reach the floor and are not left
out: the most similar ones first, equally similar ones in the order of their identifiers. -/
structure GivesFirst (x : Index Store) (v : Embedding) (o : SearchOptions)
    (answer : Except IndexError (List Hit)) (all : List Hit) : Prop where
  nodup : (all.map (·.id)).Nodup
  mem_iff : ∀ h, h ∈ all ↔
    (∃ d, x.store.documents.get? h.id = some d ∧ d.hit (v.similarity d.embedding) = .ok h) ∧
      o.minSimilarity.level ≤ h.similarity.level ∧ o.excluded ≠ some h.id
  sorted : all.Pairwise Hit.Precedes
  answer : answer = .ok (all.take o.maxResults)

/-- A readable match that reaches the floor has a hit. -/
lemma isSome_hit? (hx : x.Comparable) {ranked : List Match}
    (hranked : Contents.IsRanking x.store.documents.get? v ranked) {a : Match} (ha : a ∈ ranked)
    (hfloor : a.similarity.below o.minSimilarity = false) : (x.hit? o a).isSome = true := by
  obtain ⟨d, hd, -⟩ := (hranked.mem_iff a.id a.similarity).mp ha
  obtain ⟨h, hhit⟩ := (hx.readable a.id d hd).exists_hit a.similarity
  exact Option.isSome_iff_exists.mpr ⟨h, hit?_eq_some_iff.mpr ⟨hfloor, d, hd, hhit⟩⟩

lemma resultsOf_eq_nil (hv : x.HasNumbers v) {front behind : List Match}
    (hranked : Contents.IsRanking x.store.documents.get? v (front ++ behind)) {a : Match}
    (ha : a ∈ front) (hfloor : a.similarity.below o.minSimilarity = true) :
    x.resultsOf o behind = [] := by
  have hnone : ∀ b ∈ behind, x.hit? o b = none := by
    intro b hb
    obtain ⟨d, hd, hsimilarity⟩ :=
      (hranked.mem_iff b.id b.similarity).mp (List.mem_append_right front hb)
    have hnumber : b.similarity.isNaN = false := hsimilarity ▸ hv b.id d hd
    have hprecedes := (List.pairwise_append.mp hranked.sorted).2.2 a ha b hb
    have hle : b.similarity.rank ≤ a.similarity.rank := by
      rcases (Match.precedes_iff a b).mp hprecedes with hlt | ⟨heq, -⟩
      · exact hlt.le
      · exact heq.ge
    rw [hit?, if_pos (Single.below_of_rank_le hnumber hle hfloor)]
  rw [resultsOf, List.filterMap_eq_nil_iff.mpr hnone, List.filter_nil]

/-- If all candidates reach the floor, no more of them than the chunk that is left out are
missing among the results. -/
lemma length_le_of_floor (hx : x.Comparable) (htypes : o.fileTypes = [])
    {ranked found : List Match}
    (hranked : Contents.IsRanking x.store.documents.get? v ranked) (hfound : found <+: ranked)
    (hfloor : ∀ a ∈ found, a.similarity.below o.minSimilarity = false) :
    found.length ≤ (x.resultsOf o found).length + o.excluded.toList.length := by
  have hsome : ∀ a ∈ found, (x.hit? o a).isSome = true :=
    fun a ha => isSome_hit? hx hranked (hfound.mem ha) (hfloor a ha)
  have hids : ((found.filterMap (x.hit? o)).map (·.id)).Nodup := by
    have hdistinct := (List.pairwise_map.mp hranked.nodup).sublist hfound.sublist
    refine List.pairwise_map.mpr (hdistinct.filterMap (x.hit? o) ?_)
    intro a b hab h hh h' hh'
    rwa [(id_of_hit? hx.keyed hh).1, (id_of_hit? hx.keyed hh').1]
  have hlength := SearchOptions.length_le_of_admits htypes hids
  rwa [List.filterMap_length_eq_length.mpr hsome] at hlength

/-- The candidates fill the answer, or no result lies behind them. -/
lemma enough_candidates (hx : x.Comparable) (hv : x.HasNumbers v) (htypes : o.fileTypes = [])
    (hroom : o.maxResults + 1 < SearchOptions.countLimit) {ranked : List Match}
    (hranked : Contents.IsRanking x.store.documents.get? v ranked) :
    o.maxResults ≤ (x.resultsOf o (ranked.take o.candidateCount)).length ∨
      ∀ h ∈ x.resultsOf o ranked, h ∈ x.resultsOf o (ranked.take o.candidateCount) := by
  by_cases hall : ranked.length ≤ o.candidateCount
  · rw [List.take_of_length_le hall]
    exact .inr fun h hh => hh
  by_cases hfloor : ∃ a ∈ ranked.take o.candidateCount,
      a.similarity.below o.minSimilarity = true
  · obtain ⟨a, ha, hbelow⟩ := hfloor
    have hsplit := List.take_append_drop o.candidateCount ranked
    have hbehind := resultsOf_eq_nil hv (hsplit.symm ▸ hranked) ha hbelow
    have happend : x.resultsOf o ranked = x.resultsOf o (ranked.take o.candidateCount) ++
        x.resultsOf o (ranked.drop o.candidateCount) := by
      rw [resultsOf, resultsOf, resultsOf, ← List.filter_append, ← List.filterMap_append, hsplit]
    rw [hbehind, List.append_nil] at happend
    exact .inr fun h hh => happend ▸ hh
  · have hreach : ∀ a ∈ ranked.take o.candidateCount,
        a.similarity.below o.minSimilarity = false := by
      intro a ha
      exact Bool.eq_false_iff.mpr fun hbelow => hfloor ⟨a, ha, hbelow⟩
    have hlength := length_le_of_floor hx htypes hranked (List.take_prefix _ _) hreach
    rw [List.length_take_of_le (by omega)] at hlength
    have hcount := SearchOptions.candidateCount_eq htypes hroom
    exact .inl (by omega)

/-- The results at the front of a ranking are the first of all chunks that the search is for. -/
lemma givesFirst_resultsOf (hx : x.Comparable) (hv : x.HasNumbers v) (htypes : o.fileTypes = [])
    (hroom : o.maxResults + 1 < SearchOptions.countLimit) (hfloor : o.minSimilarity.isNaN = false)
    {ranked : List Match} (hranked : Contents.IsRanking x.store.documents.get? v ranked) :
    x.GivesFirst v o
      (.ok ((x.resultsOf o (ranked.take o.candidateCount)).take o.maxResults))
      (x.resultsOf o ranked) := by
  have hlisting := isListing_ranked (o := o) hx.keyed hranked
  have hfront : x.resultsOf o (ranked.take o.candidateCount) <+: x.resultsOf o ranked :=
    ((List.take_prefix o.candidateCount ranked).filterMap (x.hit? o)).filter o.admits
  refine ⟨hlisting.nodup, fun h => ?_, hlisting.sorted, ?_⟩
  · have hnumber {d : StoredDocument} (hd : x.store.documents.get? h.id = some d)
        (hhit : d.hit (v.similarity d.embedding) = .ok h) : h.similarity.isNaN = false :=
      (StoredDocument.hit_eq_ok hhit).2 ▸ hv h.id d hd
    rw [hlisting.mem_iff]
    constructor
    · rintro ⟨⟨⟨d, hd, hhit⟩, hbelow, -, hexcluded⟩, -⟩
      have hlevel := (Single.below_eq_false_iff (hnumber hd hhit) hfloor).mp hbelow
      exact ⟨⟨d, hd, hhit⟩, hlevel, hexcluded⟩
    · rintro ⟨⟨d, hd, hhit⟩, hlevel, hexcluded⟩
      have hbelow := (Single.below_eq_false_iff (hnumber hd hhit) hfloor).mpr hlevel
      exact ⟨⟨⟨d, hd, hhit⟩, hbelow, by simp [SearchOptions.allows, htypes], hexcluded⟩, trivial⟩
  · rw [take_eq_of_front hfront hlisting.nodup.of_map
      (enough_candidates hx hv htypes hroom hranked)]

/-- The chunks similar to a stored one are read off the first documents of the ranking. -/
lemma findSimilar_eq_of_ranking (hx : x.Comparable) {id : String} {d : StoredDocument}
    (hd : x.store.documents.get? id = some d) {ranked : List Match}
    (hranked : Contents.IsRanking x.store.documents.get? d.embedding ranked) (o : SearchOptions) :
    x.findSimilar id o =
      .ok ((x.resultsOf o (ranked.take o.candidateCount)).take o.maxResults) := by
  obtain ⟨ranked', hranked', hanswer⟩ :=
    (Store.answers_of_holds hx.keyed fun _ => rfl).queryVector d.embedding
  obtain rfl := hranked.unique hranked'
  have hfound := hanswer o.candidateCount
  rw [if_pos (hx.sized id d hd)] at hfound
  have hsorted := hranked.sorted.sublist (List.take_sublist o.candidateCount ranked)
  have hget : DocumentStore.get? x.store id = some d := hd
  rw [findSimilar, hget]
  dsimp only
  rw [hfound]
  dsimp only
  rw [rankMatches_eq hx.keyed hsorted]

/-- A search for chunks of every type, by a stored chunk or by a text, answers with the first of
all chunks that it is for, whether or not the chunk that is left out is a candidate. -/
theorem similar_and_search_are_exact (hx : x.Comparable) (htypes : o.fileTypes = [])
    (hroom : o.maxResults + 1 < SearchOptions.countLimit)
    (hfloor : o.minSimilarity.isNaN = false) :
    (∀ id d, x.store.documents.get? id = some d → x.HasNumbers d.embedding →
      ∃ all, x.GivesFirst d.embedding o (x.findSimilar id o) all) ∧
    (∀ query v, x.store.embedder.embed query = .ok v →
      v.length = x.store.embedder.dimensions → x.HasNumbers v →
        ∃ all, x.GivesFirst v o (x.search query o) all) := by
  have hranking (v : Embedding) : ∃ ranked,
      Contents.IsRanking x.store.documents.get? v ranked :=
    ((Store.answers_of_holds hx.keyed fun _ => rfl).queryVector v).imp fun _ h => h.1
  constructor
  · intro id d hd hnumbers
    obtain ⟨ranked, hranked⟩ := hranking d.embedding
    rw [findSimilar_eq_of_ranking hx hd hranked]
    exact ⟨_, givesFirst_resultsOf hx hnumbers htypes hroom hfloor hranked⟩
  · intro query v hquery hsize hnumbers
    obtain ⟨ranked, hranked⟩ := hranking v
    rw [search_eq_of_ranking hx.keyed hquery hsize hranked]
    exact ⟨_, givesFirst_resultsOf hx hnumbers htypes hroom hfloor hranked⟩

/-- Two chunks with a direction and one without, which is as similar to itself as to the
others. -/
def plainIndex : Index Store :=
  let one : Embedding := [.ofNat 1]
  let embedder := Embedder.ofTable (.ofList [("q", one), ("t", one), ("s", one), ("z", [.zero])]) 1
  let x : Index Store := { root := ["work"], store := .inMemory embedder }
  let x := (x.replace ⟨"a.go", [namedChunk "a.go" "t" .tests]⟩).2
  let x := (x.replace ⟨"b.go", [namedChunk "b.go" "s" .src]⟩).2
  (x.replace ⟨"c.go", [namedChunk "c.go" "z" .src]⟩).2

/-- A search with room for one chunk that leaves out the one without a direction. -/
def othersOptions : SearchOptions where
  minSimilarity := .zero
  maxResults := 1
  excluded := some "c.go::z"

lemma comparable_plainIndex : plainIndex.Comparable where
  keyed := Catalog.forall_entries_iff.mp (by decide)
  readable := Catalog.forall_entries_iff.mp (by unfold StoredDocument.Readable; decide)
  sized := Catalog.forall_entries_iff.mp (by decide)

lemma hasNumbers_plainIndex : plainIndex.HasNumbers [.zero] ∧ plainIndex.HasNumbers [.ofNat 1] :=
  ⟨Catalog.forall_entries_iff.mp (by decide +kernel),
    Catalog.forall_entries_iff.mp (by decide +kernel)⟩

lemma isRanking_plainIndex : Contents.IsRanking plainIndex.store.documents.get? [.zero]
    [⟨"a.go::t", .zero⟩, ⟨"b.go::s", .zero⟩, ⟨"c.go::z", .zero⟩] := by
  have hranked := Store.isRanking_matchesOf comparable_plainIndex.keyed (fun _ => rfl) [.zero]
  have hmatches : plainIndex.store.matchesOf [.zero] =
      [⟨"a.go::t", .zero⟩, ⟨"b.go::s", .zero⟩, ⟨"c.go::z", .zero⟩] := by decide +kernel
  rwa [hmatches, List.mergeSort_of_pairwise (by decide)] at hranked

/-- The chunk without a direction is not among its own two candidates. -/
theorem chunk_is_no_candidate_of_its_own :
    plainIndex.Comparable ∧ othersOptions.fileTypes = [] ∧
    othersOptions.maxResults + 1 < SearchOptions.countLimit ∧
    othersOptions.minSimilarity.isNaN = false ∧
    (∃ d, plainIndex.store.documents.get? "c.go::z" = some d ∧ plainIndex.HasNumbers d.embedding ∧
      ∃ all, plainIndex.GivesFirst d.embedding othersOptions
        (plainIndex.findSimilar "c.go::z" othersOptions) all) ∧
    (∃ all, plainIndex.GivesFirst [.ofNat 1] othersOptions
      (plainIndex.search "q" othersOptions) all) ∧
    (plainIndex.findSimilar "c.go::z" othersOptions).map (·.map (·.id)) = .ok ["a.go::t"] := by
  have hexact := similar_and_search_are_exact comparable_plainIndex
    (show othersOptions.fileTypes = [] from rfl) (by decide) (by decide)
  obtain ⟨d, hd, hembedding⟩ : ∃ d, plainIndex.store.documents.get? "c.go::z" = some d ∧
      d.embedding = [.zero] := by
    have hfound : (plainIndex.store.documents.get? "c.go::z").map (·.embedding) =
        some [.zero] := by decide +kernel
    obtain ⟨d, hd, hembedding⟩ := Option.map_eq_some_iff.mp hfound
    exact ⟨d, hd, hembedding⟩
  have hnumbers : plainIndex.HasNumbers d.embedding := hembedding ▸ hasNumbers_plainIndex.1
  refine ⟨comparable_plainIndex, rfl, by decide, by decide, ⟨d, hd, hnumbers, ?_⟩, ?_, ?_⟩
  · exact hexact.1 _ d hd hnumbers
  · exact hexact.2 "q" _ (by decide) (by decide) hasNumbers_plainIndex.2
  · have hranked : Contents.IsRanking plainIndex.store.documents.get? d.embedding _ :=
      hembedding ▸ isRanking_plainIndex
    rw [findSimilar_eq_of_ranking comparable_plainIndex hd hranked]
    decide

end Index

end CodeSearch
