import CodeSearch.Proofs.StableRanking

/-!
# Candidates below the floor

An index drops the matches below the floor before it ranks the others. A ranking stops at the first
candidate below the floor, so the ones dropped would not have been results. But a NaN with the sign
bit is ranked behind all numbers and is not below the floor. In a ranking of all candidates none
is reached behind a candidate below the floor; among those that are left it is. So the shortcut
gives the hits of the whole ranking, and then, as long as there is room, those NaNs. A hit is at
least as similar as the floor unless its similarity is a NaN of either sign.
-/
namespace CodeSearch

namespace Single

variable {x y floor : Single}

/-- The numeric comparison the other way around: a NaN is not above anything either. -/
def reaches (x floor : Single) : Bool :=
  !x.isNaN && !floor.isNaN && floor.level ≤ x.level

/-- A NaN with the sign bit comes behind all numbers. -/
def trails (x : Single) : Bool :=
  x.isNaN && x.negative

lemma reaches_of_not_below (hfloor : floor.isNaN = false) (hx : x.below floor = false) :
    x.reaches floor = !x.isNaN := by
  unfold reaches
  cases hnan : x.isNaN with
  | true => rfl
  | false => simpa [hfloor] using (below_eq_false_iff hnan hfloor).mp hx

lemma below_of_trails (h : x.trails = true) (floor : Single) : x.below floor = false := by
  have hnan : x.isNaN = true := (Bool.and_eq_true_iff.mp h).1
  simp [below, hnan]

lemma isNaN_of_below (h : x.below floor = true) : x.isNaN = false := by
  unfold below at h
  cases hnan : x.isNaN with
  | true => simp [hnan] at h
  | false => rfl

lemma rank_lt_of_trails (hx : x.trails = true) (hy : y.trails = false) : x.rank < y.rank := by
  simp only [trails, isNaN, Bool.and_eq_true, decide_eq_true_eq, Bool.and_eq_false_iff,
    decide_eq_false_iff_not] at hx hy
  rw [rank, rank, if_pos hx.2]
  split
  · next hnegative =>
    have hmagnitude : ¬infinite < y.magnitude := hy.resolve_right (by simp [hnegative])
    omega
  · omega

/-- Nothing but numbers below a floor and trailing NaNs comes behind a number below it. -/
lemma below_or_trails (hle : x.rank ≤ y.rank) (hy : y.below floor = true) :
    x.below floor = true ∨ x.trails = true := by
  cases hx : x.isNaN with
  | false => exact .inl (below_of_rank_le hx hle hy)
  | true =>
    refine .inr ?_
    have hnumber := isNaN_of_below hy
    simp only [isNaN, decide_eq_true_eq, decide_eq_false_iff_not] at hx hnumber
    rw [trails, isNaN, decide_eq_true hx, Bool.true_and]
    by_contra hpositive
    simp only [rank, if_neg hpositive] at hle
    split at hle <;> omega

end Single

namespace Hit

variable {o : SearchOptions} {candidates hits : List Hit}

/-- A candidate does not lie below the floor. -/
def stands (o : SearchOptions) (h : Hit) : Bool :=
  !h.similarity.below o.minSimilarity

/-- A candidate that does not lie below the floor and whose similarity is no trailing NaN. -/
def leads (o : SearchOptions) (h : Hit) : Bool :=
  stands o h && !h.similarity.trails

/-- Two lists are parted in the same way if a test holds of their fronts only. -/
lemma parts_eq {α : Type} {p : α → Bool} {a b a' b' : List α} (happend : a ++ b = a' ++ b')
    (ha : ∀ e ∈ a, p e = true) (hb : ∀ e ∈ b, p e = false) (ha' : ∀ e ∈ a', p e = true)
    (hb' : ∀ e ∈ b', p e = false) : a = a' ∧ b = b' := by
  have hfront {a b : List α} (ha : ∀ e ∈ a, p e = true) (hb : ∀ e ∈ b, p e = false) :
      (a ++ b).filter p = a := by
    rw [List.filter_append, List.filter_eq_self.mpr ha,
      List.filter_eq_nil_iff.mpr fun e he => by simp [hb e he], List.append_nil]
  have hsame : a = a' := by rw [← hfront ha hb, happend, hfront ha' hb']
  exact ⟨hsame, List.append_cancel_left (hsame ▸ happend)⟩

/-- Sorting is stable, so it does not matter whether a list is sorted first or filtered. -/
lemma mergeSort_filter {α : Type} {le : α → α → Bool}
    (trans : ∀ a b c, le a b = true → le b c = true → le a c = true)
    (total : ∀ a b, (le a b || le b a) = true) (p : α → Bool) (l : List α) :
    (l.filter p).mergeSort le = (l.mergeSort le).filter p := by
  induction l with
  | nil => simp
  | cons a l ih =>
    obtain ⟨front, back, hcons, hl, hfront⟩ := List.mergeSort_cons trans total a l
    cases ha : p a with
    | false =>
      rw [List.filter_cons_of_neg (by simp [ha]), ih, hl, hcons, List.filter_append,
        List.filter_append, List.filter_cons_of_neg (by simp [ha])]
    | true =>
      obtain ⟨front', back', hcons', hl', hfront'⟩ :=
        List.mergeSort_cons trans total a (l.filter p)
      -- both lists are parted where the first elements stand that `a` may come before
      have hback {m f b : List α} (h : m.mergeSort le = f ++ a :: b) :
          ∀ e ∈ b, (!le a e) = false := by
        intro e he
        have hsorted := List.pairwise_mergeSort trans total m
        rw [h, List.pairwise_append, List.pairwise_cons] at hsorted
        simpa using hsorted.2.1.1 e he
      have happend : front' ++ back' = front.filter p ++ back.filter p := by
        rw [← hl', ih, hl, List.filter_append]
      obtain ⟨rfl, rfl⟩ := parts_eq happend hfront' (hback hcons')
        (fun e he => hfront e (List.mem_of_mem_filter he))
        (fun e he => hback hcons e (List.mem_of_mem_filter he))
      rw [List.filter_cons_of_pos ha, hcons', hcons, List.filter_append,
        List.filter_cons_of_pos ha]

/-- Behind a candidate below the floor no candidate leads, and none in front of it trails. -/
lemma takeWhile_stands (hsorted : hits.Pairwise fun a b => a.atLeast b = true)
    (hbelow : ∃ h ∈ hits, stands o h = false) :
    hits.takeWhile (stands o) = hits.filter (leads o) := by
  induction hits with
  | nil => simp at hbelow
  | cons h hits ih =>
    obtain ⟨hfirst, hrest⟩ := List.pairwise_cons.mp hsorted
    simp only [atLeast, decide_eq_true_eq] at hfirst
    cases hh : stands o h with
    | false =>
      have hnone : ∀ a ∈ h :: hits, ¬leads o a = true := by
        refine List.forall_mem_cons.mpr ⟨by simp [leads, hh], fun a ha hleads => ?_⟩
        have hlow : h.similarity.below o.minSimilarity = true := by simpa [stands] using hh
        rcases Single.below_or_trails (hfirst a ha) hlow with hbelow | htrails
        · simp [leads, stands, hbelow] at hleads
        · simp [leads, htrails] at hleads
      rw [List.takeWhile_cons_of_neg (by simp [hh]), List.filter_eq_nil_iff.mpr hnone]
    | true =>
      obtain ⟨low, hlow, hfalls⟩ : ∃ low ∈ hits, stands o low = false := by simpa [hh] using hbelow
      have hlevel : low.similarity.below o.minSimilarity = true := by simpa [stands] using hfalls
      have htrails : h.similarity.trails = false := by
        have hnumber : low.similarity.trails = false := by
          simp [Single.trails, Single.isNaN_of_below hlevel]
        by_contra htrue
        have hlt := Single.rank_lt_of_trails (Bool.not_eq_false _ ▸ htrue) hnumber
        exact (hfirst low hlow).not_gt hlt
      rw [List.takeWhile_cons_of_pos hh, List.filter_cons_of_pos (by simp [leads, hh, htrails]),
        ih hrest ⟨low, hlow, hfalls⟩]

/-- Of the candidates that are not below the floor the trailing NaNs come last. -/
lemma filter_stands (hsorted : hits.Pairwise fun a b => a.atLeast b = true) :
    hits.filter (stands o) =
      hits.filter (leads o) ++ hits.filter fun h => h.similarity.trails := by
  induction hits with
  | nil => rfl
  | cons h hits ih =>
    rw [List.pairwise_cons] at hsorted
    cases htrails : h.similarity.trails with
    | false =>
      rw [List.filter_cons (p := stands o), List.filter_cons (p := leads o),
        List.filter_cons_of_neg (by simp [htrails]), ih hsorted.2]
      cases hh : stands o h <;> simp [leads, hh, htrails]
    | true =>
      have hstands : stands o h = true := by
        simp [stands, Single.below_of_trails htrails]
      have hall : ∀ a ∈ h :: hits, a.similarity.trails = true := by
        refine List.forall_mem_cons.mpr ⟨htrails, fun a ha => ?_⟩
        have hle := hsorted.1 a ha
        simp only [atLeast, decide_eq_true_eq] at hle
        by_contra hfalse
        exact hle.not_gt (Single.rank_lt_of_trails htrails (by simpa using hfalse))
      have hnone : (h :: hits).filter (leads o) = [] :=
        List.filter_eq_nil_iff.mpr fun a ha => by simp [leads, hall a ha]
      rw [hnone, List.nil_append, List.filter_eq_self.mpr hall]
      refine List.filter_eq_self.mpr fun a ha => ?_
      simp [stands, Single.below_of_trails (hall a ha)]

lemma mem_of_mem_rank {h : Hit} (hh : h ∈ rank candidates o) : h ∈ candidates := by
  rw [rank, collect_eq_takeWhile] at hh
  have hread := List.mem_of_mem_filter (List.mem_of_mem_take hh)
  exact List.mem_mergeSort.mp ((List.takeWhile_sublist _).subset hread)

/-- The hits of a ranking from which the candidates below the floor were dropped first. -/
lemma rank_filter_stands (candidates : List Hit) (o : SearchOptions) :
    rank (candidates.filter (stands o)) o =
      (((candidates.mergeSort atLeast).filter (leads o)).filter o.admits ++
        ((candidates.mergeSort atLeast).filter (·.similarity.trails)).filter o.admits).take
          o.maxResults := by
  have hsorted := List.pairwise_mergeSort atLeast_trans atLeast_total candidates
  have hstand : ∀ h ∈ (candidates.mergeSort atLeast).filter (stands o),
      h.similarity.below o.minSimilarity = false := by
    intro h hh
    simpa [stands] using (List.mem_filter.mp hh).2
  rw [rank, mergeSort_filter atLeast_trans atLeast_total, collect_eq hstand, filter_stands hsorted,
    List.filter_append]

lemma rank_of_below (hbelow : ∃ h ∈ candidates, stands o h = false) : rank candidates o =
    (((candidates.mergeSort atLeast).filter (leads o)).filter o.admits).take o.maxResults := by
  have hsorted := List.pairwise_mergeSort atLeast_trans atLeast_total candidates
  have hwhile := takeWhile_stands (o := o) hsorted (by simpa using hbelow)
  rw [rank, collect_eq_takeWhile, ← hwhile]
  rfl

/-- All candidates have a similarity that is not below the floor, or no trailing NaN is wanted,
or the room is full before the first of them. -/
def IsCutAlike (o : SearchOptions) (candidates : List Hit) : Prop :=
  (∀ h ∈ candidates, stands o h = true) ∨
    (∀ h ∈ candidates, h.similarity.trails = true → o.admits h = false) ∨
    o.maxResults ≤ (candidates.filter fun h => o.admits h && leads o h).length

/-- Dropping the candidates below the floor first adds nothing but trailing NaNs to the hits, and
nothing at all under these conditions only. -/
lemma rank_filter_stands_eq (candidates : List Hit) (o : SearchOptions) :
    (∃ more, rank (candidates.filter (stands o)) o = rank candidates o ++ more ∧
      ∀ h ∈ more, h.similarity.trails = true) ∧
    (rank (candidates.filter (stands o)) o = rank candidates o ↔ IsCutAlike o candidates) := by
  by_cases hall : ∀ h ∈ candidates, stands o h = true
  · have hsame : candidates.filter (stands o) = candidates := List.filter_eq_self.mpr hall
    rw [hsame]
    exact ⟨⟨[], (List.append_nil _).symm, by simp⟩, iff_of_true rfl (.inl hall)⟩
  · have hbelow : ∃ h ∈ candidates, stands o h = false := by simpa using hall
    have hcount : (((candidates.mergeSort atLeast).filter (leads o)).filter o.admits).length =
        (candidates.filter fun h => o.admits h && leads o h).length := by
      rw [List.filter_filter, ← mergeSort_filter atLeast_trans atLeast_total,
        List.length_mergeSort]
    rw [rank_filter_stands, rank_of_below hbelow, List.take_append, hcount, IsCutAlike,
      or_iff_right hall]
    set more := ((candidates.mergeSort atLeast).filter (·.similarity.trails)).filter o.admits
    have hmore : more = [] ↔
        ∀ h ∈ candidates, h.similarity.trails = true → o.admits h = false := by
      simp only [more, List.filter_eq_nil_iff, List.mem_filter, List.mem_mergeSort,
        Bool.not_eq_true, and_imp]
    refine ⟨⟨_, rfl, fun h hh => ?_⟩, ?_⟩
    · exact (List.mem_filter.mp (List.mem_of_mem_filter (List.mem_of_mem_take hh))).2
    · rw [List.append_right_eq_self, List.take_eq_nil_iff, Nat.sub_eq_zero_iff_le, hmore, or_comm]

end Hit

namespace Index

variable {σ : Type} [DocumentStore σ] {o : SearchOptions}

open Hit

/-- The hit of a match, whatever its similarity, if its document is readable. -/
def hitOf? (x : Index σ) (m : Match) : Option Hit :=
  (DocumentStore.get? x.store m.id).bind fun doc => (doc.hit m.similarity).toOption

lemma hit?_eq (x : Index σ) (o : SearchOptions) (m : Match) :
    x.hit? o m = (x.hitOf? m).filter (stands o) := by
  have hunfold : x.hit? o m =
      if m.similarity.below o.minSimilarity then none else x.hitOf? m := rfl
  rw [hunfold]
  cases hof : x.hitOf? m with
  | none => simp
  | some h =>
    obtain ⟨doc, -, hdoc⟩ := Option.bind_eq_some_iff.mp hof
    have hsimilarity : h.similarity = m.similarity := by
      cases hhit : doc.hit m.similarity with
      | error e => simp [hhit, Except.toOption] at hdoc
      | ok h' =>
        obtain rfl : h' = h := by simpa [hhit, Except.toOption] using hdoc
        exact (StoredDocument.hit_eq_ok hhit).2
    rw [Option.filter_some, stands, hsimilarity]
    cases m.similarity.below o.minSimilarity <;> rfl

/-- An index drops the candidates below the floor and ranks the others. These hits begin with those
of the whole ranking, and all that can follow are trailing NaNs. Every hit is at least as similar
as the floor, unless its similarity is a NaN. -/
theorem floor_filter_adds_trailing (x : Index σ) (found : List Match) (candidates : List Hit)
    (hfloor : o.minSimilarity.isNaN = false) :
    x.rankMatches o found = rank ((found.filterMap x.hitOf?).filter (stands o)) o ∧
    (∃ more, rank (candidates.filter (stands o)) o = rank candidates o ++ more ∧
      ∀ h ∈ more, h.similarity.trails = true) ∧
    (rank (candidates.filter (stands o)) o = rank candidates o ↔ IsCutAlike o candidates) ∧
    ∀ h ∈ rank (candidates.filter (stands o)) o,
      h.similarity.reaches o.minSimilarity = !h.similarity.isNaN := by
  obtain ⟨hmore, halike⟩ := rank_filter_stands_eq candidates o
  refine ⟨?_, hmore, halike, fun h hh => ?_⟩
  · rw [rankMatches, List.filter_filterMap]
    exact congrArg (rank · o) (List.filterMap_congr fun m _ => x.hit?_eq o m)
  · have hstands : stands o h = true := (List.mem_filter.mp (mem_of_mem_rank hh)).2
    exact Single.reaches_of_not_below hfloor (by simpa [stands] using hstands)

/-- Two source chunks: one points the other way than the query does, one is infinitely long. -/
def skewedIndex : Index Store :=
  let table := .ofList [("q", [.ofNat 1]), ("low", [⟨0xBF800000⟩]), ("odd", [⟨0x7F800000⟩])]
  let x : Index Store := { root := ["work"], store := .inMemory (.ofTable table 1) }
  let x := (x.replace ⟨"a.go", [namedChunk "a.go" "low" .src]⟩).2
  (x.replace ⟨"b.go", [namedChunk "b.go" "odd" .src]⟩).2

/-- What the store finds for the query: a match below the floor and one that trails. -/
def skewedMatches : List Match :=
  [⟨"a.go::low", ⟨0xBF800000⟩⟩, ⟨"b.go::odd", .undefined⟩]

/-- The hit on the chunk below the floor. -/
def lowHit : Hit :=
  ⟨"a.go::low", .src, "low", 1, 1, ⟨0xBF800000⟩⟩

/-- The hit on the chunk of infinite length. -/
def oddHit : Hit :=
  ⟨"b.go::odd", .src, "odd", 1, 1, .undefined⟩

lemma queryVector_skewedIndex :
    skewedIndex.store.queryVector [.ofNat 1] 2 = .ok skewedMatches := by
  have hmatches : skewedIndex.store.matchesOf [.ofNat 1] = skewedMatches := by decide +kernel
  have hsize : skewedIndex.store.checkSize [.ofNat 1] = .ok () := rfl
  rw [Store.queryVector, hmatches, List.mergeSort_of_pairwise (by decide), hsize]
  rfl

lemma search_skewedIndex : skewedIndex.search "q" (sourceOptions 2) =
    .ok (skewedIndex.rankMatches (sourceOptions 2) skewedMatches) := by
  have hquery : DocumentStore.query skewedIndex.store "q" (sourceOptions 2).candidateCount =
      .ok skewedMatches := queryVector_skewedIndex
  rw [search, hquery]

lemma hits_skewedMatches : skewedMatches.filterMap skewedIndex.hitOf? = [lowHit, oddHit] := by
  decide

lemma rank_skewed : rank [lowHit, oddHit] (sourceOptions 2) = [] ∧
    rank ([lowHit, oddHit].filter (stands (sourceOptions 2))) (sourceOptions 2) = [oddHit] := by
  constructor
  · rw [rank, List.mergeSort_of_pairwise (by decide)]
    decide
  · rw [rank, show [lowHit, oddHit].filter (stands (sourceOptions 2)) = [oddHit] by decide,
      List.mergeSort_singleton]
    decide

/-- The infinitely long chunk is all that follows the hits of the whole ranking, of which there
are none. -/
theorem odd_hit_follows : (sourceOptions 2).minSimilarity.isNaN = false ∧
    skewedIndex.search "q" (sourceOptions 2) =
      .ok (rank ((skewedMatches.filterMap skewedIndex.hitOf?).filter (stands (sourceOptions 2)))
        (sourceOptions 2)) ∧
    (∃ more, rank ([lowHit, oddHit].filter (stands (sourceOptions 2))) (sourceOptions 2) =
        rank [lowHit, oddHit] (sourceOptions 2) ++ more ∧
      ∀ h ∈ more, h.similarity.trails = true) ∧
    ¬IsCutAlike (sourceOptions 2) [lowHit, oddHit] ∧
    IsCutAlike (sourceOptions 0) [lowHit, oddHit] := by
  have hnumber (room : ℕ) : (sourceOptions room).minSimilarity.isNaN = false :=
    show Single.zero.isNaN = false by decide
  obtain ⟨hindex, hmore, halike, -⟩ :=
    floor_filter_adds_trailing skewedIndex skewedMatches [lowHit, oddHit] (hnumber 2)
  refine ⟨hnumber 2, hindex ▸ search_skewedIndex, hmore, fun h => ?_, .inr (.inr (Nat.zero_le _))⟩
  have hsame := halike.mpr h
  rw [rank_skewed.1, rank_skewed.2] at hsame
  cases hsame

/-- The whole ranking stops at the chunk below the floor and has no hits. The search gives the
chunk behind it, although its similarity does not reach the floor, and neither does that of a
NaN without the sign bit, which comes first in any ranking. -/
theorem trailing_hit_passes_floor : (sourceOptions 2).minSimilarity.isNaN = false ∧
    skewedMatches.filterMap skewedIndex.hitOf? = [lowHit, oddHit] ∧
    rank [lowHit, oddHit] (sourceOptions 2) = [] ∧
    rank ([lowHit, oddHit].filter (stands (sourceOptions 2))) (sourceOptions 2) = [oddHit] ∧
    skewedIndex.search "q" (sourceOptions 2) = .ok [oddHit] ∧
    oddHit.similarity.reaches (sourceOptions 2).minSimilarity = false ∧
    ∃ h : Hit, rank [h] (sourceOptions 2) = [h] ∧
      h.similarity.reaches (sourceOptions 2).minSimilarity = false := by
  have hhits := hits_skewedMatches
  have hsearch := search_skewedIndex
  rw [rankMatches, show skewedMatches.filterMap (skewedIndex.hit? (sourceOptions 2)) = [oddHit] by
    decide] at hsearch
  refine ⟨by decide, hhits, rank_skewed.1, rank_skewed.2, ?_, by decide,
    { oddHit with similarity := ⟨0x7FC00000⟩ }, ?_, by decide⟩
  · rw [hsearch, rank, List.mergeSort_singleton]
    decide
  · rw [rank, List.mergeSort_singleton]
    decide

end Index

end CodeSearch
