import CodeSearch.Proofs.ExactSearch

/-!
# The order of a ranking

Candidates are ranked by descending similarity, and equally similar ones in the order in which
they came. The ranking is read from the top until a candidate lies below the floor or the room is
full. Where all similarities are numbers, no wanted candidate stands behind one below the floor,
so the results are the first of all wanted candidates; the others take up no room.
-/
namespace CodeSearch

namespace Single

variable {x y : Single}

/-- The numeric order, except that `-0` lies below `0`. -/
def Less (x y : Single) : Prop :=
  x.below y = true ∨ (x = negativeZero ∧ y = zero)

lemma level_eq (x : Single) : x.level = if x.rank < 0 then x.rank + 1 else x.rank := by
  unfold level rank
  cases x.negative <;> simp only [Bool.false_eq_true, ↓reduceIte] <;> split <;> omega

/-- Among numbers, the total order is the numeric order with the two zeros told apart. -/
lemma rank_lt_iff (hx : x.isNaN = false) (hy : y.isNaN = false) :
    x.rank < y.rank ↔ x.Less y := by
  have hnegative : x = negativeZero ↔ x.rank = -1 := by
    rw [← rank_inj, show negativeZero.rank = -1 by decide]
  have hzero : y = zero ↔ y.rank = 0 := by
    rw [← rank_inj, show zero.rank = 0 by decide]
  have hbelow : x.below y = true ↔ x.level < y.level := by
    simp [below, hx, hy]
  rw [Less, hnegative, hzero, hbelow, level_eq, level_eq]
  split <;> split <;> omega

end Single

namespace Hit

variable {o : SearchOptions} {candidates : List Hit}

/-- A candidate is wanted if its similarity is at least the floor, it is not the one that is left
out, and its type is one of the wanted ones, all types being wanted if none is named. -/
structure IsWanted (o : SearchOptions) (h : Hit) : Prop where
  floor : o.minSimilarity.level ≤ h.similarity.level
  notExcluded : o.excluded ≠ some h.id
  allowed : o.fileTypes = [] ∨ h.fileType ∈ o.fileTypes

/-- Of two candidates with their places, the more similar one comes first, and of equally similar
ones the one that came first. -/
def StandsBefore (a b : Hit × ℕ) : Prop :=
  b.1.similarity.Less a.1.similarity ∨ (a.1.similarity = b.1.similarity ∧ a.2 < b.2)

lemma atLeast_trans (a b c : Hit) (hab : a.atLeast b = true) (hbc : b.atLeast c = true) :
    a.atLeast c = true := by
  simp only [atLeast, decide_eq_true_eq] at hab hbc ⊢
  exact hbc.trans hab

lemma atLeast_total (a b : Hit) : (a.atLeast b || b.atLeast a) = true := by
  simpa [atLeast] using Int.le_total b.similarity.rank a.similarity.rank

/-- Reading stops at the first candidate below the floor. -/
lemma collect_eq_takeWhile (o : SearchOptions) (room : ℕ) (hits : List Hit) :
    collect o room hits = ((hits.takeWhile fun h =>
      !h.similarity.below o.minSimilarity).filter o.admits).take room := by
  induction hits generalizing room with
  | nil => cases room <;> simp [collect]
  | cons h hits ih =>
    cases room with
    | zero => simp [collect]
    | succ room =>
      rw [collect, List.takeWhile_cons]
      cases h.similarity.below o.minSimilarity with
      | true => simp
      | false => cases hadmits : o.admits h <;> simp [ih, hadmits]

/-- Where everything behind a refused element is refused as well, the elements before the first
refused one are all that are not refused. -/
lemma takeWhile_eq_filter {α : Type} {p : α → Bool} {l : List α}
    (hl : l.Pairwise fun a b => p b = true → p a = true) : l.takeWhile p = l.filter p := by
  induction l with
  | nil => rfl
  | cons a l ih =>
    rw [List.pairwise_cons] at hl
    cases ha : p a with
    | true => rw [List.takeWhile_cons_of_pos ha, List.filter_cons_of_pos ha, ih hl.2]
    | false =>
      have hnone : l.filter p = [] := by
        refine List.filter_eq_nil_iff.mpr fun b hb hpb => ?_
        simp [hl.1 b hb hpb] at ha
      rw [List.takeWhile_cons_of_neg (by simp [ha]), List.filter_cons_of_neg (by simp [ha]), hnone]

/-- Stopping at the first candidate below the floor loses nothing: the results are the first of
all candidates that are admitted and not below it. -/
theorem rank_eq_take_filter (hnumbers : ∀ h ∈ candidates, h.similarity.isNaN = false)
    (o : SearchOptions) : rank candidates o = ((candidates.mergeSort atLeast).filter fun h =>
      !h.similarity.below o.minSimilarity && o.admits h).take o.maxResults := by
  have hsorted : (candidates.mergeSort atLeast).Pairwise fun a b => a.atLeast b = true :=
    List.pairwise_mergeSort atLeast_trans atLeast_total candidates
  have hfloor : (candidates.mergeSort atLeast).Pairwise fun a b =>
      (!b.similarity.below o.minSimilarity) = true →
        (!a.similarity.below o.minSimilarity) = true := by
    refine hsorted.imp_of_mem fun {a b} _ hb hab => ?_
    simp only [Bool.not_eq_true', atLeast, decide_eq_true_eq] at hab ⊢
    contrapose
    simp only [Bool.not_eq_false]
    exact Single.below_of_rank_le (hnumbers b (List.mem_mergeSort.mp hb)) hab
  rw [rank, collect_eq_takeWhile, takeWhile_eq_filter hfloor, List.filter_filter]
  simp only [Bool.and_comm]

lemma isWanted_iff {h : Hit} (hnumber : h.similarity.isNaN = false)
    (hfloor : o.minSimilarity.isNaN = false) :
    (!h.similarity.below o.minSimilarity && o.admits h) = true ↔ h.IsWanted o := by
  simp only [SearchOptions.admits, SearchOptions.allows, Bool.and_eq_true, Bool.not_eq_true',
    Single.below_eq_false_iff hnumber hfloor, bne_iff_ne, ne_eq, Bool.or_eq_true,
    List.isEmpty_iff, List.contains_iff_mem]
  constructor
  · rintro ⟨hlevel, hid, htype⟩
    exact ⟨hlevel, hid, htype⟩
  · rintro ⟨hlevel, hid, htype⟩
    exact ⟨hlevel, hid, htype⟩

/-- Candidates are ranked with their places: no two of them stand at one place. -/
lemma pairwise_standsBefore (hnumbers : ∀ h ∈ candidates, h.similarity.isNaN = false) :
    (candidates.zipIdx.mergeSort (List.zipIdxLE atLeast)).Pairwise StandsBefore := by
  have hsorted := List.pairwise_mergeSort (List.zipIdxLE_trans atLeast_trans)
    (List.zipIdxLE_total atLeast_total) candidates.zipIdx
  have hplaces : (candidates.zipIdx.mergeSort (List.zipIdxLE atLeast)).Pairwise
      fun a b => a.2 ≠ b.2 := by
    have hperm := (List.mergeSort_perm candidates.zipIdx (List.zipIdxLE atLeast)).map Prod.snd
    rw [List.zipIdx_map_snd] at hperm
    exact List.pairwise_map.mp (hperm.nodup_iff.mpr (List.nodup_range' 1))
  refine (hsorted.and hplaces).imp_of_mem fun {a b} ha hb hab => ?_
  obtain ⟨hle, hne⟩ := hab
  have hnumber {e : Hit × ℕ} (he : e ∈ candidates.zipIdx.mergeSort (List.zipIdxLE atLeast)) :
      e.1.similarity.isNaN = false :=
    hnumbers e.1 (List.mem_of_getElem? (List.mem_zipIdx_iff_getElem?.mp (List.mem_mergeSort.mp he)))
  have hless := Single.rank_lt_iff (hnumber hb) (hnumber ha)
  rw [StandsBefore, ← hless, ← Single.rank_inj]
  simp only [List.zipIdxLE, atLeast, decide_eq_true_eq] at hle
  split at hle
  · split at hle
    · simp only [decide_eq_true_eq] at hle
      omega
    · omega
  · simp at hle

/-- The results are the first of the wanted candidates, each of which is ranked once for each of
its places: the more similar ones first, and equally similar ones in the order of their places. -/
theorem rank_is_stable_top (hnumbers : ∀ h ∈ candidates, h.similarity.isNaN = false)
    (hfloor : o.minSimilarity.isNaN = false) :
    ∃ ranked : List (Hit × ℕ),
      (∀ h place, (h, place) ∈ ranked ↔ candidates[place]? = some h ∧ h.IsWanted o) ∧
      ranked.Pairwise StandsBefore ∧
      rank candidates o = (ranked.map Prod.fst).take o.maxResults := by
  set wanted : Hit → Bool := fun h => !h.similarity.below o.minSimilarity && o.admits h
  refine ⟨(candidates.zipIdx.mergeSort (List.zipIdxLE atLeast)).filter (wanted ∘ Prod.fst),
    fun h place => ?_, (pairwise_standsBefore hnumbers).filter _, ?_⟩
  · rw [List.mem_filter, List.mem_mergeSort, List.mk_mem_zipIdx_iff_getElem?]
    exact and_congr_right fun hh => isWanted_iff (hnumbers h (List.mem_of_getElem? hh)) hfloor
  · rw [rank_eq_take_filter hnumbers, ← List.filter_map, List.mergeSort_zipIdx]

/-- Candidates with both zeros among their similarities. -/
def zeroCandidates : List Hit :=
  [⟨"a.go::left", .src, "", 1, 1, .zero⟩, ⟨"a.go::below", .src, "", 2, 2, .negativeZero⟩,
    ⟨"a.go::test", .tests, "", 3, 3, .ofNat 1⟩, ⟨"a.go::tied", .src, "", 4, 4, .zero⟩]

/-- A search for source chunks other than one of them, with room for two. -/
def zeroOptions : SearchOptions where
  minSimilarity := .zero
  maxResults := 2
  fileTypes := [.src]
  excluded := some "a.go::left"

/-- The test and the chunk that is left out take up no room, and `-0` is not below the floor. -/
theorem zeroCandidates_ranked : (∀ h ∈ zeroCandidates, h.similarity.isNaN = false) ∧
    zeroOptions.minSimilarity.isNaN = false ∧
    (∃ ranked : List (Hit × ℕ),
      (∀ h place, (h, place) ∈ ranked ↔
        zeroCandidates[place]? = some h ∧ h.IsWanted zeroOptions) ∧
      ranked.Pairwise StandsBefore ∧
      rank zeroCandidates zeroOptions = (ranked.map Prod.fst).take zeroOptions.maxResults) ∧
    (rank zeroCandidates zeroOptions).map (·.id) = ["a.go::tied", "a.go::below"] := by
  have hnumbers : ∀ h ∈ zeroCandidates, h.similarity.isNaN = false := by decide
  have hzero : Single.zero.rank = 0 := by decide
  have hbelow : Single.negativeZero.rank = -1 := by decide
  have hone : (Single.ofNat 1).rank = 1065353216 := by decide
  have hsorted : zeroCandidates.mergeSort atLeast =
      [⟨"a.go::test", .tests, "", 3, 3, .ofNat 1⟩, ⟨"a.go::left", .src, "", 1, 1, .zero⟩,
        ⟨"a.go::tied", .src, "", 4, 4, .zero⟩, ⟨"a.go::below", .src, "", 2, 2, .negativeZero⟩] := by
    simp [zeroCandidates, List.mergeSort, atLeast, hzero, hbelow, hone]
  refine ⟨hnumbers, by decide, rank_is_stable_top hnumbers (by decide), ?_⟩
  rw [rank, hsorted]
  decide

end Hit

end CodeSearch
