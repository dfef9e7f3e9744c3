import CodeSearch.Proofs.Visits
import Mathlib.Data.List.Nodup

/-!
# Unique paths

The paths of the chunks of a file are all different, whatever the tree, the source and the
table. A chunk has the path that it asks for unless an earlier chunk has it, and then the
first number from two on with which no earlier chunk has it. Numbers run out never: of one
more number than there are paths, one is free.
-/
namespace CodeSearch

namespace Naming

lemma numbered_injective (path : String) : Function.Injective (numbered path) := by
  intro m n h
  have hchars := congrArg String.toList h
  simp only [numbered, String.toList_append, Nat.toList_repr] at hchars
  have hdigits := congrArg (fun ds => Nat.ofDigitChars 10 ds 0) (List.append_cancel_left hchars)
  simpa using hdigits

/-- The least number from `start` on with which a path is free. -/
structure IsLeastFree (used : List String) (path : String) (start n : ℕ) : Prop where
  start_le : start ≤ n
  free : numbered path n ∉ used
  least : ∀ m, start ≤ m → m < n → numbered path m ∈ used

lemma exists_free (used : List String) (path : String) (start : ℕ) :
    ∃ n ∈ List.range' start (used.length + 1), numbered path n ∉ used := by
  by_contra hnone
  simp only [not_exists, not_and, not_not] at hnone
  have hnodup : ((List.range' start (used.length + 1)).map (numbered path)).Nodup :=
    (List.nodup_range' 1).map (numbered_injective path)
  have hsubset : (List.range' start (used.length + 1)).map (numbered path) ⊆ used := by
    intro name hname
    obtain ⟨n, hn, rfl⟩ := List.mem_map.mp hname
    exact hnone n hn
  have hlength := hnodup.length_le_of_subset hsubset
  rw [List.length_map, List.length_range'] at hlength
  omega

/-- Counting up from any number finds the least free one, within as many steps as there
are paths. -/
theorem exists_isLeastFree (used : List String) (path : String) (start : ℕ) :
    ∃ n, IsLeastFree used path start n ∧ n ≤ start + used.length ∧
      (List.range' start (used.length + 1)).find? (fun n => numbered path n ∉ used) = some n := by
  obtain ⟨k, hk, hfree⟩ := exists_free used path start
  cases hfind : (List.range' start (used.length + 1)).find? fun n => numbered path n ∉ used with
  | none =>
    have := List.find?_eq_none.mp hfind k hk
    simp [hfree] at this
  | some n =>
    obtain ⟨hn, hmem, hleast⟩ := List.find?_range'_eq_some.mp hfind
    rw [List.mem_range'_1] at hmem
    refine ⟨n, ⟨hmem.1, by simpa using hn, fun m hm hlt => ?_⟩, by omega, rfl⟩
    simpa using hleast m hm hlt

/-- What a path becomes beside paths that are used: itself if it is free, and otherwise
its least free number from two on. -/
def IsFirstFree (used : List String) (wanted path : String) : Prop :=
  (wanted ∉ used ∧ path = wanted) ∨
    (wanted ∈ used ∧ ∃ n, IsLeastFree used wanted 2 n ∧ path = numbered wanted n)

theorem isFirstFree_freePath (used : List String) (wanted : String) :
    IsFirstFree used wanted (freePath used wanted) := by
  unfold freePath
  split
  · next hused =>
    obtain ⟨n, hn, -, hfind⟩ := exists_isLeastFree used wanted 2
    exact .inr ⟨hused, n, hn, by rw [hfind]⟩
  · next hfree => exact .inl ⟨hfree, rfl⟩

lemma IsFirstFree.notMem {used : List String} {wanted path : String}
    (h : IsFirstFree used wanted path) : path ∉ used := by
  rcases h with ⟨hfree, rfl⟩ | ⟨-, n, hn, rfl⟩
  · exact hfree
  · exact hn.free

/-- Only which paths are used matters, not their order. -/
lemma IsFirstFree.congr {a b : List String} {wanted path : String}
    (h : IsFirstFree a wanted path) (hab : ∀ p, p ∈ a ↔ p ∈ b) : IsFirstFree b wanted path := by
  rcases h with ⟨hfree, rfl⟩ | ⟨hused, n, hn, rfl⟩
  · exact .inl ⟨fun hmem => hfree ((hab _).mpr hmem), rfl⟩
  · have hleast : IsLeastFree b wanted 2 n := by
      refine ⟨hn.start_le, fun hmem => hn.free ((hab _).mpr hmem), fun m hm hlt => ?_⟩
      exact (hab _).mp (hn.least m hm hlt)
    exact .inr ⟨(hab _).mp hused, n, hleast, rfl⟩

end Naming

namespace Extraction

variable (x : Extraction)

lemma nodup_of_resolves {taken : List String} {visits : List Visit} (htaken : taken.Nodup)
    (h : x.Resolves taken visits) : ((visits.map (·.path)).reverse ++ taken).Nodup := by
  induction visits generalizing taken with
  | nil => simpa using htaken
  | cons v visits ih =>
    have hfree : v.path ∉ taken := by
      rw [h.1]
      exact (Naming.isFirstFree_freePath taken _).notMem
    simpa using ih (List.nodup_cons.mpr ⟨hfree, htaken⟩) h.2

lemma isFirstFree_of_resolves {before after : List Visit} {v : Visit}
    (h : x.Resolves [] (before ++ v :: after)) :
    Naming.IsFirstFree (before.map (·.path)) (x.wanted v) v.path := by
  obtain ⟨hpath, -⟩ := ((x.resolves_append [] before (v :: after)).mp h).2
  rw [hpath]
  exact (Naming.isFirstFree_freePath _ _).congr fun p => by simp

lemma nodup_map_path (root : Node) : ((x.chunks root).map (·.path)).Nodup := by
  obtain ⟨visits, -, hresolves, hchunks⟩ := x.exists_visits root
  have hnodup := x.nodup_of_resolves List.nodup_nil hresolves
  rw [List.append_nil, List.nodup_reverse] at hnodup
  have hpaths : (x.chunks root).map (·.path) = visits.map (·.path) := by
    rw [hchunks, List.map_map]
    rfl
  rwa [hpaths]

lemma file_of_mem_chunks {root : Node} {c : Chunk} (hc : c ∈ x.chunks root) : c.file = x.file := by
  obtain ⟨visits, -, -, hchunks⟩ := x.exists_visits root
  rw [hchunks] at hc
  obtain ⟨v, -, rfl⟩ := List.mem_map.mp hc
  rfl

lemma nodup_map_id (root : Node) : ((x.chunks root).map Chunk.id).Nodup := by
  have hids : (x.chunks root).map Chunk.id =
      ((x.chunks root).map (·.path)).map (ChunkId.ofParts x.file) := by
    rw [List.map_map]
    refine List.map_congr_left fun c hc => ?_
    rw [Chunk.id, x.file_of_mem_chunks hc]
    rfl
  have hinjective : Function.Injective (ChunkId.ofParts x.file) := by
    intro a b h
    have hchars := congrArg String.toList h
    simp only [ChunkId.ofParts, String.toList_append] at hchars
    exact String.toList_inj.mp (List.append_cancel_left hchars)
  rw [hids]
  exact (x.nodup_map_path root).map hinjective

/-- The paths of the chunks of a tree are all different, and so are their identifiers. Each
chunk has the path that it asks for, or the first number with it, that no earlier chunk
has; and counting up to that number comes to an end. -/
theorem chunk_paths_unique (root : Node) :
    ((x.chunks root).map (·.path)).Nodup ∧ ((x.chunks root).map Chunk.id).Nodup ∧
    (∃ visits, x.Visits "" (x.table.level root) visits ∧
      x.chunks root = visits.map x.chunkOfVisit ∧
      ∀ before v after, visits = before ++ v :: after →
        Naming.IsFirstFree ((before.map x.chunkOfVisit).map (·.path)) (x.wanted v)
          (x.chunkOfVisit v).path) ∧
    ∀ used path start, ∃ n, Naming.IsLeastFree used path start n ∧ n ≤ start + used.length := by
  obtain ⟨visits, hvisits, hresolves, hchunks⟩ := x.exists_visits root
  refine ⟨x.nodup_map_path root, x.nodup_map_id root, ⟨visits, hvisits, hchunks, ?_⟩, ?_⟩
  · rintro before v after rfl
    have hfirst := x.isFirstFree_of_resolves hresolves
    rw [List.map_map]
    exact hfirst
  · intro used path start
    obtain ⟨n, hn, hle, -⟩ := Naming.exists_isLeastFree used path start
    exact ⟨n, hn, hle⟩

end Extraction

end CodeSearch
