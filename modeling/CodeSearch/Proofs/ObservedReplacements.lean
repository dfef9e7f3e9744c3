import CodeSearch.Proofs.ReopenedIndex
import CodeSearch.Proofs.SearchResults

/-!
# Replacements as readers see them

Putting chunks in place of those of a file takes two calls of the store, and readers do not
wait for the second one. The states that they can meet are found by letting the same call run
on a store that remembers its states. Between the two calls nothing is stored of the file, so
no reader finds any of its chunks then, not even one that is in the old set and in the new one.
-/
namespace CodeSearch

/-- A store that remembers the states it was in before, the latest first. -/
structure TracedStore (σ : Type) where
  current : σ
  earlier : List σ := []

namespace TracedStore

variable {σ : Type}

/-- The states of the store in their order. -/
def moments (t : TracedStore σ) : List σ :=
  t.earlier.reverse ++ [t.current]

lemma getLast?_moments (t : TracedStore σ) : t.moments.getLast? = some t.current := by
  rw [moments, List.getLast?_concat]

/-- The store in a new state. -/
def next (t : TracedStore σ) (s : σ) : TracedStore σ :=
  ⟨s, t.current :: t.earlier⟩

instance [DocumentStore σ] : DocumentStore (TracedStore σ) where
  add t documents := (DocumentStore.add t.current documents).map t.next
  delete t filter := (DocumentStore.delete t.current filter).map fun r => (r.1, t.next r.2)
  get? t := DocumentStore.get? t.current
  ids t := DocumentStore.ids t.current
  query t := DocumentStore.query t.current
  queryVector t := DocumentStore.queryVector t.current

end TracedStore

namespace FaultyStore

/-- The chunks that are stored of a file, by their identifiers. -/
def chunksOf (s : FaultyStore) (file : String) : String → Option Document := fun id =>
  (Contents.ofFile (DocumentStore.get? s) file id).map (·.toDocument)

/-- After documents were put in place of those of a file, the file has those of them that name
it; the last one of an identifier counts. -/
lemma chunksOf_of_refile {s t : FaultyStore} {file : String} {stored : List StoredDocument}
    {documents : List Document} (hdocuments : stored.map (·.toDocument) = documents)
    (ht : DocumentStore.get? t = Contents.refile (DocumentStore.get? s) file stored) :
    t.chunksOf file = fun id => (documents.reverse.find? fun d => d.id == id).filter
      fun d => d.metadata.get? "file" == some file := by
  funext id
  have hfind : (documents.reverse.find? fun d => d.id == id) =
      (stored.reverse.find? fun d => d.id == id).map (·.toDocument) := by
    rw [← hdocuments, ← List.map_reverse, List.find?_map]
    rfl
  rw [chunksOf, ht, hfind, Contents.ofFile, Contents.refile, Contents.put]
  cases stored.reverse.find? fun d => d.id == id with
  | some d => simp [Option.filter_some, apply_ite]
  | none =>
    rw [Option.none_or, Contents.drop, Option.filter_filter, Option.filter_eq_none_iff.mpr]
    · rfl
    · intro d hd
      simp [Document.matches_fileFilter]

end FaultyStore

/-- The chunks of a call that go under the name of its file, by their identifiers; the last one
of an identifier counts. -/
def ChunkedFile.chunksById (call : ChunkedFile) : String → Option Document := fun id =>
  ((call.chunks.map Chunk.document).reverse.find? fun d => d.id == id).filter
    fun d => d.metadata.get? "file" == some call.path

lemma Hit.mem_of_mem_collect {o : SearchOptions} {h : Hit} {hits : List Hit} {room : ℕ}
    (hmem : h ∈ collect o room hits) : h ∈ hits := by
  fun_induction collect o room hits with
  | case1 => cases hmem
  | case2 => cases hmem
  | case3 => cases hmem
  | case4 _ _ _ _ _ ih =>
    rcases List.mem_cons.mp hmem with heq | hrest
    · exact List.mem_cons.mpr (.inl heq)
    · exact List.mem_cons_of_mem _ (ih hrest)
  | case5 _ _ _ _ _ ih => exact List.mem_cons_of_mem _ (ih hmem)

namespace Index

section Traced

variable {σ : Type} [DocumentStore σ]

/-- The index with a store that remembers its states from now on. -/
def traced (x : Index σ) : Index (TracedStore σ) :=
  { root := x.root, store := ⟨x.store, []⟩, cache := x.cache }

/-- The index without the memory of its store. -/
def untraced (x : Index (TracedStore σ)) : Index σ :=
  { root := x.root, store := x.store.current, cache := x.cache }

/-- The states of the store that a reader can meet while a file gets its chunks. -/
def moments (x : Index σ) (call : ChunkedFile) : List σ :=
  (x.traced.replace call).2.store.moments

/-- What a call comes to, told by what the store answers. -/
lemma replace_eq (x : Index σ) (call : ChunkedFile) : x.replace call =
    match DocumentStore.delete x.store (fileFilter call.path) with
    | .error e => (.error e, x)
    | .ok (_, s) =>
        if call.chunks.isEmpty then
          (.ok (), { x with store := s, cache := x.cache.erase call.path })
        else
          match DocumentStore.add s (call.chunks.map Chunk.document) with
          | .error e => (.error e, { x with store := s, cache := x.cache.erase call.path })
          | .ok t => (.ok (), { x with
              store := t, cache := (x.cache.erase call.path).insert call.path
                (call.chunks.map Chunk.cached) }) := by
  unfold replace remove
  cases DocumentStore.delete x.store (fileFilter call.path) <;> rfl

lemma delete_traced (x : Index σ) (file : String) :
    DocumentStore.delete x.traced.store (fileFilter file) =
      (DocumentStore.delete x.store (fileFilter file)).map fun r => (r.1, ⟨r.2, [x.store]⟩) :=
  rfl

lemma add_traced (s : σ) (earlier : List σ) (documents : List Document) :
    DocumentStore.add (⟨s, earlier⟩ : TracedStore σ) documents =
      (DocumentStore.add s documents).map fun t => ⟨t, s :: earlier⟩ :=
  rfl

/-- A call comes to the same whether or not the store remembers its states. -/
lemma replace_traced (x : Index σ) (call : ChunkedFile) :
    (x.traced.replace call).1 = (x.replace call).1 ∧
    (x.traced.replace call).2.untraced = (x.replace call).2 := by
  rw [replace_eq, replace_eq, delete_traced]
  cases DocumentStore.delete x.store (fileFilter call.path) with
  | error e => exact ⟨rfl, rfl⟩
  | ok r =>
    simp only [Except.map, add_traced]
    cases call.chunks.isEmpty with
    | true => exact ⟨rfl, rfl⟩
    | false => cases DocumentStore.add r.2 (call.chunks.map Chunk.document) <;> exact ⟨rfl, rfl⟩

/-- Each call of the store that is not refused makes one state. -/
lemma moments_eq (x : Index σ) (call : ChunkedFile) : x.moments call =
    match DocumentStore.delete x.store (fileFilter call.path) with
    | .error _ => [x.store]
    | .ok (_, emptied) =>
        if call.chunks.isEmpty then [x.store, emptied]
        else
          match DocumentStore.add emptied (call.chunks.map Chunk.document) with
          | .error _ => [x.store, emptied]
          | .ok filled => [x.store, emptied, filled] := by
  rw [moments, replace_eq, delete_traced]
  cases DocumentStore.delete x.store (fileFilter call.path) with
  | error e => rfl
  | ok r =>
    simp only [Except.map, add_traced]
    cases call.chunks.isEmpty with
    | true => rfl
    | false => cases DocumentStore.add r.2 (call.chunks.map Chunk.document) <;> rfl

lemma getLast?_moments (x : Index σ) (call : ChunkedFile) :
    (x.moments call).getLast? = some (x.replace call).2.store := by
  rw [moments, TracedStore.getLast?_moments, ← (replace_traced x call).2]
  rfl

end Traced

/-- No reader finds anything under the identifier. -/
structure Misses (x : Index FaultyStore) (id : String) : Prop where
  chunk? : x.chunk? id = .ok none
  findSimilar : ∀ o, x.findSimilar id o = .error (.chunkNotFound id)
  notSimilar : ∀ other o hits, x.findSimilar other o = .ok hits → ∀ h ∈ hits, h.id ≠ id
  notFound : ∀ query o hits, x.search query o = .ok hits → ∀ h ∈ hits, h.id ≠ id

variable {x : Index FaultyStore} {call : ChunkedFile}

lemma exists_get?_of_mem_rankMatches (hx : x.store.store.documents.Keyed) {o : SearchOptions}
    {found : List Match} {h : Hit} (hh : h ∈ x.rankMatches o found) :
    ∃ d, DocumentStore.get? x.store h.id = some d := by
  have hmem := Hit.mem_of_mem_collect hh
  rw [List.mem_mergeSort, List.mem_filterMap] at hmem
  obtain ⟨m, -, hhit⟩ := hmem
  unfold hit? at hhit
  split at hhit
  · cases hhit
  · obtain ⟨d, hd, hok⟩ := Option.bind_eq_some_iff.mp hhit
    have hid : h.id = m.id := by
      cases hread : d.hit m.similarity with
      | error e => simp [hread, Except.toOption] at hok
      | ok h' =>
        rw [hread] at hok
        obtain rfl : h' = h := Option.some.inj hok
        exact (StoredDocument.hit_eq_ok hread).1.trans (hx m.id d hd)
    exact ⟨d, hid ▸ hd⟩

lemma misses_of_get?_eq_none (hx : x.store.store.documents.Keyed) {id : String}
    (hid : DocumentStore.get? x.store id = none) : x.Misses id := by
  have hfound {o : SearchOptions} {found : List Match} {h : Hit}
      (hh : h ∈ x.rankMatches o found) : h.id ≠ id := by
    rintro rfl
    obtain ⟨d, hd⟩ := exists_get?_of_mem_rankMatches hx hh
    exact absurd (hid.symm.trans hd) (by simp)
  refine ⟨?_, fun o => ?_, fun other o hits hanswer h hh => ?_, fun query o hits hanswer h hh => ?_⟩
  · rw [chunk?, hid]
  · rw [findSimilar, hid]
  · unfold findSimilar at hanswer
    split at hanswer
    · cases hanswer
    · split at hanswer
      · cases hanswer
      · exact hfound (Except.ok.inj hanswer ▸ hh)
  · unfold search at hanswer
    split at hanswer
    · cases hanswer
    · exact hfound (Except.ok.inj hanswer ▸ hh)

/-- A store that has new documents in place of those of a file. -/
def Receives (x : Index FaultyStore) (call : ChunkedFile) (s : FaultyStore) : Prop :=
  ∃ documents, Keep documents call.chunks ∧
    DocumentStore.get? s = x.stored.refile call.path documents

/-- Either the store refuses to drop the old documents, or there is a moment at which the file
has none, and what comes after it, if anything, has the new ones. -/
lemma moments_cases (hx : x.store.store.documents.Keyed) (call : ChunkedFile) :
    (x.store.failsDelete = true ∧ x.moments call = [x.store] ∧
      x.replace call = (.error FaultyStore.fault, x)) ∨
    ∃ emptied later, x.store.failsDelete = false ∧
      x.moments call = x.store :: emptied :: later ∧
      DocumentStore.get? emptied = x.stored.refile call.path [] ∧
      (∀ s ∈ later, x.Receives call s) ∧
      ((x.replace call).1 = .ok () → x.Receives call (x.replace call).2.store) := by
  have hmoments := moments_eq x call
  rw [replace_eq]
  cases hfails : x.store.failsDelete with
  | true =>
    have hdelete : DocumentStore.delete x.store (fileFilter call.path) =
        .error FaultyStore.fault := if_pos hfails
    rw [hdelete] at hmoments ⊢
    exact .inl ⟨rfl, hmoments, rfl⟩
  | false =>
    obtain ⟨count, emptied, hdelete, hemptied, -⟩ := FaultyStore.exists_delete hx hfails call.path
    rw [hdelete] at hmoments ⊢
    dsimp only at hmoments ⊢
    by_cases hnil : call.chunks = []
    · rw [if_pos (by simpa using hnil)] at hmoments ⊢
      exact .inr ⟨emptied, [], rfl, hmoments, hemptied, by simp,
        fun _ => ⟨[], by simp [Keep, hnil], hemptied⟩⟩
    · rw [if_neg (by simpa using hnil)] at hmoments ⊢
      cases hadd : DocumentStore.add emptied (call.chunks.map Chunk.document) with
      | error e =>
        rw [hadd] at hmoments
        exact .inr ⟨emptied, [], rfl, hmoments, hemptied, by simp, fun hok => by cases hok⟩
      | ok filled =>
        rw [hadd] at hmoments
        obtain ⟨documents, hkeep, hput⟩ := FaultyStore.exists_put_of_add hadd
        rw [hemptied, Contents.refile_nil] at hput
        have hfilled : x.Receives call filled := ⟨documents, hkeep, hput⟩
        exact .inr ⟨emptied, [filled], rfl, hmoments, hemptied,
          by simpa using hfilled, fun _ => hfilled⟩

lemma Receives.chunksOf {s : FaultyStore} (h : x.Receives call s) :
    s.chunksOf call.path = call.chunksById := by
  obtain ⟨documents, hkeep, hs⟩ := h
  exact FaultyStore.chunksOf_of_refile hkeep hs

/-- A document of another file is touched only by a new one under its identifier. -/
lemma refile_eq_some_iff {documents : List StoredDocument} {chunks : List Chunk}
    (hkeep : Keep documents chunks) {file id : String} (hid : id ∉ chunks.map Chunk.id)
    {d : StoredDocument} (hd : d.metadata.get? "file" ≠ some file) :
    x.stored.refile file documents id = some d ↔ x.stored id = some d := by
  have hnone : (documents.reverse.find? fun d => d.id == id) = none := by
    refine List.find?_eq_none.mpr fun d' hd' heq => hid ?_
    have hmem : d'.toDocument ∈ chunks.map Chunk.document :=
      hkeep ▸ List.mem_map_of_mem (List.mem_reverse.mp hd')
    obtain ⟨c, hc, hdocument⟩ := List.mem_map.mp hmem
    rw [← beq_iff_eq.mp heq, ← hdocument]
    exact List.mem_map_of_mem hc
  rw [Contents.refile, Contents.put, hnone, Option.none_or, Contents.drop,
    Option.filter_eq_some_iff, Document.matches_fileFilter]
  simp [hd]

/-- Once the documents of a file are dropped, no reader finds one of them. -/
lemma misses_of_refile_nil (hx : x.store.store.documents.Keyed) {file id : String}
    {s : FaultyStore} (hs : DocumentStore.get? s = x.stored.refile file [])
    (hid : (x.store.chunksOf file id).isSome = true) : Misses { x with store := s } id := by
  have hleft : x.stored.LeavesOut {file} (DocumentStore.get? s) := hs ▸ .refile_nil x.stored file
  refine misses_of_get?_eq_none (fun id d hd => hx id d (hleft.get? hd)) ?_
  obtain ⟨d, hd⟩ := Option.isSome_iff_exists.mp ((Option.isSome_map ..).symm.trans hid)
  obtain ⟨hold, hfile⟩ := Contents.ofFile_eq_some_iff.mp hd
  refine Option.eq_none_iff_forall_not_mem.mpr fun d' hd' => ?_
  obtain ⟨hsame, hother⟩ := (hleft id d').mp hd'
  obtain rfl := Option.some.inj (hold.symm.trans hsame)
  exact hother file rfl hfile

/-- What readers see while a file gets its chunks. -/
structure SeenDuring (x : Index FaultyStore) (call : ChunkedFile) : Prop where
  first : (x.moments call).head? = some x.store
  last : (x.moments call).getLast? = some (x.replace call).2.store
  /-- At every moment the file has its old chunks, none at all, or the new ones. -/
  seen : ∀ s ∈ x.moments call,
    s.chunksOf call.path = x.store.chunksOf call.path ∨ s.chunksOf call.path = (fun _ => none) ∨
      s.chunksOf call.path = call.chunksById
  renewed : (x.replace call).1 = .ok () →
    (x.replace call).2.store.chunksOf call.path = call.chunksById
  /-- It has the old ones or the new ones all the time only if the old ones are not dropped at
  all, or if there are no old ones or no new ones. -/
  whole_iff : (∀ s ∈ x.moments call, s.chunksOf call.path = x.store.chunksOf call.path ∨
      s.chunksOf call.path = call.chunksById) ↔
    x.store.failsDelete = true ∨ x.store.chunksOf call.path = (fun _ => none) ∨
      call.chunksById = fun _ => none
  /-- If the old ones are dropped, there is a moment at which no reader finds any of them, not
  even those that are among the new ones as well. -/
  missed : x.store.failsDelete = false → ∃ s ∈ x.moments call, ∀ id,
    (x.store.chunksOf call.path id).isSome = true → Misses { x with store := s } id
  /-- The documents of other files stay, unless a new one comes under their identifier. -/
  others : ∀ s ∈ x.moments call, ∀ id, id ∉ call.chunks.map Chunk.id → ∀ d : StoredDocument,
    d.metadata.get? "file" ≠ some call.path →
      (DocumentStore.get? s id = some d ↔ x.stored id = some d)

/-- While a file gets its chunks, readers see its old chunks, then none, then the new ones. They
see the file whole at every moment only if one of the two sets is empty or the call is refused
before anything is dropped. -/
theorem readers_see_old_then_none_then_new (hx : x.store.store.documents.Keyed)
    (call : ChunkedFile) : x.SeenDuring call := by
  rcases moments_cases hx call with ⟨hfails, hmoments, hreplace⟩ |
    ⟨emptied, later, hfails, hmoments, hemptied, hlater, hrenewed⟩
  · constructor
    · simp [hmoments]
    · exact getLast?_moments x call
    · simp [hmoments]
    · simp [hreplace]
    · simp [hmoments, hfails]
    · simp [hfails]
    · simp [hmoments, stored]
  have hnone : emptied.chunksOf call.path = fun _ => none :=
    FaultyStore.chunksOf_of_refile (List.map_nil : [].map StoredDocument.toDocument = []) hemptied
  refine ⟨by rw [hmoments]; rfl, getLast?_moments x call, fun s hs => ?_,
    fun hok => (hrenewed hok).chunksOf, ?_,
    fun _ => ⟨emptied, by simp [hmoments], fun id hid => misses_of_refile_nil hx hemptied hid⟩,
    fun s hs id hid d hd => ?_⟩
  · rw [hmoments, List.mem_cons, List.mem_cons] at hs
    rcases hs with rfl | rfl | hs
    · exact .inl rfl
    · exact .inr (.inl hnone)
    · exact .inr (.inr (hlater s hs).chunksOf)
  · rw [hmoments, List.forall_mem_cons, List.forall_mem_cons, hnone]
    constructor
    · rintro ⟨-, hold | hnew, -⟩
      · exact .inr (.inl hold.symm)
      · exact .inr (.inr hnew.symm)
    · rintro (hrefused | hempty)
      · exact absurd (hfails.symm.trans hrefused) (by simp)
      · exact ⟨.inl rfl, hempty.imp Eq.symm Eq.symm, fun s hs => .inr (hlater s hs).chunksOf⟩
  · rw [hmoments, List.mem_cons, List.mem_cons] at hs
    rcases hs with rfl | rfl | hs
    · rfl
    · rw [hemptied]
      exact refile_eq_some_iff (show Keep [] [] from rfl) (by simp) hd
    · obtain ⟨documents, hkeep, hs⟩ := hlater s hs
      rw [hs]
      exact refile_eq_some_iff hkeep hid hd

end Index

namespace IndexHistory

/-- The file gets one of its chunks anew. -/
def retakenFile : ChunkedFile :=
  ⟨"a.go", [chunkAt "a" 3]⟩

theorem retaken_file_is_seen :
    let x := (run freshIndex takenFiles).1
    x.store.store.documents.Keyed ∧ x.store.failsDelete = false ∧ x.SeenDuring retakenFile := by
  intro x
  have hx : x.store.store.documents.Keyed := fun id d hd =>
    ((agrees_foldl (w := (freshIndex, _)) (agrees_empty rfl ["work"])
      isProper_of_mem_takenFiles).filed id d hd).1
  exact ⟨hx, by decide +kernel, Index.readers_see_old_then_none_then_new hx retakenFile⟩

/-- A chunk that is in the old set and in the new one is missed in between. -/
theorem chunk_in_both_sets_is_missed :
    let x := (run freshIndex takenFiles).1
    (x.replace retakenFile).1 = .ok () ∧
    (x.moments retakenFile).map (fun s => Index.chunk? { x with store := s } "a.go::a") =
      [.ok (some (chunkAt "a" 1)), .ok none, .ok (some (chunkAt "a" 3))] := by
  decide +kernel

end IndexHistory

end CodeSearch
