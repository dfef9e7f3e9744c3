import CodeSearch.Chunk.File
import CodeSearch.Index.Basic
import CodeSearch.Proofs.ChunkNames
import CodeSearch.Proofs.UniquePaths

/-!
# The current chunks of a file

What a file is cut into depends on its language, its name and its text, and not on the
chunker that is used: what a chunker remembers of queries is what it would make of them anew.
Chunks read at different times differ in nothing but that time.
-/
namespace CodeSearch

/-- A chunk as it is when it is read at another time. -/
def Chunk.readAt (now : ℤ) (c : Chunk) : Chunk :=
  { c with parsedAt := now }

namespace Extraction

/-- An extraction at another time. -/
def readAt (now : ℤ) (x : Extraction) : Extraction :=
  { x with parsedAt := now }

mutual

lemma ofSection_readAt (now : ℤ) (x : Extraction) (scope : String) (taken : List String) :
    ∀ s : Section, (x.readAt now).ofSection scope taken s =
      ((x.ofSection scope taken s).1.map (Chunk.readAt now), (x.ofSection scope taken s).2)
  | .mk g nested => by
    have hnested := ofSections_readAt now x
      (Naming.innerScope (x.labelOf g) scope
        (Naming.freePath taken (Naming.basePath (x.labelOf g) x.source scope g.node)))
      (Naming.freePath taken (Naming.basePath (x.labelOf g) x.source scope g.node) :: taken) nested
    have hfst := congrArg Prod.fst hnested
    have hsnd := congrArg Prod.snd hnested
    rw [ofSection, ofSection, List.map_cons]
    refine Prod.ext ?_ ?_
    · exact congrArg₂ List.cons rfl hfst
    · exact hsnd

lemma ofSections_readAt (now : ℤ) (x : Extraction) (scope : String) (taken : List String) :
    ∀ ss : List Section, (x.readAt now).ofSections scope taken ss =
      ((x.ofSections scope taken ss).1.map (Chunk.readAt now), (x.ofSections scope taken ss).2)
  | [] => by simp [ofSections]
  | s :: ss => by
    simp only [ofSections, ofSection_readAt now x scope taken s,
      ofSections_readAt now x scope _ ss, List.map_append]

end

/-- The time of reading goes into the chunks and changes nothing else. -/
lemma chunks_readAt (now : ℤ) (x : Extraction) (root : Node) :
    (x.readAt now).chunks root = (x.chunks root).map (Chunk.readAt now) :=
  congrArg Prod.fst (ofSections_readAt now x "" [] (x.table.outline root))

end Extraction

/-- What became of the queries that were used. -/
abbrev Memory := List (String × Option (List Pattern))

namespace Memory

variable {compile : Naming.Compiler} {m : Memory}

/-- What is remembered of a query is what is made of it anew. -/
def IsFaithful (compile : Naming.Compiler) (m : Memory) : Prop :=
  ∀ query outcome, m.lookup query = some outcome → outcome = compile query

lemma isFaithful_nil : IsFaithful compile [] := fun query outcome h => by cases h

lemma IsFaithful.cons (h : m.IsFaithful compile) (query : String) :
    IsFaithful compile ((query, compile query) :: m) := by
  intro q outcome hq
  rw [List.lookup_cons] at hq
  split at hq
  · next heq =>
    obtain rfl := Option.some.inj hq
    rw [beq_iff_eq.mp heq]
  · exact h q outcome hq

end Memory

namespace Chunker

variable {l : Language} {k k' : Chunker}

/-- The chunker remembers of its queries what it would make of them anew. -/
def IsFaithful (k : Chunker) : Prop :=
  Memory.IsFaithful k.compileNew k.known

lemma compile_eq (h : k.IsFaithful) : k.compile = k.compileNew := by
  funext query
  unfold compile
  cases hknown : k.known.lookup query with
  | none => rfl
  | some outcome => exact h query outcome hknown

lemma isFaithful_remember (h : k.IsFaithful) (query : String) : (k.remember query).IsFaithful := by
  unfold remember
  split
  · exact h
  · exact h.cons query

lemma isFaithful_foldl_remember (h : k.IsFaithful) (queries : List String) :
    (queries.foldl remember k).IsFaithful := by
  induction queries generalizing k with
  | nil => exact h
  | cons query queries ih => exact ih (isFaithful_remember h query)

/-- Two chunkers that differ in nothing but in what they remember of queries. -/
structure AgreesWith (k k' : Chunker) : Prop where
  table : k.table = k'.table
  classifier : k.classifier = k'.classifier
  compileNew : k.compileNew = k'.compileNew

lemma AgreesWith.refl (k : Chunker) : k.AgreesWith k :=
  ⟨rfl, rfl, rfl⟩

lemma AgreesWith.trans {k'' : Chunker} (h : k.AgreesWith k') (h' : k'.AgreesWith k'') :
    k.AgreesWith k'' :=
  ⟨h.table.trans h'.table, h.classifier.trans h'.classifier, h.compileNew.trans h'.compileNew⟩

lemma agreesWith_foldl_remember (k : Chunker) (queries : List String) :
    (queries.foldl remember k).AgreesWith k := by
  induction queries generalizing k with
  | nil => exact .refl k
  | cons query queries ih =>
    have hone : (k.remember query).AgreesWith k := by
      unfold remember
      split <;> exact ⟨rfl, rfl, rfl⟩
    exact (ih _).trans hone

/-- What a chunker makes of the text of a file that is not ignored. -/
def extraction (k : Chunker) (file source : String) (now : ℤ) : Extraction where
  table := k.table
  compile := k.compileNew
  source := source.toList
  file := file
  fileType := k.classify file
  parsedAt := now

/-- What a chunker makes of a source if what it remembers of queries is right. -/
lemma fst_chunkSource (h : k.IsFaithful) (file source : String) (tree : Node)
    (now : ℤ) : (k.chunkSource file source tree now).1 =
      if k.classify file = .ignored then .error (.ignored file)
      else .ok ⟨file, (k.extraction file source now).chunks tree⟩ := by
  unfold chunkSource
  split
  · next hclass => rw [if_pos hclass]
  · next hclass =>
    rw [if_neg hclass]
    have hrest :=
      isFaithful_foldl_remember h (queriesOfSections k.table (k.table.outline tree))
    obtain ⟨htable, -, hcompile⟩ :=
      k.agreesWith_foldl_remember (queriesOfSections k.table (k.table.outline tree))
    simp only [compile_eq hrest, htable, hcompile]
    rfl

lemma isFaithful_chunkSource (h : k.IsFaithful) (file source : String) (tree : Node)
    (now : ℤ) : (k.chunkSource file source tree now).2.IsFaithful := by
  unfold chunkSource
  split
  · exact h
  · exact isFaithful_foldl_remember h _

lemma agreesWith_chunkSource (k : Chunker) (path source : String) (tree : Node) (now : ℤ) :
    (k.chunkSource path source tree now).2.AgreesWith k := by
  unfold chunkSource
  split
  · exact .refl k
  · exact agreesWith_foldl_remember k _

variable [QueryCompiler]

/-- A chunker as it is made for a language, but for what it remembers of queries. -/
structure IsOf (l : Language) (k : Chunker) : Prop where
  made : ∃ k₀, create (some l) = .ok k₀ ∧ k.AgreesWith k₀
  known : k.IsFaithful

lemma isFaithful_create {language : Option Language} {custom : Option Table}
    (h : create language custom = .ok k) : k.IsFaithful := by
  cases language with
  | none => cases h
  | some l =>
    rw [create, ofTable] at h
    split at h
    · obtain rfl := Except.ok.inj h
      exact Memory.isFaithful_nil
    · cases h

lemma isOf_create (h : create (some l) = .ok k) : k.IsOf l :=
  ⟨⟨k, h, .refl k⟩, isFaithful_create h⟩

/-- Two chunkers of a language differ in what they remember at most. -/
lemma IsOf.agreesWith (h : k.IsOf l) (h' : k'.IsOf l) : k.AgreesWith k' := by
  obtain ⟨k₀, hmade, hk⟩ := h.made
  obtain ⟨k₁, hmade', hk'⟩ := h'.made
  obtain rfl := Except.ok.inj (hmade.symm.trans hmade')
  exact hk.trans ⟨hk'.table.symm, hk'.classifier.symm, hk'.compileNew.symm⟩

lemma IsOf.chunkSource_fst (h : k.IsOf l) (file source : String) (tree : Node) (now : ℤ) :
    (k.chunkSource file source tree now).1 =
      if k.classify file = .ignored then .error (.ignored file)
      else .ok ⟨file, (k.extraction file source now).chunks tree⟩ :=
  fst_chunkSource h.known file source tree now

lemma IsOf.chunkSource_snd (h : k.IsOf l) (file source : String) (tree : Node) (now : ℤ) :
    (k.chunkSource file source tree now).2.IsOf l := by
  obtain ⟨k₀, hmade, hk⟩ := h.made
  exact ⟨⟨k₀, hmade, (k.agreesWith_chunkSource file source tree now).trans hk⟩,
    isFaithful_chunkSource h.known file source tree now⟩

lemma IsOf.chunkFile_snd (h : k.IsOf l) (parse : String → Node) (d : Disk) (root : Location)
    (file : String) (now : ℤ) : (k.chunkFile parse d root file now).2.IsOf l := by
  unfold chunkFile
  split
  · exact h
  · split
    · exact h
    · exact h.chunkSource_snd _ _ _ _

/-- What a file is cut into goes under its name. -/
lemma IsOf.path_chunkFile (h : k.IsOf l) {parse : String → Node} {d : Disk} {root : Location}
    {file : String} {now : ℤ} {chunked : ChunkedFile}
    (hchunked : (k.chunkFile parse d root file now).1 = .ok chunked) : chunked.path = file := by
  unfold chunkFile at hchunked
  split at hchunked
  · cases hchunked
  · split at hchunked
    · cases hchunked
    · rw [h.chunkSource_fst] at hchunked
      split at hchunked
      · cases hchunked
      · obtain rfl := Except.ok.inj hchunked
        rfl

/-- Chunkers of the same language cut a file into the same chunks. -/
theorem IsOf.chunkFile_congr (h : k.IsOf l) (h' : k'.IsOf l) (parse : String → Node) (d : Disk)
    (root : Location) (file : String) (now : ℤ) :
    (k.chunkFile parse d root file now).1 = (k'.chunkFile parse d root file now).1 := by
  obtain ⟨htable, hrules, hcompile⟩ := h.agreesWith h'
  have hclass : k.classify file = k'.classify file := by rw [classify, classify, hrules]
  unfold chunkFile
  rw [hclass]
  split
  · rfl
  · split
    · rfl
    · rw [h.chunkSource_fst, h'.chunkSource_fst, hclass, extraction, extraction, htable, hclass,
        hcompile]

end Chunker

/-- Two disks show a path alike: something stands there or not, and its text is the same. -/
def Disk.AgreeAt (path : String) (d d' : Disk) : Prop :=
  d.has path = d'.has path ∧ d.readText path = d'.readText path

lemma Disk.AgreeAt.trans_symm {path : String} {d d' d'' : Disk} (h : Disk.AgreeAt path d d')
    (h' : Disk.AgreeAt path d d'') : Disk.AgreeAt path d' d'' :=
  ⟨h.1.symm.trans h'.1, h.2.symm.trans h'.2⟩

variable [QueryCompiler]

/-- What a new chunker makes of a file as it stands on a disk: no chunks if the file is gone,
is ignored, or cannot be cut. -/
def currentChunks (grammar : Grammar) (d : Disk) (root : Location) (file : String) (now : ℤ) :
    List Chunk :=
  if d.has (Index.pathOf root file) then
    match Language.ofPath? file with
    | none => []
    | some l =>
        match Chunker.create (some l) with
        | .error _ => []
        | .ok k =>
            match (k.chunkFile (grammar l) d root file now).1 with
            | .ok chunked => chunked.chunks
            | .error _ => []
  else []

lemma Chunker.IsOf.currentChunks_eq {l : Language} {k : Chunker} (h : k.IsOf l)
    (grammar : Grammar) {d : Disk} {root : Location} {file : String}
    (hlanguage : Language.ofPath? file = some l) (hhas : d.has (Index.pathOf root file) = true)
    (now : ℤ) : currentChunks grammar d root file now =
      match (k.chunkFile (grammar l) d root file now).1 with
      | .ok chunked => chunked.chunks
      | .error _ => [] := by
  obtain ⟨k₀, hcreate, -⟩ := h.made
  simp only [currentChunks, hhas, ↓reduceIte, hlanguage, hcreate]
  rw [(isOf_create hcreate).chunkFile_congr h]

lemma currentChunks_of_gone {grammar : Grammar} {d : Disk} {root : Location} {file : String}
    (h : d.has (Index.pathOf root file) = false) (now : ℤ) :
    currentChunks grammar d root file now = [] := by
  simp [currentChunks, h]

/-- The rules of its language ignore the file. -/
def IsIgnored (file : String) : Prop :=
  ∃ l k, Language.ofPath? file = some l ∧ Chunker.create (some l) = .ok k ∧
    k.classify file = .ignored

lemma currentChunks_of_ignored {grammar : Grammar} {d : Disk} {root : Location} {file : String}
    (h : IsIgnored file) (now : ℤ) : currentChunks grammar d root file now = [] := by
  obtain ⟨l, k, hlanguage, hcreate, hclass⟩ := h
  simp [currentChunks, hlanguage, hcreate, Chunker.chunkFile, hclass]

lemma currentChunks_cases (grammar : Grammar) (d : Disk) (root : Location) (file : String) :
    (∀ now, currentChunks grammar d root file now = []) ∨
    ((Language.ofPath? file).isSome = true ∧ ∃ (x : Extraction) (tree : Node) (text : String),
      x.file = file ∧ d.readText (Index.pathOf root file) = .ok text ∧ x.source = text.toList ∧
      ∀ now, currentChunks grammar d root file now = (x.readAt now).chunks tree) := by
  unfold currentChunks
  split
  case isFalse => exact .inl fun _ => rfl
  cases hlanguage : Language.ofPath? file with
  | none => exact .inl fun _ => rfl
  | some l =>
    dsimp only
    cases hcreate : Chunker.create (some l) with
    | error _ => exact .inl fun _ => rfl
    | ok k =>
      have hk := Chunker.isOf_create hcreate
      dsimp only [Chunker.chunkFile]
      cases hclass : k.classify file with
      | ignored => exact .inl fun _ => rfl
      | _ =>
        cases hread : d.readText (Path.join root.path file) with
        | error _ => exact .inl fun _ => rfl
        | ok source =>
          refine .inr ⟨rfl, k.extraction file source 0, grammar l source, source, rfl, hread, rfl,
            fun now => ?_⟩
          simp only [hk.chunkSource_fst, hclass, reduceCtorEq, ↓reduceIte]
          rfl

/-- The time of reading goes into the chunks and changes nothing else. -/
lemma currentChunks_readAt (grammar : Grammar) (d : Disk) (root : Location) (file : String)
    (now now' : ℤ) : currentChunks grammar d root file now' =
      (currentChunks grammar d root file now).map (Chunk.readAt now') := by
  rcases currentChunks_cases grammar d root file with h | ⟨-, x, tree, -, -, -, -, h⟩
  · rw [h, h]
    rfl
  · rw [h, h, ← Extraction.chunks_readAt]
    rfl

lemma file_of_mem_currentChunks {grammar : Grammar} {d : Disk} {root : Location} {file : String}
    {now : ℤ} {c : Chunk} (hc : c ∈ currentChunks grammar d root file now) :
    c.file = file ∧ (Language.ofPath? file).isSome = true := by
  rcases currentChunks_cases grammar d root file with h | ⟨hlanguage, x, tree, -, hx, -, -, h⟩
  · rw [h] at hc
    cases hc
  · rw [h] at hc
    exact ⟨((x.readAt now).file_of_mem_chunks hc).trans hx, hlanguage⟩

lemma nodup_currentChunks (grammar : Grammar) (d : Disk) (root : Location) (file : String)
    (now : ℤ) : ((currentChunks grammar d root file now).map Chunk.id).Nodup := by
  rcases currentChunks_cases grammar d root file with h | ⟨-, x, tree, -, -, -, -, h⟩
  · rw [h]
    exact List.nodup_nil
  · rw [h]
    exact (x.readAt now).nodup_map_id tree

/-- The chunks of a file depend on what the disk shows of it and on nothing else. -/
lemma currentChunks_congr (grammar : Grammar) {d d' : Disk} {root : Location} {file : String}
    (h : Disk.AgreeAt (Index.pathOf root file) d d') (now : ℤ) :
    currentChunks grammar d root file now = currentChunks grammar d' root file now := by
  have hread : d.readText (Path.join root.path file) = d'.readText (Path.join root.path file) := h.2
  simp only [currentChunks, h.1, Chunker.chunkFile, hread]

end CodeSearch
