import CodeSearch.Proofs.Segments

/-!
# Reused chunkers

A chunker remembers what became of every query, also of those that are not well formed, and is
used for one file after another. What it remembers is what reading the query gives, so it makes of
a file what a new chunker makes of that file alone. That is so whether it goes through the queries
of a file beforehand, or looks each one up when a node is asked.
-/
namespace CodeSearch

namespace Memory

variable {α β : Type} {compile : Naming.Compiler} {run : StateM Memory α} {a : α} {b : β}

/-- Look a query up. If it is new, it is compiled, and what became of it is remembered. -/
def ask (compile : Naming.Compiler) (query : String) : StateM Memory (Option (List Pattern)) :=
  fun m =>
    match m.lookup query with
    | some outcome => (outcome, m)
    | none => (compile query, (query, compile query) :: m)

/-- A run that looks queries up gives an answer, whatever is remembered of queries before it. -/
def Answers (compile : Naming.Compiler) (run : StateM Memory α) (a : α) : Prop :=
  ∀ m, IsFaithful compile m → (run m).1 = a ∧ IsFaithful compile (run m).2

lemma answers_pure (a : α) : Answers compile (pure a) a := fun _ hm => ⟨rfl, hm⟩

lemma Answers.bind {next : α → StateM Memory β} (h : Answers compile run a)
    (hnext : Answers compile (next a) b) : Answers compile (run >>= next) b := by
  intro m hm
  obtain ⟨hfirst, hkept⟩ := h m hm
  change (next (run m).1 (run m).2).1 = b ∧ IsFaithful compile (next (run m).1 (run m).2).2
  rw [hfirst]
  exact hnext _ hkept

lemma answers_ask (query : String) : Answers compile (ask compile query) (compile query) := by
  intro m hm
  unfold ask
  split
  · next outcome hknown => exact ⟨hm query outcome hknown, hm⟩
  · exact ⟨rfl, hm.cons query⟩

end Memory

namespace Naming

open Memory

variable (compile : Naming.Compiler)

/-- The text of the one node that a query captures, with the query looked up. -/
def askSingle (source : List Char) (query : String) (n : Node) :
    StateM Memory (Option String) := do
  let outcome ← ask compile query
  return single? (fun _ => outcome) source query n

/-- The label of a node, with its queries looked up one after another, as far as they are
needed. -/
def askLabel (t : Table) (source : List Char) (n : Node) : StateM Memory Label := do
  match t.namedKind? n.kind with
  | none => return .byContent
  | some k =>
      match ← askSingle compile source k.name n with
      | none => return .byContent
      | some name =>
          match k.parent with
          | none => return .byName name none k.marker
          | some query =>
              match ← askSingle compile source query n with
              | none => return .byContent
              | some parent => return .byName name (some parent) k.marker

/-- The node that the summary is taken from. Only a node with a name is asked for it. -/
def askSummaryNode (t : Table) (n : Node) : Label → StateM Memory Node
  | .byContent => return n
  | .byName .. =>
      match (t.namedKind? n.kind).bind (·.summary) with
      | none => return n
      | some query => do
          let outcome ← ask compile query
          return (outcome.bind fun ps => (Pattern.captured ps n).head?).getD n

lemma answers_askSingle (source : List Char) (query : String) (n : Node) :
    Answers compile (askSingle compile source query n) (single? compile source query n) :=
  (answers_ask query).bind (answers_pure _)

lemma answers_askLabel (t : Table) (source : List Char) (n : Node) :
    Answers compile (askLabel compile t source n) (labelOf compile t source n) := by
  unfold askLabel labelOf
  cases t.namedKind? n.kind with
  | none => exact answers_pure _
  | some k =>
    dsimp only
    refine (answers_askSingle compile source k.name n).bind ?_
    cases single? compile source k.name n with
    | none => exact answers_pure _
    | some name =>
      cases k.parent with
      | none => exact answers_pure _
      | some query =>
        dsimp only
        refine (answers_askSingle compile source query n).bind ?_
        cases single? compile source query n with
        | none => exact answers_pure _
        | some parent => exact answers_pure _

lemma answers_askSummaryNode (t : Table) (source : List Char) (n : Node) :
    Answers compile (askSummaryNode compile t n (labelOf compile t source n))
      (summaryNode compile t source n) := by
  unfold summaryNode
  cases labelOf compile t source n with
  | byContent => exact answers_pure _
  | byName name parent marker =>
    simp only [askSummaryNode]
    cases (t.namedKind? n.kind).bind (·.summary) with
    | none => exact answers_pure _
    | some query => exact (answers_ask query).bind (answers_pure _)

end Naming

namespace Extraction

open Memory

/-- The label of a group and the node that its summary is taken from. A folded node on its own
is asked nothing. -/
def askGroup (x : Extraction) (g : Group) : StateM Memory (Label × Node) :=
  if g.alone then return (.byContent, g.node)
  else do
    let label ← Naming.askLabel x.compile x.table x.source g.node
    let node ← Naming.askSummaryNode x.compile x.table g.node label
    return (label, node)

mutual

/-- The chunks of a section in a scope, with the queries looked up node by node. -/
def askSection (x : Extraction) (scope : String) (taken : List String) :
    Section → StateM Memory (List Chunk × List String)
  | .mk g nested => do
      let (label, node) ← askGroup x g
      let path := Naming.freePath taken (Naming.basePath label x.source scope g.node)
      let summary := Summary.summarize (Naming.textOf x.source node)
      let inner ← askSections x (Naming.innerScope label scope path) (path :: taken) nested
      return ({ x.chunkOf g path with summary } :: inner.1, inner.2)

/-- The chunks of neighbouring sections in a scope, with the queries looked up. -/
def askSections (x : Extraction) (scope : String) (taken : List String) :
    List Section → StateM Memory (List Chunk × List String)
  | [] => return ([], taken)
  | s :: ss => do
      let front ← askSection x scope taken s
      let back ← askSections x scope front.2 ss
      return (front.1 ++ back.1, back.2)

end

/-- The chunks of a tree, with the queries looked up. -/
def askChunks (x : Extraction) (root : Node) : StateM Memory (List Chunk) := do
  let found ← x.askSections "" [] (x.table.outline root)
  return found.1

variable (x : Extraction)

lemma answers_askGroup (g : Group) :
    Answers x.compile (x.askGroup g) (x.labelOf g, x.summaryNode g) := by
  unfold askGroup labelOf summaryNode
  cases g.alone with
  | true => exact answers_pure _
  | false =>
    exact (Naming.answers_askLabel x.compile x.table x.source g.node).bind
      ((Naming.answers_askSummaryNode x.compile x.table x.source g.node).bind (answers_pure _))

mutual

lemma answers_askSection (scope : String) (taken : List String) :
    ∀ s : Section, Answers x.compile (x.askSection scope taken s) (x.ofSection scope taken s)
  | .mk g nested => by
    rw [askSection, ofSection]
    exact (answers_askGroup x g).bind
      ((answers_askSections _ _ nested).bind (answers_pure _))

lemma answers_askSections (scope : String) (taken : List String) : ∀ ss : List Section,
    Answers x.compile (x.askSections scope taken ss) (x.ofSections scope taken ss)
  | [] => by
    rw [askSections, ofSections]
    exact answers_pure _
  | s :: ss => by
    rw [askSections, ofSections]
    exact (answers_askSection scope taken s).bind
      ((answers_askSections scope _ ss).bind (answers_pure _))

end

theorem answers_askChunks (root : Node) : Answers x.compile (x.askChunks root) (x.chunks root) :=
  (answers_askSections x "" [] _).bind (answers_pure _)

end Extraction

namespace Chunker

/-- A file as it is given to a chunker: as a source with its tree, or as a file of a workspace
that is to be read. -/
inductive Request where
  | source (f : SourceFile)
  | file (parse : String → Node) (d : Disk) (root : Location) (path : String) (now : ℤ)

/-- The source of a request, or why there is none. -/
def Request.source? (rules : Classifier) : Request → Except ChunkError SourceFile
  | .source f => .ok f
  | .file parse d root path now =>
      if rules.classify path = .ignored then .error (.ignored path)
      else
        match d.readText (Path.join root.path path) with
        | .error fault => .error (.io fault)
        | .ok text => .ok ⟨path, text, parse text, now⟩

def serve (k : Chunker) : Request → Except ChunkError ChunkedFile × Chunker
  | .source f => k.chunkSource f.path f.source f.tree f.now
  | .file parse d root path now => k.chunkFile parse d root path now

/-- Serve a request and look each query up when a node is asked. -/
def serveAsking (k : Chunker) (r : Request) : Except ChunkError ChunkedFile × Chunker :=
  match r.source? k.classifier with
  | .error e => (.error e, k)
  | .ok f =>
      if k.classify f.path = .ignored then (.error (.ignored f.path), k)
      else
        let found := (k.extraction f.path f.source f.now).askChunks f.tree k.known
        (.ok ⟨f.path, found.1⟩, { k with known := found.2 })

/-- Serve one request after another with the same chunker. -/
def serveEach (serve : Chunker → Request → Except ChunkError ChunkedFile × Chunker) :
    Chunker → List Request → List (Except ChunkError ChunkedFile)
  | _, [] => []
  | k, r :: rs =>
      let served := serve k r
      served.1 :: serveEach serve served.2 rs

/-- What the table and the rules of a chunker make of a request. -/
def outcome (k : Chunker) (r : Request) : Except ChunkError ChunkedFile :=
  (r.source? k.classifier).bind fun f =>
    if k.classify f.path = .ignored then .error (.ignored f.path)
    else .ok ⟨f.path, (k.extraction f.path f.source f.now).chunks f.tree⟩

/-- A chunker after some use: it differs from what it was in what it remembers of queries, and
that is right. -/
structure IsUsed (k used : Chunker) : Prop where
  agrees : used.AgreesWith k
  known : used.IsFaithful

variable {k used : Chunker}

lemma IsUsed.outcome_eq (h : IsUsed k used) (r : Request) : used.outcome r = k.outcome r := by
  obtain ⟨htable, hrules, hcompile⟩ := h.agrees
  simp only [outcome, classify, extraction, htable, hrules, hcompile]
  rfl

lemma serve_eq (k : Chunker) (r : Request) :
    k.serve r =
      match r.source? k.classifier with
      | .error e => (.error e, k)
      | .ok f => k.chunkSource f.path f.source f.tree f.now := by
  cases r with
  | source f => rfl
  | file parse d root path now =>
    rw [serve, chunkFile, Request.source?]
    have hclass : k.classify path = k.classifier.classify path := rfl
    rw [hclass]
    split
    · next h => rw [if_pos h]
    · next h =>
      rw [if_neg h]
      cases d.readText (Path.join root.path path) <;> rfl

/-- A used chunker serves a request as its table and its rules say, and is a used one after it. -/
lemma IsUsed.serve (h : IsUsed k used) (r : Request) :
    (used.serve r).1 = k.outcome r ∧ IsUsed k (used.serve r).2 := by
  rw [← h.outcome_eq, serve_eq, outcome]
  cases r.source? used.classifier with
  | error e => exact ⟨rfl, h⟩
  | ok f =>
    exact ⟨fst_chunkSource h.known f.path f.source f.tree f.now,
      (used.agreesWith_chunkSource f.path f.source f.tree f.now).trans h.agrees,
      isFaithful_chunkSource h.known f.path f.source f.tree f.now⟩

/-- It does so too if it looks its queries up one by one. -/
lemma IsUsed.serveAsking (h : IsUsed k used) (r : Request) :
    (used.serveAsking r).1 = k.outcome r ∧ IsUsed k (used.serveAsking r).2 := by
  rw [← h.outcome_eq, Chunker.serveAsking, outcome]
  cases r.source? used.classifier with
  | error e => exact ⟨rfl, h⟩
  | ok f =>
    simp only [Except.bind]
    by_cases hclass : used.classify f.path = .ignored
    · rw [if_pos hclass, if_pos hclass]
      exact ⟨rfl, h⟩
    · rw [if_neg hclass, if_neg hclass]
      obtain ⟨hchunks, hknown⟩ := (used.extraction f.path f.source f.now).answers_askChunks
        f.tree used.known h.known
      exact ⟨by rw [hchunks], ⟨h.agrees.table, h.agrees.classifier, h.agrees.compileNew⟩, hknown⟩

lemma IsUsed.serveEach (h : IsUsed k used)
    {serve : Chunker → Request → Except ChunkError ChunkedFile × Chunker}
    (hserve : ∀ {used}, IsUsed k used → ∀ r,
      (serve used r).1 = k.outcome r ∧ IsUsed k (serve used r).2) (rs : List Request) :
    serveEach serve used rs = rs.map k.outcome := by
  induction rs generalizing used with
  | nil => rfl
  | cons r rs ih =>
    obtain ⟨houtcome, hrest⟩ := hserve h r
    rw [Chunker.serveEach, List.map_cons, ← houtcome, ih hrest]

section Reuse

variable [QueryCompiler]

/-- Serve a request with a chunker that is made for it. -/
def serveAlone (language : Option Language) (custom : Option Table) (r : Request) :
    Except ChunkError ChunkedFile :=
  (create language custom).bind fun k => (k.serve r).1

/-- A chunker that serves one file after another makes of each what a new chunker makes of that
file alone. -/
theorem reused_chunker_serves_as_new {language : Option Language} {custom : Option Table}
    (h : create language custom = .ok k) (rs : List Request) :
    serveEach serve k rs = rs.map (serveAlone language custom) ∧
      serveEach serveAsking k rs = rs.map (serveAlone language custom) := by
  have hnew : IsUsed k k := ⟨.refl k, isFaithful_create h⟩
  have halone : serveAlone language custom = k.outcome := by
    funext r
    rw [serveAlone, h]
    exact (hnew.serve r).1
  rw [halone]
  exact ⟨hnew.serveEach IsUsed.serve rs, hnew.serveEach IsUsed.serveAsking rs⟩

end Reuse

/-- A table with a query that is not well formed and one that captures two nodes of a pair. -/
def unluckyTable : Table :=
  { named := [
      { kind := "fn", name := "(fn" },
      { kind := "pair", name := "(pair (id) @name)" }] }

/-- A source with both kinds of nodes. -/
def unluckySource : SourceFile :=
  let id (place : ℕ) : Node := { kind := "id", start := place, stop := place + 1 }
  { path := "a.rs", source := "f xy", now := 0, tree :=
      { kind := "file", start := 0, stop := 4, children := [
          { kind := "fn", start := 0, stop := 1 },
          { kind := "pair", start := 2, stop := 4, children := [id 2, id 3] }] } }

/-- The source, a file that is ignored, and the source once more. -/
def unluckyRequests : List Request :=
  [.source unluckySource, .source { unluckySource with path := ".git/a.rs" },
    .source unluckySource]

attribute [local instance] QueryCompiler.plain

/-- From the first source on the chunker remembers both queries, one of them as not well
formed. -/
theorem unlucky_chunker_serves_as_new : ∃ k,
    create (some .rust) (some unluckyTable) = .ok k ∧
    (k.serve (.source unluckySource)).2.known.map (fun q => (q.1, q.2.isSome)) =
      [("(pair (id) @name)", true), ("(fn", false)] ∧
    serveEach serve k unluckyRequests =
      unluckyRequests.map (serveAlone (some .rust) (some unluckyTable)) ∧
    serveEach serveAsking k unluckyRequests =
      unluckyRequests.map (serveAlone (some .rust) (some unluckyTable)) := by
  have hknown : (create (some .rust) (some unluckyTable)).map
      (fun k => (k.serve (.source unluckySource)).2.known.map fun q => (q.1, q.2.isSome)) =
        .ok [("(pair (id) @name)", true), ("(fn", false)] := by decide +kernel
  obtain ⟨k, hk⟩ : ∃ k, create (some .rust) (some unluckyTable) = .ok k := by
    cases h : create (some .rust) (some unluckyTable) with
    | error e => rw [h] at hknown; cases hknown
    | ok k => exact ⟨k, rfl⟩
  rw [hk] at hknown
  exact ⟨k, hk, Except.ok.inj hknown, reused_chunker_serves_as_new hk unluckyRequests⟩

end Chunker

end CodeSearch
