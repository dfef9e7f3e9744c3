import CodeSearch.Embedding.Hashing
import CodeSearch.Proofs.RefiledFiles

/-!
# Histories of an index

An index is opened on an empty store, and files are then taken in and forgotten while any
call of the store may be refused. Throughout, what is remembered of a file can be read from
the documents that are stored of it, in the order in which its chunks were handed in. A call
that is refused half way leaves its file without chunks on both sides.
-/
namespace CodeSearch

namespace IndexHistory

inductive Action where
  | replace (call : ChunkedFile)
  | remove (file : String)
  /-- From now on the store refuses new documents, refuses to drop old ones, both or neither. -/
  | fail (add delete : Bool)

/-- The chunks that an action hands in can be told from all others. -/
def Action.IsProper : Action → Prop
  | replace call => call.IsProper
  | _ => True

instance : DecidablePred Action.IsProper
  | .replace call => inferInstanceAs (Decidable call.IsProper)
  | .remove _ => inferInstanceAs (Decidable True)
  | .fail _ _ => inferInstanceAs (Decidable True)

/-- Let an action happen. -/
def step (x : Index FaultyStore) : Action → Except StoreError Unit × Index FaultyStore
  | .replace call => x.replace call
  | .remove file =>
      match x.remove file with
      | .ok y => (.ok (), y)
      | .error e => (.error e, x)
  | .fail add delete =>
      (.ok (), { x with store := { x.store with failsAdd := add, failsDelete := delete } })

def record (x : Index FaultyStore) (ledger : Ledger) : Action → Ledger
  | .replace call => Function.update ledger call.path (x.leftBy call (ledger call.path))
  | .remove file => Function.update ledger file (x.leftBy ⟨file, []⟩ (ledger file))
  | .fail _ _ => ledger

/-- Let actions happen one after the other, and keep the ledger. -/
def run (x : Index FaultyStore) (actions : List Action) : Index FaultyStore × Ledger :=
  actions.foldl (fun w a => ((step w.1 a).2, record w.1 w.2 a)) (x, fun _ => [])

/-- A call that puts chunks in place of those of a file, as it should go. -/
structure Goes (x : Index FaultyStore) (call : ChunkedFile)
    (r : Except StoreError Unit × Index FaultyStore) : Prop where
  /-- If the old documents are not dropped, nothing changes. -/
  undropped : ∀ e, DocumentStore.delete x.store (Index.fileFilter call.path) = .error e →
    r = (.error e, x)
  /-- If the new ones are not taken, the file is left without any on both sides. -/
  untaken : ∀ count s e,
    DocumentStore.delete x.store (Index.fileFilter call.path) = .ok (count, s) →
    call.chunks ≠ [] → DocumentStore.add s (call.chunks.map Chunk.document) = .error e →
      r.1 = .error e ∧ r.2.Shows call.path []
  /-- Otherwise the file has the new ones, in the order in which they were handed in. -/
  taken : ∀ count s, DocumentStore.delete x.store (Index.fileFilter call.path) = .ok (count, s) →
    (call.chunks = [] ∨ ∃ t, DocumentStore.add s (call.chunks.map Chunk.document) = .ok t) →
      r.1 = .ok () ∧ r.2.cached call.path = call.chunks.map Chunk.cached ∧
      ∃ documents, Keep documents call.chunks ∧ r.2.Shows call.path documents
  /-- In any case the other files stay as they are. -/
  others : ∀ other ≠ call.path, r.2.cache.get? other = x.cache.get? other ∧
    r.2.stored.ofFile other = x.stored.ofFile other

variable {x : Index FaultyStore} {ledger : Ledger} {call : ChunkedFile}

lemma goes_replace (hx : x.stored.Filed) (hcall : call.chunks ≠ [] → call.IsProper) :
    Goes x call (x.replace call) := by
  rcases Index.replace_cases hx hcall with ⟨e, hdelete, hr⟩ |
    ⟨count, s, e, y, hdelete, hne, hadd, hr, hy⟩ |
    ⟨count, s, y, documents, hdelete, htaken, hr, hy, hkeep, hcached⟩
  · rw [hr]
    refine ⟨fun e' he' => ?_, ?_, ?_, fun _ _ => ⟨rfl, rfl⟩⟩
    · rw [Except.error.inj (hdelete.symm.trans he')]
    all_goals simp [hdelete]
  · rw [hr]
    refine ⟨by simp [hdelete], ?_, ?_, fun other h => ⟨hy.others other h, hy.ofFile_of_ne hx h⟩⟩
    · rintro count' s' e' hdelete' - hadd'
      obtain ⟨rfl, rfl⟩ := Prod.mk.inj (Except.ok.inj (hdelete.symm.trans hdelete'))
      exact ⟨by rw [Except.error.inj (hadd.symm.trans hadd')], hy.shows⟩
    · rintro count' s' hdelete' (hnil | ⟨t, hadd'⟩)
      · exact absurd hnil hne
      · obtain ⟨rfl, rfl⟩ := Prod.mk.inj (Except.ok.inj (hdelete.symm.trans hdelete'))
        cases hadd.symm.trans hadd'
  · rw [hr]
    refine ⟨by simp [hdelete], ?_, ?_, fun other h => ⟨hy.others other h, hy.ofFile_of_ne hx h⟩⟩
    · rintro count' s' e hdelete' hne hadd
      obtain ⟨rfl, rfl⟩ := Prod.mk.inj (Except.ok.inj (hdelete.symm.trans hdelete'))
      rcases htaken with hnil | ⟨t, hadd'⟩
      · exact absurd hnil hne
      · cases hadd.symm.trans hadd'
    · intro count' s' _ _
      exact ⟨rfl, hcached, documents, hkeep, hy.shows⟩

/-- After a call store and cache agree with the ledger in which it is recorded. -/
lemma agrees_replace (hx : x.Agrees ledger) (hcall : call.chunks ≠ [] → call.IsProper) :
    (x.replace call).2.Agrees
      (Function.update ledger call.path (x.leftBy call (ledger call.path))) := by
  rcases Index.replace_cases hx.filed hcall with ⟨e, hdelete, hr⟩ |
    ⟨count, s, e, y, hdelete, hne, hadd, hr, hy⟩ |
    ⟨count, s, y, documents, hdelete, htaken, hr, hy, hkeep, -⟩
  · have hleft : x.leftBy call (ledger call.path) = ledger call.path := by
      simp only [Index.leftBy, hdelete]
    rw [hr, hleft, Function.update_eq_self]
    exact hx
  · have hleft : x.leftBy call (ledger call.path) = [] := by
      simp only [Index.leftBy, hdelete, hadd, ite_self]
    rw [hr, hleft]
    exact hy.agrees hx rfl
  · have hleft : x.leftBy call (ledger call.path) = call.chunks := by
      rcases htaken with hnil | ⟨t, hadd⟩
      · simp [Index.leftBy, hdelete, hnil]
      · simp only [Index.leftBy, hdelete, hadd]
        cases call.chunks <;> rfl
    rw [hr, hleft]
    exact hy.agrees hx hkeep

/-- Forgetting a file is putting no chunks in place of those that it has. -/
lemma step_remove (x : Index FaultyStore) (file : String) :
    step x (.remove file) = x.replace ⟨file, []⟩ := by
  simp only [step, Index.replace]
  cases x.remove file <;> rfl

/-- Every action keeps store and cache in agreement with the ledger. -/
lemma agrees_step (hx : x.Agrees ledger) {a : Action} (ha : a.IsProper) :
    (step x a).2.Agrees (record x ledger a) := by
  cases a with
  | replace call => exact agrees_replace hx fun _ => ha
  | remove file =>
    rw [step_remove]
    exact agrees_replace hx fun hne => absurd rfl hne
  | fail add delete =>
    refine ⟨hx.filed, fun file => ?_⟩
    obtain ⟨documents, hkeep, hshows⟩ := hx.shows file
    exact ⟨documents, hkeep, hshows.congr rfl rfl⟩

lemma agrees_foldl {w : Index FaultyStore × Ledger} (hw : w.1.Agrees w.2) {actions : List Action}
    (hactions : ∀ a ∈ actions, a.IsProper) :
    let w' := actions.foldl (fun w a => ((step w.1 a).2, record w.1 w.2 a)) w
    w'.1.Agrees w'.2 := by
  induction actions generalizing w with
  | nil => exact hw
  | cons a actions ih =>
    rw [List.forall_mem_cons] at hactions
    exact ih (agrees_step hw hactions.1) hactions.2

/-- An empty store is opened with an empty cache. -/
lemma ofStore_empty {store : FaultyStore} (hempty : store.store.documents = .empty) (d : Disk)
    (root : Location) : Index.ofStore d root store = .ok { root, store } := by
  have hids : DocumentStore.ids store = [] := congrArg Catalog.names hempty
  rw [Index.ofStore, hids]
  rfl

lemma agrees_empty {store : FaultyStore} (hempty : store.store.documents = .empty)
    (root : Location) : ({ root, store } : Index FaultyStore).Agrees fun _ => [] := by
  have hnone (id : String) : DocumentStore.get? store id = none := by
    change store.store.documents.get? id = none
    rw [hempty]
    rfl
  refine ⟨fun id d hd => ?_, fun file => ⟨[], rfl, by simp, ?_, rfl, ?_⟩⟩
  · exact absurd hd (by simp [Index.stored, hnone])
  · simp [hnone]
  · simp [Index.files, Catalog.names, Catalog.empty]

/-- An index is opened on an empty store. Whatever is then taken in and forgotten, and
whichever calls the store refuses, store and cache have of every file the same chunks, those
of the ledger, and every further call goes as it should. -/
theorem cache_agrees_with_store {store : FaultyStore} (hempty : store.store.documents = .empty)
    (d : Disk) (root : Location) : ∃ x, Index.ofStore d root store = .ok x ∧
      ∀ actions : List Action, (∀ a ∈ actions, a.IsProper) →
        let (y, ledger) := run x actions
        (∀ file, ∃ documents, Keep documents (ledger file) ∧ y.Shows file documents) ∧
        (∀ call : ChunkedFile, call.IsProper → Goes y call (y.replace call)) ∧
        ∀ file, Goes y ⟨file, []⟩ (step y (.remove file)) := by
  refine ⟨_, ofStore_empty hempty d root, fun actions hactions => ?_⟩
  have hy := agrees_foldl (w := (_, _)) (agrees_empty hempty root) hactions
  refine ⟨hy.shows, fun call hcall => goes_replace hy.filed fun _ => hcall, fun file => ?_⟩
  rw [step_remove]
  exact goes_replace hy.filed fun hne => absurd rfl hne

/-- A chunk of one file with a path and a time. -/
def chunkAt (path : String) (parsedAt : ℤ) : Chunk where
  file := "a.go"
  fileType := .src
  path
  summary := path
  source := path
  start := ⟨1, 1⟩
  stop := ⟨1, 2⟩
  parsedAt

/-- Two chunks, not in the order of their identifiers, and a third one that is refused. -/
def refusedCalls : List Action :=
  [.replace ⟨"a.go", [chunkAt "b" 1, chunkAt "a" 1]⟩, .fail true false,
    .replace ⟨"a.go", [chunkAt "c" 2]⟩, .fail false true, .remove "a.go"]

lemma isProper_of_mem_refusedCalls : ∀ a ∈ refusedCalls, a.IsProper := by
  decide

theorem refusedCalls_agree :
    (Store.inMemory (Hashing.embedder 2)).documents = .empty ∧
    (∀ a ∈ refusedCalls, a.IsProper) ∧
    ∃ x, Index.ofStore {} ["work"] (⟨.inMemory (Hashing.embedder 2), false, false⟩ : FaultyStore) =
      .ok x ∧ ∀ file, ∃ documents, Keep documents ((run x refusedCalls).2 file) ∧
        (run x refusedCalls).1.Shows file documents := by
  set store : FaultyStore := ⟨.inMemory (Hashing.embedder 2), false, false⟩
  have hempty : store.store.documents = .empty := rfl
  obtain ⟨x, hopen, hrun⟩ := cache_agrees_with_store hempty {} ["work"]
  have hproper := isProper_of_mem_refusedCalls
  exact ⟨hempty, hproper, x, hopen, (hrun refusedCalls hproper).1⟩

end IndexHistory

end CodeSearch
