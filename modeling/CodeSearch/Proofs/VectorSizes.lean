import CodeSearch.Index.Basic
import CodeSearch.Proofs.DurableBatches

/-!
# Sizes of stored vectors

A store refuses vectors that do not have the size of its embedder when documents are added and
when it is queried, but not when it reads its log. So a document that does not fit was in the log
that was opened last, and has not been replaced since. Chunks that are similar to it cannot be asked
for, and a query compares vectors of different lengths at it. As long as all embedders promise one
size and logs of other stores hold vectors of that size, there is no such document.
-/
namespace CodeSearch

/-- All documents of a collection have vectors of one size. -/
def Catalog.Sized (documents : Catalog StoredDocument) (n : ℕ) : Prop :=
  ∀ id d, documents.get? id = some d → d.embedding.length = n

lemma Catalog.sized_empty (n : ℕ) : Catalog.Sized .empty n :=
  nofun

namespace Record

variable {r : Record} {records : List Record} {c : Catalog StoredDocument} {n : ℕ}

/-- A document that a record puts has a vector of a size. -/
def HasSize (n : ℕ) : Record → Prop
  | put d => d.embedding.length = n
  | delete _ => True

lemma put_mem_or_of_foldl_apply {id : String} {d : StoredDocument}
    (h : (records.foldl apply c).get? id = some d) :
    .put d ∈ records ∨ c.get? id = some d := by
  induction records generalizing c with
  | nil => exact .inr h
  | cons r records ih =>
    rcases ih h with hlater | hnow
    · exact .inl (List.mem_cons_of_mem _ hlater)
    rw [get?_apply] at hnow
    split at hnow
    · cases r with
      | put d' =>
        obtain rfl := Option.some.inj hnow
        exact .inl List.mem_cons_self
      | delete => cases hnow
    · exact .inr hnow

lemma sized_foldl_apply (hc : c.Sized n) (hrecords : ∀ r ∈ records, r.HasSize n) :
    (records.foldl apply c).Sized n := by
  intro id d hd
  rcases put_mem_or_of_foldl_apply hd with hput | hd
  · exact hrecords _ hput
  · exact hc id d hd

end Record

lemma Replay.sized_pass {r : Replay} {records : List Record} {n : ℕ} (hr : r.documents.Sized n)
    (hrecords : ∀ r ∈ records, r.HasSize n) : (r.pass records).documents.Sized n :=
  Record.sized_foldl_apply hr fun record hmem => hrecords record (List.mem_filter.mp hmem).1

namespace Log

variable {l l' : Log} {documents : Catalog StoredDocument} {n : ℕ}

/-- A log that may be gone on with, and replays to vectors of one size. -/
def IsSized (l : Log) (n : ℕ) : Prop :=
  ∃ r, l.Gives r ∧ r.documents.Sized n

lemma IsSized.append (h : l.IsSized n) {records : List Record}
    (hrecords : ∀ r ∈ records, r.HasSize n) : (l.append records).IsSized n := by
  obtain ⟨r, hgives, hsized⟩ := h
  exact ⟨r.pass records, hgives.append records, Replay.sized_pass hsized hrecords⟩

/-- A log that is written anew has the vectors of the collection. -/
lemma isSized_renew (hdocuments : documents.Sized n) (h : l.renew documents = .ok l') :
    l'.IsSized n := by
  unfold Log.renew at h
  split at h
  · cases h
  obtain rfl := Except.ok.inj h
  have hrecords : ∀ r ∈ documents.values.map Record.put, r.HasSize n := by
    intro r hr
    obtain ⟨d, hd, rfl⟩ := List.mem_map.mp hr
    obtain ⟨id, hid⟩ := (documents.mem_values_iff d).mp hd
    exact hdocuments id d hid
  exact ⟨_, gives_of_encode rfl, Replay.sized_pass (Catalog.sized_empty n) hrecords⟩

lemma IsSized.tidy (h : l.IsSized n) (hdocuments : documents.Sized n) :
    (l.tidy documents).IsSized n := by
  unfold Log.tidy
  split
  · split
    · next heq => exact isSized_renew hdocuments heq
    · exact h
  · exact h

end Log

/-- A file that may be gone on with, or is written anew when it is opened, and replays to vectors
of one size. -/
structure LogFile.IsSized (file : LogFile) (n : ℕ) : Prop where
  endsWell : file.EndsWell
  replay : ∀ r, Replay.ofBytes file.bytes = .ok r → r.documents.Sized n

lemma Log.IsSized.file {l : Log} {n : ℕ} (h : l.IsSized n) : l.file.IsSized n := by
  obtain ⟨r, ⟨text, hbytes, hsettled, hreplay⟩, hsized⟩ := h
  constructor
  · intro text' htext'
    rw [hbytes, Text.fromUTF8?_toUTF8] at htext'
    obtain rfl := Option.some.inj htext'
    exact .inl hsettled
  · intro r' hr'
    rw [hbytes, Replay.ofBytes_toUTF8] at hr'
    obtain rfl := Except.ok.inj hr'
    rwa [hreplay]

/-- A file of logged vectors of one size is opened with vectors of that size, and its log stays so. -/
lemma Log.isSized_ofFile {file : LogFile} {documents : Catalog StoredDocument} {l : Log} {n : ℕ}
    (h : file.IsSized n) (hopen : ofFile file = .ok (documents, l)) :
    documents.Sized n ∧ l.IsSized n := by
  cases htext : String.fromUTF8? file.bytes with
  | none => simp [ofFile, Replay.ofBytes, htext, bind, Except.bind] at hopen
  | some text =>
    have hreplay : Replay.ofBytes file.bytes = .ok (.ofText text.toList) := by
      rw [Replay.ofBytes, htext]
    have hsized := h.replay _ hreplay
    rw [ofFile_of_replay file hreplay] at hopen
    split at hopen
    · obtain ⟨l', hrenew, heq⟩ := Except.map_eq_ok.mp hopen
      obtain ⟨rfl, rfl⟩ := Prod.mk.inj heq
      exact ⟨hsized, isSized_renew hsized hrenew⟩
    · next hkeep =>
      obtain ⟨rfl, rfl⟩ := Prod.mk.inj (Except.ok.inj hopen)
      rw [not_or, Nat.not_lt, Nat.le_zero] at hkeep
      have hsettled := (h.endsWell text htext).resolve_right (by simpa using hkeep)
      exact ⟨hsized, _, ⟨text, Text.toUTF8_of_fromUTF8? htext, hsettled, rfl⟩, hsized⟩

namespace Store

variable {s s' : Store} {d : StoredDocument} {n : ℕ}

/-- A document has a vector of the size that the embedder of a store promises. -/
def Fits (s : Store) (d : StoredDocument) : Prop :=
  d.embedding.length = s.embedder.dimensions

instance (s : Store) (d : StoredDocument) : Decidable (s.Fits d) :=
  inferInstanceAs (Decidable (_ = _))

/-- The embedder of a store, its documents and its log are of one size. -/
structure IsSized (s : Store) (n : ℕ) : Prop where
  embedder : s.embedder.dimensions = n
  documents : s.documents.Sized n
  log : ∀ l, s.log = some l → l.IsSized n

lemma written_hasSize (s : Store) (c : Change) :
    ∀ r ∈ s.written c, r.HasSize s.embedder.dimensions := by
  intro r hr
  cases c with
  | add documents =>
    simp only [written] at hr
    split at hr
    · next vectors hembed =>
      obtain ⟨d, hd, rfl⟩ := List.mem_map.mp hr
      exact (embedAll_eq_ok.mp hembed).2.2 _ (embedding_mem_of_mem_embedded hd)
    · cases hr
  | delete filter =>
    obtain ⟨id, -, rfl⟩ := List.mem_map.mp hr
    trivial
  | compact => cases hr

lemma embedder_of_change {c : Change} (h : s.change c = .ok s') : s'.embedder = s.embedder := by
  rcases change_cases h with rfl | ⟨-, rfl⟩ | ⟨-, l, l', -, -, rfl⟩
  · rfl
  · rfl
  · rfl

lemma fits_or_of_change {c : Change} (h : s.change c = .ok s') {id : String}
    (hd : s'.documents.get? id = some d) : s.Fits d ∨ s.documents.get? id = some d := by
  rcases change_cases h with rfl | ⟨-, rfl⟩ | ⟨-, l, l', -, -, rfl⟩
  · rcases Record.put_mem_or_of_foldl_apply hd with hput | hd
    · exact .inl (s.written_hasSize c _ hput)
    · exact .inr hd
  · exact .inr hd
  · exact .inr hd

lemma IsSized.change (hs : s.IsSized n) {c : Change} (h : s.change c = .ok s') :
    s'.IsSized n := by
  have hwritten := s.written_hasSize c
  rw [hs.embedder] at hwritten
  rcases change_cases h with rfl | ⟨-, rfl⟩ | ⟨-, l, l', hlog, hrenew, rfl⟩
  · have hdocuments := Record.sized_foldl_apply hs.documents hwritten
    refine ⟨hs.embedder, hdocuments, fun l' hl' => ?_⟩
    obtain ⟨l, hlog, rfl⟩ := Option.map_eq_some_iff.mp hl'
    exact ((hs.log l hlog).append hwritten).tidy hdocuments
  · exact hs
  · refine ⟨hs.embedder, hs.documents, fun l'' hl'' => ?_⟩
    obtain rfl := Option.some.inj hl''
    exact Log.isSized_renew hs.documents hrenew

lemma isSized_ofFile {file : LogFile} {e : Embedder} (h : file.IsSized n)
    (he : e.dimensions = n) (hopen : ofFile file e = .ok s) : s.IsSized n := by
  obtain ⟨⟨documents, l⟩, hlog, heq⟩ := Except.bind_eq_ok.mp hopen
  obtain rfl := Except.pure_eq_ok.mp heq
  obtain ⟨hdocuments, hsized⟩ := Log.isSized_ofFile h hlog
  refine ⟨he, hdocuments, fun l' hl' => ?_⟩
  obtain rfl := Option.some.inj hl'
  exact hsized

/-- A vector is compared with all documents, or refused for its size. -/
lemma queryVector_eq (s : Store) (x : Embedding) (count : ℕ) : s.queryVector x count =
    if x.length = s.embedder.dimensions then
      .ok (((s.matchesOf x).mergeSort Match.precedes).take count)
    else .error (.dimensionMismatch s.embedder.dimensions x.length) := by
  unfold queryVector checkSize
  split <;> rfl

end Store

namespace Index

/-- A chunk whose document fits has similar chunks, and one whose document does not is refused. -/
lemma findSimilar_eq {x : Index Store} {id : String} {d : StoredDocument}
    (hd : x.store.documents.get? id = some d) (o : SearchOptions) : x.findSimilar id o =
      if x.store.Fits d then .ok (x.rankMatches o
        (((x.store.matchesOf d.embedding).mergeSort Match.precedes).take o.candidateCount))
      else .error (.store (.dimensionMismatch x.store.embedder.dimensions d.embedding.length)) := by
  have hget : DocumentStore.get? x.store id = some d := hd
  have hquery : DocumentStore.queryVector x.store d.embedding o.candidateCount =
      x.store.queryVector d.embedding o.candidateCount := rfl
  rw [findSimilar, hget]
  simp only [hquery, Store.queryVector_eq, Store.Fits]
  by_cases hfits : d.embedding.length = x.store.embedder.dimensions <;> simp [hfits]

end Index

namespace StoreRun

/-- What can happen to a store: one is opened on some log, made without a log or opened again on
its own log, or the open one is changed, or the place of its new log is blocked or freed. -/
inductive Event where
  | opened (file : LogFile) (e : Embedder)
  | made (e : Embedder)
  | reopened (e : Embedder)
  | changed (c : Store.Change)
  | blocked (isBlocked : Bool)

namespace Event

/-- What comes of it. A change that is refused leaves the store as it was; a store that cannot be
opened is none. -/
def next : Option Store → Event → Option Store
  | _, opened file e => (Store.ofFile file e).toOption
  | _, made e => some (.inMemory e)
  | none, _ => none
  | some s, reopened e => s.log.bind fun l => (Store.ofFile l.file e).toOption
  | some s, changed c => some ((s.change c).toOption.getD s)
  | some s, blocked isBlocked =>
      some { s with log := s.log.map fun l =>
        { l with file := { l.file with blocked := isBlocked } } }

/-- The documents of the store are read or made anew. -/
def Starts : Event → Prop
  | opened .. | made _ | reopened _ => True
  | changed _ | blocked _ => False

/-- The embedders promise one size, and the logs of other stores hold vectors of that size. -/
def IsSized (n : ℕ) : Event → Prop
  | opened file e => file.IsSized n ∧ e.dimensions = n
  | made e | reopened e => e.dimensions = n
  | changed _ | blocked _ => True

end Event

def run (events : List Event) : Option Store :=
  events.foldl Event.next none

variable {events : List Event} {s t : Store} {n : ℕ}

lemma run_concat (events : List Event) (event : Event) :
    run (events ++ [event]) = event.next (run events) := by
  rw [run, List.foldl_append]
  rfl

/-- A change, refused or not, leaves documents that fit or were there before. -/
lemma next_changed {event : Event} (hevent : ¬event.Starts) (h : event.next (some s) = some t) :
    t.embedder = s.embedder ∧ ∀ id d, t.documents.get? id = some d →
      s.Fits d ∨ s.documents.get? id = some d := by
  cases event with
  | changed c =>
    obtain rfl : (s.change c).toOption.getD s = t := Option.some.inj h
    cases hchange : s.change c with
    | ok t => exact ⟨Store.embedder_of_change hchange, fun id d => Store.fits_or_of_change hchange⟩
    | error => exact ⟨rfl, fun id d => .inr⟩
  | blocked =>
    obtain rfl := Option.some.inj h
    exact ⟨rfl, fun id d => .inr⟩
  | opened | made | reopened => exact absurd trivial hevent

lemma starts_of_next_none {event : Event} (h : event.next none = some t) : event.Starts := by
  cases event with
  | opened | made | reopened => trivial
  | changed | blocked => cases h

/-- The store was like this when it was opened or made for the last time. -/
def StartsAs (events : List Event) (s₀ : Store) : Prop :=
  ∃ before start later, events = before ++ start :: later ∧ start.Starts ∧
    run (before ++ [start]) = some s₀ ∧ ∀ event ∈ later, ¬event.Starts

/-- Every store was once opened or made, and its documents that do not fit are from there. -/
lemma exists_startsAs (h : run events = some s) : ∃ s₀, StartsAs events s₀ ∧
    s.embedder = s₀.embedder ∧ ∀ id d, s.documents.get? id = some d →
      s.Fits d ∨ s₀.documents.get? id = some d := by
  induction events using List.reverseRecOn generalizing s with
  | nil => cases h
  | append_singleton events event ih =>
    by_cases hevent : event.Starts
    · exact ⟨s, ⟨events, event, [], rfl, hevent, h, nofun⟩, rfl, fun id d => .inr⟩
    rw [run_concat] at h
    cases hrun : run events with
    | none =>
      rw [hrun] at h
      exact absurd (starts_of_next_none h) hevent
    | some t =>
      rw [hrun] at h
      obtain ⟨hembedder, hkept⟩ := next_changed hevent h
      obtain ⟨s₀, ⟨before, start, later, rfl, hstart, hopen, hlater⟩, hfirst, hfound⟩ := ih hrun
      refine ⟨s₀, ⟨before, start, later ++ [event], by simp, hstart, hopen, ?_⟩,
        hembedder.trans hfirst, fun id d hd => ?_⟩
      · rw [List.forall_mem_append]
        exact ⟨hlater, by simpa using hevent⟩
      · unfold Store.Fits at hkept hfound ⊢
        rw [hembedder]
        rcases hkept id d hd with hfits | hd
        · exact .inl hfits
        · exact hfound id d hd

lemma isSized_next {event : Event} {s? : Option Store} (hevent : event.IsSized n)
    (hs : ∀ s, s? = some s → s.IsSized n) (h : event.next s? = some t) : t.IsSized n := by
  have hread {file : LogFile} {e : Embedder} (hfile : file.IsSized n) (he : e.dimensions = n)
      (hopen : (Store.ofFile file e).toOption = some t) : t.IsSized n := by
    cases hresult : Store.ofFile file e with
    | error => simp [hresult, Except.toOption] at hopen
    | ok t' =>
      rw [hresult] at hopen
      obtain rfl := Option.some.inj hopen
      exact Store.isSized_ofFile hfile he hresult
  match s?, event with
  | _, .opened file e => exact hread hevent.1 hevent.2 h
  | _, .made e =>
    obtain rfl := Option.some.inj h
    exact ⟨hevent, Catalog.sized_empty n, nofun⟩
  | some s, .reopened e =>
    obtain ⟨l, hlog, hopen⟩ := Option.bind_eq_some_iff.mp h
    exact hread ((hs s rfl).log l hlog).file hevent hopen
  | some s, .changed c =>
    obtain rfl := Option.some.inj h
    cases hchange : s.change c with
    | ok t => exact (hs s rfl).change hchange
    | error => exact hs s rfl
  | some s, .blocked isBlocked =>
    obtain rfl := Option.some.inj h
    refine ⟨(hs s rfl).embedder, (hs s rfl).documents, fun l' hl' => ?_⟩
    obtain ⟨l, hlog, rfl⟩ := Option.map_eq_some_iff.mp hl'
    exact (hs s rfl).log l hlog
  | none, .reopened _ | none, .changed _ | none, .blocked _ => cases h

/-- As long as all embedders promise one size and logs of other stores hold vectors of that size,
every store is of it. -/
lemma isSized_run (hevents : ∀ event ∈ events, event.IsSized n) (h : run events = some s) :
    s.IsSized n := by
  induction events using List.reverseRecOn generalizing s with
  | nil => cases h
  | append_singleton events event ih =>
    rw [List.forall_mem_append, List.forall_mem_singleton] at hevents
    rw [run_concat] at h
    exact isSized_next hevents.2 (fun t ht => ih hevents.1 ht) h

/-- Vectors that do not fit are read from logs, and nothing else brings them in. After any events,
a document fits or was there when the store was opened last; as long as all embedders promise one
size and logs of other stores hold vectors of that size, every document fits. For a chunk whose
document fits, similar ones are found, and for any other one the call is refused. A query compares
vectors of one length at exactly the documents that fit. -/
theorem vectors_fit_unless_read (h : run events = some s) :
    (∃ s₀, StartsAs events s₀ ∧ s.embedder = s₀.embedder ∧
      ∀ id d, s.documents.get? id = some d → s.Fits d ∨ s₀.documents.get? id = some d) ∧
    (∀ n, (∀ event ∈ events, event.IsSized n) →
      ∀ id d, s.documents.get? id = some d → s.Fits d) ∧
    ∀ id d, s.documents.get? id = some d →
      (∀ x : Index Store, x.store = s → ∀ o,
        if s.Fits d then ∃ hits, x.findSimilar id o = .ok hits
        else x.findSimilar id o =
          .error (.store (.dimensionMismatch s.embedder.dimensions d.embedding.length))) ∧
      ∀ y count found, s.queryVector y count = .ok found →
        (y.length = d.embedding.length ↔ s.Fits d) := by
  refine ⟨exists_startsAs h, fun n hevents id d hd => ?_, fun id d hd => ⟨?_, ?_⟩⟩
  · have hsized := isSized_run hevents h
    rw [Store.Fits, hsized.embedder]
    exact hsized.documents id d hd
  · rintro x rfl o
    rw [Index.findSimilar_eq hd]
    split
    · exact ⟨_, rfl⟩
    · rfl
  · intro y count found hfound
    rw [Store.queryVector_eq] at hfound
    split at hfound
    · next hsize => rw [Store.Fits, hsize, eq_comm]
    · cases hfound

section

/-- A store with one document, whose embedder promises vectors of one number, is opened again with
an embedder that promises another size. -/
def reopenedWith (n : ℕ) : List Event := [
  .opened { bytes := .empty } (.ofTable .empty 1),
  .changed (.add [⟨"a", "one", .empty⟩]),
  .reopened (.ofTable .empty n)]

lemma run_reopenedWith (n : ℕ) : ∃ s d, run (reopenedWith n) = some s ∧
    s.embedder.dimensions = n ∧ s.documents.get? "a" = some d ∧ d.embedding.length = 1 := by
  set record : Record := .put ⟨⟨"a", "one", .empty⟩, [.zero]⟩
  set l : Log := ⟨{ bytes := .empty }, 0⟩
  set s₁ : Store := ⟨.ofTable .empty 1, .empty, some l⟩
  have hempty : ByteArray.empty = "".toUTF8 := rfl
  have hsettled : Text.IsSettled "".toList := Text.isIndent_nil
  have hreplay := Log.ofBytes_append hempty [record]
  rw [Replay.ofText_append_records hsettled] at hreplay
  obtain ⟨l', hopen⟩ := Store.exists_ofFile hreplay (.ofTable .empty n)
  have hfirst : Store.ofFile { bytes := .empty } (.ofTable .empty 1) = .ok s₁ :=
    StoreHistory.ofFile_empty _ false
  have hadd : s₁.change (.add [⟨"a", "one", .empty⟩]) = .ok (s₁.commit [record]) := rfl
  have hlog : (s₁.commit [record]).log = some (l.append [record]) := rfl
  refine ⟨⟨.ofTable .empty n, ((Replay.ofText "".toList).pass [record]).documents, some l'⟩,
    ⟨⟨"a", "one", .empty⟩, [.zero]⟩, ?_, rfl, ?_, rfl⟩
  · have hreopen : Store.ofFile (l.append [record]).file (.ofTable .empty n) = _ := hopen
    rw [run, reopenedWith]
    simp only [List.foldl_cons, List.foldl_nil, Event.next, hfirst, Except.toOption, hadd,
      Option.getD_some, hlog, Option.bind_some, hreopen]
  · have hfinite : record.IsFinite := by decide
    simp [Replay.pass, hfinite, record, Record.apply]

/-- Opened again with an embedder for the same size, the store holds vectors that fit. -/
theorem same_size_fits : ∃ s d, run (reopenedWith 1) = some s ∧
    (∀ event ∈ reopenedWith 1, event.IsSized 1) ∧ s.documents.get? "a" = some d ∧ s.Fits d := by
  obtain ⟨s, d, hrun, -, hd, -⟩ := run_reopenedWith 1
  have hevents : ∀ event ∈ reopenedWith 1, event.IsSized 1 := by
    have hfile : LogFile.IsSized { bytes := .empty } 1 :=
      Log.IsSized.file (l := ⟨{ bytes := .empty }, 0⟩)
        ⟨_, ⟨"", rfl, Text.isIndent_nil, rfl⟩, Catalog.sized_empty 1⟩
    simp only [reopenedWith, List.forall_mem_cons]
    exact ⟨⟨hfile, rfl⟩, trivial, rfl, nofun⟩
  exact ⟨s, d, hrun, hevents, hd, (vectors_fit_unless_read hrun).2.1 1 hevents "a" d hd⟩

/-- Opened again with an embedder for vectors of two numbers, the store holds a vector of one, and
finds nothing similar to it. -/
theorem other_size_does_not_fit : ∃ s d, run (reopenedWith 2) = some s ∧
    s.documents.get? "a" = some d ∧ d.embedding.length = 1 ∧ s.embedder.dimensions = 2 ∧
    ∀ x : Index Store, x.store = s → ∀ o,
      x.findSimilar "a" o = .error (.store (.dimensionMismatch 2 1)) := by
  obtain ⟨s, d, hrun, hsize, hd, hlength⟩ := run_reopenedWith 2
  refine ⟨s, d, hrun, hd, hlength, hsize, ?_⟩
  rintro x rfl o
  have hunfit : ¬x.store.Fits d := by rw [Store.Fits, hlength, hsize]; decide
  rw [Index.findSimilar_eq hd, if_neg hunfit, hsize, hlength]

end

end StoreRun

end CodeSearch
