import CodeSearch.Proofs.StoreCalls

/-!
# Histories of a store

A store is opened, changed, written anew and opened again, in any order, while the place
where a new log is prepared may be blocked. Throughout, the file replays to the
collection in memory, and both hold the plain map that went through the same changes.
-/
namespace CodeSearch

/-- All vectors that an embedder makes are finite. -/
def Embedder.IsFinite (e : Embedder) : Prop :=
  ∀ texts vectors, e.embedBatch texts = .ok vectors → ∀ x ∈ vectors, x.IsFinite

namespace Store

lemma embedded_isFinite {e : Embedder} (he : e.IsFinite) {documents : List Document}
    {vectors : List Embedding} (hfits : e.Fits documents vectors) :
    ∀ d ∈ embedded documents vectors, d.embedding.IsFinite :=
  fun _ hd => he _ vectors hfits.1 _ (embedding_mem_of_mem_embedded hd)

end Store

namespace Log

variable {l : Log} {documents : Catalog StoredDocument}

lemma Describes.withBlocked (h : l.Describes documents) (blocked : Bool) :
    ({ l with file := { l.file with blocked } } : Log).Describes documents :=
  h

/-- A log can be written anew unless something stands in the way. -/
lemma renew_eq (l : Log) (documents : Catalog StoredDocument) :
    (∃ l', l.renew documents = .ok l' ∧ l.file.blocked = false) ∨
      (l.renew documents = .error (.io .isDirectory) ∧ l.file.blocked = true) := by
  cases hblocked : l.file.blocked with
  | false => exact .inl ⟨_, by simp only [renew, hblocked]; rfl, rfl⟩
  | true => exact .inr ⟨by simp only [renew, hblocked]; rfl, rfl⟩

/-- Opening a file gives what it replays to, and a log that is written anew if it is long or
has malformed lines. -/
lemma ofFile_of_replay (file : LogFile) {r : Replay} (h : Replay.ofBytes file.bytes = .ok r) :
    ofFile file =
      if 0 < r.malformed ∨ (⟨file, r.records⟩ : Log).isLong r.documents.size then
        ((⟨file, r.records⟩ : Log).renew r.documents).map fun l => (r.documents, l)
      else .ok (r.documents, ⟨file, r.records⟩) := by
  unfold ofFile
  rw [h]
  simp only [bind, Except.bind, Bool.or_eq_true, decide_eq_true_eq]
  split
  · cases (⟨file, r.records⟩ : Log).renew r.documents <;> rfl
  · rfl

/-- Opening the file of a log gives the log back, written anew if it is long. -/
lemma ofFile_of_describes (h : l.Describes documents) : ofFile l.file =
    if l.isLong documents.size then (l.renew documents).map fun l' => (documents, l')
    else .ok (documents, l) := by
  simpa using ofFile_of_replay l.file h.replay

end Log

namespace StoreHistory

inductive Action where
  | add (documents : List Document)
  | delete (filter : Metadata)
  | compact
  | reopen (embedder : Embedder)
  | block (blocked : Bool)

inductive Answer where
  | done
  | deleted (count : ℕ)
  | failed (e : StoreError)
  | notOpen

namespace Answer

lemma done_ne_failed (e : StoreError) : done ≠ failed e := by
  simp

lemma deleted_ne_failed (count : ℕ) (e : StoreError) : deleted count ≠ failed e := by
  simp

lemma notOpen_ne_failed (e : StoreError) : notOpen ≠ failed e := by
  simp

end Answer

/-- The embedder of an action makes finite vectors. -/
def Action.IsFinite : Action → Prop
  | reopen embedder => embedder.IsFinite
  | _ => True

/-- An open store, or the file that is left where a store could not be opened again. -/
inductive Handle where
  | opened (s : Store)
  | closed (file : LogFile)

namespace Handle

/-- The log as it stands in the directory. -/
def file : Handle → LogFile
  | opened s => (s.log.map Log.file).getD { bytes := .empty }
  | closed file => file

/-- Take over the outcome of a change; a store whose change failed stays as it was. -/
def settle (h : Handle) : Except StoreError (Answer × Store) → Answer × Handle
  | .ok (answer, s) => (answer, opened s)
  | .error e => (.failed e, h)

/-- Block or free the place of a new log. -/
def block (blocked : Bool) : Handle → Handle
  | opened s => opened
      { s with log := s.log.map fun l => { l with file := { l.file with blocked } } }
  | closed file => closed { file with blocked }

/-- Let an action happen. -/
def step (h : Handle) : Action → Answer × Handle
  | .reopen embedder =>
      settle (closed h.file) ((Store.ofFile h.file embedder).map fun s => (.done, s))
  | .block blocked => (.done, h.block blocked)
  | .add documents =>
      match h with
      | opened s => h.settle ((s.add documents).map fun s => (.done, s))
      | closed _ => (.notOpen, h)
  | .delete filter =>
      match h with
      | opened s => h.settle ((s.delete filter).map fun r => (.deleted r.1, r.2))
      | closed _ => (.notOpen, h)
  | .compact =>
      match h with
      | opened s => h.settle (s.compact.map fun s => (.done, s))
      | closed _ => (.notOpen, h)

end Handle

structure Plain where
  embedder : Embedder
  contents : Contents

namespace Plain

/-- What an action makes of the map: nothing, unless it has succeeded. -/
def after (p : Plain) : Action → Answer → Plain
  | .add documents, .done =>
      let vectors := (p.embedder.embedBatch (documents.map (·.content))).toOption.getD []
      { p with contents := p.contents.put (Store.embedded documents vectors) }
  | .delete filter, .deleted _ => { p with contents := p.contents.drop filter }
  | .reopen embedder, .done => { p with embedder }
  | _, _ => p

end Plain

structure World where
  handle : Handle
  plain : Plain

namespace World

/-- Let an action happen to the store, and to the map what comes of it. -/
def step (w : World) (a : Action) : Answer × World :=
  let r := w.handle.step a
  (r.1, ⟨r.2, w.plain.after a r.1⟩)

/-- Let actions happen one after the other. -/
def run (w : World) (actions : List Action) : World :=
  actions.foldl (fun w a => (w.step a).2) w

/-- An open store with its log, and a map beside it. -/
abbrev opened (embedder : Embedder) (documents : Catalog StoredDocument) (l : Log)
    (contents : Contents) : World :=
  ⟨.opened ⟨embedder, documents, some l⟩, ⟨embedder, contents⟩⟩

/-- The log describes a collection that holds the map, and an open store has that
collection in memory. -/
inductive Linked : World → Prop
  | opened {embedder : Embedder} {documents : Catalog StoredDocument} {l : Log}
      {contents : Contents} (hlog : l.Describes documents) (hmap : documents.Holds contents)
      (hembedder : embedder.IsFinite) : Linked (opened embedder documents l contents)
  | closed {embedder : Embedder} {documents : Catalog StoredDocument} {l : Log}
      {contents : Contents} (hlog : l.Describes documents) (hmap : documents.Holds contents)
      (hembedder : embedder.IsFinite) : Linked ⟨.closed l.file, ⟨embedder, contents⟩⟩

/-- The file replays without a malformed line to a collection that holds the map. An open
store has just this collection in memory, and answers as the map does. -/
structure Agrees (w : World) : Prop where
  replay : ∃ documents records, Replay.ofBytes w.handle.file.bytes = .ok ⟨documents, records, 0⟩ ∧
    documents.Holds w.plain.contents
  memory : ∀ s, w.handle = .opened s → ∃ records,
    Replay.ofBytes w.handle.file.bytes = .ok ⟨s.documents, records, 0⟩
  embedder : ∀ s, w.handle = .opened s → s.embedder = w.plain.embedder
  answers : ∀ s, w.handle = .opened s → s.Answers w.plain.contents

/-- What an action has to answer. Opening fails where a long log cannot be written anew. -/
def Expects (w : World) (a : Action) (answer : Answer) : Prop :=
  match w.handle, a with
  | _, .block _ => answer = .done
  | handle, .reopen _ => ∃ r, Replay.ofBytes handle.file.bytes = .ok r ∧
      answer = if handle.file.blocked = true ∧ Log.leastRecords ≤ r.records ∧
        r.documents.size * 2 < r.records then .failed (.io .isDirectory) else .done
  | .closed _, _ => answer = .notOpen
  | .opened _, .add documents =>
      ((documents = [] ∨ ∃ vectors, w.plain.embedder.Fits documents vectors) ∧ answer = .done) ∨
      (documents ≠ [] ∧ (¬∃ vectors, w.plain.embedder.Fits documents vectors) ∧
        ∃ e, answer = .failed e)
  | .opened _, .delete filter => answer =
      if filter.entries = [] then
        .failed (.invalidFilter "refusing to delete with an empty filter")
      else .deleted (w.plain.contents.matching filter).ncard
  | .opened s, .compact => answer =
      if (Handle.opened s).file.blocked = true then .failed (.io .isDirectory) else .done

/-- What a refused action leaves behind: everything as it was, except that a store which
could not be opened again is closed. -/
def leftBy (w : World) (a : Action) : World :=
  match a with
  | .reopen _ => { w with handle := .closed w.handle.file }
  | _ => w

/-- One action as it should be. -/
structure Steps (w : World) (a : Action) : Prop where
  linked : (w.step a).2.Linked
  expects : w.Expects a (w.step a).1
  refused : ∀ e, (w.step a).1 = .failed e → (w.step a).2 = w.leftBy a

lemma steps_of_done {w w' : World} {a : Action} {answer : Answer}
    (hstep : w.step a = (answer, w')) (hlinked : w'.Linked) (hexpects : w.Expects a answer)
    (hanswer : ∀ e, answer ≠ .failed e) : w.Steps a := by
  refine ⟨by rw [hstep]; exact hlinked, by rw [hstep]; exact hexpects, fun e he => ?_⟩
  rw [hstep] at he
  exact absurd he (hanswer e)

lemma steps_of_failed {w : World} {a : Action} {e : StoreError}
    (hstep : w.step a = (.failed e, w.leftBy a)) (hlinked : (w.leftBy a).Linked)
    (hexpects : w.Expects a (.failed e)) : w.Steps a :=
  ⟨by rw [hstep]; exact hlinked, by rw [hstep]; exact hexpects, fun _ _ => by rw [hstep]⟩

lemma Linked.agrees {w : World} (h : w.Linked) : w.Agrees := by
  cases h with
  | opened hlog hmap _ =>
    refine ⟨⟨_, _, hlog.replay, hmap⟩, ?_, ?_, ?_⟩
    · rintro s ⟨⟩
      exact ⟨_, hlog.replay⟩
    · rintro s ⟨⟩
      rfl
    · rintro s ⟨⟩
      exact Store.answers_of_holds hlog.sound.keyed hmap
  | closed hlog hmap _ =>
    exact ⟨⟨_, _, hlog.replay, hmap⟩, by simp, by simp, by simp⟩

section Steps

variable {embedder : Embedder} {documents : Catalog StoredDocument} {l : Log} {contents : Contents}

/-- Committing records keeps the log in step with the collection. -/
lemma linked_commit (hlog : l.Describes documents) {records : List Record}
    (hrecords : ∀ r ∈ records, r.IsFinite)
    (hmap : (records.foldl Record.apply documents).Holds contents)
    (hembedder : embedder.IsFinite) :
    Linked ⟨.opened (Store.commit ⟨embedder, documents, some l⟩ records),
      ⟨embedder, contents⟩⟩ :=
  .opened (hlog.append hrecords).tidy hmap hembedder

lemma steps_add (hlog : l.Describes documents) (hmap : documents.Holds contents)
    (hembedder : embedder.IsFinite) (added : List Document) :
    (opened embedder documents l contents).Steps (.add added) := by
  rcases Store.add_cases ⟨embedder, documents, some l⟩ added with
    ⟨rfl, hadd⟩ | ⟨vectors, hfits, hadd⟩ | ⟨hne, hnot, e, hadd⟩
  · have hput : contents.put [] = contents := by
      ext1 id
      simp [Contents.put]
    have hstep : (opened embedder documents l contents).step (.add []) =
        (.done, opened embedder documents l contents) := by
      simp [step, Handle.step, hadd, Except.map, Handle.settle, Plain.after, Store.embedded, hput]
    exact steps_of_done hstep (.opened hlog hmap hembedder) (.inl ⟨.inl rfl, rfl⟩)
      Answer.done_ne_failed
  · have hvectors : (embedder.embedBatch (added.map (·.content))).toOption.getD [] = vectors := by
      rw [show embedder.embedBatch (added.map (·.content)) = .ok vectors from hfits.1]
      rfl
    have hfinite : ∀ r ∈ (Store.embedded added vectors).map Record.put, r.IsFinite := by
      intro r hr
      obtain ⟨d, hd, rfl⟩ := List.mem_map.mp hr
      exact Store.embedded_isFinite hembedder hfits d hd
    have hstep : (opened embedder documents l contents).step (.add added) =
        (.done, ⟨.opened (Store.commit ⟨embedder, documents, some l⟩
            ((Store.embedded added vectors).map .put)),
          ⟨embedder, contents.put (Store.embedded added vectors)⟩⟩) := by
      simp only [step, Handle.step, hadd, Except.map, Handle.settle, Plain.after, hvectors]
    exact steps_of_done hstep
      (linked_commit hlog hfinite (Record.foldl_put_holds hmap _) hembedder)
      (.inl ⟨.inr ⟨vectors, hfits⟩, rfl⟩) Answer.done_ne_failed
  · have hstep : (opened embedder documents l contents).step (.add added) =
        (.failed e, opened embedder documents l contents) := by
      simp only [step, Handle.step, hadd, Except.map, Handle.settle, Plain.after]
    exact steps_of_failed hstep (.opened hlog hmap hembedder) (.inr ⟨hne, hnot, e, rfl⟩)

lemma steps_delete (hlog : l.Describes documents) (hmap : documents.Holds contents)
    (hembedder : embedder.IsFinite) (filter : Metadata) :
    (opened embedder documents l contents).Steps (.delete filter) := by
  set s : Store := ⟨embedder, documents, some l⟩
  have hdelete := s.delete_eq filter
  have hkeyed : s.documents.Keyed := hlog.sound.keyed
  have hdropped : (((s.matching filter).map .delete).foldl Record.apply documents).Holds
      (contents.drop filter) := Store.foldl_delete_holds hkeyed hmap filter
  have hcount : (s.matching filter).length = (contents.matching filter).ncard :=
    Store.length_matching hkeyed hmap filter
  have hstep (r : Except StoreError (ℕ × Store)) (hr : s.delete filter = r) :
      (opened embedder documents l contents).step (.delete filter) =
        let q := (Handle.opened s).settle (r.map fun r => (.deleted r.1, r.2))
        (q.1, ⟨q.2, Plain.after ⟨embedder, contents⟩ (.delete filter) q.1⟩) := by
    rw [← hr]
    rfl
  by_cases hfilter : filter.entries = []
  · rw [if_pos hfilter] at hdelete
    refine steps_of_failed (hstep _ hdelete) (.opened hlog hmap hembedder) ?_
    simp only [Expects, if_pos hfilter]
  · rw [if_neg hfilter] at hdelete
    have hexpects : Expects ⟨.opened s, ⟨embedder, contents⟩⟩ (.delete filter)
        (.deleted (s.matching filter).length) := by
      simp only [Expects, if_neg hfilter, hcount]
    by_cases hnone : s.matching filter = []
    · rw [if_pos hnone] at hdelete
      rw [hnone] at hexpects hdropped
      exact steps_of_done (hstep _ hdelete) (.opened hlog hdropped hembedder) hexpects
        (Answer.deleted_ne_failed _)
    · rw [if_neg hnone] at hdelete
      have hfinite : ∀ r ∈ (s.matching filter).map Record.delete, r.IsFinite := by
        intro r hr
        obtain ⟨id, -, rfl⟩ := List.mem_map.mp hr
        trivial
      exact steps_of_done (hstep _ hdelete) (linked_commit hlog hfinite hdropped hembedder)
        hexpects (Answer.deleted_ne_failed _)

lemma steps_compact (hlog : l.Describes documents) (hmap : documents.Holds contents)
    (hembedder : embedder.IsFinite) : (opened embedder documents l contents).Steps .compact := by
  rcases l.renew_eq documents with ⟨l', hrenew, hblocked⟩ | ⟨hrenew, hblocked⟩
  · have hstep : (opened embedder documents l contents).step .compact =
        (.done, opened embedder documents l' contents) := by
      simp only [step, Handle.step, Store.compact, hrenew]
      rfl
    refine steps_of_done hstep (.opened (hlog.renew hrenew) hmap hembedder) ?_
      Answer.done_ne_failed
    simp [Expects, Handle.file, hblocked]
  · have hstep : (opened embedder documents l contents).step .compact =
        (.failed (.io .isDirectory), opened embedder documents l contents) := by
      simp only [step, Handle.step, Store.compact, hrenew]
      rfl
    refine steps_of_failed hstep (.opened hlog hmap hembedder) ?_
    simp [Expects, Handle.file, hblocked]

lemma steps_reopen (hlog : l.Describes documents) (hmap : documents.Holds contents) {h : Handle}
    (hfile : h.file = l.file) (hembedder : embedder.IsFinite) {next : Embedder}
    (hnext : next.IsFinite) : Steps ⟨h, ⟨embedder, contents⟩⟩ (.reopen next) := by
  have hopen : Store.ofFile h.file next =
      (Log.ofFile l.file).map fun r => ⟨next, r.1, some r.2⟩ := by
    rw [hfile, Store.ofFile]
    cases Log.ofFile l.file <;> rfl
  rw [Log.ofFile_of_describes hlog] at hopen
  have hexpects (answer : Answer) (hanswer : answer =
      if l.file.blocked = true ∧ l.isLong documents.size = true then .failed (.io .isDirectory)
      else .done) : Expects ⟨h, ⟨embedder, contents⟩⟩ (.reopen next) answer := by
    refine ⟨_, by rw [hfile]; exact hlog.replay, ?_⟩
    rw [hanswer, hfile]
    simp [Log.isLong]
  -- only a long log is written anew, so only that can be refused
  by_cases hlong : l.isLong documents.size = true
  · rw [if_pos hlong] at hopen
    rcases l.renew_eq documents with ⟨l', hrenew, hblocked⟩ | ⟨hrenew, hblocked⟩
    · rw [hrenew] at hopen
      have hstep : step ⟨h, ⟨embedder, contents⟩⟩ (.reopen next) =
          (.done, opened next documents l' contents) := by
        simp only [step, Handle.step, hopen]
        rfl
      exact steps_of_done hstep (.opened (hlog.renew hrenew) hmap hnext)
        (hexpects _ (by simp [hblocked])) Answer.done_ne_failed
    · rw [hrenew] at hopen
      have hstep : step ⟨h, ⟨embedder, contents⟩⟩ (.reopen next) =
          (.failed (.io .isDirectory), ⟨.closed h.file, ⟨embedder, contents⟩⟩) := by
        simp only [step, Handle.step, hopen]
        rfl
      refine steps_of_failed hstep ?_ (hexpects _ (by simp [hblocked, hlong]))
      simp only [leftBy, hfile]
      exact .closed hlog hmap hembedder
  · rw [if_neg hlong] at hopen
    have hstep : step ⟨h, ⟨embedder, contents⟩⟩ (.reopen next) =
        (.done, opened next documents l contents) := by
      simp only [step, Handle.step, hopen]
      rfl
    exact steps_of_done hstep (.opened hlog hmap hnext) (hexpects _ (by simp [hlong]))
      Answer.done_ne_failed

lemma steps_block (hlog : l.Describes documents) (hmap : documents.Holds contents)
    (hembedder : embedder.IsFinite) (blocked : Bool) :
    (opened embedder documents l contents).Steps (.block blocked) :=
  steps_of_done rfl (.opened (hlog.withBlocked blocked) hmap hembedder) rfl Answer.done_ne_failed

lemma steps_closed (hlog : l.Describes documents) (hmap : documents.Holds contents)
    (hembedder : embedder.IsFinite) {a : Action} (ha : a.IsFinite) :
    Steps ⟨.closed l.file, ⟨embedder, contents⟩⟩ a := by
  have hclosed : Linked ⟨.closed l.file, ⟨embedder, contents⟩⟩ := .closed hlog hmap hembedder
  cases a with
  | reopen next => exact steps_reopen hlog hmap rfl hembedder ha
  | block blocked =>
    exact steps_of_done rfl (.closed (hlog.withBlocked blocked) hmap hembedder) rfl
      Answer.done_ne_failed
  | add _ => exact steps_of_done rfl hclosed rfl Answer.notOpen_ne_failed
  | delete _ => exact steps_of_done rfl hclosed rfl Answer.notOpen_ne_failed
  | compact => exact steps_of_done rfl hclosed rfl Answer.notOpen_ne_failed

end Steps

/-- From a world whose log, store and map are linked, every action goes as it should. -/
theorem Linked.steps {w : World} (h : w.Linked) {a : Action} (ha : a.IsFinite) : w.Steps a := by
  cases h with
  | closed hlog hmap hembedder => exact steps_closed hlog hmap hembedder ha
  | opened hlog hmap hembedder =>
    cases a with
    | add added => exact steps_add hlog hmap hembedder added
    | delete filter => exact steps_delete hlog hmap hembedder filter
    | compact => exact steps_compact hlog hmap hembedder
    | reopen next => exact steps_reopen hlog hmap rfl hembedder ha
    | block blocked => exact steps_block hlog hmap hembedder blocked

/-- Log, store and map stay linked through every run. -/
theorem Linked.run {w : World} (h : w.Linked) {actions : List Action}
    (hactions : ∀ a ∈ actions, a.IsFinite) : (w.run actions).Linked := by
  induction actions generalizing w with
  | nil => exact h
  | cons a actions ih =>
    rw [List.forall_mem_cons] at hactions
    exact ih (h.steps hactions.1).linked hactions.2

end World

/-- The empty file describes the empty collection. -/
lemma describes_empty (blocked : Bool) : (⟨⟨.empty, blocked⟩, 0⟩ : Log).Describes .empty :=
  ⟨[], by simp [Log.encode], rfl, by simp, rfl⟩

lemma ofFile_empty (embedder : Embedder) (blocked : Bool) :
    Store.ofFile ⟨.empty, blocked⟩ embedder =
      .ok ⟨embedder, .empty, some ⟨⟨.empty, blocked⟩, 0⟩⟩ := by
  have hopen := Log.ofFile_of_describes (describes_empty blocked)
  rw [if_neg (by simp [Log.isLong, Log.leastRecords])] at hopen
  rw [Store.ofFile, hopen]
  rfl

/-- A store is opened where no log is yet. Whatever happens to it then, it answers as the
plain map does that went through the same successful changes, its file replays to the
collection in memory without a malformed line, and every action succeeds or fails as it
should; one that fails leaves the map and the file as they were. -/
theorem history_refines_map {embedder : Embedder} (hembedder : embedder.IsFinite)
    (blocked : Bool) :
    ∃ s, Store.ofFile ⟨.empty, blocked⟩ embedder = .ok s ∧
      ∀ actions : List Action, (∀ a ∈ actions, a.IsFinite) →
        let w := World.run ⟨.opened s, ⟨embedder, fun _ => none⟩⟩ actions
        w.Agrees ∧ ∀ a, a.IsFinite → w.Expects a (w.step a).1 ∧
          ∀ e, (w.step a).1 = .failed e → (w.step a).2 = w.leftBy a := by
  refine ⟨_, ofFile_empty embedder blocked, fun actions hactions => ?_⟩
  have hempty : (World.opened embedder .empty ⟨⟨.empty, blocked⟩, 0⟩ fun _ => none).Linked :=
    .opened (describes_empty blocked) (fun _ => rfl) hembedder
  have hlinked := hempty.run hactions
  refine ⟨hlinked.agrees, fun a ha => ?_⟩
  have hsteps := hlinked.steps ha
  exact ⟨hsteps.expects, hsteps.refused⟩

/-- An embedder that makes the same vector of every text. -/
def constant : Embedder where
  model := "constant"
  dimensions := 1
  embedBatch texts := .ok (texts.map fun _ => [.zero])

lemma constant_isFinite : constant.IsFinite := by
  rintro texts vectors ⟨⟩ x hx
  obtain ⟨-, -, rfl⟩ := List.mem_map.mp hx
  intro a ha
  obtain rfl := List.mem_singleton.mp ha
  decide

/-- A document added twice in one batch, a log that cannot be written anew, and a store
that is opened again. -/
theorem constant_history_refines_map : constant.IsFinite ∧
    ∃ s, Store.ofFile ⟨.empty, false⟩ constant = .ok s ∧
      (World.run ⟨.opened s, ⟨constant, fun _ => none⟩⟩
        [.add [⟨"a", "first", .empty⟩, ⟨"a", "second", .empty⟩], .block true, .compact,
          .reopen constant, .delete .empty]).Agrees := by
  obtain ⟨s, hopen, hrun⟩ := history_refines_map constant_isFinite false
  refine ⟨constant_isFinite, s, hopen, (hrun _ ?_).1⟩
  simp [Action.IsFinite, constant_isFinite]

end StoreHistory

end CodeSearch
