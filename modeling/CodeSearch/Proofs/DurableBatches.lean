import CodeSearch.Embedding.Table
import CodeSearch.Proofs.KeptWrites
import CodeSearch.Proofs.UnreadableRecords

/-!
# Which accepted documents are durable

A store takes in whatever vectors its embedder makes, as long as they have the promised size. A
document with a number that is not finite is then in memory but cannot be read back from the log,
and writing the log anew copies its line. All other documents are found again when the store is
opened the next time, however many such lines stand between them.
-/
namespace CodeSearch

namespace Record

/-- The identifier that a record is about. -/
def target : Record → String
  | put d => d.id
  | delete id => id

/-- What a record leaves under its identifier. -/
def left : Record → Option StoredDocument
  | put d => some d
  | delete _ => none

lemma get?_apply (r : Record) (c : Catalog StoredDocument) (id : String) :
    (r.apply c).get? id = if id = r.target then r.left else c.get? id := by
  cases r with
  | put d => rw [apply, Catalog.get?_insert]; rfl
  | delete id' => rw [apply, Catalog.get?_erase]; rfl

lemma not_isFinite_left {r : Record} (hr : ¬r.IsFinite) :
    ∃ d, r.left = some d ∧ ¬d.embedding.IsFinite := by
  cases r with
  | put d => exact ⟨d, rfl, hr⟩
  | delete id => exact absurd trivial hr

end Record

namespace Replay

variable {r : Replay} {documents : Catalog StoredDocument}

/-- A replay that has of a collection the documents that are finite. In place of another one it
may have an older one of the same identifier. -/
structure Reflects (r : Replay) (documents : Catalog StoredDocument) : Prop where
  sound : r.documents.Sound
  keyed : documents.Keyed
  kept : ∀ id d, documents.get? id = some d → d.embedding.IsFinite →
    r.documents.get? id = some d
  within : ∀ id, documents.get? id = none → r.documents.get? id = none

lemma reflects_of_sound {r : Replay} (h : r.documents.Sound) : r.Reflects r.documents :=
  ⟨h, h.keyed, fun _ _ hd _ => hd, fun _ hd => hd⟩

lemma Reflects.pass_one (h : r.Reflects documents) (record : Record) :
    (r.pass [record]).Reflects (record.apply documents) := by
  by_cases hr : record.IsFinite
  · have hdocuments : (r.pass [record]).documents = record.apply r.documents := by
      simp [pass, hr]
    refine ⟨hdocuments ▸ Record.apply_sound h.sound hr, Record.apply_keyed h.keyed record,
      fun id d hd hfinite => ?_, fun id hd => ?_⟩
    all_goals
      rw [Record.get?_apply] at hd
      rw [hdocuments, Record.get?_apply]
      split at hd
    · next hid => rwa [if_pos hid]
    · next hid => rw [if_neg hid, h.kept id d hd hfinite]
    · next hid => rwa [if_pos hid]
    · next hid => rw [if_neg hid, h.within id hd]
  · -- the line is passed over: only the collection has the document
    have hdocuments : (r.pass [record]).documents = r.documents := by
      simp [pass, hr]
    obtain ⟨d', hleft, hinfinite⟩ := Record.not_isFinite_left hr
    refine ⟨hdocuments ▸ h.sound, Record.apply_keyed h.keyed _,
      fun id d hd hfinite => ?_, fun id hd => ?_⟩
    all_goals
      rw [Record.get?_apply, hleft] at hd
      rw [hdocuments]
      split at hd
    · obtain rfl := Option.some.inj hd
      exact absurd hfinite hinfinite
    · exact h.kept id d hd hfinite
    · cases hd
    · exact h.within id hd

lemma Reflects.pass (h : r.Reflects documents) (records : List Record) :
    (r.pass records).Reflects (records.foldl Record.apply documents) := by
  induction records generalizing r documents with
  | nil => exact h
  | cons record records ih =>
    rw [pass_cons]
    exact ih (h.pass_one record)

end Replay

namespace Log

variable {l l' : Log} {documents : Catalog StoredDocument} {r : Replay}

/-- A log that may be gone on with and gives this replay. -/
def Gives (l : Log) (r : Replay) : Prop :=
  ∃ text : String, l.file.bytes = text.toUTF8 ∧ Text.IsSettled text.toList ∧
    Replay.ofText text.toList = r

lemma Gives.append (h : l.Gives r) (records : List Record) :
    (l.append records).Gives (r.pass records) := by
  obtain ⟨text, hbytes, hsettled, rfl⟩ := h
  refine ⟨text ++ String.ofList (records.flatMap Record.line), ?_, ?_, ?_⟩
  · rw [Log.append, hbytes, toUTF8_append_encode]
  · rw [String.toList_append, String.toList_ofList]
    exact hsettled.append_lines records
  · rw [String.toList_append, String.toList_ofList, Replay.ofText_append_records hsettled]

/-- A log of lines of records gives what they make of nothing. -/
lemma gives_of_encode {records : List Record} (h : l.file.bytes = encode records) :
    l.Gives (Replay.pass {} records) := by
  have hempty : Text.IsSettled [] := Text.isIndent_nil
  refine ⟨String.ofList (records.flatMap Record.line), h, ?_, ?_⟩
  · rw [String.toList_ofList]
    exact hempty.append_lines records
  · rw [String.toList_ofList, ← List.nil_append (records.flatMap Record.line),
      Replay.ofText_append_records hempty]
    rfl

/-- A log that reflects a collection and may be gone on with. -/
def Mirrors (l : Log) (documents : Catalog StoredDocument) : Prop :=
  ∃ text : String, l.file.bytes = text.toUTF8 ∧ Text.IsSettled text.toList ∧
    (Replay.ofText text.toList).Reflects documents

lemma Tracks.mirrors (h : l.Tracks documents) : l.Mirrors documents := by
  obtain ⟨text, hbytes, hsettled, htext, hsound⟩ := h
  have hreflects := Replay.reflects_of_sound (r := ⟨documents, l.records, 0⟩) hsound
  exact ⟨text, hbytes, hsettled, htext ▸ hreflects⟩

/-- A log that consists of records of any kind reflects what they make. -/
lemma mirrors_of_encode {records : List Record} (hbytes : l.file.bytes = encode records)
    (hdocuments : records.foldl Record.apply .empty = documents) : l.Mirrors documents := by
  have hempty : Replay.Reflects {} (.empty : Catalog StoredDocument) :=
    Replay.reflects_of_sound nofun
  obtain ⟨text, htext, hsettled, hreplay⟩ := gives_of_encode hbytes
  refine ⟨text, htext, hsettled, ?_⟩
  rw [hreplay, ← hdocuments]
  exact hempty.pass records

namespace Mirrors

lemma append (h : l.Mirrors documents) (records : List Record) :
    (l.append records).Mirrors (records.foldl Record.apply documents) := by
  obtain ⟨text, hbytes, hsettled, hreflects⟩ := h
  obtain ⟨text', hbytes', hsettled', hreplay⟩ := Gives.append ⟨text, hbytes, hsettled, rfl⟩ records
  refine ⟨text', hbytes', hsettled', ?_⟩
  rw [hreplay]
  exact hreflects.pass records

/-- A log that is written anew has the same lines that cannot be read. -/
lemma renew (h : l.Mirrors documents) (hl : l.renew documents = .ok l') :
    l'.Mirrors documents := by
  unfold Log.renew at hl
  split at hl
  · cases hl
  · obtain rfl := Except.ok.inj hl
    obtain ⟨text, -, -, hreflects⟩ := h
    exact mirrors_of_encode rfl (Record.foldl_put_values hreflects.keyed)

/-- A log that is opened again reflects what is read from it. -/
lemma reopen (h : l.Mirrors documents) {found : Catalog StoredDocument}
    (hopen : ofFile l.file = .ok (found, l')) : l'.Mirrors found := by
  obtain ⟨text, hbytes, hsettled, hreflects⟩ := h
  have hreplay : Replay.ofBytes l.file.bytes = .ok (.ofText text.toList) := by
    rw [hbytes, Replay.ofBytes_toUTF8]
  have hfound := Replay.reflects_of_sound hreflects.sound
  obtain rfl := documents_of_ofFile hreplay hopen
  rw [ofFile_of_replay l.file hreplay] at hopen
  split at hopen
  · obtain ⟨l'', hrenew, heq⟩ := Except.map_eq_ok.mp hopen
    obtain ⟨-, rfl⟩ := Prod.mk.inj heq
    exact renew ⟨text, hbytes, hsettled, hfound⟩ hrenew
  · obtain ⟨-, rfl⟩ := Prod.mk.inj (Except.ok.inj hopen)
    exact ⟨text, hbytes, hsettled, hfound⟩

lemma tidy (h : l.Mirrors documents) : (l.tidy documents).Mirrors documents := by
  unfold Log.tidy
  split
  · split
    · next heq => exact h.renew heq
    · exact h
  · exact h

end Mirrors

end Log

namespace Store

variable {s s' t : Store} {documents : List Document}

/-- A store that was opened on a log that ends well and holds no number that is not finite, and
was then changed and opened again in any way, whatever vectors its embedders made. -/
inductive Persistent : Store → Prop
  | opened {file : LogFile} {e : Embedder} {s : Store} (hopen : ofFile file e = .ok s)
      (hends : file.EndsWell)
      (hfinite : ∀ id d, s.documents.get? id = some d → d.embedding.IsFinite) : Persistent s
  | changed {s s' : Store} {c : Change} (h : Persistent s) (hrun : s.change c = .ok s') :
      Persistent s'
  | reopened {s s' : Store} {l : Log} {e : Embedder} (h : Persistent s) (hlog : s.log = some l)
      (hopen : ofFile l.file e = .ok s') : Persistent s'
  | blocked {s : Store} (h : Persistent s) (blocked : Bool) :
      Persistent { s with log := s.log.map fun l => { l with file := { l.file with blocked } } }

/-- The log of a store reflects what the store has in memory. -/
def IsMirrored (s : Store) : Prop :=
  ∃ l, s.log = some l ∧ l.Mirrors s.documents

/-- Every change that succeeds leaves a log that reflects what is in memory. -/
lemma IsMirrored.change (hs : s.IsMirrored) {c : Change} (h : s.change c = .ok s') :
    s'.IsMirrored := by
  obtain ⟨l, hlog, hmirrors⟩ := hs
  rcases change_cases h with rfl | ⟨-, rfl⟩ | ⟨-, l', l'', hlog', hrenew, rfl⟩
  · exact ⟨_, by rw [commit, hlog]; rfl, (hmirrors.append _).tidy⟩
  · exact ⟨l, hlog, hmirrors⟩
  · obtain rfl := Option.some.inj (hlog.symm.trans hlog')
    exact ⟨l'', rfl, hmirrors.renew hrenew⟩

lemma Persistent.isMirrored (h : Persistent s) : s.IsMirrored := by
  induction h with
  | opened hopen hends hfinite =>
    obtain ⟨l, hlog, htracks⟩ := isKept_ofFile hends hopen hfinite
    exact ⟨l, hlog, htracks.mirrors⟩
  | changed _ hrun ih => exact ih.change hrun
  | reopened _ hlog hopen ih =>
    obtain ⟨l, hlog', hmirrors⟩ := ih
    obtain rfl := Option.some.inj (hlog.symm.trans hlog')
    obtain ⟨⟨found, l'⟩, hopen', heq⟩ := Except.bind_eq_ok.mp hopen
    obtain rfl := Except.pure_eq_ok.mp heq
    exact ⟨l', rfl, hmirrors.reopen hopen'⟩
  | blocked _ blocked ih =>
    obtain ⟨l, hlog, hmirrors⟩ := ih
    exact ⟨{ l with file := { l.file with blocked } }, by rw [hlog]; rfl, hmirrors⟩

/-- What is found again of a store that has taken in a batch with these vectors: of the batch and
of what the store had besides it, the documents that are finite. In place of another one there is
nothing, or an older document. -/
structure FindsAgain (s : Store) (documents : List Document) (vectors : List Embedding)
    (t : Store) : Prop where
  found_iff : ∀ id d, Contents.put s.documents.get? (embedded documents vectors) id = some d →
    (t.documents.get? id = some d ↔ d.embedding.IsFinite)
  notMade : ∀ id, Contents.put s.documents.get? (embedded documents vectors) id = none →
    t.documents.get? id = none

/-- A batch that is taken in is put into the map of the store, each document with its vector. -/
lemma exists_holds_of_add (h : s.add documents = .ok t) :
    ∃ vectors, (documents = [] ∨ s.embedder.Fits documents vectors) ∧
      t.documents.Holds (Contents.put s.documents.get? (embedded documents vectors)) := by
  have hself : s.documents.Holds s.documents.get? := fun _ => rfl
  rcases s.add_cases documents with ⟨rfl, hadd⟩ | ⟨vectors, hfits, hadd⟩ | ⟨-, -, e, hadd⟩
  · obtain rfl := Except.ok.inj (hadd.symm.trans h)
    exact ⟨[], .inl rfl, fun id => by simp [Contents.put, embedded]⟩
  · obtain rfl := Except.ok.inj (hadd.symm.trans h)
    exact ⟨vectors, .inr hfits, Record.foldl_put_holds hself _⟩
  · rw [hadd] at h
    cases h

/-- A persistent store takes in a batch, whatever numbers its embedder makes of it. When the store
is opened again, exactly the documents that are finite are found. -/
theorem finite_documents_are_durable (hs : Persistent s) (hadd : s.add documents = .ok t) :
    ∃ vectors l, (documents = [] ∨ s.embedder.Fits documents vectors) ∧ t.log = some l ∧
      ∀ next, ∃ u, ofFile { bytes := l.file.bytes } next = .ok u ∧
        s.FindsAgain documents vectors u := by
  obtain ⟨l, hlog, text, hbytes, -, hreflects⟩ :=
    hs.isMirrored.change (c := .add documents) hadd
  obtain ⟨vectors, hvectors, hholds⟩ := exists_holds_of_add hadd
  refine ⟨vectors, l, hvectors, hlog, fun next => ?_⟩
  have hreplay : Replay.ofBytes l.file.bytes = .ok (.ofText text.toList) := by
    rw [hbytes, Replay.ofBytes, Text.fromUTF8?_toUTF8]
  obtain ⟨l', hopen⟩ := exists_ofFile hreplay next
  refine ⟨_, hopen, fun id d hd => ⟨fun hfound => ?_, fun hfinite => ?_⟩, fun id hd => ?_⟩
  · exact (hreflects.sound id d hfound).2
  · exact hreflects.kept id d ((hholds id).trans hd) hfinite
  · exact hreflects.within id ((hholds id).trans hd)

section

/-- An embedder that makes no number of one text. -/
def lossy : Embedder :=
  .ofTable (.ofList [("x", [.undefined])]) 1

def lossyStore : Store :=
  ⟨lossy, .empty, some ⟨{ bytes := .empty }, 0⟩⟩

lemma persistent_lossyStore : Persistent lossyStore :=
  .opened (StoreHistory.ofFile_empty lossy false)
    (StoreHistory.describes_empty false).tracks.endsWell fun id d hd => by cases hd

theorem lossy_batch_is_found_in_part :
    Persistent lossyStore ∧ ∃ t, lossyStore.add [⟨"a", "x", .empty⟩, ⟨"b", "y", .empty⟩] = .ok t ∧
    ∃ vectors l, lossy.Fits [⟨"a", "x", .empty⟩, ⟨"b", "y", .empty⟩] vectors ∧ t.log = some l ∧
      ∀ next, ∃ u, ofFile { bytes := l.file.bytes } next = .ok u ∧
        lossyStore.FindsAgain [⟨"a", "x", .empty⟩, ⟨"b", "y", .empty⟩] vectors u := by
  obtain ⟨t, hadd⟩ : ∃ t, lossyStore.add [⟨"a", "x", .empty⟩, ⟨"b", "y", .empty⟩] = .ok t :=
    ⟨_, rfl⟩
  obtain ⟨vectors, l, hvectors, hlog, hfound⟩ :=
    finite_documents_are_durable persistent_lossyStore hadd
  exact ⟨persistent_lossyStore, t, hadd, vectors, l, hvectors.resolve_left (by simp), hlog, hfound⟩

/-- What is found again after a few records on an empty log. -/
lemma exists_ofFile_commit {records : List Record} (hfew : records.length < Log.leastRecords) :
    ∃ l, (lossyStore.commit records).log = some l ∧ ∀ next, ∃ u,
      ofFile { bytes := l.file.bytes } next = .ok u ∧
        u.documents = (Replay.pass {} records).documents := by
  set l : Log := ⟨{ bytes := .empty }, 0⟩
  have htidy (documents : Catalog StoredDocument) :
      (l.append records).tidy documents = l.append records := by
    rw [Log.tidy, if_neg]
    simp [Log.isLong, Log.append, l, Nat.not_le.mpr hfew]
  have hempty : ByteArray.empty = "".toUTF8 := rfl
  have hsettled : Text.IsSettled "".toList := Text.isIndent_nil
  have hreplay := Log.ofBytes_append hempty records
  rw [Replay.ofText_append_records hsettled] at hreplay
  refine ⟨l.append records, congrArg some (htidy _), fun next => ?_⟩
  obtain ⟨l', hopen⟩ := exists_ofFile hreplay next
  exact ⟨_, hopen, rfl⟩

/-- A document that is taken in is lost, and in place of another one its older text comes back. -/
theorem accepted_documents_are_lost :
    (∃ t l, lossyStore.add [⟨"a", "x", .empty⟩] = .ok t ∧ t.log = some l ∧
      t.documents.names = ["a"] ∧ ∀ next, ∃ u, ofFile { bytes := l.file.bytes } next = .ok u ∧
        u.documents.names = []) ∧
    ∃ t l, lossyStore.add [⟨"a", "y", .empty⟩, ⟨"a", "x", .empty⟩] = .ok t ∧ t.log = some l ∧
      (t.documents.get? "a").map (·.content) = some "x" ∧
      ∀ next, ∃ u, ofFile { bytes := l.file.bytes } next = .ok u ∧
        (u.documents.get? "a").map (·.content) = some "y" := by
  obtain ⟨lost, hlost⟩ : ∃ r : Record, r = .put ⟨⟨"a", "x", .empty⟩, [.undefined]⟩ := ⟨_, rfl⟩
  obtain ⟨older, holder⟩ : ∃ r : Record, r = .put ⟨⟨"a", "y", .empty⟩, [.zero]⟩ := ⟨_, rfl⟩
  constructor
  · have hadd : lossyStore.add [⟨"a", "x", .empty⟩] = .ok (lossyStore.commit [lost]) := by
      rw [hlost]
      rfl
    obtain ⟨l, hlog, hfound⟩ := exists_ofFile_commit
      (show [lost].length < Log.leastRecords by simp [Log.leastRecords])
    refine ⟨_, l, hadd, hlog, by rw [hlost]; decide +kernel, fun next => ?_⟩
    obtain ⟨u, hopen, hdocuments⟩ := hfound next
    exact ⟨u, hopen, by rw [hdocuments, hlost]; decide +kernel⟩
  · have hadd : lossyStore.add [⟨"a", "y", .empty⟩, ⟨"a", "x", .empty⟩] =
        .ok (lossyStore.commit [older, lost]) := by
      rw [hlost, holder]
      rfl
    obtain ⟨l, hlog, hfound⟩ := exists_ofFile_commit
      (show [older, lost].length < Log.leastRecords by simp [Log.leastRecords])
    refine ⟨_, l, hadd, hlog, by rw [hlost, holder]; decide +kernel, fun next => ?_⟩
    obtain ⟨u, hopen, hdocuments⟩ := hfound next
    exact ⟨u, hopen, by rw [hdocuments, hlost, holder]; decide +kernel⟩

end

end Store

end CodeSearch
