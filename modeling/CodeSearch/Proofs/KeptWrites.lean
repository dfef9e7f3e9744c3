import CodeSearch.Proofs.LogTails
import CodeSearch.Proofs.StoreHistory

/-!
# Writes that are kept

A store is opened on whatever text its log has, and changed. If the log ended so that it
could be gone on with, or was written anew at once, every change can be found again when the
store is opened the next time. If it ended in the middle of a line, the first record that is
written is lost together with that line.
-/
namespace CodeSearch

namespace LogFile

/-- Behind the last newline there are only gaps, or the log is written anew when it is
opened. -/
def EndsWell (file : LogFile) : Prop :=
  ∀ text, String.fromUTF8? file.bytes = some text →
    let r := Replay.ofText text.toList
    Text.IsSettled text.toList ∨ 0 < r.malformed ∨
      (⟨file, r.records⟩ : Log).isLong r.documents.size = true

end LogFile

namespace Log

variable {l : Log} {file : LogFile} {documents : Catalog StoredDocument}

lemma ofBytes_append {bytes : ByteArray} {text : String} (hbytes : bytes = text.toUTF8)
    (records : List Record) : Replay.ofBytes (bytes ++ encode records) =
      .ok (.ofText (text.toList ++ records.flatMap Record.line)) := by
  rw [hbytes, toUTF8_append_encode, Replay.ofBytes_toUTF8, String.toList_append,
    String.toList_ofList]

/-- Opening a file that ends well gives a log that keeps in step with what it replays to. -/
lemma tracks_of_ofFile (hends : file.EndsWell) (hopen : ofFile file = .ok (documents, l))
    (hfinite : ∀ id d, documents.get? id = some d → d.embedding.IsFinite) :
    l.Tracks documents := by
  cases htext : String.fromUTF8? file.bytes with
  | none => simp [ofFile, Replay.ofBytes, htext, bind, Except.bind] at hopen
  | some text =>
    have hkeyed := Replay.keyed_ofText text.toList
    have hreplay : Replay.ofBytes file.bytes = .ok (.ofText text.toList) := by
      rw [Replay.ofBytes, htext]
    rw [ofFile_of_replay file hreplay] at hopen
    split at hopen
    · obtain ⟨l', hrenew, heq⟩ := Except.map_eq_ok.mp hopen
      obtain ⟨rfl, rfl⟩ := Prod.mk.inj heq
      have hsound : Catalog.Sound (Replay.ofText text.toList).documents :=
        fun id d hd => ⟨hkeyed id d hd, hfinite id d hd⟩
      exact (describes_renew hsound hrenew).tracks
    · next hkeep =>
      obtain ⟨rfl, rfl⟩ := Prod.mk.inj (Except.ok.inj hopen)
      rw [not_or, Nat.not_lt, Nat.le_zero] at hkeep
      refine ⟨text, Text.toUTF8_of_fromUTF8? htext, ?_, ?_, ?_⟩
      · exact (hends text htext).resolve_right (by simpa using hkeep)
      · rw [← hkeep.1]
      · exact fun id d hd => ⟨hkeyed id d hd, hfinite id d hd⟩

lemma documents_of_ofFile {r : Replay} (h : Replay.ofBytes file.bytes = .ok r)
    (hopen : ofFile file = .ok (documents, l)) : documents = r.documents := by
  rw [ofFile_of_replay file h] at hopen
  split at hopen
  · obtain ⟨l', -, heq⟩ := Except.map_eq_ok.mp hopen
    exact (Prod.mk.inj heq).1.symm
  · exact (Prod.mk.inj (Except.ok.inj hopen)).1.symm

/-- A log that keeps in step may be left and opened again. -/
lemma Tracks.endsWell (h : l.Tracks documents) : l.file.EndsWell := by
  obtain ⟨text, hbytes, hsettled, -, -⟩ := h
  intro text' htext'
  rw [hbytes, Text.fromUTF8?_toUTF8] at htext'
  obtain rfl := Option.some.inj htext'
  exact .inl hsettled

end Log

namespace Store

inductive Change where
  | add (documents : List Document)
  | delete (filter : Metadata)
  | compact

/-- The embeddings that a change stores are finite. -/
def Change.IsFinite (e : Embedder) : Change → Prop
  | .add documents => ∀ vectors, e.embedBatch (documents.map (·.content)) = .ok vectors →
      ∀ x ∈ vectors, x.IsFinite
  | _ => True

def change (s : Store) : Change → Except StoreError Store
  | .add documents => s.add documents
  | .delete filter => (s.delete filter).map (·.2)
  | .compact => s.compact

def written (s : Store) : Change → List Record
  | .add documents =>
      match s.embedAll documents with
      | .ok vectors => (embedded documents vectors).map .put
      | .error _ => []
  | .delete filter => (s.matching filter).map .delete
  | .compact => []

/-- The log of a store keeps in step with what the store has in memory. -/
def IsKept (s : Store) : Prop :=
  ∃ l, s.log = some l ∧ l.Tracks s.documents

variable {s s' : Store} {file : LogFile} {e : Embedder}

lemma isKept_ofFile (hends : file.EndsWell) (hopen : ofFile file e = .ok s)
    (hfinite : ∀ id d, s.documents.get? id = some d → d.embedding.IsFinite) : s.IsKept := by
  obtain ⟨⟨documents, l⟩, hlog, heq⟩ := Except.bind_eq_ok.mp hopen
  obtain rfl := Except.pure_eq_ok.mp heq
  exact ⟨l, rfl, Log.tracks_of_ofFile hends hlog hfinite⟩

/-- A store that is kept and opened again is kept. -/
lemma IsKept.reopen {l : Log} (hs : s.IsKept) (hlog : s.log = some l)
    (hopen : ofFile l.file e = .ok s') : s'.IsKept := by
  obtain ⟨l₀, hlog₀, htracks⟩ := hs
  obtain rfl := Option.some.inj (hlog.symm.trans hlog₀)
  refine isKept_ofFile htracks.endsWell hopen fun id d hd => ?_
  obtain ⟨⟨documents, l'⟩, hopen', heq⟩ := Except.bind_eq_ok.mp hopen
  obtain rfl := Except.pure_eq_ok.mp heq
  rw [Log.documents_of_ofFile htracks.replay hopen'] at hd
  exact (htracks.sound id d hd).2

/-- Where nothing stands in the way of a new log, every text can be opened. -/
lemma exists_ofFile {bytes : ByteArray} {r : Replay} (h : Replay.ofBytes bytes = .ok r)
    (e : Embedder) : ∃ l, ofFile { bytes } e = .ok ⟨e, r.documents, some l⟩ := by
  rw [ofFile, Log.ofFile_of_replay { bytes } h]
  split
  · rcases Log.renew_eq ⟨{ bytes }, r.records⟩ r.documents with ⟨l, hrenew, -⟩ | ⟨-, hblocked⟩
    · rw [hrenew]
      exact ⟨l, rfl⟩
    · cases hblocked
  · exact ⟨_, rfl⟩

/-- What stands in the way of a new log does not matter to the log that is there. -/
lemma IsKept.withBlocked (hs : s.IsKept) (blocked : Bool) :
    IsKept { s with log := s.log.map fun l => { l with file := { l.file with blocked } } } := by
  obtain ⟨l, hlog, htracks⟩ := hs
  exact ⟨{ l with file := { l.file with blocked } }, by rw [hlog]; rfl, htracks⟩

lemma IsKept.commit (hs : s.IsKept) {records : List Record} (hrecords : ∀ r ∈ records, r.IsFinite) :
    (s.commit records).IsKept := by
  obtain ⟨l, hl, htracks⟩ := hs
  refine ⟨(l.append records).tidy (records.foldl Record.apply s.documents), ?_,
    (htracks.append hrecords).tidy⟩
  rw [Store.commit, hl]
  rfl

lemma written_isFinite {c : Change} (hc : c.IsFinite s.embedder) :
    ∀ r ∈ s.written c, r.IsFinite := by
  intro r hr
  cases c with
  | add documents =>
    simp only [written] at hr
    split at hr
    · next vectors hembed =>
      obtain ⟨d, hd, rfl⟩ := List.mem_map.mp hr
      exact hc vectors (embedAll_eq_ok.mp hembed).1 _ (embedding_mem_of_mem_embedded hd)
    · cases hr
  | delete filter =>
    obtain ⟨id, -, rfl⟩ := List.mem_map.mp hr
    trivial
  | compact => cases hr

lemma written_nil (s : Store) : s.written (.add []) = [] := by
  simp only [written]
  split <;> rfl

/-- A change that succeeds writes its records, if it has any, or the log anew. -/
lemma change_cases {c : Change} (h : s.change c = .ok s') :
    s' = s.commit (s.written c) ∨ (s.written c = [] ∧ s' = s) ∨
      (s.written c = [] ∧ ∃ l l', s.log = some l ∧ l.renew s.documents = .ok l' ∧
        s' = { s with log := some l' }) := by
  cases c with
  | add documents =>
    rcases s.add_cases documents with ⟨rfl, hadd⟩ | ⟨vectors, hfits, hadd⟩ | ⟨-, -, e, hadd⟩
    · exact .inr (.inl ⟨s.written_nil, Except.ok.inj (h.symm.trans hadd)⟩)
    · have hwritten : s.written (.add documents) = (embedded documents vectors).map .put := by
        simp only [written, embedAll_eq_ok.mpr hfits]
      rw [hwritten]
      exact .inl (Except.ok.inj (h.symm.trans hadd))
    · cases hadd.symm.trans h
  | delete filter =>
    obtain ⟨r, hdelete, rfl⟩ := Except.map_eq_ok.mp h
    rw [delete_eq] at hdelete
    split_ifs at hdelete with hfilter hnone
    · obtain rfl := Except.ok.inj hdelete
      exact .inr (.inl ⟨by rw [written, hnone]; rfl, rfl⟩)
    · obtain rfl := Except.ok.inj hdelete
      exact .inl rfl
  | compact =>
    simp only [change, compact] at h
    split at h
    · exact .inr (.inl ⟨rfl, (Except.ok.inj h).symm⟩)
    · next l hlog =>
      obtain ⟨l', hrenew, heq⟩ := Except.bind_eq_ok.mp h
      exact .inr (.inr ⟨rfl, l, l', hlog, hrenew, (Except.pure_eq_ok.mp heq).symm⟩)

/-- Every change that succeeds keeps the log in step. -/
lemma IsKept.change (hs : s.IsKept) {c : Change} (hc : c.IsFinite s.embedder)
    (h : s.change c = .ok s') : s'.IsKept ∧ s'.embedder = s.embedder := by
  rcases change_cases h with rfl | ⟨-, rfl⟩ | ⟨-, l, l', hlog, hrenew, rfl⟩
  · exact ⟨hs.commit (written_isFinite hc), rfl⟩
  · exact ⟨hs, rfl⟩
  · obtain ⟨l₀, hlog₀, htracks⟩ := hs
    obtain rfl := Option.some.inj (hlog.symm.trans hlog₀)
    exact ⟨⟨l', rfl, htracks.renew hrenew⟩, rfl⟩

lemma IsKept.foldlM (hs : s.IsKept) {changes : List Change}
    (hchanges : ∀ c ∈ changes, c.IsFinite s.embedder) (h : changes.foldlM Store.change s = .ok s') :
    s'.IsKept := by
  induction changes generalizing s with
  | nil =>
    obtain rfl := Except.pure_eq_ok.mp h
    exact hs
  | cons c changes ih =>
    rw [List.forall_mem_cons] at hchanges
    obtain ⟨t, ht, hrest⟩ := Except.bind_eq_ok.mp h
    obtain ⟨hkept, hembedder⟩ := hs.change hchanges.1 ht
    exact ih hkept (by rw [hembedder]; exact hchanges.2) hrest

/-- A store is opened on whatever its log is, as long as that ends well, and changed in any
way. Then it can be opened again, and has the documents that it had in memory. -/
theorem changes_survive {file : LogFile} {e : Embedder} {s s' : Store} {changes : List Change}
    (hopen : ofFile file e = .ok s) (hends : file.EndsWell)
    (hfinite : ∀ id d, s.documents.get? id = some d → d.embedding.IsFinite)
    (hchanges : ∀ c ∈ changes, c.IsFinite s.embedder)
    (hrun : changes.foldlM Store.change s = .ok s') :
    ∃ l, s'.log = some l ∧ ∀ next, ∃ t,
      ofFile { bytes := l.file.bytes } next = .ok t ∧ t.documents = s'.documents := by
  obtain ⟨l, hlog, htracks⟩ := (isKept_ofFile hends hopen hfinite).foldlM hchanges hrun
  refine ⟨l, hlog, fun next => ?_⟩
  obtain ⟨l', hreopen⟩ := exists_ofFile htracks.replay next
  exact ⟨_, hreopen, rfl⟩

section

open StoreHistory (constant constant_isFinite)

/-- A record of which the last character is missing. -/
def torn : String :=
  String.ofList (Record.delete "x").print.dropLast

lemma endsWell_torn : LogFile.EndsWell { bytes := torn.toUTF8 } := by
  intro text htext
  obtain rfl := Option.some.inj (htext.symm.trans (Text.fromUTF8?_toUTF8 torn))
  have hmalformed : (Replay.ofText torn.toList).malformed = 1 := by decide +kernel
  right; left
  rw [hmalformed]
  exact Nat.one_pos

/-- What is written behind a torn record is kept. -/
theorem torn_keeps_next : ∃ s s', ofFile { bytes := torn.toUTF8 } constant = .ok s ∧
    LogFile.EndsWell { bytes := torn.toUTF8 } ∧
    (∀ id d, s.documents.get? id = some d → d.embedding.IsFinite) ∧
    (∀ c ∈ [Change.add [⟨"a", "one", .empty⟩], .add [⟨"b", "two", .empty⟩]],
      c.IsFinite s.embedder) ∧
    [Change.add [⟨"a", "one", .empty⟩], .add [⟨"b", "two", .empty⟩]].foldlM change s = .ok s' ∧
    ∃ l, s'.log = some l ∧ ∀ next, ∃ t,
      ofFile { bytes := l.file.bytes } next = .ok t ∧ t.documents = s'.documents := by
  obtain ⟨r, hreplay, hnone⟩ : ∃ r, Replay.ofBytes torn.toUTF8 = .ok r ∧
      r.documents.values.length = 0 := by
    refine ⟨.ofText torn.toList, ?_, by decide +kernel⟩
    rw [Replay.ofBytes, Text.fromUTF8?_toUTF8]
  obtain ⟨l, hopen⟩ := exists_ofFile hreplay constant
  have hfinite : ∀ id d, r.documents.get? id = some d → d.embedding.IsFinite := by
    intro id d hd
    have hmem : d ∈ r.documents.values := (Catalog.mem_values_iff _ d).mpr ⟨id, hd⟩
    rw [List.length_eq_zero_iff.mp hnone] at hmem
    cases hmem
  have hchanges : ∀ c ∈ [Change.add [⟨"a", "one", .empty⟩], .add [⟨"b", "two", .empty⟩]],
      c.IsFinite constant := by
    simp only [List.forall_mem_cons, List.not_mem_nil, false_implies, implies_true, and_true]
    exact ⟨constant_isFinite _, constant_isFinite _⟩
  obtain ⟨s', hrun⟩ : ∃ s', [Change.add [⟨"a", "one", .empty⟩],
      .add [⟨"b", "two", .empty⟩]].foldlM change ⟨constant, r.documents, some l⟩ = .ok s' :=
    ⟨_, rfl⟩
  exact ⟨_, s', hopen, endsWell_torn, hfinite, hchanges, hrun,
    changes_survive hopen endsWell_torn hfinite hchanges hrun⟩

end

/-- A store that is opened on a log which does not end well and is not written anew soon loses
the unfinished line of the log with the next change, and the first record of that change. -/
theorem change_joined {file : LogFile} {e : Embedder} {s s' : Store} {c : Change} {r : Record}
    {records : List Record} (hopen : ofFile file e = .ok s) (hends : ¬file.EndsWell)
    (hc : c.IsFinite s.embedder) (hrun : s.change c = .ok s')
    (hwritten : s.written c = r :: records)
    (hshort : ∀ l, s.log = some l → (l.append (r :: records)).isLong s'.documents.size = false) :
    ∃ text l, String.fromUTF8? file.bytes = some text ∧ s'.log = some l ∧ ∀ next, ∃ t,
      ofFile { bytes := l.file.bytes } next = .ok t ∧
      t.documents = records.foldl Record.apply
        (Replay.ofText (Text.finished text.toList)).documents := by
  obtain ⟨text, htext, hends⟩ : ∃ text, String.fromUTF8? file.bytes = some text ∧ _ := by
    simpa only [LogFile.EndsWell, not_forall, exists_prop] using hends
  simp only [not_or, Nat.not_lt, Nat.le_zero] at hends
  obtain ⟨hsettled, hmalformed, hlong⟩ := hends
  have hreplay : Replay.ofBytes file.bytes = .ok (.ofText text.toList) := by
    rw [Replay.ofBytes, htext]
  rw [ofFile, Log.ofFile_of_replay file hreplay, if_neg (by simp [hmalformed, hlong])] at hopen
  obtain rfl := Except.ok.inj hopen
  have hcommit := change_cases hrun
  rw [hwritten] at hcommit
  obtain rfl := hcommit.resolve_right (by simp)
  set l : Log := ⟨file, (Replay.ofText text.toList).records⟩ with hl
  set documents := (r :: records).foldl Record.apply (Replay.ofText text.toList).documents
  have htidy : (l.append (r :: records)).tidy documents = l.append (r :: records) := by
    rw [Log.tidy, if_neg]
    exact Bool.eq_false_iff.mp (hshort l rfl)
  refine ⟨text, l.append (r :: records), htext, congrArg some htidy, fun next => ?_⟩
  have hrecords : ∀ r ∈ records, r.IsFinite := by
    have hall := written_isFinite hc
    rw [hwritten] at hall
    exact fun r hr => hall r (List.mem_cons_of_mem _ hr)
  have hjoined := Log.ofBytes_append (Text.toUTF8_of_fromUTF8? htext) (r :: records)
  rw [Replay.ofText_append_joined hsettled hmalformed hrecords] at hjoined
  obtain ⟨l', hreopen⟩ := exists_ofFile hjoined next
  exact ⟨_, hreopen, rfl⟩

section

open StoreHistory (constant)

/-- A record that has no newline behind it. -/
def unended : String :=
  String.ofList (Record.delete "x").print

lemma replay_unended : (Replay.ofText unended.toList).malformed = 0 ∧
    (Replay.ofText unended.toList).records = 1 := by
  constructor
  · decide +kernel
  · decide +kernel

lemma isLong_unended (live : ℕ) :
    (⟨{ bytes := unended.toUTF8 }, (Replay.ofText unended.toList).records⟩ : Log).isLong live =
      false := by
  rw [replay_unended.2]
  rfl

lemma not_endsWell_unended : ¬LogFile.EndsWell { bytes := unended.toUTF8 } := by
  intro hends
  rcases hends unended (Text.fromUTF8?_toUTF8 unended) with hsettled | hmalformed | hlong
  · have hbrace : '{' ∈ Text.unfinished unended.toList := by decide
    exact absurd (hsettled '{' hbrace).2 (by decide)
  · rw [replay_unended.1] at hmalformed
    exact absurd hmalformed (Nat.lt_irrefl 0)
  · rw [isLong_unended] at hlong
    cases hlong

/-- A document is added, and is not there when the store is opened again. -/
theorem unended_loses_next : ∃ s s' l, ofFile { bytes := unended.toUTF8 } constant = .ok s ∧
    s.change (.add [⟨"a", "one", .empty⟩]) = .ok s' ∧ s'.log = some l ∧
    s'.documents.names = ["a"] ∧ ∀ next, ∃ t,
      ofFile { bytes := l.file.bytes } next = .ok t ∧ t.documents.names = [] := by
  have hreplay : Replay.ofBytes unended.toUTF8 = .ok (.ofText unended.toList) := by
    rw [Replay.ofBytes, Text.fromUTF8?_toUTF8]
  set r := Replay.ofText unended.toList with hr
  set s : Store := ⟨constant, r.documents, some ⟨{ bytes := unended.toUTF8 }, r.records⟩⟩
  have hopen : ofFile { bytes := unended.toUTF8 } constant = .ok s := by
    rw [ofFile, Log.ofFile_of_replay _ hreplay, if_neg]
    · rfl
    · rw [replay_unended.1, isLong_unended]
      decide
  set added : Record := .put ⟨⟨"a", "one", .empty⟩, [.zero]⟩
  have hc : Change.IsFinite s.embedder (.add [⟨"a", "one", .empty⟩]) :=
    StoreHistory.constant_isFinite _
  have hshort : ∀ l, s.log = some l →
      (l.append [added]).isLong (s.commit [added]).documents.size = false := by
    rintro l ⟨⟩
    rw [Log.isLong, Log.append, replay_unended.2]
    rfl
  have hrun : s.change (.add [⟨"a", "one", .empty⟩]) = .ok (s.commit [added]) := rfl
  obtain ⟨text, l, htext, hlog, hlost⟩ :=
    change_joined hopen not_endsWell_unended hc hrun rfl hshort
  obtain rfl : text = unended := Option.some.inj (htext.symm.trans (Text.fromUTF8?_toUTF8 unended))
  refine ⟨s, s.commit [added], l, hopen, hrun, hlog, by decide +kernel, fun next => ?_⟩
  obtain ⟨t, ht, hdocuments⟩ := hlost next
  refine ⟨t, ht, ?_⟩
  rw [hdocuments]
  decide +kernel

end

end Store

end CodeSearch
