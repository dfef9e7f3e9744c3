import CodeSearch.Proofs.TornAppends

/-!
# Logs stay bounded

The writer of a log counts its records beside the file. The count is always that of the lines
that hold something, and it is small or at most twice that of the documents: a log that has
become too long is written anew at once. Where that fails, the log is left too long until
something is written behind it again, or until it is compacted or opened.
-/
namespace CodeSearch

namespace Text

/-- The number of lines that hold more than blanks. -/
def filledLines (cs : List Char) : ℕ :=
  (lines cs).countP fun line => !allBlank line

end Text

namespace Replay

lemma counts_step (s : Replay) (line : List Char) :
    (s.step line).records + (s.step line).malformed =
      s.records + s.malformed + if Text.allBlank line then 0 else 1 := by
  unfold step
  split
  · rfl
  · split
    · exact Nat.add_right_comm _ _ _
    · rfl

lemma counts_ofText (text : List Char) :
    (ofText text).records + (ofText text).malformed = Text.filledLines text := by
  have hfoldl (lines : List (List Char)) (s : Replay) :
      (lines.foldl step s).records + (lines.foldl step s).malformed =
        s.records + s.malformed + lines.countP fun line => !Text.allBlank line := by
    induction lines generalizing s with
    | nil => rfl
    | cons line lines ih =>
      rw [List.foldl_cons, ih, counts_step, List.countP_cons]
      cases Text.allBlank line <;> simp [Nat.add_assoc, Nat.add_comm 1]
  rw [ofText, hfoldl]
  exact Nat.zero_add _

end Replay

namespace Log

variable {l l' : Log} {documents : Catalog StoredDocument} {records : List Record}

/-- The count beside the file is that of the lines in it that hold something. -/
def IsCounted (l : Log) : Prop :=
  ∃ text, String.fromUTF8? l.file.bytes = some text ∧ l.records = Text.filledLines text.toList

/-- A log has few records, or at most two for each document. -/
def IsBounded (l : Log) (live : ℕ) : Prop :=
  l.records < leastRecords ∨ l.records ≤ live * 2

/-- Some records make the log too long, and it cannot be written anew. -/
structure FailsToTidy (l : Log) (records : List Record) (documents : Catalog StoredDocument) :
    Prop where
  writes : records ≠ []
  long : (l.append records).isLong documents.size = true
  refused : ∃ e, (l.append records).renew documents = .error e

lemma isBounded_iff {live : ℕ} : l.IsBounded live ↔ l.isLong live = false := by
  rw [IsBounded, isLong, Bool.and_eq_false_iff, decide_eq_false_iff_not, decide_eq_false_iff_not,
    Nat.not_le, Nat.not_lt]

lemma isBounded_renew (h : l.renew documents = .ok l') : l'.IsBounded documents.size := by
  unfold renew at h
  split at h
  · cases h
  · obtain rfl := Except.ok.inj h
    exact .inr (Nat.le_mul_of_pos_right _ Nat.two_pos)

/-- Tidying leaves a log within its bounds, unless it cannot be written anew. -/
lemma tidy_cases (l : Log) (documents : Catalog StoredDocument) :
    (l.tidy documents).IsBounded documents.size ∨
      (l.isLong documents.size = true ∧ (∃ e, l.renew documents = .error e) ∧
        l.tidy documents = l) := by
  unfold tidy
  split
  · next hlong =>
    split
    · next hrenew => exact .inl (isBounded_renew hrenew)
    · next e hrenew => exact .inr ⟨hlong, ⟨e, hrenew⟩, rfl⟩
  · next hshort => exact .inl (isBounded_iff.mpr (Bool.eq_false_iff.mpr hshort))

lemma FailsToTidy.blocked (h : l.FailsToTidy records documents) : l.file.blocked = true := by
  obtain ⟨e, he⟩ := h.refused
  rcases (l.append records).renew_eq documents with ⟨l', hrenew, -⟩ | ⟨-, hblocked⟩
  · cases hrenew.symm.trans he
  · exact hblocked

lemma tidy_of_blocked (hblocked : l.file.blocked = true) (documents : Catalog StoredDocument) :
    l.tidy documents = l := by
  simp only [tidy, renew, hblocked, if_true, ite_self]

lemma append_nil (l : Log) : l.append [] = l := by
  simp [append, encode]

namespace Tracks

lemma isCounted (h : l.Tracks documents) : l.IsCounted := by
  obtain ⟨text, hbytes, -, htext, -⟩ := h
  refine ⟨text, by rw [hbytes, Text.fromUTF8?_toUTF8], ?_⟩
  rw [← Replay.counts_ofText, htext]
  rfl

/-- A log that is opened again is within its bounds. -/
lemma ofFile (h : l.Tracks documents) :
    (∃ l', Log.ofFile l.file = .ok (documents, l') ∧ l'.Tracks documents ∧
      l'.IsBounded documents.size) ∨ ∃ e, Log.ofFile l.file = .error e := by
  have hopen : Log.ofFile l.file =
      if l.isLong documents.size then (l.renew documents).map fun l' => (documents, l')
      else .ok (documents, l) := by
    simpa using ofFile_of_replay l.file h.replay
  rw [hopen]
  split
  · cases hrenew : l.renew documents with
    | ok l' => exact .inl ⟨l', rfl, h.renew hrenew, isBounded_renew hrenew⟩
    | error e => exact .inr ⟨e, rfl⟩
  · next hshort => exact .inl ⟨l, rfl, h, isBounded_iff.mpr (Bool.eq_false_iff.mpr hshort)⟩

end Tracks

end Log

namespace Store

variable {s s' : Store} {l : Log} {c : Change}

lemma commit_nil (hlog : s.log = some l) (htidy : l.tidy s.documents = l) : s.commit [] = s := by
  rw [commit, hlog, Option.map_some, Log.append_nil, List.foldl_nil, htidy, ← hlog]

/-- A change leaves the log within its bounds, unless the log cannot be written anew or there
is nothing to write. -/
lemma isBounded_of_change (hlog : s.log = some l) (hrun : s.change c = .ok s') :
    ∃ l', s'.log = some l' ∧ (l'.IsBounded s'.documents.size ∨
      l.FailsToTidy (s.written c) s'.documents ∨ (s.written c = [] ∧ s' = s)) := by
  rcases change_cases hrun with rfl | ⟨hnone, rfl⟩ | ⟨-, l₀, l', -, hrenew, rfl⟩
  · refine ⟨(l.append (s.written c)).tidy (s.commit (s.written c)).documents, ?_, ?_⟩
    · rw [commit, hlog]
      rfl
    rcases Log.tidy_cases (l.append (s.written c)) (s.commit (s.written c)).documents with
      hbounded | ⟨hlong, hrefused, htidy⟩
    · exact .inl hbounded
    · by_cases hnone : s.written c = []
      · refine .inr (.inr ⟨hnone, ?_⟩)
        rw [hnone, Log.append_nil] at htidy
        rw [hnone]
        exact commit_nil hlog htidy
      · exact .inr (.inl ⟨hnone, hlong, hrefused⟩)
  · exact ⟨l, hlog, .inr (.inr ⟨hnone, rfl⟩)⟩
  · exact ⟨l', rfl, .inl (Log.isBounded_renew hrenew)⟩

lemma isBounded_of_compact (hlog : s.log = some l) (hrun : s.compact = .ok s') :
    ∃ l', s'.log = some l' ∧ l'.IsBounded s'.documents.size := by
  rw [compact, hlog] at hrun
  obtain ⟨l', hrenew, heq⟩ := Except.bind_eq_ok.mp hrun
  obtain rfl := Except.pure_eq_ok.mp heq
  exact ⟨l', rfl, Log.isBounded_renew hrenew⟩

end Store

namespace StoreHistory

def Action.change? : Action → Option Store.Change
  | add documents => some (.add documents)
  | delete filter => some (.delete filter)
  | compact => some .compact
  | reopen _ | block _ => none

/-- The action is a call of the store. -/
def Action.IsCall : Action → Prop
  | block _ => False
  | _ => True

/-- The action has done what it was asked for. -/
def Answer.IsSuccess : Answer → Prop
  | done | deleted _ => True
  | failed _ | notOpen => False

namespace Handle

variable {h : Handle} {s : Store} {a : Action} {c : Store.Change}

/-- Let actions happen one after the other. -/
def run (h : Handle) (actions : List Action) : Handle :=
  actions.foldl (fun h a => (h.step a).2) h

def written (h : Handle) (a : Action) : List Record :=
  match h, a.change? with
  | opened s, some c => s.written c
  | _, _ => []

def StoresFinite (h : Handle) (a : Action) : Prop :=
  ∀ s c, h = opened s → a.change? = some c → c.IsFinite s.embedder

def RunsFinite (h : Handle) : List Action → Prop
  | [] => True
  | a :: actions => h.StoresFinite a ∧ (h.step a).2.RunsFinite actions

/-- The action succeeds, but the log has become too long with what is written and cannot be
written anew. -/
def FailsToTidy (h : Handle) (a : Action) : Prop :=
  (h.step a).1.IsSuccess ∧ ∃ s l, h = opened s ∧ s.log = some l ∧
    l.FailsToTidy (h.written a) ((h.written a).foldl Record.apply s.documents)

/-- The log of an open store is within its bounds. -/
def IsBounded (h : Handle) : Prop :=
  ∀ s l, h = opened s → s.log = some l → l.IsBounded s.documents.size

/-- An action after which the log is within its bounds, whatever it was before. -/
def Tidies (h : Handle) (a : Action) : Prop :=
  (h.written a ≠ [] ∧ h.file.blocked = false) ∨ a = .compact ∨ ∃ e, a = .reopen e

/-- An action of a run has left the log too long, and the log is still the same. -/
inductive Overdue (h : Handle) : List Action → Prop
  | fails {actions : List Action} {a : Action} (hfails : (h.run actions).FailsToTidy a) :
      Overdue h (actions ++ [a])
  | stays {actions : List Action} {a : Action} (hoverdue : Overdue h actions)
      (hbytes : (h.run (actions ++ [a])).file.bytes = (h.run actions).file.bytes) :
      Overdue h (actions ++ [a])

/-- What a successful call leaves: a store with a log that is counted, that is within its
bounds unless this call could not write it anew or had nothing to write, and that replays to
the collection of the store. Only the records that are written change the collection, in the
file and in memory. -/
structure Leaves (h : Handle) (a : Action) (s' : Store) (l' : Log) : Prop where
  counted : l'.IsCounted
  bounded : l'.IsBounded s'.documents.size ∨ h.FailsToTidy a ∨
    (h.written a = [] ∧ h = opened s')
  tidied : h.Tidies a → l'.IsBounded s'.documents.size
  replay : Replay.ofBytes l'.file.bytes = .ok ⟨s'.documents, l'.records, 0⟩
  collection : ∃ r, Replay.ofBytes h.file.bytes = .ok r ∧
    s'.documents = (h.written a).foldl Record.apply r.documents
  memory : ∀ s, h = opened s → s'.documents = (h.written a).foldl Record.apply s.documents

/-- The log keeps in step with the store, or with what the store had when it could not be
opened again. -/
inductive IsKept : Handle → Prop
  | opened {s : Store} (hkept : s.IsKept) : IsKept (opened s)
  | closed {l : Log} {documents : Catalog StoredDocument} (htracks : l.Tracks documents) :
      IsKept (closed l.file)

lemma run_concat (h : Handle) (actions : List Action) (a : Action) :
    h.run (actions ++ [a]) = ((h.run actions).step a).2 := by
  rw [run, List.foldl_concat]
  rfl

lemma file_opened {l : Log} (hlog : s.log = some l) : (opened s).file = l.file := by
  rw [file, hlog]
  rfl

lemma runsFinite_append {actions more : List Action} : h.RunsFinite (actions ++ more) ↔
    h.RunsFinite actions ∧ (h.run actions).RunsFinite more := by
  induction actions generalizing h with
  | nil => exact (iff_of_eq (true_and _)).symm
  | cons a actions ih =>
    rw [List.cons_append, RunsFinite, RunsFinite, ih, and_assoc]
    rfl

/-- A change of an open store succeeds as it does on the store, or leaves it as it is. -/
lemma step_change (s : Store) (hc : a.change? = some c) :
    (∃ s', s.change c = .ok s' ∧ ((opened s).step a).1.IsSuccess ∧
      ((opened s).step a).2 = opened s') ∨
      ∃ e, (opened s).step a = (.failed e, opened s) := by
  cases a with
  | add documents =>
    obtain rfl := Option.some.inj hc
    cases hadd : s.add documents with
    | ok s' => exact .inl ⟨s', hadd, by rw [step, hadd]; trivial, by rw [step, hadd]; rfl⟩
    | error e => exact .inr ⟨e, by rw [step, hadd]; rfl⟩
  | delete filter =>
    obtain rfl := Option.some.inj hc
    cases hdelete : s.delete filter with
    | ok r =>
      exact .inl ⟨r.2, by rw [Store.change, hdelete]; rfl, by rw [step, hdelete]; trivial,
        by rw [step, hdelete]; rfl⟩
    | error e => exact .inr ⟨e, by rw [step, hdelete]; rfl⟩
  | compact =>
    obtain rfl := Option.some.inj hc
    cases hcompact : s.compact with
    | ok s' =>
      exact .inl ⟨s', hcompact, by rw [step, hcompact]; trivial, by rw [step, hcompact]; rfl⟩
    | error e => exact .inr ⟨e, by rw [step, hcompact]; rfl⟩
  | reopen _ => cases hc
  | block _ => cases hc

lemma step_closed (f : LogFile) (hc : a.change? = some c) :
    (closed f).step a = (.notOpen, closed f) := by
  cases a with
  | add _ | delete _ | compact => rfl
  | reopen _ | block _ => cases hc

namespace IsKept

lemma exists_tracks (hkept : h.IsKept) : ∃ l documents, h.file = l.file ∧
    Log.Tracks l documents ∧ ∀ s, h = .opened s → s.documents = documents := by
  cases hkept with
  | opened hkept =>
    obtain ⟨l, hlog, htracks⟩ := hkept
    refine ⟨l, _, file_opened hlog, htracks, ?_⟩
    rintro _ ⟨⟩
    rfl
  | closed htracks => exact ⟨_, _, rfl, htracks, by rintro _ ⟨⟩⟩

/-- Opening gives what the log replays to and a log within its bounds, or leaves a closed
store. -/
lemma step_reopen (hkept : h.IsKept) (e : Embedder) :
    (∃ l' documents, Log.Tracks l' documents ∧ h.Leaves (.reopen e) ⟨e, documents, some l'⟩ l' ∧
      h.step (.reopen e) = (.done, .opened ⟨e, documents, some l'⟩)) ∨
    ∃ fault, h.step (.reopen e) = (.failed fault, .closed h.file) := by
  obtain ⟨l, documents, hfile, htracks, hmemory⟩ := hkept.exists_tracks
  rcases htracks.ofFile with ⟨l', hopen, htracks', hbounded⟩ | ⟨fault, hopen⟩
  · have hreplay : Replay.ofBytes h.file.bytes = .ok ⟨documents, l.records, 0⟩ := by
      rw [hfile]
      exact htracks.replay
    have hnone : h.written (.reopen e) = [] := by cases h <;> rfl
    have hleaves : h.Leaves (.reopen e) ⟨e, documents, some l'⟩ l' := by
      refine ⟨htracks'.isCounted, .inl hbounded, fun _ => hbounded, htracks'.replay,
        ⟨_, hreplay, ?_⟩, fun s hs => ?_⟩
      · rw [hnone]
        rfl
      · rw [hnone]
        exact (hmemory s hs).symm
    refine .inl ⟨l', documents, htracks', hleaves, ?_⟩
    rw [step, Store.ofFile, hfile, hopen]
    rfl
  · refine .inr ⟨fault, ?_⟩
    rw [step, Store.ofFile, hfile, hopen]
    rfl

lemma block (hkept : h.IsKept) (blocked : Bool) : (h.block blocked).IsKept := by
  cases hkept with
  | opened hkept => exact .opened (hkept.withBlocked blocked)
  | @closed l _ htracks =>
    exact .closed (l := { l with file := { l.file with blocked } }) htracks

lemma step (hkept : h.IsKept) (ha : h.StoresFinite a) : (h.step a).2.IsKept := by
  cases hc : a.change? with
  | some c =>
    cases hkept with
    | @opened s hkept =>
      rcases step_change s hc with ⟨s', hrun, -, hstep⟩ | ⟨e, hstep⟩
      · rw [hstep]
        exact .opened (hkept.change (ha s c rfl hc) hrun).1
      · rw [hstep]
        exact .opened hkept
    | closed htracks =>
      rw [step_closed _ hc]
      exact .closed htracks
  | none =>
    cases a with
    | add _ | delete _ | compact => cases hc
    | block blocked => exact hkept.block blocked
    | reopen e =>
      rcases hkept.step_reopen e with ⟨l', documents, htracks, -, hstep⟩ | ⟨e, hstep⟩
      · rw [hstep]
        exact .opened ⟨l', rfl, htracks⟩
      · obtain ⟨l, documents, hfile, htracks, -⟩ := hkept.exists_tracks
        rw [hstep, hfile]
        exact .closed htracks

lemma run (hkept : h.IsKept) {actions : List Action} (hfinite : h.RunsFinite actions) :
    (h.run actions).IsKept := by
  induction actions using List.reverseRecOn with
  | nil => exact hkept
  | append_singleton actions a ih =>
    obtain ⟨hfinite, ha, -⟩ := runsFinite_append.mp hfinite
    rw [run_concat]
    exact (ih hfinite).step ha

end IsKept

lemma FailsToTidy.blocked (hfails : h.FailsToTidy a) : h.file.blocked = true := by
  obtain ⟨-, s, l, rfl, hlog, hfails⟩ := hfails
  rw [file_opened hlog]
  exact hfails.blocked

lemma written_opened (s : Store) (hc : a.change? = some c) :
    (opened s).written a = s.written c := by
  simp only [written, hc]

lemma leaves_change {s' : Store} (hkept : s.IsKept) (ha : (opened s).StoresFinite a)
    (hc : a.change? = some c) (hrun : s.change c = .ok s')
    (hsuccess : ((opened s).step a).1.IsSuccess) :
    ∃ l', s'.log = some l' ∧ (opened s).Leaves a s' l' := by
  obtain ⟨l', hlog', htracks'⟩ := (hkept.change (ha s c rfl hc) hrun).1
  obtain ⟨l, hlog, htracks⟩ := hkept
  have hwritten := written_opened s hc
  have hdocuments := Store.documents_of_change hrun
  have hreplay : Replay.ofBytes (opened s).file.bytes = .ok ⟨s.documents, l.records, 0⟩ := by
    rw [file_opened hlog]
    exact htracks.replay
  obtain ⟨l₀, hlog₀, hbounded⟩ := Store.isBounded_of_change hlog hrun
  obtain rfl := Option.some.inj (hlog'.symm.trans hlog₀)
  have hcases : l'.IsBounded s'.documents.size ∨ (opened s).FailsToTidy a ∨
      ((opened s).written a = [] ∧ opened s = opened s') := by
    refine hbounded.imp_right (Or.imp (fun hfails => ?_) fun ⟨hnone, heq⟩ => ?_)
    · exact ⟨hsuccess, s, l, rfl, hlog, by rwa [hwritten, ← hdocuments]⟩
    · exact ⟨hwritten.trans hnone, by rw [heq]⟩
  refine ⟨l', hlog', htracks'.isCounted, hcases, ?_, htracks'.replay, ⟨_, hreplay, ?_⟩, ?_⟩
  · rintro (⟨hsome, hfree⟩ | rfl | ⟨e, rfl⟩)
    · refine hcases.resolve_right (not_or.mpr ⟨fun hfails => ?_, fun hidle => hsome hidle.1⟩)
      rw [hfails.blocked] at hfree
      cases hfree
    · obtain rfl := Option.some.inj hc
      obtain ⟨l₁, hlog₁, hcompact⟩ := Store.isBounded_of_compact hlog hrun
      obtain rfl := Option.some.inj (hlog'.symm.trans hlog₁)
      exact hcompact
    · cases hc
  · rw [hwritten]
    exact hdocuments
  · rintro _ ⟨⟩
    rw [hwritten]
    exact hdocuments

lemma IsKept.leaves (hkept : h.IsKept) (ha : h.StoresFinite a) (hcall : a.IsCall)
    (hsuccess : (h.step a).1.IsSuccess) :
    ∃ s' l', (h.step a).2 = .opened s' ∧ s'.log = some l' ∧ h.Leaves a s' l' := by
  cases hc : a.change? with
  | some c =>
    cases hkept with
    | @opened s hkept =>
      rcases step_change s hc with ⟨s', hrun, -, hstep⟩ | ⟨e, hstep⟩
      · obtain ⟨l', hlog', hleaves⟩ := leaves_change hkept ha hc hrun hsuccess
        exact ⟨s', l', hstep, hlog', hleaves⟩
      · rw [hstep] at hsuccess
        cases hsuccess
    | closed _ =>
      rw [step_closed _ hc] at hsuccess
      cases hsuccess
  | none =>
    cases a with
    | add _ | delete _ | compact => cases hc
    | block _ => cases hcall
    | reopen e =>
      rcases hkept.step_reopen e with ⟨l', documents, -, hleaves, hstep⟩ | ⟨fault, hstep⟩
      · exact ⟨_, l', by rw [hstep], rfl, hleaves⟩
      · rw [hstep] at hsuccess
        cases hsuccess

/-- A call that does not succeed leaves everything as it is, except that a store which could
not be opened again is closed. -/
lemma step_of_not_success (hfails : ¬(h.step a).1.IsSuccess) :
    (h.step a).2 = h ∨ (h.step a).2 = closed h.file := by
  cases hc : a.change? with
  | some c =>
    left
    cases h with
    | opened s =>
      rcases step_change s hc with ⟨s', -, hsuccess, -⟩ | ⟨e, hstep⟩
      · exact absurd hsuccess hfails
      · rw [hstep]
    | closed f => rw [step_closed f hc]
  | none =>
    cases a with
    | add _ | delete _ | compact => cases hc
    | block _ => exact absurd trivial hfails
    | reopen e =>
      right
      cases hopen : Store.ofFile h.file e with
      | ok s =>
        rw [step, hopen] at hfails
        exact absurd trivial hfails
      | error fault =>
        rw [step, hopen]
        rfl

lemma bytes_block (h : Handle) (blocked : Bool) : (h.block blocked).file.bytes = h.file.bytes := by
  cases h with
  | closed f => rfl
  | opened s =>
    obtain ⟨e, documents, _ | l⟩ := s
    · rfl
    · rfl

lemma IsBounded.block (hbounded : h.IsBounded) (blocked : Bool) : (h.block blocked).IsBounded := by
  cases h with
  | closed f => exact fun s l hs => by cases hs
  | opened s =>
    rintro _ l' ⟨⟩ hlog
    obtain ⟨l, hl, rfl⟩ := Option.map_eq_some_iff.mp hlog
    exact hbounded s l rfl hl

/-- An action leaves the log within its bounds, or fails to, or does not touch it. -/
lemma IsKept.isBounded_step (hkept : h.IsKept) (ha : h.StoresFinite a) :
    (h.step a).2.IsBounded ∨ h.FailsToTidy a ∨
      ((h.step a).2.file.bytes = h.file.bytes ∧ (h.IsBounded → (h.step a).2.IsBounded)) := by
  by_cases hcall : a.IsCall
  · by_cases hsuccess : (h.step a).1.IsSuccess
    · obtain ⟨s', l', hstep, hlog, hleaves⟩ := hkept.leaves ha hcall hsuccess
      rcases hleaves.bounded with hbounded | hfails | ⟨-, hsame⟩
      · left
        rw [hstep]
        rintro _ l ⟨⟩ hl
        obtain rfl := Option.some.inj (hlog.symm.trans hl)
        exact hbounded
      · exact .inr (.inl hfails)
      · rw [hstep, ← hsame]
        exact .inr (.inr ⟨rfl, id⟩)
    · rcases step_of_not_success hsuccess with hstep | hstep
      · rw [hstep]
        exact .inr (.inr ⟨rfl, id⟩)
      · left
        rw [hstep]
        rintro s l ⟨⟩
  · cases a with
    | block blocked => exact .inr (.inr ⟨h.bytes_block blocked, fun hb => hb.block blocked⟩)
    | add _ | delete _ | compact | reopen _ => exact absurd trivial hcall

lemma IsKept.isBounded_run (hkept : h.IsKept) (hbounded : h.IsBounded) {actions : List Action}
    (hfinite : h.RunsFinite actions) : (h.run actions).IsBounded ∨ h.Overdue actions := by
  induction actions using List.reverseRecOn with
  | nil => exact .inl hbounded
  | append_singleton actions a ih =>
    obtain ⟨hfinite, ha, -⟩ := runsFinite_append.mp hfinite
    rw [run_concat]
    rcases (hkept.run hfinite).isBounded_step ha with hstep | hfails | ⟨hbytes, hstep⟩
    · exact .inl hstep
    · exact .inr (.fails hfails)
    · exact (ih hfinite).imp hstep fun hoverdue =>
        .stays hoverdue (by rw [run_concat, hbytes])

end Handle

open Handle in
/-- A store is opened where no log is yet, and finite embeddings are stored. After every call
that succeeds, the log has as many lines that hold something as are counted beside it, and it
is within its bounds, unless it could not be written anew after this call or an earlier one
and has been the same since. A call that writes records while nothing stands in the way, that
compacts or that opens the store again leaves it within its bounds. Only the records that are
written change the collection, in memory and in the file. -/
theorem counted_log_stays_bounded (embedder : Embedder) (blocked : Bool) :
    ∃ s, Store.ofFile ⟨.empty, blocked⟩ embedder = .ok s ∧
      ∀ actions a, (opened s).RunsFinite (actions ++ [a]) → a.IsCall →
        let h := (opened s).run actions
        ((h.step a).1.IsSuccess → ∃ s' l', (h.step a).2 = opened s' ∧ s'.log = some l' ∧
          h.Leaves a s' l' ∧
          (l'.IsBounded s'.documents.size ∨ (opened s).Overdue (actions ++ [a]))) ∧
        (¬(h.step a).1.IsSuccess → (h.step a).2 = h ∨ (h.step a).2 = closed h.file) := by
  refine ⟨_, ofFile_empty embedder blocked, fun actions a hfinite hcall => ?_⟩
  have hempty : IsKept (opened ⟨embedder, .empty, some ⟨⟨.empty, blocked⟩, 0⟩⟩) :=
    .opened ⟨_, rfl, (describes_empty blocked).tracks⟩
  have hbounded : Handle.IsBounded (opened ⟨embedder, .empty, some ⟨⟨.empty, blocked⟩, 0⟩⟩) := by
    rintro _ _ ⟨⟩ ⟨⟩
    exact .inl (Nat.zero_lt_succ _)
  obtain ⟨hbefore, ha, -⟩ := runsFinite_append.mp hfinite
  refine ⟨fun hsuccess => ?_, step_of_not_success⟩
  obtain ⟨s', l', hstep, hlog, hleaves⟩ := (hempty.run hbefore).leaves ha hcall hsuccess
  refine ⟨s', l', hstep, hlog, hleaves, ?_⟩
  refine (hempty.isBounded_run hbounded hfinite).imp_left fun hrun => ?_
  rw [run_concat] at hrun
  exact hrun s' l' hstep hlog

section

open Handle

/-- A store takes in a document, and its log is written anew. -/
theorem compacted_log_stays_bounded : ∃ s, Store.ofFile ⟨.empty, false⟩ constant = .ok s ∧
    (opened s).RunsFinite ([.add [⟨"a", "one", .empty⟩]] ++ [.compact]) ∧ Action.compact.IsCall ∧
    let h := (opened s).run [.add [⟨"a", "one", .empty⟩]]
    (h.step .compact).1.IsSuccess ∧ ∃ s' l', (h.step .compact).2 = opened s' ∧
      s'.log = some l' ∧ h.Leaves .compact s' l' ∧ l'.IsBounded s'.documents.size := by
  obtain ⟨s, hopen, hrun⟩ := counted_log_stays_bounded constant false
  obtain rfl : Store.empty = s := Except.ok.inj ((ofFile_empty constant false).symm.trans hopen)
  have hfinite : (opened .empty).RunsFinite ([.add [⟨"a", "one", .empty⟩]] ++ [.compact]) := by
    refine ⟨?_, ?_, trivial⟩
    · rintro s c ⟨⟩ ⟨⟩
      exact constant_isFinite _
    · rintro s c - ⟨⟩
      trivial
  obtain ⟨s', l', hstep, hlog, hleaves, -⟩ := (hrun _ _ hfinite trivial).1 trivial
  exact ⟨_, hopen, hfinite, trivial, trivial, s', l', hstep, hlog, hleaves,
    hleaves.tidied (.inr (.inl rfl))⟩

lemma add_replicate {s : Store} (hs : s.embedder = constant) (n : ℕ) :
    s.add (List.replicate (n + 1) ⟨"a", "one", .empty⟩) =
      .ok (s.commit (List.replicate (n + 1) (.put (Store.plain "a" "one")))) := by
  rcases s.add_cases (List.replicate (n + 1) ⟨"a", "one", .empty⟩) with
    ⟨hnil, -⟩ | ⟨vectors, hfits, hadd⟩ | ⟨-, hnot, -⟩
  · cases hnil
  · have hvectors : List.replicate (n + 1) [.zero] = vectors := by
      have hbatch := hfits.1
      rw [hs] at hbatch
      simpa [constant] using hbatch
    rw [hadd, ← hvectors, Store.embedded]
    simp [Store.plain]
  · refine absurd ⟨List.replicate (n + 1) [.zero], ?_, by simp, fun x hx => ?_⟩ hnot
    · rw [hs]
      simp [constant]
    · rw [hs, List.eq_of_mem_replicate hx]
      rfl

/-- A document that is put again and again is there once. -/
lemma size_foldl_put_replicate (d : StoredDocument) (n : ℕ) :
    ((List.replicate (n + 1) (Record.put d)).foldl Record.apply .empty).size = 1 := by
  have hagain : Record.apply (Catalog.empty.insert d.id d) (.put d) = Catalog.empty.insert d.id d :=
    Catalog.ext_get? fun name => by simp [Record.apply]
  have hfold : (List.replicate n (Record.put d)).foldl Record.apply
      (Catalog.empty.insert d.id d) = Catalog.empty.insert d.id d := by
    induction n with
    | zero => rfl
    | succ n ih => rw [List.replicate_succ, List.foldl_cons, hagain, ih]
  rw [List.replicate_succ, List.foldl_cons]
  change ((List.replicate n (Record.put d)).foldl Record.apply
    (Catalog.empty.insert d.id d)).size = 1
  rw [hfold]
  rfl

/-- One document is added over and over while no log can be written anew. Then one could be,
but a call that has nothing to write does not try to. -/
lemma run_replicate {n : ℕ} (hn : Log.leastRecords ≤ n + 1) :
    ∃ documents l, (opened .empty).run
        [.block true, .add (List.replicate (n + 1) ⟨"a", "one", .empty⟩), .block false] =
      opened ⟨constant, documents, some l⟩ ∧ l.file.blocked = false ∧
      ¬l.IsBounded documents.size := by
  set records := List.replicate (n + 1) (Record.put (Store.plain "a" "one"))
  set l : Log := (⟨⟨.empty, true⟩, 0⟩ : Log).append records
  have hadd := add_replicate (s := ⟨constant, .empty, some ⟨⟨.empty, true⟩, 0⟩⟩) rfl n
  have hcommit : Store.commit ⟨constant, .empty, some ⟨⟨.empty, true⟩, 0⟩⟩ records =
      ⟨constant, records.foldl Record.apply .empty, some l⟩ := by
    rw [Store.commit, Option.map_some, Log.tidy_of_blocked rfl]
  refine ⟨records.foldl Record.apply .empty, { l with file := { l.file with blocked := false } },
    ?_, rfl, ?_⟩
  · have hblock : (opened .empty).step (.block true) =
        (.done, opened ⟨constant, .empty, some ⟨⟨.empty, true⟩, 0⟩⟩) := rfl
    rw [run, List.foldl_cons, hblock, List.foldl_cons, step, hadd, hcommit]
    rfl
  · have hrecords : l.records = n + 1 := by simp [l, Log.append, records]
    have hleast : Log.leastRecords = 1024 := rfl
    rw [Log.IsBounded, size_foldl_put_replicate]
    change ¬(l.records < Log.leastRecords ∨ l.records ≤ 1 * 2)
    omega

/-- After a call that had nothing to write, the log has 1024 records of one document, although
nothing stands in its way. -/
theorem empty_add_leaves_log_long : ∃ s, Store.ofFile ⟨.empty, false⟩ constant = .ok s ∧
    let before := [.block true, .add (List.replicate 1024 ⟨"a", "one", .empty⟩), .block false]
    let h := (opened s).run before
    (opened s).RunsFinite (before ++ [.add []]) ∧ h.file.blocked = false ∧
      (h.step (.add [])).1.IsSuccess ∧ ¬h.FailsToTidy (.add []) ∧
      ∃ s' l', (h.step (.add [])).2 = opened s' ∧ s'.log = some l' ∧
        ¬l'.IsBounded s'.documents.size := by
  refine ⟨.empty, ofFile_empty constant false, ?_⟩
  obtain ⟨documents, l, hrun, hfree, hlong⟩ := run_replicate (n := 1023) (Nat.le_refl _)
  intro before h
  rw [runsFinite_append, show h = _ from hrun]
  refine ⟨⟨⟨?_, ?_, ?_, trivial⟩, ?_, trivial⟩, hfree, trivial, fun hfails => ?_, _, l, rfl, rfl,
    hlong⟩
  · rintro s c - ⟨⟩
  · rintro s c ⟨⟩ ⟨⟩
    exact constant_isFinite _
  · rintro s c - ⟨⟩
  · rw [show (opened .empty).run before = _ from hrun]
    rintro s c ⟨⟩ ⟨⟩
    exact constant_isFinite _
  · cases hfree.symm.trans hfails.blocked

end

end StoreHistory

end CodeSearch
