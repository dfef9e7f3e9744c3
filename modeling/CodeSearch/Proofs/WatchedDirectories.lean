import CodeSearch.Proofs.ReportedChanges
import CodeSearch.Proofs.SteadyRules
import CodeSearch.Proofs.WatchRuns

/-!
# Watched directories

The watcher begins with a watch on every directory that a scan lists, and goes on by what these
report, whichever events that `DiskEvent.Notifies` allows are delivered. New directories are found
in this way at whatever depth they come into being. A directory that was there without a watch
reports nothing: if a change of the rules makes the scan list it, it stays without one. So after a
change all listed directories are watched exactly if those of them that had been there were watched
before.
-/
namespace CodeSearch

/-- A change as it is taken in well: the workspace stays where it is, rules are not moved along
with a directory, and they are steady afterwards. -/
structure IsOrderly (s : Scanner) (d : Disk) (c : DiskChange) (d' : Disk) : Prop where
  spares : c.Spares s.root
  movesNoRules : c.MovesNoRules s.root d
  steady : HasSteadyRules s d'

/-- No directory that was there comes to be listed. -/
def ListsNoneAnew (s : Scanner) (d d' : Disk) : Prop :=
  ∀ l ∈ s.directories d', d.isDirectory l = true → l ∈ s.directories d

namespace Watcher

variable {w : Watcher} {d d' : Disk} {root l z : Location} {e : DiskEvent} {c : DiskChange}
  {ps : List (DiskEvent × Location)} {es : List DiskEvent}

/-! ## What one report does -/

def scan (w : Watcher) : Scanner :=
  scannerOf w.excluded w.root

/-- The rules that the watcher holds are rules of the workspace that hold on a disk. -/
def HoldsRulesOf (w : Watcher) (d : Disk) : Prop :=
  ∀ f ∈ w.rules.files, f ∈ (IgnoreFiles.ofDisk d).versioned ∧ w.root <+: f.directory

lemma mem_watch {ls : List Location} : z ∈ (w.watch ls).watched ↔ z ∈ w.watched ∨ z ∈ ls := by
  rw [watch, List.mem_append, List.mem_filter]
  by_cases hz : z ∈ w.watched <;> simp [hz]

lemma mem_forget : z ∈ (w.forget l).watched ↔ z ∈ w.watched ∧ ¬ l <+: z := by
  simp [forget, ← List.isPrefixOf_iff_prefix]

lemma mem_watchNew : z ∈ (w.watchNew d l).1.watched ↔ z ∈ w.watched ∨
    w.isRelevantDirectory l = true ∧ z ∈ (scannerOf w.excluded l).directories d ∧
      w.rules.isIgnored z true = false := by
  unfold watchNew
  cases hrelevant : w.isRelevantDirectory l <;> simp [mem_watch]

lemma same_watchNew (w : Watcher) (d : Disk) (l : Location) :
    (w.watchNew d l).1.scan = w.scan ∧ (w.watchNew d l).1.rules = w.rules := by
  unfold watchNew
  split
  · exact ⟨rfl, rfl⟩
  · exact ⟨rfl, rfl⟩

inductive Heeds (w : Watcher) (d : Disk) (e : DiskEvent) (l : Location) : Watcher → Prop where
  | rules (hname : l.getLast? = some gitignoreName) : Heeds w d e l (w.reloadRules d)
  | arrival (hname : l.getLast? ≠ some gitignoreName) (hmakes : makes e = true)
      (hl : d.isDirectory l = true) : Heeds w d e l ((w.forget l).watchNew d l).1
  | departure (hname : l.getLast? ≠ some gitignoreName)
      (hother : ¬ (makes e = true ∧ d.isDirectory l = true)) : Heeds w d e l (w.forget l)
  | nothing (hname : l.getLast? ≠ some gitignoreName)
      (hother : ¬ (makes e = true ∧ d.isDirectory l = true)) : Heeds w d e l w

lemma heeds_handleAt (w : Watcher) (d : Disk) (e : DiskEvent) (l : Location) :
    Heeds w d e l (w.handleAt d e l).1 := by
  unfold handleAt
  split
  · next hname => exact .rules hname
  · next hname =>
    split
    · next hmakes =>
      rw [Bool.and_eq_true] at hmakes
      exact .arrival hname hmakes.1 hmakes.2
    · next hother =>
      rw [Bool.and_eq_true] at hother
      split
      · exact .departure hname hother
      · exact .nothing hname hother

variable {w' : Watcher}

lemma Heeds.scan_eq (h : Heeds w d e l w') : w'.scan = w.scan := by
  cases h with
  | rules => rfl
  | arrival => exact (same_watchNew _ _ _).1
  | departure => rfl
  | nothing => rfl

lemma Heeds.rules_eq (h : Heeds w d e l w') :
    w'.rules = if l.getLast? = some gitignoreName then w.scan.ignoreRules d else w.rules := by
  cases h with
  | rules hname => rw [if_pos hname]; rfl
  | arrival hname => rw [if_neg hname]; exact (same_watchNew _ _ _).2
  | departure hname => rw [if_neg hname]; rfl
  | nothing hname => rw [if_neg hname]

/-- Elsewhere nothing changes. -/
lemma Heeds.frame (h : Heeds w d e l w') (hz : z ∈ w.watched) (hl : ¬ l <+: z) :
    z ∈ w'.watched := by
  cases h with
  | rules => exact hz
  | arrival => exact mem_watchNew.mpr (.inl (mem_forget.mpr ⟨hz, hl⟩))
  | departure => exact mem_forget.mpr ⟨hz, hl⟩
  | nothing => exact hz

/-- New watches are on new directories and below. -/
lemma Heeds.origin (h : Heeds w d e l w') (hz : z ∈ w'.watched) :
    z ∈ w.watched ∨ makes e = true ∧ d.isDirectory l = true ∧ l <+: z := by
  cases h with
  | rules => exact .inl hz
  | arrival _ hmakes hl =>
    rcases mem_watchNew.mp hz with hold | ⟨-, hnew, -⟩
    · exact .inl (mem_forget.mp hold).1
    · exact .inr ⟨hmakes, hl, Scanner.root_of_listed hnew⟩
  | departure => exact .inl (mem_forget.mp hz).1
  | nothing => exact .inl hz

lemma isRelevantDirectory_of_listed (hsteady : HasSteadyRules w.scan d) (hd : d.IsTree)
    (hrules : w.HoldsRulesOf d) (hl : l ∈ w.scan.directories d) (hne : l ≠ w.root) :
    w.isRelevantDirectory l = true := by
  have hroot : w.root <+: l := Scanner.root_of_listed hl
  have hlength : w.root.length < l.length := Scanner.length_lt_of_listed hl hne
  have hnames : isUnscanned (l.drop w.root.length) = false := by
    refine isUnscanned_eq_false_iff.mpr fun name hname => ?_
    have hconcat : (l ++ [""]).dropLast = l := List.dropLast_concat
    rw [← hconcat] at hname
    obtain ⟨k, hk, hkl, rfl⟩ := mem_steps_iff.mp hname
    rw [List.length_append, List.length_singleton] at hkl
    rw [List.take_append_of_le_length (by omega)]
    have hstep := List.take_prefix k l
    have htake : (l.take k).length = k := by rw [List.length_take]; omega
    have hunder : w.root <+: l.take k :=
      List.prefix_of_prefix_length_le hroot hstep (by omega)
    have hlisted : l.take k ∈ w.scan.directories d :=
      Scanner.listed_of_prefix hd hl hunder hstep
    have hne' : l.take k ≠ w.root := fun heq => by
      rw [heq] at htake
      omega
    refine ⟨hsteady.isHidden_eq_false hlisted hne', ?_⟩
    exact (Scanner.admits_iff.mp (Scanner.admits_of_listed hl hk (by omega))).2.2.2
  have hexcluded : (scannerOf w.excluded w.root).excludes l = false := by
    have hadmits := Scanner.admits_of_listed hl hlength le_rfl
    rw [List.take_length] at hadmits
    exact (Scanner.admits_iff.mp hadmits).2.2.1
  have hignored := hsteady.isIgnored_eq_false hd hl hrules
  simp [isRelevantDirectory, List.isPrefixOf_iff_prefix, hroot, hnames, hexcluded, hignored]

/-- With a new directory all listed ones below it are watched. -/
lemma Heeds.covers (h : Heeds w d e l w') (hsteady : HasSteadyRules w.scan d) (hd : d.IsTree)
    (hrules : w.HoldsRulesOf d) (hz : z ∈ w.scan.directories d) (hlz : l <+: z)
    (hmakes : makes e = true) (hroot : w.root <+: l) (hne : l ≠ w.root) : z ∈ w'.watched := by
  have hlisted : l ∈ w.scan.directories d := Scanner.listed_of_prefix hd hz hroot hlz
  have hl := Scanner.isDirectory_of_listed hlisted
  cases h with
  | rules hname =>
    have hhidden := hsteady.isHidden_eq_false hlisted hne
    rw [List.getLastD_eq_getLast?, hname] at hhidden
    exact absurd hhidden (by decide)
  | departure _ hother => exact absurd ⟨hmakes, hl⟩ hother
  | nothing _ hother => exact absurd ⟨hmakes, hl⟩ hother
  | arrival =>
    refine mem_watchNew.mpr (.inr ⟨?_, Scanner.listed_from hz hroot hlz, ?_⟩)
    · exact isRelevantDirectory_of_listed (w := w.forget l) hsteady hd hrules hlisted hne
    · exact hsteady.isIgnored_eq_false hd hz hrules

/-! ## What a change does -/

/-- Take in a report of a location. -/
def heed (d : Disk) (w : Watcher) (p : DiskEvent × Location) : Watcher :=
  (w.handleAt d p.1 p.2).1

lemma heeds_heed (w : Watcher) (d : Disk) (p : DiskEvent × Location) :
    Heeds w d p.1 p.2 (heed d w p) :=
  heeds_handleAt w d p.1 p.2

/-- Events one location at a time. -/
def reports (es : List DiskEvent) : List (DiskEvent × Location) :=
  es.flatMap fun e => e.locations.map (e, ·)

lemma mem_reports {p : DiskEvent × Location} :
    p ∈ reports es ↔ p.1 ∈ es ∧ p.2 ∈ p.1.locations := by
  obtain ⟨e, l⟩ := p
  simp only [reports, List.mem_flatMap, List.mem_map, Prod.mk.injEq]
  constructor
  · rintro ⟨_, he, _, hl, rfl, rfl⟩
    exact ⟨he, hl⟩
  · rintro ⟨he, hl⟩
    exact ⟨e, he, l, hl, rfl, rfl⟩

lemma report_of_mem_reports {watched : List Location} {p : DiskEvent × Location}
    (hes : DiskEvent.Notifies watched d c es) (hp : p ∈ reports es) :
    DiskEvent.Report watched d c p.1 p.2 :=
  hes.sound p.1 (mem_reports.mp hp).1 p.2 (mem_reports.mp hp).2

lemma exists_mem_reports {watched : List Location} (hes : DiskEvent.Notifies watched d c es)
    (h : DiskEvent.Report watched d c e l) : ∃ p ∈ reports es, p.2 = l := by
  obtain ⟨e', he', hl⟩ := hes.complete h
  exact ⟨(e', l), mem_reports.mpr ⟨he', hl⟩, rfl⟩

lemma fst_handle (w : Watcher) (d : Disk) (e : DiskEvent) :
    (w.handle d e).1 = (e.locations.map (e, ·)).foldl (heed d) w := by
  unfold handle
  generalize ([] : List String) = files
  generalize e.locations = ls
  induction ls generalizing w files with
  | nil => rfl
  | cons l ls ih => exact ih _ _

def takeIn (d : Disk) (w : Watcher) (es : List DiskEvent) : Watcher :=
  (reports es).foldl (heed d) w

lemma foldl_fst_handle (w : Watcher) (d : Disk) (es : List DiskEvent) :
    es.foldl (fun w e => (w.handle d e).1) w = w.takeIn d es := by
  induction es generalizing w with
  | nil => rfl
  | cons e es ih => rw [List.foldl_cons, ih, fst_handle, takeIn, takeIn, reports, reports,
      List.flatMap_cons, List.foldl_append]

lemma scan_foldl (w : Watcher) : (ps.foldl (heed d) w).scan = w.scan := by
  induction ps generalizing w with
  | nil => rfl
  | cons p ps ih => rw [List.foldl_cons, ih, (heeds_heed w d p).scan_eq]

/-- The rules are those from before, or have been read again. -/
lemma rules_foldl (d : Disk) (ps : List (DiskEvent × Location)) (w : Watcher) :
    (∃ p ∈ ps, p.2.getLast? = some gitignoreName) ∧
        (ps.foldl (heed d) w).rules = w.scan.ignoreRules d ∨
      (ps.foldl (heed d) w).rules = w.rules ∧
        ∀ p ∈ ps, p.2.getLast? ≠ some gitignoreName := by
  induction ps generalizing w with
  | nil => exact .inr ⟨rfl, by simp⟩
  | cons p ps ih =>
    have hhere := (heeds_heed w d p).rules_eq
    rw [List.foldl_cons]
    rcases ih (heed d w p) with ⟨⟨q, hq, hname⟩, hread⟩ | ⟨hkept, hothers⟩
    · rw [(heeds_heed w d p).scan_eq] at hread
      exact .inl ⟨⟨q, List.mem_cons_of_mem p hq, hname⟩, hread⟩
    · rw [hkept, hhere]
      split
      · next hname => exact .inl ⟨⟨p, List.mem_cons_self, hname⟩, rfl⟩
      · next hname => exact .inr ⟨rfl, List.forall_mem_cons.mpr ⟨hname, hothers⟩⟩

lemma frame_foldl (hz : z ∈ w.watched) (hps : ∀ p ∈ ps, ¬ p.2 <+: z) :
    z ∈ (ps.foldl (heed d) w).watched := by
  induction ps generalizing w with
  | nil => exact hz
  | cons p ps ih =>
    rw [List.forall_mem_cons] at hps
    exact ih ((heeds_heed w d p).frame hz hps.1) hps.2

lemma origin_foldl (hz : z ∈ (ps.foldl (heed d) w).watched) :
    z ∈ w.watched ∨ ∃ p ∈ ps, makes p.1 = true ∧ d.isDirectory p.2 = true ∧ p.2 <+: z := by
  induction ps generalizing w with
  | nil => exact .inl hz
  | cons p ps ih =>
    rcases ih hz with hhere | ⟨q, hq, h⟩
    · rcases (heeds_heed w d p).origin hhere with hold | hnew
      · exact .inl hold
      · exact .inr ⟨p, List.mem_cons_self, hnew⟩
    · exact .inr ⟨q, List.mem_cons_of_mem p hq, h⟩

/-- Reports of a workspace: a directory is reported as something new below the root. -/
def AreOrderly (root : Location) (d : Disk) (ps : List (DiskEvent × Location)) : Prop :=
  ∀ p ∈ ps, root <+: p.2 ∧ (d.isDirectory p.2 = true → makes p.1 = true ∧ p.2 ≠ root)

/-- A listed directory is watched after some reports if it was before or one is about a directory
on the way to it. The rules hold all the time, since those that are read are the current ones. -/
lemma covers_foldl (hsteady : HasSteadyRules w.scan d) (hd : d.IsTree) (hrules : w.HoldsRulesOf d)
    (hps : AreOrderly w.root d ps) (hz : z ∈ w.scan.directories d)
    (hreach : z ∈ w.watched ∨ ∃ p ∈ ps, p.2 <+: z) : z ∈ (ps.foldl (heed d) w).watched := by
  induction ps generalizing w with
  | nil => exact hreach.resolve_right (by simp)
  | cons p ps ih =>
    have hheeds := heeds_heed w d p
    have hscan := hheeds.scan_eq
    have hroot : (heed d w p).root = w.root := congrArg Scanner.root hscan
    unfold AreOrderly at hps
    rw [List.forall_mem_cons] at hps
    obtain ⟨⟨hunder, hmakes⟩, hothers⟩ := hps
    have hrules' : (heed d w p).HoldsRulesOf d := by
      unfold HoldsRulesOf
      rw [hroot, hheeds.rules_eq]
      split
      · intro f hf
        obtain ⟨hversioned, hreaches⟩ := Scanner.mem_ignoreRules_iff.mp hf
        exact ⟨hversioned, (Scanner.reaches_iff.mp hreaches).1⟩
      · exact hrules
    refine ih (hscan ▸ hsteady) hrules' (hroot ▸ hothers) (hscan ▸ hz) ?_
    by_cases hpz : p.2 <+: z
    · have hdirectory := hd.isDirectory_of_directory hpz (Scanner.isDirectory_of_listed hz)
      obtain ⟨hnew, hne⟩ := hmakes hdirectory
      exact .inl (hheeds.covers hsteady hd hrules hz hpz hnew hunder hne)
    · rcases hreach with hold | ⟨q, hq, hqz⟩
      · exact .inl (hheeds.frame hold hpz)
      · rcases List.mem_cons.mp hq with rfl | hq
        · exact absurd hqz hpz
        · exact .inr ⟨q, hq, hqz⟩

/-- What the watcher knows of a disk whose events it has all taken in. -/
structure Covers (w : Watcher) (d : Disk) : Prop where
  tree : d.IsTree
  there : d.isDirectory w.root = true
  under : ∀ z ∈ w.watched, w.root <+: z
  all : ∀ l ∈ w.scan.directories d, l ∈ w.watched
  rules : w.HoldsRulesOf d
  seen : ∀ f ∈ w.rules.files, f.directory ∈ w.watched

lemma covers_ofRoot {excluded : List String} (hd : d.IsTree) (hroot : d.isDirectory root = true) :
    (ofRoot d root excluded).Covers d := by
  refine ⟨hd, hroot, fun z => Scanner.root_of_listed, fun l => id, fun f hf => ?_, fun f hf => ?_⟩
  · obtain ⟨hversioned, hreaches⟩ := Scanner.mem_ignoreRules_iff.mp hf
    exact ⟨hversioned, (Scanner.reaches_iff.mp hreaches).1⟩
  · obtain ⟨hversioned, hreaches⟩ := Scanner.mem_ignoreRules_iff.mp hf
    exact Scanner.mem_directories_iff.mpr ⟨(IgnoreFile.mem_collect_iff.mp hversioned).1, hreaches⟩

/-- A directory that is there without a watch stays without one, unless something is moved onto
it. -/
lemma notMem_takeIn (hd : d.IsTree) (hc : d.change c = .ok d')
    (hes : DiskEvent.Notifies w.watched d c es) (hthere : d.isDirectory l = true)
    (hl : l ∉ w.watched) (honto : ¬ c.MovesOnto l) : l ∉ (w.takeIn d' es).watched := by
  intro hmem
  rcases origin_foldl hmem with hold | ⟨p, hp, hmakes, hdirectory, hpl⟩
  · exact hl hold
  · obtain ⟨rfl, honto'⟩ :=
      (report_of_mem_reports hes hp).announces hd hc hmakes hdirectory hpl hthere
    exact honto honto'

section Step

variable (h : w.Covers d) (hc : d.change c = .ok d') (ho : IsOrderly w.scan d c d')
  (hes : DiskEvent.Notifies w.watched d c es)
include h hc ho hes

lemma Covers.areOrderly : AreOrderly w.root d' (reports es) := by
  intro p hp
  have hreport := report_of_mem_reports hes hp
  exact ⟨hreport.under h.under, hreport.makes h.under h.tree hc ho.spares⟩

/-- If rules that are held no longer hold, they are read again, and no directory is reported. -/
lemma Covers.reports_of_gone (hgone : ¬ w.HoldsRulesOf d') :
    (∃ p ∈ reports es, p.2.getLast? = some gitignoreName) ∧
      ∀ p ∈ reports es, d'.isDirectory p.2 = false := by
  obtain ⟨f, hf, hnot⟩ : ∃ f ∈ w.rules.files, f ∉ (IgnoreFiles.ofDisk d').versioned := by
    by_contra hall
    push Not at hall
    exact hgone fun f hf => ⟨hall f hf, (h.rules f hf).2⟩
  obtain ⟨hversioned, hunder⟩ := h.rules f hf
  obtain ⟨⟨e, hreport⟩, hplain⟩ := DiskEvent.rules_reported h.tree hc ho.spares ho.movesNoRules
    hunder (h.seen f hf) hversioned hnot
  obtain ⟨p, hp, hplace⟩ := exists_mem_reports hes hreport
  exact ⟨⟨p, hp, by simp [hplace]⟩, fun q hq => hplain q.1 q.2 (report_of_mem_reports hes hq)⟩

/-- A listed directory was watched, or something on the way to it is reported, as long as the
listed directories that were there were watched. -/
lemma Covers.reached (hold : ∀ l ∈ w.scan.directories d', d.isDirectory l = true →
      l ∈ w.watched ∨ c.MovesOnto l) (hz : z ∈ w.scan.directories d') :
    z ∈ w.watched ∨ ∃ p ∈ reports es, p.2 <+: z := by
  have hreported {y : Location} (hyz : y <+: z) (hroot : ¬ y <+: w.root)
      (haround : d.isDirectory y.dropLast = true) (honly : ∀ m, c.MovesOnto m → m = y)
      (hseen : y.dropLast ∈ w.watched → ∃ e, DiskEvent.Report w.watched d c e y) :
      ∃ p ∈ reports es, p.2 <+: z := by
    have hunder := Scanner.under_dropLast (Scanner.root_of_listed hz) hyz hroot
    have hlisted := Scanner.listed_of_prefix (h.tree.change hc) hz hunder
      ((List.dropLast_prefix y).trans hyz)
    rcases hold _ hlisted haround with hwatched | honto
    · obtain ⟨e, he⟩ := hseen hwatched
      obtain ⟨p, hp, rfl⟩ := exists_mem_reports hes he
      exact ⟨p, hp, hyz⟩
    · have hsame := congrArg List.length (honly _ honto)
      have hpos : 0 < y.length := List.length_pos_of_ne_nil fun hnil =>
        hroot (hnil ▸ List.nil_prefix)
      rw [List.length_dropLast] at hsame
      omega
  cases hthere : d.isDirectory z with
  | true =>
    refine (hold z hz hthere).imp_right fun honto => ?_
    cases c with
    | move s t =>
      obtain ⟨hne, rfl⟩ := honto
      have hmoves := (h.tree.moves hc).resolve_left fun hsame => hne hsame.1
      have hnil : t ≠ [] := by
        rintro rfl
        exact ho.spares.2 List.nil_prefix
      exact hreported List.prefix_rfl ho.spares.2 hmoves.around (fun m hm => hm.2.symm)
        fun hseen => ⟨_, .arrived hne [] (DiskEvent.sees_iff.mpr ⟨hnil, hseen⟩)⟩
    | write => cases honto
    | date => cases honto
    | makeDirectory => cases honto
    | remove => cases honto
  | false =>
    obtain ⟨y, hyz, hroot, haround, honly, hseen⟩ := DiskEvent.exists_report_of_new h.tree hc
      ho.spares h.there (Scanner.isDirectory_of_listed hz) hthere
    exact .inr (hreported hyz hroot haround honly hseen)

/-- After a change all listed directories are watched exactly if those that were there had been
watched, or something has been moved onto them. -/
lemma Covers.all_iff : (∀ l ∈ w.scan.directories d', l ∈ (w.takeIn d' es).watched) ↔
    ∀ l ∈ w.scan.directories d', d.isDirectory l = true → l ∈ w.watched ∨ c.MovesOnto l := by
  constructor
  · intro hall l hl hthere
    by_contra hnot
    rw [not_or] at hnot
    exact notMem_takeIn h.tree hc hes hthere hnot.1 hnot.2 (hall l hl)
  · intro hold z hz
    have hreach := h.reached hc ho hes hold hz
    by_cases hrules : w.HoldsRulesOf d'
    · exact covers_foldl ho.steady (h.tree.change hc) hrules (h.areOrderly hc ho hes) hz
        hreach
    · have hplain := (h.reports_of_gone hc ho hes hrules).2
      have hapart : ∀ p ∈ reports es, ¬ p.2 <+: z := by
        intro p hp hpz
        have hdirectory := (h.tree.change hc).isDirectory_of_directory hpz
          (Scanner.isDirectory_of_listed hz)
        rw [hplain p hp] at hdirectory
        cases hdirectory
      refine frame_foldl (hreach.resolve_right ?_) hapart
      rintro ⟨p, hp, hpz⟩
      exact hapart p hp hpz

/-- What the watcher knows it knows after the change, if all listed directories are watched. -/
lemma Covers.takeIn (hall : ∀ l ∈ w.scan.directories d', l ∈ (w.takeIn d' es).watched) :
    (w.takeIn d' es).Covers d' := by
  have hscan : (w.takeIn d' es).scan = w.scan := scan_foldl w
  have hroot : (w.takeIn d' es).root = w.root := congrArg Scanner.root hscan
  have hrules : ∀ f ∈ (w.takeIn d' es).rules.files, f ∈ (IgnoreFiles.ofDisk d').versioned ∧
      w.root <+: f.directory ∧ f.directory ∈ (w.takeIn d' es).watched := by
    intro f hf
    rcases rules_foldl d' (reports es) w with ⟨-, hread⟩ | ⟨hkept, hnames⟩
    · rw [Watcher.takeIn, hread] at hf
      obtain ⟨hversioned, hreaches⟩ := Scanner.mem_ignoreRules_iff.mp hf
      refine ⟨hversioned, (Scanner.reaches_iff.mp hreaches).1, hall _ ?_⟩
      exact Scanner.mem_directories_iff.mpr
        ⟨(IgnoreFile.mem_collect_iff.mp hversioned).1, hreaches⟩
    · rw [Watcher.takeIn, hkept] at hf
      have hholds : w.HoldsRulesOf d' := by
        by_contra hgone
        obtain ⟨p, hp, hname⟩ := (h.reports_of_gone hc ho hes hgone).1
        exact hnames p hp hname
      obtain ⟨hversioned, hunder⟩ := hholds f hf
      refine ⟨hversioned, hunder, frame_foldl (h.seen f hf) fun p hp hpf => ?_⟩
      have hdirectory := (h.tree.change hc).isDirectory_of_directory hpf
        (IgnoreFiles.mem_versioned_iff.mp hversioned).1
      have hmakes := ((h.areOrderly hc ho hes p hp).2 hdirectory).1
      exact (report_of_mem_reports hes hp).apart h.tree hc hmakes hdirectory (h.rules f hf).1 hpf
  refine ⟨h.tree.change hc, ?_, fun z hz => ?_, ?_, fun f hf => ?_, fun f hf => (hrules f hf).2.2⟩
  · rw [hroot]
    exact ho.spares.isDirectory h.tree hc h.there
  · rw [hroot]
    rcases origin_foldl hz with hold | ⟨p, hp, -, -, hpz⟩
    · exact h.under z hold
    · exact (h.areOrderly hc ho hes p hp).1.trans hpz
  · rw [hscan]
    exact hall
  · rw [hroot]
    exact ⟨(hrules f hf).1, (hrules f hf).2.1⟩

end Step

end Watcher

namespace WatchLoop

variable {x : WatchLoop} {d d' : Disk} {root : Location} {excluded : List String} {quiet now : ℕ}
  {c : DiskChange}

lemma takeIn_eq (hready : x.isReady = true) (hevents : x.events = []) (es : List DiskEvent) :
    (x.takeIn d now es).isReady = true ∧ (x.takeIn d now es).events = [] ∧
      (x.takeIn d now es).watcher = x.watcher.takeIn d es := by
  rw [takeIn, ← Watcher.foldl_fst_handle]
  induction es generalizing x with
  | nil => exact ⟨hready, hevents, rfl⟩
  | cons e es ih =>
    have hopen := (isReady_iff.mp hready).1
    have htaken : (x.act d now (.deliver e)).act d now .takeEvent =
        handle d now { x with events := [] } e := by
      have hdelivered : x.act d now (.deliver e) = { x with events := [e] } := by
        rw [act, if_neg (by simp [hopen]), hevents]
        rfl
      rw [hdelivered]
      exact if_pos hready
    rw [List.foldl_cons, List.foldl_cons, htaken]
    exact ih hready rfl

lemma act_eq (hevents : x.events = []) {a : WatchAction} (ha : ∀ e, a ≠ .deliver e) :
    (x.act d now a).events = [] ∧ (x.act d now a).watcher = x.watcher := by
  cases a with
  | deliver e => exact absurd rfl (ha e)
  | call command =>
    rw [act]
    split <;> exact ⟨hevents, rfl⟩
  | takeEvent =>
    rw [act, hevents]
    exact ⟨hevents, rfl⟩
  | takeCommand =>
    rw [act]
    split
    · split
      · next command _ _ _ =>
        cases command with
        | shutdown => exact ⟨hevents, rfl⟩
        | flush caller =>
          rw [obey, handleAll]
          simp only [hevents, List.foldl_nil]
          split <;> exact ⟨rfl, rfl⟩
      · exact ⟨hevents, rfl⟩
    · exact ⟨hevents, rfl⟩
  | fire =>
    rw [act]
    split
    · exact ⟨hevents, rfl⟩
    · split <;> exact ⟨hevents, rfl⟩
  | complete =>
    rw [act]
    split <;> exact ⟨hevents, rfl⟩

/-- The loop watches a workspace while its disk changes. Everything that is delivered of a change is
taken in before the next one. -/
inductive Follows (root : Location) (excluded : List String) (quiet : ℕ) :
    Disk → WatchLoop → Prop where
  | start {d : Disk} (hd : d.IsTree) (hroot : d.isDirectory root = true) :
      Follows root excluded quiet d (.ofRoot d root excluded quiet)
  | act {d : Disk} {x : WatchLoop} (h : Follows root excluded quiet d x) (now : ℕ)
      (a : WatchAction) (ha : ∀ e, a ≠ .deliver e) :
      Follows root excluded quiet d (x.act d now a)
  | change {d d' : Disk} {x : WatchLoop} {c : DiskChange} {es : List DiskEvent}
      (h : Follows root excluded quiet d x) (hready : x.isReady = true)
      (hc : d.change c = .ok d') (hes : DiskEvent.Notifies x.watcher.watched d c es)
      (ho : IsOrderly (Watcher.scannerOf excluded root) d c d')
      (hnone : ListsNoneAnew (Watcher.scannerOf excluded root) d d') (now : ℕ) :
      Follows root excluded quiet d' (x.takeIn d' now es)

structure IsAware (root : Location) (excluded : List String) (d : Disk) (x : WatchLoop) : Prop where
  events : x.events = []
  scan : x.watcher.scan = Watcher.scannerOf excluded root
  covers : x.watcher.Covers d

lemma IsAware.root_eq (h : x.IsAware root excluded d) : x.watcher.root = root :=
  congrArg Scanner.root h.scan

lemma Follows.isAware (h : Follows root excluded quiet d x) : x.IsAware root excluded d := by
  induction h with
  | start hd hroot => exact ⟨rfl, rfl, Watcher.covers_ofRoot hd hroot⟩
  | act h now a ha ih =>
    obtain ⟨hevents, hwatcher⟩ := act_eq ih.events ha
    exact ⟨hevents, hwatcher ▸ ih.scan, hwatcher ▸ ih.covers⟩
  | @change d d' x c es h hready hc hes ho hnone now ih =>
    obtain ⟨hevents, hwatcher⟩ : (x.takeIn d' now es).events = [] ∧
        (x.takeIn d' now es).watcher = x.watcher.takeIn d' es :=
      (takeIn_eq hready ih.events es).2
    have ho' : IsOrderly x.watcher.scan d c d' := ih.scan ▸ ho
    have hscan : (x.watcher.takeIn d' es).scan = x.watcher.scan := Watcher.scan_foldl _
    refine ⟨hevents, by rw [hwatcher, hscan, ih.scan], ?_⟩
    rw [hwatcher]
    refine ih.covers.takeIn hc ho' hes ((ih.covers.all_iff hc ho' hes).mpr fun l hl hthere => ?_)
    rw [ih.scan] at hl
    exact .inl (ih.covers.all l (ih.scan ▸ hnone l hl hthere))

/-- As long as no directory that is there comes to be listed, all events that have been taken in
leave a watch on each listed directory, and so on the directory of each listed file. After a change
that makes a scan list a directory that was there, this is so exactly if the directory was
watched, whatever is delivered of the change. -/
theorem watches_cover_listed_directories (h : Follows root excluded quiet d x) :
    x.events = [] ∧
    (∀ l ∈ (Watcher.scannerOf excluded root).directories d, l ∈ x.watcher.watched) ∧
    (∀ l ∈ (Watcher.scannerOf excluded root).files d, l.dropLast ∈ x.watcher.watched) ∧
    ∀ c d' es now, x.isReady = true → d.change c = .ok d' →
      IsOrderly (Watcher.scannerOf excluded root) d c d' →
      DiskEvent.Notifies x.watcher.watched d c es →
      ((∀ l ∈ (Watcher.scannerOf excluded root).directories d',
          l ∈ (x.takeIn d' now es).watcher.watched) ↔
        ∀ l ∈ (Watcher.scannerOf excluded root).directories d', d.isDirectory l = true →
          l ∈ x.watcher.watched ∨ c.MovesOnto l) := by
  have haware := h.isAware
  have hroot := haware.root_eq
  have hall (l : Location) (hl : l ∈ (Watcher.scannerOf excluded root).directories d) :
      l ∈ x.watcher.watched := haware.covers.all l (haware.scan ▸ hl)
  refine ⟨haware.events, hall, fun l hl => hall _ ?_, fun c d' es now hready hc ho hes => ?_⟩
  · exact Scanner.listed_of_file haware.covers.tree (hroot ▸ haware.covers.there) hl
  · rw [(takeIn_eq hready haware.events es).2.2, ← haware.scan]
    exact haware.covers.all_iff hc (haware.scan ▸ ho) hes

/-- A workspace with a directory that its rules ignore. -/
def ruledDisk : Disk where
  entries := [(["work"], .directory), (["work", "gen"], .directory),
    (["work", ".gitignore"], .file "gen/\n".toUTF8 1)]

/-- Two directories have been made in it. -/
def grownDisk : Disk where
  entries := ruledDisk.entries ++
    [(["work", "src"], .directory), (["work", "src", "lib"], .directory)]

/-- The rules have been taken out. -/
def openedDisk : Disk where
  entries := [(["work"], .directory), (["work", "gen"], .directory),
    (["work", ".gitignore"], .file "".toUTF8 2), (["work", "src"], .directory),
    (["work", "src", "lib"], .directory)]

/-- The loop from its start on until the two directories have been made. -/
def grownLoop : WatchLoop :=
  (ofRoot ruledDisk ["work"] [] 60).observe ruledDisk grownDisk 1
    (.makeDirectory ["work", "src", "lib"])

def openRules : DiskChange :=
  .write ["work", ".gitignore"] "".toUTF8 2

lemma ofDisk_ruledDisk : IgnoreFiles.ofDisk ruledDisk = Watcher.rawIgnoreFiles ruledDisk :=
  Watcher.ofDisk_eq_raw (by decide) (by decide) (by decide)

lemma ofDisk_grownDisk : IgnoreFiles.ofDisk grownDisk = Watcher.rawIgnoreFiles grownDisk :=
  Watcher.ofDisk_eq_raw (by decide) (by decide) (by decide)

lemma ofDisk_openedDisk : IgnoreFiles.ofDisk openedDisk = Watcher.rawIgnoreFiles openedDisk :=
  Watcher.ofDisk_eq_raw (by decide) (by decide) (by decide)

lemma change_ruledDisk :
    ruledDisk.change (.makeDirectory ["work", "src", "lib"]) = .ok grownDisk := rfl

lemma change_grownDisk : grownDisk.change openRules = .ok openedDisk := rfl

/-- Rules that take nothing back and do not ignore their own directory are steady. -/
lemma hasSteadyRules_of_plain {s : Scanner}
    (hkept : ∀ l ∈ d.directories, (IgnoreFiles.ofDisk d).verdict? l true ≠ some .kept)
    (hown : ∀ f ∈ (IgnoreFiles.ofDisk d).versioned, f.judge [] true ≠ some .ignored) :
    HasSteadyRules s d := by
  refine ⟨fun l hl _ hverdict => ?_, fun f hf hjudge => absurd hjudge (hown f hf)⟩
  exact absurd hverdict (hkept l (Scanner.mem_directories_iff.mp hl).1)

lemma isTree_ruledDisk : ruledDisk.IsTree :=
  Disk.isTree_of_entries (by decide)

lemma follows_grownLoop : Follows ["work"] [] 60 grownDisk grownLoop := by
  refine .change (.start isTree_ruledDisk (by decide)) (by decide) change_ruledDisk
    (DiskEvent.notifies_ofChange _ _ _) ?_ ?_ 1
  · refine ⟨trivial, nofun, hasSteadyRules_of_plain ?_ ?_⟩
    · rw [ofDisk_grownDisk]
      decide +kernel
    · rw [ofDisk_grownDisk]
      decide +kernel
  · intro l hl hthere
    have hbefore : ∀ l ∈ grownDisk.directories, ruledDisk.isDirectory l = true →
        (Watcher.scannerOf [] ["work"]).reaches (Watcher.rawIgnoreFiles grownDisk) l true = true →
        (Watcher.scannerOf [] ["work"]).reaches (Watcher.rawIgnoreFiles ruledDisk) l true =
          true := by
      decide +kernel
    rw [Scanner.mem_directories_iff, ofDisk_grownDisk] at hl
    rw [Scanner.mem_directories_iff, ofDisk_ruledDisk]
    exact ⟨Disk.mem_directories_iff.mpr hthere, hbefore l hl.1 hthere hl.2⟩

lemma isOrderly_openRules :
    IsOrderly (Watcher.scannerOf [] ["work"]) grownDisk openRules openedDisk := by
  refine ⟨trivial, nofun, hasSteadyRules_of_plain ?_ ?_⟩
  · rw [ofDisk_openedDisk]
    decide +kernel
  · rw [ofDisk_openedDisk]
    decide +kernel

/-- The loop that has watched the workspace grow has no watch on the ignored directory. -/
lemma gen_notMem_grownLoop : ["work", "gen"] ∉ grownLoop.watcher.watched := by
  have hstart : ["work", "gen"] ∉ (ofRoot ruledDisk ["work"] [] 60).watcher.watched := by
    change _ ∉ (Watcher.scannerOf [] ["work"]).directories ruledDisk
    rw [Scanner.mem_directories_iff, ofDisk_ruledDisk]
    decide +kernel
  rw [grownLoop, observe, (takeIn_eq (by decide) rfl _).2.2]
  exact Watcher.notMem_takeIn isTree_ruledDisk change_ruledDisk
    (DiskEvent.notifies_ofChange _ _ _) (by decide) hstart nofun

lemma gen_listed_openedDisk :
    ["work", "gen"] ∈ (Watcher.scannerOf [] ["work"]).directories openedDisk := by
  rw [Scanner.mem_directories_iff, ofDisk_openedDisk]
  decide +kernel

lemma isReady_grownLoop : grownLoop.isReady = true :=
  (takeIn_eq (by decide) rfl _).1

/-- The new directories are watched, and once the rules are taken out not all listed ones are. -/
theorem grown_workspace_is_covered :
    Follows ["work"] [] 60 grownDisk grownLoop ∧
    ["work", "src", "lib"] ∈ (Watcher.scannerOf [] ["work"]).directories grownDisk ∧
    ["work", "src", "lib"] ∈ grownLoop.watcher.watched ∧
    grownLoop.isReady = true ∧ grownDisk.change openRules = .ok openedDisk ∧
    IsOrderly (Watcher.scannerOf [] ["work"]) grownDisk openRules openedDisk ∧
    ¬ ∀ l ∈ (Watcher.scannerOf [] ["work"]).directories openedDisk,
      l ∈ (grownLoop.observe grownDisk openedDisk 2 openRules).watcher.watched := by
  have hlisted :
      ["work", "src", "lib"] ∈ (Watcher.scannerOf [] ["work"]).directories grownDisk := by
    rw [Scanner.mem_directories_iff, ofDisk_grownDisk]
    decide +kernel
  obtain ⟨-, hall, -, hiff⟩ := watches_cover_listed_directories follows_grownLoop
  refine ⟨follows_grownLoop, hlisted, hall _ hlisted, isReady_grownLoop, change_grownDisk,
    isOrderly_openRules, fun hwatched => ?_⟩
  unfold observe at hwatched
  rw [hiff _ _ _ 2 isReady_grownLoop change_grownDisk isOrderly_openRules
    (DiskEvent.notifies_ofChange _ _ _)] at hwatched
  rcases hwatched _ gen_listed_openedDisk (by decide) with hold | honto
  · exact gen_notMem_grownLoop hold
  · exact honto

/-- A file has been written into the directory that the rules had ignored. -/
def filledDisk : Disk where
  entries := openedDisk.entries ++ [(["work", "gen", "a.go"], .file "x".toUTF8 3)]

lemma ofDisk_filledDisk : IgnoreFiles.ofDisk filledDisk = Watcher.rawIgnoreFiles filledDisk :=
  Watcher.ofDisk_eq_raw (by decide) (by decide) (by decide)

/-- The loop after the rules have been taken out. -/
def openedLoop : WatchLoop :=
  grownLoop.observe grownDisk openedDisk 2 openRules

/-- The rules are taken out, and the scan lists the directory that they had ignored. It has no
watch although all events have been taken in, so a file that is written into it is not noticed. -/
theorem opened_directory_is_not_watched :
    Follows ["work"] [] 60 grownDisk grownLoop ∧ grownLoop.isReady = true ∧
    grownDisk.change openRules = .ok openedDisk ∧
    openedLoop.isReady = true ∧ openedLoop.events = [] ∧
    ["work", "gen"] ∈ (Watcher.scannerOf [] ["work"]).directories openedDisk ∧
    ["work", "gen"] ∉ openedLoop.watcher.watched ∧
    openedDisk.change (.write ["work", "gen", "a.go"] "x".toUTF8 3) = .ok filledDisk ∧
    ["work", "gen", "a.go"] ∈ (Watcher.scannerOf [] ["work"]).files filledDisk ∧
    openedLoop.observe openedDisk filledDisk 3 (.write ["work", "gen", "a.go"] "x".toUTF8 3) =
      openedLoop := by
  have hevents : grownLoop.events = [] := (takeIn_eq (by decide) rfl _).2.1
  obtain ⟨hready, hnone, hwatcher⟩ : openedLoop.isReady = true ∧ openedLoop.events = [] ∧
      openedLoop.watcher = grownLoop.watcher.takeIn openedDisk _ :=
    takeIn_eq isReady_grownLoop hevents _
  have hunwatched : ["work", "gen"] ∉ openedLoop.watcher.watched := by
    rw [hwatcher]
    exact Watcher.notMem_takeIn (isTree_ruledDisk.change change_ruledDisk) change_grownDisk
      (DiskEvent.notifies_ofChange _ _ _) (by decide) gen_notMem_grownLoop id
  have hlisted : ["work", "gen", "a.go"] ∈ (Watcher.scannerOf [] ["work"]).files filledDisk := by
    rw [Scanner.mem_files_iff, ofDisk_filledDisk]
    decide +kernel
  have hsilent : DiskEvent.ofChange openedLoop.watcher.watched openedDisk
      (.write ["work", "gen", "a.go"] "x".toUTF8 3) = [] := by
    have hfirst : DiskEvent.firstMissing? openedDisk ["work", "gen", "a.go"] =
        some ["work", "gen", "a.go"] := by
      decide
    have hunseen : ¬ DiskEvent.sees openedLoop.watcher.watched ["work", "gen", "a.go"] = true :=
      fun hsees => hunwatched (DiskEvent.sees_iff.mp hsees).2
    rw [DiskEvent.ofChange, if_neg (by decide), DiskEvent.ofMaking, hfirst]
    exact if_neg hunseen
  refine ⟨follows_grownLoop, isReady_grownLoop, change_grownDisk, hready, hnone,
    gen_listed_openedDisk, hunwatched, rfl, hlisted, ?_⟩
  rw [observe, hsilent, takeIn, List.foldl_nil]

end WatchLoop

end CodeSearch
