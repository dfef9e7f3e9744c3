import CodeSearch.Proofs.WatchRuns
import Mathlib.Data.List.Nodup

/-!
# A flush is a barrier

A caller who is told that the flush is done can rely on it: everything that the disk had
reported before the loop took the flush has been handled, and every file noted for it has
been handed on in a batch that is finished. The invariant follows a noted file from the
pending set through the batch to the finished ones, and the callers along with it.
-/
namespace CodeSearch

namespace WatchLoop

variable {x y start : WatchLoop} {m : Moment} {ms : List Moment} {hs : List Handling}
  {h : Handling} {file : String} {caller : Nat}

/-! ## Callers -/

/-- The callers whose batch is being handled. -/
def underway (x : WatchLoop) : List Nat :=
  (x.running.map (·.waiters)).getD []

/-- The callers that the loop knows of: those with an answer, those who wait for a batch, and
those whose flush has not been taken. -/
def known (x : WatchLoop) : List Nat :=
  x.answers.map (·.1) ++ (x.underway ++ (x.pending.waiters ++ callersOf x.commands))

lemma map_fst_answer (callers : List Nat) (a : FlushAnswer) :
    (x.answer callers a).answers.map (·.1) = x.answers.map (·.1) ++ callers := by
  simp [answer, Function.comp_def]

/-- No caller is lost, and none comes up twice. -/
lemma count_known_step (hstep : Step x m hs y) (caller : Nat) :
    y.known.count caller = x.known.count caller + (calls m).count caller := by
  cases hstep with
  | idle hcalls => simp [hcalls]
  | deliver e hm => simp [known, underway, calls, hm]
  | queue c hm =>
    simp only [known, underway, calls, hm, callersOf_append, List.count_append]
    omega
  | refuse c hm =>
    simp only [known, map_fst_answer, calls, hm, List.count_append]
    simp only [underway, answer]
    omega
  | handle e es w hs hm => simp [known, underway, calls, hm]
  | stop cs hm hready hcommands =>
    have hnone := (isReady_iff.mp hready).2
    have hcallers : callersOf x.commands = callersOf cs := by rw [hcommands, callersOf_shutdown]
    simp only [known, stop, map_fst_answer, calls, hm, hcallers, List.count_append]
    simp [underway, answer, hnone]
  | answer c cs w hs p hm hready hcommands hhs hp =>
    have hcallers : callersOf x.commands = c :: callersOf cs := by rw [hcommands, callersOf_flush]
    subst hp
    simp only [known, calls, hm, hcallers, List.map_append, List.count_append, List.count_cons,
      List.map_cons, List.map_nil, List.count_nil, PendingSet.waiters_recordAll]
    simp only [underway]
    omega
  | wait c cs w hs p hm hready hcommands hhs hp =>
    have hcallers : callersOf x.commands = c :: callersOf cs := by rw [hcommands, callersOf_flush]
    subst hp
    simp only [known, calls, hm, hcallers, List.count_append, List.count_cons, List.count_nil,
      PendingSet.waiters_recordAll]
    simp only [underway]
    omega
  | fire hm hready =>
    have hnone := (isReady_iff.mp hready).2
    simp [known, underway, calls, hm, hnone]
  | complete b hm hrunning =>
    simp only [known, map_fst_answer, calls, hm, List.count_append]
    simp [underway, answer, hrunning]
    omega

/-- What holds of the loop whenever something can happen to it. -/
structure Sane (x : WatchLoop) : Prop where
  /-- Callers wait for files, and these are due. -/
  due : x.pending.waiters ≠ [] → x.pending.files ≠ [] ∧ x.pending.urgent = true
  /-- Nobody waits for a stopped loop. -/
  stopped : x.isStopped = true → x.pending.waiters = [] ∧ x.commands = [] ∧ x.running = none

lemma files_recordAll_ne_nil {p : PendingSet} {files : List String} {now : Nat}
    (hp : p.files ≠ []) : (p.recordAll files now).files ≠ [] := by
  obtain ⟨file, hfile⟩ := List.exists_mem_of_ne_nil _ hp
  exact List.ne_nil_of_mem (PendingSet.mem_files_recordAll.mpr (.inr hfile))

lemma Sane.step (hx : x.Sane) (hstep : Step x m hs y) : y.Sane := by
  cases hstep with
  | idle => exact hx
  | deliver => exact ⟨hx.due, hx.stopped⟩
  | queue c hm hstopped => exact ⟨hx.due, fun h => absurd h (by simp [hstopped])⟩
  | refuse => exact ⟨hx.due, hx.stopped⟩
  | handle e es w hs hm hready =>
    refine ⟨fun hne => ?_, fun h => absurd h (by simp [(isReady_iff.mp hready).1])⟩
    rw [PendingSet.waiters_recordAll] at hne
    rw [PendingSet.urgent_recordAll]
    exact ⟨files_recordAll_ne_nil (hx.due hne).1, (hx.due hne).2⟩
  | stop cs hm hready hcommands =>
    exact ⟨fun hne => absurd rfl hne, fun _ => ⟨rfl, rfl, (isReady_iff.mp hready).2⟩⟩
  | answer caller cs w hs p hm hready hcommands hhs hp hempty =>
    refine ⟨fun hne => ?_, fun h => absurd h (by simp [(isReady_iff.mp hready).1])⟩
    subst hp
    rw [PendingSet.waiters_recordAll] at hne
    exact absurd hempty (files_recordAll_ne_nil (hx.due hne).1)
  | wait caller cs w hs p hm hready hcommands hhs hp hne =>
    exact ⟨fun _ => ⟨hne, rfl⟩, fun h => absurd h (by simp [(isReady_iff.mp hready).1])⟩
  | fire hm hready hne =>
    exact ⟨fun hne => absurd rfl hne, fun h => absurd h (by simp [(isReady_iff.mp hready).1])⟩
  | complete b hm hrunning =>
    refine ⟨hx.due, fun h => ?_⟩
    have hnone := (hx.stopped h).2.2
    rw [hrunning] at hnone
    cases hnone

/-! ## Files -/

/-- A file has been handed on in a batch that came after a handling and is finished. -/
def Passed (x : WatchLoop) (h : Handling) (file : String) : Prop :=
  ∃ batch ∈ x.finished.drop h.earlier, file ∈ batch

/-- A file is in the batch that is being handled. -/
def Runs (x : WatchLoop) (file : String) : Prop :=
  ∃ b, x.running = some b ∧ file ∈ b.files

structure Keeps (x : WatchLoop) (hs : List Handling) : Prop where
  earlier : ∀ h ∈ hs, h.earlier ≤ x.finished.length
  noted : ∀ h ∈ hs, ∀ file ∈ h.files, x.Passed h file ∨ x.Runs file ∨ file ∈ x.pending.files

lemma Keeps.congr {x : WatchLoop} {hs : List Handling} (hx : x.Keeps hs)
    (hfinished : y.finished = x.finished) (hrunning : y.running = x.running)
    (hpending : ∀ file ∈ x.pending.files, file ∈ y.pending.files) : y.Keeps hs := by
  refine ⟨?_, fun h hh file hfile => ?_⟩
  · rw [hfinished]
    exact hx.earlier
  · unfold Passed Runs
    rw [hfinished, hrunning]
    exact (hx.noted h hh file hfile).imp_right (Or.imp_right (hpending file))

lemma passed_append {batches : List (List String)} (hle : h.earlier ≤ x.finished.length)
    (hfinished : y.finished = x.finished ++ batches) (hpassed : x.Passed h file) :
    y.Passed h file := by
  obtain ⟨batch, hbatch, hfile⟩ := hpassed
  refine ⟨batch, ?_, hfile⟩
  rw [hfinished, List.drop_append_of_le_length hle]
  exact List.mem_append_left _ hbatch

lemma passed_last {batch : List String} (hle : h.earlier ≤ x.finished.length)
    (hfinished : y.finished = x.finished ++ [batch]) (hfile : file ∈ batch) : y.Passed h file := by
  refine ⟨batch, ?_, hfile⟩
  rw [hfinished, List.drop_append_of_le_length hle]
  exact List.mem_append_right _ (List.mem_singleton_self batch)

/-- Files that are noted wait, behind those that do so already. -/
lemma Keeps.note {es : List DiskEvent} {w : Watcher} {new : List Handling} {d : Disk} {now : Nat}
    (hx : x.Keeps hs) (hhs : handleEach d x.finished.length x.watcher es = (w, new))
    (hfinished : y.finished = x.finished) (hrunning : y.running = x.running)
    (hpending : y.pending.files = (x.pending.recordAll (new.flatMap (·.files)) now).files) :
    y.Keeps (hs ++ new) := by
  have hold : y.Keeps hs := hx.congr hfinished hrunning fun file hfile => by
    rw [hpending, PendingSet.mem_files_recordAll]
    exact .inr hfile
  have hnew : ∀ h ∈ new, h.earlier = x.finished.length := by
    have hearlier := earlier_of_mem_handleEach d x.finished.length x.watcher es
    rwa [hhs] at hearlier
  refine ⟨fun h hh => ?_, fun h hh file hfile => ?_⟩
  · rcases List.mem_append.mp hh with hh | hh
    · exact hold.earlier h hh
    · exact Nat.le_of_eq ((hnew h hh).trans (congrArg List.length hfinished.symm))
  · rcases List.mem_append.mp hh with hh | hh
    · exact hold.noted h hh file hfile
    · right; right
      rw [hpending, PendingSet.mem_files_recordAll]
      exact .inl (List.mem_flatMap.mpr ⟨h, hh, hfile⟩)

lemma Keeps.passed_or_waits (hx : x.Keeps hs) (hnone : x.running = none) (hh : h ∈ hs)
    (hfile : file ∈ h.files) : x.Passed h file ∨ file ∈ x.pending.files := by
  rcases hx.noted h hh file hfile with hpassed | ⟨b, hb, -⟩ | hwaits
  · exact .inl hpassed
  · rw [hnone] at hb
    cases hb
  · exact .inr hwaits

/-- A noted file waits, is in the batch that is being handled or has been handed on. -/
lemma Keeps.step {new : List Handling} (hx : x.Keeps hs) (hstep : Step x m new y) :
    y.Keeps (hs ++ new) := by
  cases hstep with
  | idle => simpa using hx
  | deliver | queue | refuse | stop =>
    rw [List.append_nil]
    exact hx.congr rfl rfl fun _ => id
  | handle e es w new hm hready hevents hhs => exact hx.note hhs rfl rfl rfl
  | answer caller cs w new p hm hready hcommands hhs hp hempty =>
    exact hx.note hhs rfl rfl (by rw [hp])
  | wait caller cs w new p hm hready hcommands hhs hp hne =>
    exact hx.note hhs rfl rfl (by rw [hp])
  | fire hm hready hne =>
    rw [List.append_nil]
    refine ⟨hx.earlier, fun h hh file hfile => ?_⟩
    rcases hx.passed_or_waits (isReady_iff.mp hready).2 hh hfile with hpassed | hwaits
    · exact .inl hpassed
    · exact .inr (.inl ⟨_, rfl, hwaits⟩)
  | complete b hm hrunning =>
    rw [List.append_nil]
    refine ⟨fun h hh => ?_, fun h hh file hfile => ?_⟩
    · have hle := hx.earlier h hh
      simp only [WatchLoop.answer, List.length_append]
      omega
    · rcases hx.noted h hh file hfile with hpassed | ⟨b', hb', hfile'⟩ | hwaits
      · exact .inl (passed_append (hx.earlier h hh) rfl hpassed)
      · rw [hrunning] at hb'
        cases hb'
        exact .inl (passed_last (hx.earlier h hh) rfl hfile')
      · exact .inr (.inr hwaits)

/-! ## Promises -/

/-- A flush of a caller has been taken, and of everything noted until then something holds. -/
def Promised (start : WatchLoop) (ms : List Moment) (caller : Nat)
    (P : Handling → String → Prop) : Prop :=
  ∃ before m after, ms = before ++ m :: after ∧ (start.run before).Takes m (.flush caller) ∧
    ∀ h ∈ start.handlings (before ++ [m]), ∀ file ∈ h.files, P h file

lemma Promised.mono {P Q : Handling → String → Prop} (hp : Promised start ms caller P)
    (hPQ : ∀ h ∈ start.handlings ms, ∀ file, P h file → Q h file) (m : Moment) :
    Promised start (ms ++ [m]) caller Q := by
  obtain ⟨before, m', after, rfl, htakes, hfiles⟩ := hp
  refine ⟨before, m', after ++ [m], by simp, htakes, fun h hh file hfile => ?_⟩
  refine hPQ h ?_ file (hfiles h hh file hfile)
  rw [List.append_cons, handlings_append]
  exact List.mem_append_left _ hh

structure Honest (start : WatchLoop) (ms : List Moment) (x : WatchLoop) : Prop where
  waiting : ∀ caller ∈ x.pending.waiters,
    Promised start ms caller fun h file => x.Passed h file ∨ file ∈ x.pending.files
  underway : ∀ b, x.running = some b → ∀ caller ∈ b.waiters,
    Promised start ms caller fun h file => x.Passed h file ∨ file ∈ b.files
  done : ∀ caller, (caller, .done) ∈ x.answers → Promised start ms caller x.Passed

/-- A moment that does nothing to the batches and gives no answer but that the loop is stopped
keeps all promises. -/
lemma Honest.congr (hx : Honest start ms x) (m : Moment) (answered : List Nat)
    (hfinished : y.finished = x.finished) (hrunning : y.running = x.running)
    (hwaiters : ∀ caller ∈ y.pending.waiters, caller ∈ x.pending.waiters)
    (hfiles : ∀ file ∈ x.pending.files, file ∈ y.pending.files)
    (hanswers : y.answers = x.answers ++ answered.map fun c => (c, .stopped)) :
    Honest start (ms ++ [m]) y := by
  have hpassed : y.Passed = x.Passed := by
    unfold Passed
    rw [hfinished]
  refine ⟨fun caller hc => ?_, fun b hb caller hc => ?_, fun caller hdone => ?_⟩
  · rw [hpassed]
    exact (hx.waiting caller (hwaiters caller hc)).mono
      (fun _ _ file => Or.imp_right (hfiles file)) m
  · rw [hpassed]
    exact (hx.underway b (hrunning ▸ hb) caller hc).mono (fun _ _ _ => id) m
  · have hold : (caller, .done) ∈ x.answers := by simpa [hanswers] using hdone
    rw [hpassed]
    exact (hx.done caller hold).mono (fun _ _ _ => id) m

lemma Honest.note {files : List String} {now : Nat} {p : PendingSet} (hx : Honest start ms x)
    (m : Moment) (w : Watcher) (es : List DiskEvent) (hp : x.pending.recordAll files now = p) :
    Honest start (ms ++ [m]) { x with watcher := w, pending := p, events := es } := by
  subst hp
  refine hx.congr m [] rfl rfl (fun caller hc => ?_) (fun file hfile => ?_) (by simp)
  · rwa [← PendingSet.waiters_recordAll]
  · exact PendingSet.mem_files_recordAll.mpr (.inr hfile)

lemma promised_of_takes {P : Handling → String → Prop}
    (htakes : (start.run ms).Takes m (.flush caller))
    (hfiles : ∀ h ∈ start.handlings (ms ++ [m]), ∀ file ∈ h.files, P h file) :
    Promised start (ms ++ [m]) caller P :=
  ⟨ms, m, [], rfl, htakes, hfiles⟩

lemma takes_of_commands {c : WatchCommand} {cs : List WatchCommand} (hm : m.action = .takeCommand)
    (hready : x.isReady) (hcommands : x.commands = c :: cs) : x.Takes m c :=
  ⟨hm, hready, by rw [hcommands]; rfl⟩

/-- Every moment keeps the promises that were made, and makes those of a flush that is taken. -/
lemma Honest.step (hx : Honest start ms x) (hrun : start.run ms = x)
    (hkeeps : x.Keeps (start.handlings ms)) (hkeeps' : y.Keeps (start.handlings (ms ++ [m])))
    (hstep : Step x m hs y) : Honest start (ms ++ [m]) y := by
  cases hstep with
  | idle | deliver | queue =>
    exact hx.congr m [] rfl rfl (fun _ => id) (fun _ => id) (by simp)
  | refuse c => exact hx.congr m _ rfl rfl (fun _ => id) (fun _ => id) rfl
  | handle e es w => exact hx.note m w es rfl
  | stop => exact hx.congr m _ rfl rfl (by simp [stop]) (fun _ => id) rfl
  | answer c cs w hs p hm hready hcommands hhs hp hempty =>
    have hold := hx.note m w [] hp
    refine ⟨hold.waiting, hold.underway, fun caller hdone => ?_⟩
    rcases List.mem_append.mp hdone with hbefore | hnew
    · exact hold.done caller hbefore
    · cases List.mem_singleton.mp hnew
      apply promised_of_takes (hrun ▸ takes_of_commands hm hready hcommands)
      intro h hh file hfile
      rcases hkeeps'.passed_or_waits (isReady_iff.mp hready).2 hh hfile with hpassed | hwaits
      · exact hpassed
      · rw [hempty] at hwaits
        cases hwaits
  | wait c cs w hs p hm hready hcommands hhs hp hne =>
    have hold := hx.note m w [] hp
    refine ⟨fun caller hc => ?_, hold.underway, hold.done⟩
    rcases List.mem_append.mp hc with hbefore | hnew
    · exact hold.waiting caller hbefore
    · cases List.mem_singleton.mp hnew
      apply promised_of_takes (hrun ▸ takes_of_commands hm hready hcommands)
      intro h hh file hfile
      exact hkeeps'.passed_or_waits (isReady_iff.mp hready).2 hh hfile
  | fire hm hready hne =>
    refine ⟨by simp, fun b hb caller hc => ?_, fun caller hdone => ?_⟩
    · cases hb
      exact (hx.waiting caller hc).mono (fun _ _ _ => id) m
    · exact (hx.done caller hdone).mono (fun _ _ _ => id) m
  | complete b hm hrunning =>
    have hpassed : ∀ h ∈ start.handlings ms, ∀ file, x.Passed h file ∨ file ∈ b.files →
        ({ x with running := none, finished := x.finished ++ [b.files] }.answer b.waiters
          .done).Passed h file := by
      intro h hh file hfile
      rcases hfile with hfile | hfile
      · exact passed_append (hkeeps.earlier h hh) rfl hfile
      · exact passed_last (hkeeps.earlier h hh) rfl hfile
    refine ⟨fun caller hc => ?_, fun b' hb' => ?_, fun caller hdone => ?_⟩
    · exact (hx.waiting caller hc).mono
        (fun h hh file => Or.imp_left fun hfile => hpassed h hh file (.inl hfile)) m
    · cases hb'
    · rcases List.mem_append.mp hdone with hold | hnew
      · exact (hx.done caller hold).mono (fun h hh file hfile => hpassed h hh file (.inl hfile)) m
      · obtain ⟨c, hc, heq⟩ := List.mem_map.mp hnew
        cases heq
        exact (hx.underway b hrunning caller hc).mono hpassed m

/-! ## Runs -/

/-- What is reported to a loop that is not stopped is handled or waits, in order. -/
lemma events_step (hstep : Step x m hs y) (hy : y.isStopped = false) :
    hs.map (·.event) ++ y.events = x.events ++ reports m := by
  cases hstep with
  | idle hcalls hreports => simp [hreports hy]
  | deliver e hm => simp [reports, hm]
  | queue c hm | fire hm => simp [reports, hm]
  | refuse c hm hstopped =>
    change x.isStopped = false at hy
    simp [hstopped] at hy
  | handle e es w hs hm hready hevents hhs =>
    have hmap := events_handleEach m.disk x.finished.length x.watcher [e]
    rw [hhs] at hmap
    simp [reports, hm, hevents, hmap]
  | stop cs => cases hy
  | answer c cs w hs p hm hready hcommands hhs
  | wait c cs w hs p hm hready hcommands hhs =>
    have hmap := events_handleEach m.disk x.finished.length x.watcher x.events
    rw [hhs] at hmap
    simp [reports, hm, hmap]
  | complete b hm => simp [reports, hm, WatchLoop.answer]

lemma isStopped_step (hstep : Step x m hs y) (hx : x.isStopped = true) : y.isStopped = true := by
  cases hstep with
  | stop => rfl
  | _ => exact hx

structure Invariant (start : WatchLoop) (ms : List Moment) (x : WatchLoop) : Prop where
  known : ∀ caller, x.known.count caller = (ms.flatMap calls).count caller
  events : x.isStopped = false →
    (start.handlings ms).map (·.event) ++ x.events = ms.flatMap reports
  sane : x.Sane
  keeps : x.Keeps (start.handlings ms)
  honest : Honest start ms x

lemma Invariant.step (hx : Invariant start ms x) (hrun : start.run ms = x)
    (hstep : Step x m (x.handled m) y) : Invariant start (ms ++ [m]) y := by
  have hhandlings : start.handlings (ms ++ [m]) = start.handlings ms ++ x.handled m := by
    rw [handlings_append, hrun, handlings_singleton]
  have hkeeps : y.Keeps (start.handlings (ms ++ [m])) := by
    rw [hhandlings]
    exact hx.keeps.step hstep
  refine ⟨fun caller => ?_, fun hy => ?_, hx.sane.step hstep, hkeeps,
    hx.honest.step hrun hx.keeps hkeeps hstep⟩
  · rw [count_known_step hstep, hx.known, List.flatMap_append, List.count_append]
    simp
  · have hunstopped : x.isStopped = false := by
      by_contra hstopped
      simp [isStopped_step hstep (by simpa using hstopped)] at hy
    rw [hhandlings, List.map_append, List.append_assoc, events_step hstep hy,
      ← List.append_assoc, hx.events hunstopped]
    simp

lemma invariant_ofRoot (d : Disk) (root : Location) (excluded : List String) (quiet : Nat) :
    Invariant (ofRoot d root excluded quiet) [] (ofRoot d root excluded quiet) where
  known _ := rfl
  events _ := rfl
  sane := ⟨fun hne => absurd rfl hne, fun h => by cases h⟩
  keeps := ⟨by simp [handlings], by simp [handlings]⟩
  honest := ⟨by simp [ofRoot], by simp [ofRoot], by simp [ofRoot]⟩

lemma invariant_run (d : Disk) (root : Location) (excluded : List String) (quiet : Nat)
    (ms : List Moment) :
    Invariant (ofRoot d root excluded quiet) ms ((ofRoot d root excluded quiet).run ms) := by
  induction ms using List.reverseRecOn with
  | nil => exact invariant_ofRoot d root excluded quiet
  | append_singleton ms m ih =>
    rw [run_append, run_singleton]
    exact ih.step rfl (step_next _ m)

/-! ## Flushes that have been taken -/

/-- A command that is taken leaves the queue. -/
lemma commands_of_takes (htakes : x.Takes m (.flush caller)) :
    x.commands = .flush caller :: (x.next m).commands := by
  obtain ⟨hm, hready, hhead⟩ := htakes
  obtain ⟨cs, hcommands⟩ := List.head?_eq_some_iff.mp hhead
  have hobey : ((x.next m).commands) = cs := by
    simp only [next, act, hm, hcommands, hready, if_true, obey, handleAll, foldl_handle]
    split <;> rfl
  rw [hobey, hcommands]

lemma count_queued_step (hstep : Step x m hs y) (caller : Nat) :
    (callersOf y.commands).count caller ≤
      (callersOf x.commands).count caller + (calls m).count caller := by
  cases hstep with
  | queue c hm => simp [calls, hm, callersOf_append]
  | stop cs => simp [stop]
  | answer c cs w hs p hm hready hcommands | wait c cs w hs p hm hready hcommands =>
    have hsuffix : callersOf x.commands = c :: callersOf cs := by rw [hcommands, callersOf_flush]
    simp only [hsuffix, List.count_cons]
    omega
  | idle | deliver | refuse | handle | fire | complete => exact Nat.le_add_right _ _

lemma count_queued_run (x : WatchLoop) (ms : List Moment) (caller : Nat) :
    (callersOf (x.run ms).commands).count caller ≤
      (callersOf x.commands).count caller + (ms.flatMap calls).count caller := by
  induction ms generalizing x with
  | nil => simp [run]
  | cons m ms ih =>
    have hstep := count_queued_step (step_next x m) caller
    have hrest := ih (x.next m)
    rw [List.flatMap_cons, List.count_append]
    change (callersOf ((x.next m).run ms).commands).count caller ≤ _
    omega

variable {before after : List Moment}

/-- Each call has a number of its own, so a flush that has been taken is not queued any more. -/
lemma not_queued_of_takes (hx : Invariant start before (start.run before))
    (hcalls : ((before ++ m :: after).flatMap calls).Nodup)
    (htakes : (start.run before).Takes m (.flush caller)) :
    caller ∉ callersOf (start.run (before ++ m :: after)).commands := by
  have hqueued : (callersOf (start.run before).commands).count caller =
      1 + (callersOf ((start.run before).next m).commands).count caller := by
    rw [commands_of_takes htakes, callersOf_flush, List.count_cons_self, Nat.add_comm]
  have hknown : (callersOf (start.run before).commands).count caller ≤
      (before.flatMap calls).count caller := by
    rw [← hx.known caller]
    simp only [WatchLoop.known, List.count_append]
    omega
  have hle : ((before ++ m :: after).flatMap calls).count caller ≤ 1 :=
    List.nodup_iff_count_le_one.mp hcalls caller
  rw [List.flatMap_append, List.flatMap_cons, List.count_append, List.count_append] at hle
  have hrun := count_queued_run ((start.run before).next m) after caller
  rw [← List.count_eq_zero, List.append_cons, run_append, run_append, run_singleton]
  omega

lemma not_takes_later {mid : List Moment} {m' : Moment}
    (hx : Invariant start before (start.run before))
    (hcalls : ((before ++ m :: mid).flatMap calls).Nodup)
    (htakes : (start.run before).Takes m (.flush caller)) :
    ¬(start.run (before ++ m :: mid)).Takes m' (.flush caller) := by
  intro htakes'
  apply not_queued_of_takes hx hcalls htakes
  rw [commands_of_takes htakes', callersOf_flush]
  exact List.mem_cons_self

lemma takes_unique {before' after' : List Moment} {m' : Moment}
    (hx : ∀ ms, Invariant start ms (start.run ms))
    (hcalls : ((before ++ m :: after).flatMap calls).Nodup)
    (heq : before ++ m :: after = before' ++ m' :: after')
    (htakes : (start.run before).Takes m (.flush caller))
    (htakes' : (start.run before').Takes m' (.flush caller)) : before = before' ∧ m = m' := by
  rcases List.append_eq_append_iff.mp heq with ⟨mid, rfl, hmid⟩ | ⟨mid, rfl, hmid⟩
  · cases mid with
    | nil => exact ⟨(List.append_nil before).symm, (List.cons.inj hmid).1⟩
    | cons k mid =>
      obtain ⟨rfl, -⟩ := List.cons.inj hmid
      rw [heq, List.flatMap_append] at hcalls
      exact absurd htakes' (not_takes_later (hx before) hcalls.of_append_left htakes)
  · cases mid with
    | nil => exact ⟨List.append_nil before', (List.cons.inj hmid).1.symm⟩
    | cons k mid =>
      obtain ⟨rfl, -⟩ := List.cons.inj hmid
      rw [List.flatMap_append] at hcalls
      exact absurd htakes (not_takes_later (hx before') hcalls.of_append_left htakes')

/-! ## A stopped loop -/

lemma next_of_takes_shutdown (htakes : x.Takes m .shutdown) :
    ∃ cs, x.next m = ({ x with commands := cs }).stop := by
  obtain ⟨hm, hready, hhead⟩ := htakes
  obtain ⟨cs, hcommands⟩ := List.head?_eq_some_iff.mp hhead
  exact ⟨cs, by simp [next, act, hm, hcommands, hready, obey]⟩

/-- A stopped loop tells nobody that a flush is done. -/
lemma done_of_stopped_step (hx : x.Sane) (hstopped : x.isStopped = true) (hstep : Step x m hs y)
    (hdone : (caller, .done) ∈ y.answers) : (caller, .done) ∈ x.answers := by
  cases hstep with
  | idle | deliver | queue | handle | wait | fire => exact hdone
  | refuse | stop => simpa [WatchLoop.answer, stop] using hdone
  | answer c cs w hs p hm hready =>
    rw [(isReady_iff.mp hready).1] at hstopped
    cases hstopped
  | complete b hm hrunning =>
    rw [(hx.stopped hstopped).2.2] at hrunning
    cases hrunning

lemma stopped_run (hx : x.Sane) (hstopped : x.isStopped = true) (ms : List Moment)
    (caller : Nat) :
    (x.run ms).isStopped = true ∧ ((caller, .done) ∈ (x.run ms).answers →
      (caller, .done) ∈ x.answers) := by
  induction ms generalizing x with
  | nil => exact ⟨hstopped, id⟩
  | cons m ms ih =>
    have hstep := step_next x m
    obtain ⟨hrun, hdone⟩ := ih (hx.step hstep) (isStopped_step hstep hstopped)
    exact ⟨hrun, fun h => done_of_stopped_step hx hstopped hstep (hdone h)⟩

/-- Nobody waits for a stopped loop: whoever has called it has an answer. -/
lemma Invariant.answered (hx : Invariant start ms x) (hstopped : x.isStopped = true)
    (hcaller : caller ∈ ms.flatMap calls) : ∃ a, (caller, a) ∈ x.answers := by
  obtain ⟨hwaiters, hcommands, hrunning⟩ := hx.sane.stopped hstopped
  have hknown : caller ∈ x.known := by
    rw [← List.count_pos_iff, hx.known, List.count_pos_iff]
    exact hcaller
  simpa [WatchLoop.known, underway, hwaiters, hcommands, hrunning] using hknown

/-! ## The barrier -/

lemma events_of_takes (hx : Invariant start before (start.run before))
    (htakes : (start.run before).Takes m (.flush caller)) :
    (start.handlings (before ++ [m])).map (·.event) = before.flatMap reports := by
  obtain ⟨hm, hready, hhead⟩ := htakes
  obtain ⟨cs, hcommands⟩ := List.head?_eq_some_iff.mp hhead
  have htaken : (start.run before).taken m = (start.run before).events := by
    simp [WatchLoop.taken, hready, hm, hcommands]
  rw [handlings_append, handlings_singleton, List.map_append, handled, events_handleEach, htaken]
  exact hx.events (isReady_iff.mp hready).1

/-- Nobody is answered twice, and nobody who has an answer waits. -/
lemma nodup_known (hx : Invariant start ms x) (hcalls : (ms.flatMap calls).Nodup) :
    x.known.Nodup := by
  rw [List.nodup_iff_count_le_one] at hcalls ⊢
  intro caller
  rw [hx.known]
  exact hcalls caller

lemma mem_known_of_takes (hx : ∀ ms, Invariant start ms (start.run ms))
    (htakes : (start.run before).Takes m (.flush caller)) (after : List Moment) :
    caller ∈ (start.run (before ++ m :: after)).known := by
  have hqueued : caller ∈ (start.run before).known := by
    simp [known, commands_of_takes htakes]
  rw [← List.count_pos_iff, (hx before).known] at hqueued
  rw [← List.count_pos_iff, (hx _).known, List.flatMap_append, List.count_append]
  omega

lemma Sane.waits (hx : x.Sane) (hknown : caller ∈ x.known)
    (hnot : caller ∉ callersOf x.commands) :
    (∃ a, (caller, a) ∈ x.answers) ∨
      (caller ∈ x.pending.waiters ∧ x.pending.files ≠ [] ∧ x.pending.urgent = true) ∨
      ∃ b, x.running = some b ∧ caller ∈ b.waiters := by
  simp only [known, List.mem_append, hnot, or_false] at hknown
  rcases hknown with hanswered | hunderway | hwaits
  · obtain ⟨⟨c, a⟩, ha, rfl⟩ := List.mem_map.mp hanswered
    exact .inl ⟨a, ha⟩
  · right; right
    cases hrunning : x.running with
    | none => simp [underway, hrunning] at hunderway
    | some b => exact ⟨b, rfl, by simpa [underway, hrunning] using hunderway⟩
  · right; left
    exact ⟨hwaits, hx.due (List.ne_nil_of_mem hwaits)⟩

lemma stopped_of_takes_shutdown (hx : ∀ ms, Invariant start ms (start.run ms))
    (htakes : (start.run before).Takes m .shutdown)
    (hcaller : caller ∈ (before ++ m :: after).flatMap calls)
    (hnone : caller ∉ (start.run before).answers.map (·.1)) :
    (caller, .stopped) ∈ (start.run (before ++ m :: after)).answers ∧
      (caller, .done) ∉ (start.run (before ++ m :: after)).answers := by
  obtain ⟨cs, hnext⟩ := next_of_takes_shutdown htakes
  have hsane : ((start.run before).next m).Sane := by
    have hafter := (hx (before ++ [m])).sane
    rwa [run_append, run_singleton] at hafter
  have hrun : start.run (before ++ m :: after) = ((start.run before).next m).run after := by
    rw [List.append_cons, run_append, run_append, run_singleton]
  obtain ⟨hstopped, hdone⟩ := stopped_run hsane (by rw [hnext]; rfl) after caller
  rw [← hrun] at hstopped hdone
  have hnot : (caller, .done) ∉ (start.run (before ++ m :: after)).answers := by
    intro h
    have hbefore := hdone h
    rw [hnext] at hbefore
    apply hnone
    exact List.mem_map.mpr ⟨_, by simpa [stop, WatchLoop.answer] using hbefore, rfl⟩
  obtain ⟨a, ha⟩ := (hx _).answered hstopped hcaller
  cases a with
  | done => exact absurd ha hnot
  | stopped => exact ⟨ha, hnot⟩

structure FlushesKept (start : WatchLoop) (ms : List Moment) : Prop where
  /-- Whoever is told that the flush is done has had it taken. -/
  taken : ∀ caller, (caller, .done) ∈ (start.run ms).answers →
    ∃ before m after, ms = before ++ m :: after ∧ (start.run before).Takes m (.flush caller)
  /-- By then, all that the disk had reported before it was taken has been handled, and every
  file noted for it has been handed on, later than that, in a batch that is finished. -/
  barrier : ∀ before m after caller, ms = before ++ m :: after →
    (start.run before).Takes m (.flush caller) → (caller, .done) ∈ (start.run ms).answers →
      (start.handlings (before ++ [m])).map (·.event) = before.flatMap reports ∧
      ∀ h ∈ start.handlings (before ++ [m]), ∀ file ∈ h.files, (start.run ms).Passed h file
  /-- Nobody is answered twice. -/
  once : ((start.run ms).answers.map (·.1)).Nodup
  /-- Whoever is kept waiting after that waits for files that are pending and due, or for the
  batch that is being handled. -/
  waits : ∀ before m after caller, ms = before ++ m :: after →
    (start.run before).Takes m (.flush caller) →
      (∃ a, (caller, a) ∈ (start.run ms).answers) ∨
      (caller ∈ (start.run ms).pending.waiters ∧ (start.run ms).pending.files ≠ [] ∧
        (start.run ms).pending.urgent = true) ∨
      ∃ b, (start.run ms).running = some b ∧ caller ∈ b.waiters
  /-- A shutdown stops the loop for all who have no answer yet, and for all who call later. -/
  stops : ∀ before m after, ms = before ++ m :: after → (start.run before).Takes m .shutdown →
    ∀ caller ∈ ms.flatMap calls, caller ∉ (start.run before).answers.map (·.1) →
      (caller, .stopped) ∈ (start.run ms).answers ∧ (caller, .done) ∉ (start.run ms).answers

/-- Events, calls, deadlines, ends of batches and shutdowns come in any order, and each call
has a number of its own. Then a flush that is answered as done is a barrier. -/
theorem flush_is_barrier (d : Disk) (root : Location) (excluded : List String) (quiet : Nat)
    {ms : List Moment} (hcalls : (ms.flatMap calls).Nodup) :
    FlushesKept (ofRoot d root excluded quiet) ms := by
  have hx := invariant_run d root excluded quiet
  refine ⟨fun caller hdone => ?_, ?_, ?_, ?_, ?_⟩
  · obtain ⟨before, m, after, hms, htakes, -⟩ := (hx ms).honest.done caller hdone
    exact ⟨before, m, after, hms, htakes⟩
  · rintro before m after caller rfl htakes hdone
    obtain ⟨before', m', after', hms, htakes', hpassed⟩ := (hx _).honest.done caller hdone
    obtain ⟨rfl, rfl⟩ := takes_unique hx hcalls hms htakes htakes'
    exact ⟨events_of_takes (hx before) htakes, hpassed⟩
  · have hnodup := nodup_known (hx ms) hcalls
    exact hnodup.of_append_left
  · rintro before m after caller rfl htakes
    exact (hx _).sane.waits (mem_known_of_takes hx htakes after)
      (not_queued_of_takes (hx before) hcalls htakes)
  · rintro before m after rfl htakes caller hcaller hnone
    exact stopped_of_takes_shutdown hx htakes hcaller hnone

/-- A flush that is done, one that is overtaken by a shutdown while it waits, and one that
comes too late. -/
def threeFlushes : List Moment :=
  [.deliver (.modified ["work", "main.go"]), .call (.flush 1), .takeCommand, .call (.flush 2),
    .fire, .deliver (.modified ["work", "lib.go"]), .complete, .takeCommand, .call .shutdown,
    .takeCommand, .call (.flush 3)].map fun action => ⟨{}, 0, action⟩

theorem threeFlushes_are_kept :
    (threeFlushes.flatMap calls).Nodup ∧
    ((ofRoot {} ["work"] [] 5).run threeFlushes).finished = [["main.go"]] ∧
    ((ofRoot {} ["work"] [] 5).run threeFlushes).answers =
      [(1, .done), (2, .stopped), (3, .stopped)] ∧
    FlushesKept (ofRoot {} ["work"] [] 5) threeFlushes := by
  have hcalls : (threeFlushes.flatMap calls).Nodup := by decide
  refine ⟨hcalls, ?_, ?_, flush_is_barrier {} ["work"] [] 5 hcalls⟩
  · decide +kernel
  · decide +kernel

end WatchLoop

end CodeSearch
