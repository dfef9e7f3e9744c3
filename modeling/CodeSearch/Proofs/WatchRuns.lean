import CodeSearch.Watch.Loop
import Mathlib.Data.List.Induction
import Mathlib.Data.List.Basic

/-!
# Runs of the loop of the watcher

A run is a list of moments: a disk, a time and one thing that happens. Events, calls, passed
deadlines and ends of batches come in any order, and what cannot happen changes nothing. A
run tells which events the loop has handled, which files it noted for each of them, and how
many batches had been finished by then.
-/
namespace CodeSearch

/-- Something happens to the loop at a time, on a disk that stands still meanwhile. -/
structure Moment where
  disk : Disk
  now : Nat
  action : WatchAction

structure Handling where
  event : DiskEvent
  /-- The files that were noted for it. -/
  files : List String
  /-- How many batches were finished before. -/
  earlier : Nat

namespace PendingSet

/-- Note some files at a time. -/
def recordAll (p : PendingSet) (files : List String) (now : Nat) : PendingSet :=
  files.foldl (fun p file => p.record file now) p

variable {p : PendingSet} {files : List String} {now : Nat}

@[simp] lemma waiters_recordAll : (p.recordAll files now).waiters = p.waiters := by
  induction files generalizing p with
  | nil => rfl
  | cons file files ih => exact ih

@[simp] lemma urgent_recordAll : (p.recordAll files now).urgent = p.urgent := by
  induction files generalizing p with
  | nil => rfl
  | cons file files ih => exact ih

lemma mem_files_record {file other : String} :
    other ∈ (p.record file now).files ↔ other = file ∨ other ∈ p.files := by
  by_cases h : file ∈ p.files
  · have hif : (p.record file now).files = p.files := by simp [record, p.mem_seen file, h]
    rw [hif]
    constructor
    · exact Or.inr
    · rintro (rfl | h')
      · exact h
      · exact h'
  · simp [record, p.mem_seen file, h, or_comm]

lemma mem_files_recordAll {other : String} :
    other ∈ (p.recordAll files now).files ↔ other ∈ files ∨ other ∈ p.files := by
  induction files generalizing p with
  | nil => simp [recordAll]
  | cons file files ih =>
    change other ∈ ((p.record file now).recordAll files now).files ↔ _
    rw [ih, mem_files_record, List.mem_cons]
    tauto

lemma recordAll_append {files' : List String} :
    p.recordAll (files ++ files') now = (p.recordAll files now).recordAll files' now :=
  List.foldl_append

end PendingSet

namespace WatchLoop

def calls (m : Moment) : List Nat :=
  match m.action with
  | .call c => callersOf [c]
  | _ => []

def reports (m : Moment) : List DiskEvent :=
  match m.action with
  | .deliver e => [e]
  | _ => []

def next (x : WatchLoop) (m : Moment) : WatchLoop :=
  x.act m.disk m.now m.action

def run (x : WatchLoop) (ms : List Moment) : WatchLoop :=
  ms.foldl next x

def Takes (x : WatchLoop) (m : Moment) (c : WatchCommand) : Prop :=
  m.action = .takeCommand ∧ x.isReady ∧ x.commands.head? = some c

/-- Handling events one after another, each by a watcher that knows the earlier ones. -/
def handleEach (d : Disk) (earlier : Nat) (w : Watcher) : List DiskEvent → Watcher × List Handling
  | [] => (w, [])
  | e :: es =>
      let r := w.handle d e
      let rest := handleEach d earlier r.1 es
      (rest.1, ⟨e, r.2, earlier⟩ :: rest.2)

/-- The events that the loop handles in a moment. -/
def taken (x : WatchLoop) (m : Moment) : List DiskEvent :=
  if x.isReady then
    match m.action, x.commands with
    | .takeEvent, _ => x.events.take 1
    | .takeCommand, .flush _ :: _ => x.events
    | _, _ => []
  else []

def handled (x : WatchLoop) (m : Moment) : List Handling :=
  (handleEach m.disk x.finished.length x.watcher (x.taken m)).2

def handlings (x : WatchLoop) : List Moment → List Handling
  | [] => []
  | m :: ms => x.handled m ++ (x.next m).handlings ms

variable {x y : WatchLoop} {m : Moment} {ms ms' : List Moment}

@[simp] lemma run_append : x.run (ms ++ ms') = (x.run ms).run ms' :=
  List.foldl_append

@[simp] lemma run_singleton : x.run [m] = x.next m :=
  rfl

lemma handlings_append : x.handlings (ms ++ ms') = x.handlings ms ++ (x.run ms).handlings ms' := by
  induction ms generalizing x with
  | nil => rfl
  | cons m ms ih => simp only [List.cons_append, handlings, ih, List.append_assoc]; rfl

@[simp] lemma handlings_singleton : x.handlings [m] = x.handled m := by
  simp [handlings]

lemma isReady_iff : x.isReady = true ↔ x.isStopped = false ∧ x.running = none := by
  simp [isReady]

lemma callersOf_append (cs cs' : List WatchCommand) :
    callersOf (cs ++ cs') = callersOf cs ++ callersOf cs' :=
  List.filterMap_append

@[simp] lemma callersOf_nil : callersOf [] = [] :=
  rfl

@[simp] lemma callersOf_flush {caller : Nat} {cs : List WatchCommand} :
    callersOf (.flush caller :: cs) = caller :: callersOf cs :=
  rfl

@[simp] lemma callersOf_shutdown {cs : List WatchCommand} :
    callersOf (.shutdown :: cs) = callersOf cs :=
  rfl

lemma events_handleEach (d : Disk) (earlier : Nat) (w : Watcher) (es : List DiskEvent) :
    (handleEach d earlier w es).2.map (·.event) = es := by
  induction es generalizing w with
  | nil => rfl
  | cons e es ih => simp [handleEach, ih]

lemma earlier_of_mem_handleEach (d : Disk) (earlier : Nat) (w : Watcher) (es : List DiskEvent) :
    ∀ h ∈ (handleEach d earlier w es).2, h.earlier = earlier := by
  induction es generalizing w with
  | nil => simp [handleEach]
  | cons e es ih =>
    intro h hh
    rcases List.mem_cons.mp hh with rfl | hh
    · rfl
    · exact ih _ h hh

lemma foldl_handle (d : Disk) (now : Nat) (x : WatchLoop) (es : List DiskEvent) :
    es.foldl (handle d now) x =
      let r := handleEach d x.finished.length x.watcher es
      { x with
        watcher := r.1
        pending := x.pending.recordAll (r.2.flatMap (·.files)) now } := by
  induction es generalizing x with
  | nil => rfl
  | cons e es ih =>
    rw [List.foldl_cons, ih]
    simp only [handleEach, handle, List.flatMap_cons, PendingSet.recordAll_append]
    rfl

inductive Step (x : WatchLoop) (m : Moment) : List Handling → WatchLoop → Prop
  /-- Nothing happens. Of a stopped loop nobody takes a report. -/
  | idle (hcalls : calls m = []) (hreports : x.isStopped = false → reports m = []) : Step x m [] x
  | deliver (e : DiskEvent) (hm : m.action = .deliver e) (hx : x.isStopped = false) :
      Step x m [] { x with events := x.events ++ [e] }
  | queue (c : WatchCommand) (hm : m.action = .call c) (hx : x.isStopped = false) :
      Step x m [] { x with commands := x.commands ++ [c] }
  | refuse (c : WatchCommand) (hm : m.action = .call c) (hx : x.isStopped = true) :
      Step x m [] (x.answer (callersOf [c]) .stopped)
  | handle (e : DiskEvent) (es : List DiskEvent) (w : Watcher) (hs : List Handling)
      (hm : m.action = .takeEvent) (hx : x.isReady) (hevents : x.events = e :: es)
      (hhs : handleEach m.disk x.finished.length x.watcher [e] = (w, hs)) :
      Step x m hs
        { x with
          watcher := w
          pending := x.pending.recordAll (hs.flatMap (·.files)) m.now
          events := es }
  | stop (cs : List WatchCommand) (hm : m.action = .takeCommand) (hx : x.isReady)
      (hcommands : x.commands = .shutdown :: cs) :
      Step x m [] ({ x with commands := cs }).stop
  /-- A flush for which nothing waits is answered. -/
  | answer (caller : Nat) (cs : List WatchCommand) (w : Watcher) (hs : List Handling)
      (p : PendingSet) (hm : m.action = .takeCommand) (hx : x.isReady)
      (hcommands : x.commands = .flush caller :: cs)
      (hhs : handleEach m.disk x.finished.length x.watcher x.events = (w, hs))
      (hp : x.pending.recordAll (hs.flatMap (·.files)) m.now = p) (hempty : p.files = []) :
      Step x m hs
        { x with
          watcher := w
          pending := p
          events := []
          commands := cs
          answers := x.answers ++ [(caller, .done)] }
  /-- Otherwise its caller has to wait. -/
  | wait (caller : Nat) (cs : List WatchCommand) (w : Watcher) (hs : List Handling)
      (p : PendingSet) (hm : m.action = .takeCommand) (hx : x.isReady)
      (hcommands : x.commands = .flush caller :: cs)
      (hhs : handleEach m.disk x.finished.length x.watcher x.events = (w, hs))
      (hp : x.pending.recordAll (hs.flatMap (·.files)) m.now = p) (hne : p.files ≠ []) :
      Step x m hs
        { x with
          watcher := w
          pending := { p with waiters := p.waiters ++ [caller], urgent := true }
          events := []
          commands := cs }
  | fire (hm : m.action = .fire) (hx : x.isReady) (hne : x.pending.files ≠ []) :
      Step x m []
        { x with
          pending := { quiet := x.pending.quiet }
          running := some ⟨x.pending.files, x.pending.waiters⟩ }
  | complete (b : RunningBatch) (hm : m.action = .complete) (hx : x.running = some b) :
      Step x m []
        ({ x with running := none, finished := x.finished ++ [b.files] }.answer b.waiters .done)

lemma handled_of_taken (h : x.taken m = []) : x.handled m = [] := by
  rw [handled, h]
  rfl

variable {d : Disk} {now : Nat}

lemma step_deliver (x : WatchLoop) (d : Disk) (now : Nat) (e : DiskEvent) :
    Step x ⟨d, now, .deliver e⟩ [] (x.next ⟨d, now, .deliver e⟩) := by
  by_cases hx : x.isStopped
  · have hnext : x.next ⟨d, now, .deliver e⟩ = x := by simp [next, act, hx]
    rw [hnext]
    exact .idle rfl (by simp [hx])
  · have hnext : x.next ⟨d, now, .deliver e⟩ = { x with events := x.events ++ [e] } := by
      simp [next, act, hx]
    rw [hnext]
    exact .deliver e rfl (by simpa using hx)

lemma step_call (x : WatchLoop) (d : Disk) (now : Nat) (c : WatchCommand) :
    Step x ⟨d, now, .call c⟩ [] (x.next ⟨d, now, .call c⟩) := by
  by_cases hx : x.isStopped
  · have hnext : x.next ⟨d, now, .call c⟩ = x.answer (callersOf [c]) .stopped := by
      simp [next, act, hx]
    rw [hnext]
    exact .refuse c rfl hx
  · have hnext : x.next ⟨d, now, .call c⟩ = { x with commands := x.commands ++ [c] } := by
      simp [next, act, hx]
    rw [hnext]
    exact .queue c rfl (by simpa using hx)

lemma step_takeEvent (x : WatchLoop) (d : Disk) (now : Nat) :
    Step x ⟨d, now, .takeEvent⟩ (x.handled ⟨d, now, .takeEvent⟩)
      (x.next ⟨d, now, .takeEvent⟩) := by
  by_cases hx : x.isReady
  · cases hevents : x.events with
    | nil =>
      have hnext : x.next ⟨d, now, .takeEvent⟩ = x := by simp [next, act, hevents]
      rw [hnext, handled_of_taken (by simp [taken, hx, hevents])]
      exact .idle rfl fun _ => rfl
    | cons e es =>
      have hnext : x.next ⟨d, now, .takeEvent⟩ = [e].foldl (WatchLoop.handle d now)
          { x with events := es } := by
        simp [next, act, hevents, hx]
      have htaken : x.taken ⟨d, now, .takeEvent⟩ = [e] := by simp [taken, hx, hevents]
      rw [hnext, foldl_handle, handled, htaken]
      exact .handle e es _ _ rfl hx hevents rfl
  · have hnext : x.next ⟨d, now, .takeEvent⟩ = x := by
      simp only [next, act, hx]
      cases x.events <;> rfl
    rw [hnext, handled_of_taken (by simp [taken, hx])]
    exact .idle rfl fun _ => rfl

/-- A flush takes in all events that wait before it looks at what is pending. -/
lemma step_flush {caller : Nat} {cs : List WatchCommand} (hx : x.isReady)
    (hcommands : x.commands = .flush caller :: cs) :
    Step x ⟨d, now, .takeCommand⟩ (x.handled ⟨d, now, .takeCommand⟩)
      (x.next ⟨d, now, .takeCommand⟩) := by
  have hnext : x.next ⟨d, now, .takeCommand⟩ =
      obey d now { x with commands := cs } (.flush caller) := by
    simp [next, act, hcommands, hx]
  have htaken : x.taken ⟨d, now, .takeCommand⟩ = x.events := by simp [taken, hx, hcommands]
  rw [hnext, handled, htaken]
  simp only [obey, handleAll, foldl_handle]
  set r := handleEach d x.finished.length x.watcher x.events with hr
  set p := x.pending.recordAll (r.2.flatMap (·.files)) now with hp
  by_cases hfiles : p.files = []
  · have hrequest : p.request caller = (p, true) := by simp [PendingSet.request, hfiles]
    simp only [hrequest, if_true]
    exact .answer caller cs r.1 r.2 p rfl hx hcommands hr.symm hp.symm hfiles
  · have hrequest : p.request caller =
        ({ p with waiters := p.waiters ++ [caller], urgent := true }, false) := by
      simp [PendingSet.request, hfiles]
    simp only [hrequest, Bool.false_eq_true, if_false]
    exact .wait caller cs r.1 r.2 p rfl hx hcommands hr.symm hp.symm hfiles

lemma step_takeCommand (x : WatchLoop) (d : Disk) (now : Nat) :
    Step x ⟨d, now, .takeCommand⟩ (x.handled ⟨d, now, .takeCommand⟩)
      (x.next ⟨d, now, .takeCommand⟩) := by
  by_cases hx : x.isReady
  · cases hcommands : x.commands with
    | nil =>
      have hnext : x.next ⟨d, now, .takeCommand⟩ = x := by simp [next, act, hcommands]
      rw [hnext, handled_of_taken (by simp [taken, hx, hcommands])]
      exact .idle rfl fun _ => rfl
    | cons c cs =>
      cases c with
      | flush caller => exact step_flush hx hcommands
      | shutdown =>
        have hnext : x.next ⟨d, now, .takeCommand⟩ = ({ x with commands := cs }).stop := by
          simp [next, act, hcommands, hx, obey]
        rw [hnext, handled_of_taken (by simp [taken, hx, hcommands])]
        exact .stop cs rfl hx hcommands
  · have hnext : x.next ⟨d, now, .takeCommand⟩ = x := by
      simp only [next, act, hx]
      cases x.commands <;> rfl
    rw [hnext, handled_of_taken (by simp [taken, hx])]
    exact .idle rfl fun _ => rfl

lemma step_fire (x : WatchLoop) (d : Disk) (now : Nat) :
    Step x ⟨d, now, .fire⟩ [] (x.next ⟨d, now, .fire⟩) := by
  have hidle : Step x ⟨d, now, .fire⟩ [] x := .idle rfl fun _ => rfl
  simp only [next, act]
  cases hdeadline : x.pending.deadline? now with
  | none => exact hidle
  | some time =>
    change Step x _ [] (if x.isReady && time ≤ now then _ else x)
    by_cases hx : x.isReady && decide (time ≤ now)
    · rw [if_pos hx]
      have hne : x.pending.files ≠ [] := by
        intro hfiles
        simp [PendingSet.deadline?, hfiles] at hdeadline
      exact .fire rfl (by simp_all) hne
    · rw [if_neg hx]
      exact hidle

lemma step_complete (x : WatchLoop) (d : Disk) (now : Nat) :
    Step x ⟨d, now, .complete⟩ [] (x.next ⟨d, now, .complete⟩) := by
  cases hrunning : x.running with
  | none =>
    have hnext : x.next ⟨d, now, .complete⟩ = x := by simp [next, act, hrunning]
    rw [hnext]
    exact .idle rfl fun _ => rfl
  | some b =>
    have hnext : x.next ⟨d, now, .complete⟩ =
        ({ x with running := none, finished := x.finished ++ [b.files] }.answer
          b.waiters .done) := by
      simp [next, act, hrunning]
    rw [hnext]
    exact .complete b rfl hrunning

theorem step_next (x : WatchLoop) (m : Moment) : Step x m (x.handled m) (x.next m) := by
  obtain ⟨d, now, action⟩ := m
  cases action with
  | takeEvent => exact step_takeEvent x d now
  | takeCommand => exact step_takeCommand x d now
  | deliver e =>
    rw [handled_of_taken (by simp [taken])]
    exact step_deliver x d now e
  | call c =>
    rw [handled_of_taken (by simp [taken])]
    exact step_call x d now c
  | fire =>
    rw [handled_of_taken (by simp [taken])]
    exact step_fire x d now
  | complete =>
    rw [handled_of_taken (by simp [taken])]
    exact step_complete x d now

end WatchLoop

end CodeSearch
