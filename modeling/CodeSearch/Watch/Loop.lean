import CodeSearch.Watch.Pending
import CodeSearch.Watch.Watcher

/-!
# The loop of the watcher

One task takes in events and commands, one at a time and in any order, and hands batches
of changed files on. While a batch is being handled it does nothing else; events and
commands queue up meanwhile. A caller who asks for a flush is answered when the batch is
finished that holds everything reported up to then.
-/
namespace CodeSearch

inductive WatchCommand where
  | flush (caller : Nat)
  | shutdown
  deriving DecidableEq, Repr

inductive FlushAnswer where
  | done
  | stopped
  deriving DecidableEq, Repr

structure RunningBatch where
  files : List String
  waiters : List Nat
  deriving DecidableEq, Repr

structure WatchLoop where
  watcher : Watcher
  pending : PendingSet
  events : List DiskEvent := []
  commands : List WatchCommand := []
  running : Option RunningBatch := none
  finished : List (List String) := []
  answers : List (Nat × FlushAnswer) := []
  isStopped : Bool := false

inductive WatchAction where
  /-- The disk reports something. -/
  | deliver (e : DiskEvent)
  /-- Someone asks for something. -/
  | call (c : WatchCommand)
  /-- The loop takes the first event. -/
  | takeEvent
  /-- The loop takes the first command. -/
  | takeCommand
  /-- The deadline has passed. -/
  | fire
  /-- The batch has been handled. -/
  | complete

namespace WatchLoop

/-- The loop is neither stopped nor handling a batch. -/
def isReady (x : WatchLoop) : Bool :=
  !x.isStopped && x.running.isNone

def answer (x : WatchLoop) (callers : List Nat) (a : FlushAnswer) : WatchLoop :=
  { x with answers := x.answers ++ callers.map fun c => (c, a) }

def handle (d : Disk) (now : Nat) (x : WatchLoop) (e : DiskEvent) : WatchLoop :=
  let r := x.watcher.handle d e
  { x with
    watcher := r.1
    pending := r.2.foldl (fun p file => p.record file now) x.pending }

/-- Take in all events that wait. -/
def handleAll (d : Disk) (now : Nat) (x : WatchLoop) : WatchLoop :=
  x.events.foldl (handle d now) { x with events := [] }

/-- The callers of the flushes among some commands. -/
def callersOf (cs : List WatchCommand) : List Nat :=
  cs.filterMap fun
    | .flush caller => some caller
    | .shutdown => none

/-- Stop: nobody who still waits gets what they wait for, and the files that wait are
never handed on. -/
def stop (x : WatchLoop) : WatchLoop :=
  { x.answer (x.pending.waiters ++ callersOf x.commands) .stopped with
    pending := { x.pending with waiters := [] }
    commands := []
    isStopped := true }

/-- Take in a command. A flush takes in the events that wait first. -/
def obey (d : Disk) (now : Nat) (x : WatchLoop) : WatchCommand → WatchLoop
  | .shutdown => x.stop
  | .flush caller =>
      let x := x.handleAll d now
      let r := x.pending.request caller
      let x := { x with pending := r.1 }
      if r.2 then x.answer [caller] .done else x

/-- What happens to the loop at a time, on a disk that stands still meanwhile. What cannot
happen changes nothing. -/
def act (d : Disk) (now : Nat) (x : WatchLoop) : WatchAction → WatchLoop
  | .deliver e => if x.isStopped then x else { x with events := x.events ++ [e] }
  | .call c =>
      if x.isStopped then x.answer (callersOf [c]) .stopped
      else { x with commands := x.commands ++ [c] }
  | .takeEvent =>
      match x.events with
      | e :: es => if x.isReady then handle d now { x with events := es } e else x
      | [] => x
  | .takeCommand =>
      match x.commands with
      | c :: cs => if x.isReady then obey d now { x with commands := cs } c else x
      | [] => x
  | .fire =>
      match x.pending.deadline? now with
      | none => x
      | some time =>
          if x.isReady && time ≤ now then
            let r := x.pending.take
            { x with pending := r.2, running := some ⟨r.1.1, r.1.2⟩ }
          else x
  | .complete =>
      match x.running with
      | none => x
      | some b =>
          { x with running := none, finished := x.finished ++ [b.files] }.answer b.waiters .done

/-- Begin to watch a workspace. -/
def ofRoot (d : Disk) (root : Location) (excluded : List String) (quiet : Nat) : WatchLoop where
  watcher := .ofRoot d root excluded
  pending := { quiet }

/-- Events reach the loop: each is delivered and taken in before the next one. -/
def takeIn (d : Disk) (now : Nat) (x : WatchLoop) (es : List DiskEvent) : WatchLoop :=
  es.foldl (fun x e => (x.act d now (.deliver e)).act d now .takeEvent) x

/-- A change of the disk reaches the loop by its events, on the disk as it is afterwards. -/
def observe (before after : Disk) (now : Nat) (x : WatchLoop) (c : DiskChange) : WatchLoop :=
  x.takeIn after now (DiskEvent.ofChange x.watcher.watched before c)

/-- A flush of a caller up to the point where its batch is to be handled, or where it is
answered. -/
def flush (d : Disk) (now : Nat) (x : WatchLoop) (caller : Nat) : WatchLoop :=
  [.call (.flush caller), .takeCommand, .fire].foldl (act d now) x

/-- A loop that is not handling a batch is told to stop and does so. -/
def close (d : Disk) (now : Nat) (x : WatchLoop) : WatchLoop :=
  if x.isStopped then x else [.call .shutdown, .takeCommand].foldl (act d now) x

/-- The answer that a caller got last. -/
def answerTo? (x : WatchLoop) (caller : Nat) : Option FlushAnswer :=
  (x.answers.reverse.find? fun a => a.1 == caller).map (·.2)

end WatchLoop

end CodeSearch
