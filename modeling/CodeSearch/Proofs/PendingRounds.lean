import CodeSearch.Proofs.WatchRuns
import Mathlib.Data.Finset.Card
import Mathlib.Data.List.Forall2

/-!
# Rounds of the pending set

Whenever the files that wait are taken, a round ends and the next one begins. The batch of a
round has the files that were noted in it, each once and in the order in which they were noted
first, and the callers who asked behind the first of them. Callers who asked before any file was
noted were answered at once. Nothing of a round is left over for a later one.
-/
namespace CodeSearch

namespace PendingSet

inductive Step where
  | record (file : String) (now : ℕ)
  | request (caller : ℕ)
  | take

namespace Step

def file? : Step → Option String
  | record file _ => some file
  | _ => none

def time? : Step → Option ℕ
  | record _ now => some now
  | _ => none

def caller? : Step → Option ℕ
  | request caller => some caller
  | _ => none

def isRecord (s : Step) : Bool :=
  s.file?.isSome

def isTake : Step → Bool
  | take => true
  | _ => false

end Step

/-- A pending set with what has come of it: the batches that were taken, each with its callers,
and the callers who were answered at once. -/
structure History where
  pending : PendingSet
  batches : List (List String × List ℕ) := []
  answered : List ℕ := []

namespace History

/-- Let one thing happen. -/
def step (h : History) : Step → History
  | .record file now => { h with pending := h.pending.record file now }
  | .request caller =>
      let r := h.pending.request caller
      { h with
        pending := r.1
        answered := if r.2 then h.answered ++ [caller] else h.answered }
  | .take =>
      let r := h.pending.take
      { h with pending := r.2, batches := h.batches ++ [r.1] }

/-- Let things happen to an empty set, one after the other. -/
def run (quiet : ℕ) (steps : List Step) : History :=
  steps.foldl step { pending := { quiet } }

end History

/-! ## What a round asks for -/

/-- The rounds of some steps. The last one has not been taken. -/
def rounds (steps : List Step) : List (List Step) :=
  steps.splitOnP Step.isTake

variable {p : PendingSet} {quiet now caller : ℕ} {file : String} {round : List Step}
  {steps : List Step}

/-- The files that a round notes, as often as it does. -/
def noted (round : List Step) : List String :=
  round.filterMap Step.file?

/-- The callers who ask before a round has noted a file. -/
def served (round : List Step) : List ℕ :=
  (round.takeWhile fun s => !s.isRecord).filterMap Step.caller?

/-- The callers who ask when a round has noted a file. -/
def waiting (round : List Step) : List ℕ :=
  (round.dropWhile fun s => !s.isRecord).filterMap Step.caller?

/-- When a round noted a file last. -/
def lastTime? (round : List Step) : Option ℕ :=
  (round.filterMap Step.time?).getLast?

/-- The files of a round, each once and in the order in which they were noted first, and the
callers who wait for them. -/
structure IsBatch (round : List Step) (batch : List String × List ℕ) : Prop where
  nodup : batch.1.Nodup
  mem_iff : ∀ file, file ∈ batch.1 ↔ file ∈ noted round
  ordered : batch.1.Pairwise fun a b => (noted round).idxOf a < (noted round).idxOf b
  waiters : batch.2 = waiting round

lemma IsBatch.of_noted {round' : List Step} {batch : List String × List ℕ}
    (h : IsBatch round batch) (hnoted : noted round' = noted round) :
    IsBatch round' (batch.1, waiting round') :=
  ⟨h.nodup, hnoted ▸ h.mem_iff, hnoted ▸ h.ordered, rfl⟩

lemma noted_concat (round : List Step) (s : Step) :
    noted (round ++ [s]) = noted round ++ s.file?.toList := by
  cases h : s.file? <;> simp [noted, List.filterMap_append, h]

/-- Nobody is both served and kept waiting, and nobody is neither. -/
lemma served_append_waiting (round : List Step) :
    served round ++ waiting round = round.filterMap Step.caller? := by
  rw [served, waiting, ← List.filterMap_append, List.takeWhile_append_dropWhile]

lemma noted_concat_record : noted (round ++ [.record file now]) = noted round ++ [file] :=
  noted_concat round _

lemma served_concat (round : List Step) (s : Step) :
    served (round ++ [s]) = served round ++ if noted round = [] then s.caller?.toList else [] := by
  induction round with
  | nil => cases s <;> rfl
  | cons r round ih =>
    cases r with
    | record file now => rfl
    | request caller => exact congrArg (caller :: ·) ih
    | take => exact ih

lemma waiting_concat (round : List Step) (s : Step) :
    waiting (round ++ [s]) =
      waiting round ++ if noted round = [] then [] else s.caller?.toList := by
  induction round with
  | nil => cases s <;> rfl
  | cons r round ih =>
    cases r with
    | record file now =>
      -- everyone who asks from here on waits
      have hall : (round ++ [s]).filterMap Step.caller? =
          round.filterMap Step.caller? ++ s.caller?.toList := by
        rw [List.filterMap_append]
        cases s <;> rfl
      exact hall
    | request caller => exact ih
    | take => exact ih

lemma lastTime?_concat (round : List Step) (s : Step) :
    lastTime? (round ++ [s]) = s.time?.or (lastTime? round) := by
  cases s <;> simp [lastTime?, Step.time?]

lemma waiting_eq_nil (h : noted round = []) : waiting round = [] := by
  induction round with
  | nil => rfl
  | cons r round ih =>
    cases r with
    | record file now => cases h
    | request caller => exact ih h
    | take => exact ih h

lemma lastTime?_eq_none_iff : lastTime? round = none ↔ noted round = [] := by
  rw [lastTime?, List.getLast?_eq_none_iff, noted, List.filterMap_eq_nil_iff,
    List.filterMap_eq_nil_iff]
  refine forall₂_congr fun s _ => ?_
  cases s <;> simp [Step.time?, Step.file?]

/-! ## One step -/

/-- The set stands as its round has left it. -/
structure Reflects (p : PendingSet) (quiet : ℕ) (round : List Step) : Prop where
  batch : IsBatch round (p.files, p.waiters)
  quiet : p.quiet = quiet
  last : p.last = lastTime? round
  urgent : p.urgent = true ↔ waiting round ≠ []

namespace Reflects

lemma empty (quiet : ℕ) : Reflects { quiet } quiet [] where
  batch := ⟨List.nodup_nil, fun _ => Iff.rfl, .nil, rfl⟩
  quiet := rfl
  last := rfl
  urgent := by simp [waiting]

lemma isEmpty_iff (h : p.Reflects quiet round) : p.files.isEmpty = true ↔ noted round = [] := by
  rw [List.isEmpty_iff, List.eq_nil_iff_forall_not_mem, List.eq_nil_iff_forall_not_mem]
  exact forall_congr' fun file => not_congr (h.batch.mem_iff file)

/-- A file that the round has noted already keeps its place, a new one comes behind all others. -/
lemma record (h : p.Reflects quiet round) (file : String) (now : ℕ) :
    (p.record file now).Reflects quiet (round ++ [.record file now]) := by
  have hwaiting : waiting (round ++ [.record file now]) = waiting round := by
    simp [waiting_concat, Step.caller?]
  have hold : p.files.Pairwise fun a b => (noted (round ++ [.record file now])).idxOf a <
      (noted (round ++ [.record file now])).idxOf b := by
    refine h.batch.ordered.imp_of_mem fun {a b} ha hb hab => ?_
    rw [noted_concat_record, List.idxOf_append_of_mem ((h.batch.mem_iff a).mp ha),
      List.idxOf_append_of_mem ((h.batch.mem_iff b).mp hb)]
    exact hab
  have hfiles : (p.record file now).files.Nodup ∧ (p.record file now).files.Pairwise fun a b =>
      (noted (round ++ [.record file now])).idxOf a <
        (noted (round ++ [.record file now])).idxOf b := by
    by_cases hfile : file ∈ p.files
    · have hkeeps : (p.record file now).files = p.files := by
        simp [PendingSet.record, p.mem_seen file, hfile]
      rw [hkeeps]
      exact ⟨h.batch.nodup, hold⟩
    · have hnew : (p.record file now).files = p.files ++ [file] := by
        simp [PendingSet.record, p.mem_seen file, hfile]
      have hnotNoted : file ∉ noted round := fun hmem => hfile ((h.batch.mem_iff file).mpr hmem)
      rw [hnew, List.nodup_append, List.pairwise_append]
      refine ⟨⟨h.batch.nodup, List.nodup_singleton file, ?_⟩, hold, List.pairwise_singleton _ _, ?_⟩
      · rintro other hother _ hlast rfl
        exact hfile (List.mem_singleton.mp hlast ▸ hother)
      · intro other hother _ hlast
        obtain rfl := List.mem_singleton.mp hlast
        have hbefore := List.idxOf_lt_length_of_mem ((h.batch.mem_iff other).mp hother)
        rw [noted_concat_record, List.idxOf_append_of_mem ((h.batch.mem_iff other).mp hother),
          List.idxOf_append_of_notMem hnotNoted]
        omega
  refine ⟨⟨hfiles.1, fun other => ?_, hfiles.2, ?_⟩, h.quiet, ?_, ?_⟩
  · rw [mem_files_record, noted_concat_record, List.mem_append, List.mem_singleton,
      h.batch.mem_iff, or_comm]
  · rw [hwaiting, ← h.batch.waiters]
    rfl
  · rw [lastTime?_concat]
    rfl
  · rw [hwaiting]
    exact h.urgent

/-- A caller is answered at once exactly if the round has noted nothing, and waits otherwise. -/
lemma request (h : p.Reflects quiet round) (caller : ℕ) :
    (p.request caller).1.Reflects quiet (round ++ [.request caller]) ∧
      ((p.request caller).2 = true ↔ noted round = []) := by
  have hnoted : noted (round ++ [.request caller]) = noted round := by
    simp [noted_concat, Step.file?]
  have hlast : p.last = lastTime? (round ++ [.request caller]) := by
    rw [lastTime?_concat, h.last]
    rfl
  have hfiles := h.batch.of_noted hnoted
  by_cases hempty : noted round = []
  · have hrequest : p.request caller = (p, true) := by
      rw [PendingSet.request, if_pos (h.isEmpty_iff.mpr hempty)]
    have hwaiting : waiting (round ++ [.request caller]) = waiting round := by
      simp [waiting_concat, hempty]
    rw [hwaiting, ← h.batch.waiters] at hfiles
    rw [hrequest]
    exact ⟨⟨hfiles, h.quiet, hlast, hwaiting ▸ h.urgent⟩, iff_of_true rfl hempty⟩
  · have hrequest : p.request caller =
        ({ p with waiters := p.waiters ++ [caller], urgent := true }, false) := by
      rw [PendingSet.request, if_neg (h.isEmpty_iff.not.mpr hempty)]
    have hwaiting : waiting (round ++ [.request caller]) = waiting round ++ [caller] := by
      simp [waiting_concat, hempty, Step.caller?]
    rw [hwaiting, ← h.batch.waiters] at hfiles
    rw [hrequest]
    exact ⟨⟨hfiles, h.quiet, hlast, iff_of_true rfl (by simp [hwaiting])⟩,
      iff_of_false Bool.false_ne_true hempty⟩

/-- What is taken is the batch of the round, and a new one begins. -/
lemma take (h : p.Reflects quiet round) :
    IsBatch round p.take.1 ∧ p.take.2.Reflects quiet [] := by
  refine ⟨h.batch, ?_⟩
  rw [PendingSet.take, h.quiet]
  exact empty quiet

/-- The size of a set is the number of different files of its round. -/
lemma size_eq (h : p.Reflects quiet round) : p.size = (noted round).toFinset.card := by
  have hsame : p.files.toFinset = (noted round).toFinset := by
    ext file
    rw [List.mem_toFinset, List.mem_toFinset]
    exact h.batch.mem_iff file
  rw [← hsame, List.toFinset_card_of_nodup h.batch.nodup]
  rfl

lemma size_eq_zero_iff (h : p.Reflects quiet round) : p.size = 0 ↔ noted round = [] := by
  rw [← h.isEmpty_iff, List.isEmpty_iff]
  exact List.length_eq_zero_iff

/-- The files are due at once if somebody waits for them, and otherwise when nothing has been
noted for the quiet time. -/
lemma deadline?_eq (h : p.Reflects quiet round) (now : ℕ) :
    p.deadline? now =
      if waiting round ≠ [] then some now else (lastTime? round).map (· + quiet) := by
  rw [deadline?]
  by_cases hempty : noted round = []
  · rw [if_pos (h.isEmpty_iff.mpr hempty), if_neg (not_not.mpr (waiting_eq_nil hempty)),
      lastTime?_eq_none_iff.mpr hempty]
    rfl
  · rw [if_neg (h.isEmpty_iff.not.mpr hempty), h.last, h.quiet]
    exact if_congr h.urgent rfl rfl

/-- Something is due at some time exactly if something waits. -/
lemma isSome_deadline?_iff (h : p.Reflects quiet round) (now : ℕ) :
    (p.deadline? now).isSome = true ↔ p.size ≠ 0 := by
  rw [Ne, h.size_eq_zero_iff, h.deadline?_eq]
  split
  · next hwaiting => exact iff_of_true rfl fun hempty => hwaiting (waiting_eq_nil hempty)
  · rw [Option.isSome_map, Option.isSome_iff_ne_none, Ne, lastTime?_eq_none_iff]

end Reflects

/-! ## Any number of steps -/

lemma rounds_concat_take (steps : List Step) : rounds (steps ++ [.take]) = rounds steps ++ [[]] :=
  List.splitOnP_append_cons steps [] rfl

lemma exists_rounds_concat {s : Step} (hs : s.isTake = false) (steps : List Step) :
    ∃ finished current, rounds steps = finished ++ [current] ∧
      rounds (steps ++ [s]) = finished ++ [current ++ [s]] := by
  induction steps with
  | nil => exact ⟨[], [], rfl, List.splitOnP_eq_singleton (by simpa using hs)⟩
  | cons r steps ih =>
    obtain ⟨finished, current, hrounds, hconcat⟩ := ih
    simp only [rounds] at hrounds hconcat
    simp only [rounds, List.cons_append, List.splitOnP_cons_eq_if_modifyHead, hrounds, hconcat]
    split
    · exact ⟨[] :: finished, current, rfl, rfl⟩
    · cases finished with
      | nil => exact ⟨[], r :: current, rfl, rfl⟩
      | cons first finished => exact ⟨(r :: first) :: finished, current, rfl, rfl⟩

/-- What has come of some steps: a batch for every round that is finished, an answer at once for
everyone who asked before anything was noted, and a set that stands as the last round left it. -/
structure Follows (h : History) (quiet : ℕ) (finished : List (List Step)) (current : List Step) :
    Prop where
  batches : List.Forall₂ IsBatch finished h.batches
  answered : h.answered = (finished ++ [current]).flatMap served
  pending : h.pending.Reflects quiet current

variable {h : History} {finished : List (List Step)} {current : List Step}

namespace Follows

lemma record (hh : Follows h quiet finished current) (file : String) (now : ℕ) :
    Follows (h.step (.record file now)) quiet finished (current ++ [.record file now]) := by
  have hserved : served (current ++ [.record file now]) = served current := by
    simp [served_concat, Step.caller?]
  have hanswered : h.answered =
      (finished ++ [current ++ [Step.record file now]]).flatMap served := by
    rw [hh.answered, List.flatMap_append, List.flatMap_append, List.flatMap_singleton,
      List.flatMap_singleton, hserved]
  exact ⟨hh.batches, hanswered, hh.pending.record file now⟩

lemma request (hh : Follows h quiet finished current) (caller : ℕ) :
    Follows (h.step (.request caller)) quiet finished (current ++ [.request caller]) := by
  obtain ⟨hpending, hanswered⟩ := hh.pending.request caller
  refine ⟨hh.batches, ?_, hpending⟩
  have hstep : (h.step (.request caller)).answered =
      if noted current = [] then h.answered ++ [caller] else h.answered :=
    if_congr hanswered rfl rfl
  rw [hstep, hh.answered, List.flatMap_append, List.flatMap_append, List.flatMap_singleton,
    List.flatMap_singleton, served_concat]
  split
  · exact List.append_assoc ..
  · rw [List.append_nil]

lemma take (hh : Follows h quiet finished current) :
    Follows (h.step .take) quiet (finished ++ [current]) [] := by
  obtain ⟨hbatch, hempty⟩ := hh.pending.take
  refine ⟨List.rel_append hh.batches (.cons hbatch .nil), ?_, hempty⟩
  rw [List.flatMap_append, List.flatMap_singleton]
  exact hh.answered.trans (List.append_nil _).symm

end Follows

lemma exists_follows (quiet : ℕ) (steps : List Step) :
    ∃ finished current, rounds steps = finished ++ [current] ∧
      Follows (.run quiet steps) quiet finished current := by
  induction steps using List.reverseRecOn with
  | nil => exact ⟨[], [], rfl, .nil, rfl, .empty quiet⟩
  | append_singleton steps s ih =>
    obtain ⟨finished, current, hrounds, hfollows⟩ := ih
    have hstep : History.run quiet (steps ++ [s]) = (History.run quiet steps).step s :=
      List.foldl_concat ..
    have hother (hs : s.isTake = false) : rounds (steps ++ [s]) = finished ++ [current ++ [s]] := by
      obtain ⟨finished', current', hrounds', hconcat⟩ := exists_rounds_concat hs steps
      obtain ⟨rfl, hlast⟩ := List.append_inj' (hrounds.symm.trans hrounds') rfl
      rw [hconcat, List.singleton_inj.mp hlast]
    rw [hstep]
    cases s with
    | record file now => exact ⟨finished, _, hother rfl, hfollows.record file now⟩
    | request caller => exact ⟨finished, _, hother rfl, hfollows.request caller⟩
    | take =>
      refine ⟨finished ++ [current], [], ?_, hfollows.take⟩
      rw [rounds_concat_take, hrounds]

/-- Whatever is noted, asked for and taken, in any order: every round that is finished has its
batch, and the next batch is that of the round that goes on. Everyone who asks is answered at
once or goes with the batch of the round. The size is the number of different files of the round,
and they are due exactly if there are any, at once if somebody waits for them. -/
theorem rounds_decide_batches (quiet : ℕ) (steps : List Step) :
    ∃ finished current, rounds steps = finished ++ [current] ∧
      List.Forall₂ IsBatch finished (History.run quiet steps).batches ∧
      IsBatch current (History.run quiet steps).pending.take.1 ∧
      (History.run quiet steps).answered = (rounds steps).flatMap served ∧
      (∀ round ∈ rounds steps,
        served round ++ waiting round = round.filterMap Step.caller?) ∧
      (History.run quiet steps).pending.size = (noted current).toFinset.card ∧
      ∀ now, (((History.run quiet steps).pending.deadline? now).isSome = true ↔
          (History.run quiet steps).pending.size ≠ 0) ∧
        (History.run quiet steps).pending.deadline? now =
          if waiting current ≠ [] then some now else (lastTime? current).map (· + quiet) := by
  obtain ⟨finished, current, hrounds, hfollows⟩ := exists_follows quiet steps
  refine ⟨finished, current, hrounds, hfollows.batches, hfollows.pending.take.1, ?_,
    fun round _ => served_append_waiting round, hfollows.pending.size_eq, fun now => ?_⟩
  · rw [hrounds, hfollows.answered]
  · exact ⟨hfollows.pending.isSome_deadline?_iff now, hfollows.pending.deadline?_eq now⟩

end PendingSet

end CodeSearch
