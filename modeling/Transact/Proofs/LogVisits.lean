/-
# Transact.Proofs.LogVisits -- each record is acted on at most once

A callback is *watched* when every visit is noted down with what came of it; that changes nothing else.
Performing a log visits its records in order and stops at the first that fails (`applyEach_watch`),
reverting one visits all of them from the newest to the oldest (`undoEach_watch`), and both leave the log
empty.  So the calls alone say what is in the log (`run_present`), and every call moves records from the
log to the visits, or drops them, and puts none back (`LogCall.perform_visits`).

Main statement: `run_visits_once`.
-/
import Mathlib.Data.List.Perm.Subperm
import Transact.Log

namespace Transact.DeferredLog

set_option autoImplicit false

variable {P S : Type}

/-! ## Watching -/

/-- A state and the visits so far, each with what came of it, oldest first. -/
structure Watched (P S : Type) where
  state : S
  visits : List (Record P × Except Error Unit) := []

/-- The records that were visited. -/
def Watched.records (w : Watched P S) : List (Record P) := w.visits.map Prod.fst

/-- Act on a record and note the visit. -/
def watch (act : Record P → S → Except Error Unit × S) (r : Record P) (w : Watched P S) :
    Except Error Unit × Watched P S :=
  let (answer, state) := act r w.state
  (answer, { state, visits := w.visits ++ [(r, answer)] })

/-- Visits of which none fails. -/
def unfailing (rs : List (Record P)) : List (Record P × Except Error Unit) :=
  rs.map fun r => (r, .ok ())

/-- Visits in the order of the records up to the first that fails, which is the answer. -/
inductive UpToFailure (rs : List (Record P)) :
    List (Record P × Except Error Unit) → Except Error Unit → Prop where
  | all : UpToFailure rs (unfailing rs) (.ok ())
  | failed (done : List (Record P)) (r : Record P) (rest : List (Record P)) (e : Error)
      (split : rs = done ++ r :: rest) : UpToFailure rs (unfailing done ++ [(r, .error e)]) (.error e)

/-- Visits to all records in their order; the first that fails is the answer. -/
inductive PastFailures (rs : List (Record P)) :
    List (Record P × Except Error Unit) → Except Error Unit → Prop where
  | all : PastFailures rs (unfailing rs) (.ok ())
  | failed (done : List (Record P)) (r : Record P) (e : Error)
      (rest : List (Record P × Except Error Unit)) (split : rs = done ++ r :: rest.map Prod.fst) :
      PastFailures rs (unfailing done ++ (r, .error e) :: rest) (.error e)

theorem UpToFailure.cons {r : Record P} {rs : List (Record P)}
    {visits : List (Record P × Except Error Unit)} {answer : Except Error Unit}
    (later : UpToFailure rs visits answer) :
    UpToFailure (r :: rs) ((r, .ok ()) :: visits) answer := by
  cases later with
  | all => exact .all
  | failed done x rest e split => exact .failed (r :: done) x rest e (by rw [split, List.cons_append])

theorem PastFailures.concat {r : Record P} {rs : List (Record P)}
    {visits : List (Record P × Except Error Unit)} {earlier answer : Except Error Unit}
    (past : PastFailures rs visits earlier) :
    PastFailures (rs ++ [r]) (visits ++ [(r, answer)])
      (match earlier with
        | .ok () => answer
        | .error e => .error e) := by
  cases past with
  | all =>
      cases answer with
      | ok _ =>
          have visits : unfailing rs ++ [(r, .ok ())] = unfailing (rs ++ [r]) := by
            rw [unfailing, unfailing, List.map_append, List.map_cons, List.map_nil]
          rw [visits]
          exact .all
      | error e => exact .failed rs r e [] rfl
  | failed done x e rest split =>
      have visits : unfailing done ++ (x, .error e) :: rest ++ [(r, answer)] =
          unfailing done ++ (x, .error e) :: (rest ++ [(r, answer)]) := by
        rw [List.append_assoc, List.cons_append]
      rw [visits]
      refine .failed done x e _ ?_
      rw [split, List.append_assoc, List.cons_append, List.map_append, List.map_cons, List.map_nil]

/-- **Performing records** visits them in order up to the first that fails. -/
theorem applyEach_watch (act : Record P → S → Except Error Unit × S) (rs : List (Record P))
    (w : Watched P S) :
    let r := applyEach (watch act) rs w
    applyEach act rs w.state = (r.1, r.2.state) ∧
      ∃ visits, r.2.visits = w.visits ++ visits ∧ UpToFailure rs visits r.1 := by
  induction rs generalizing w with
  | nil => exact ⟨rfl, [], (List.append_nil _).symm, .all⟩
  | cons x rest ih =>
      simp only [applyEach, watch]
      rcases act x w.state with ⟨e | _, state⟩
      · exact ⟨rfl, [(x, .error e)], rfl, .failed [] x rest e rfl⟩
      · obtain ⟨same, visits, noted, upTo⟩ := ih ⟨state, w.visits ++ [(x, .ok ())]⟩
        refine ⟨same, (x, .ok ()) :: visits, ?_, upTo.cons⟩
        rw [noted, List.append_assoc, List.singleton_append]

/-- **Reverting records** visits all of them, the last first. -/
theorem undoEach_watch (act : Record P → S → Except Error Unit × S) (rs : List (Record P))
    (w : Watched P S) :
    let r := undoEach (watch act) rs w
    undoEach act rs w.state = (r.1, r.2.state) ∧
      ∃ visits, r.2.visits = w.visits ++ visits ∧ PastFailures rs.reverse visits r.1 := by
  induction rs generalizing w with
  | nil => exact ⟨rfl, [], (List.append_nil _).symm, .all⟩
  | cons x rest ih =>
      obtain ⟨same, visits, noted, past⟩ := ih w
      simp only [undoEach, same, List.reverse_cons]
      generalize undoEach (watch act) rest w = r at noted past
      rcases r with ⟨e | _, w'⟩
      · refine ⟨rfl, visits ++ [(x, (act x w'.state).1)], ?_, past.concat⟩
        simp only [watch]
        rw [noted, List.append_assoc]
      · refine ⟨rfl, visits ++ [(x, (act x w'.state).1)], ?_, past.concat⟩
        simp only [watch]
        rw [noted, List.append_assoc]

/-! ## Whole logs -/

/-- **Performing a log** visits what it holds in order up to the first failure and leaves it empty. -/
theorem applyAll_watch (log : DeferredLog P) (act : Record P → S → Except Error Unit × S)
    (w : Watched P S) :
    let r := log.applyAll (watch act) w
    log.applyAll act w.state = (r.1, r.2.1, r.2.2.state) ∧ r.2.1 = {} ∧
      ∃ visits answer, r.2.2.visits = w.visits ++ visits ∧
        UpToFailure log.records visits answer ∧ r.1 = answer.map fun () => log.size := by
  obtain ⟨same, visits, noted, upTo⟩ := applyEach_watch act log.records w
  simp only [applyAll, same]
  generalize applyEach (watch act) log.records w = r at noted upTo
  rcases r with ⟨e | _, w'⟩
  · exact ⟨rfl, rfl, visits, .error e, noted, upTo, rfl⟩
  · exact ⟨rfl, rfl, visits, .ok (), noted, upTo, rfl⟩

/-- **Reverting a log** visits what it holds from the newest to the oldest and leaves it empty. -/
theorem undoAll_watch (log : DeferredLog P) (act : Record P → S → Except Error Unit × S)
    (w : Watched P S) :
    let r := log.undoAll (watch act) w
    log.undoAll act w.state = (r.1, r.2.1, r.2.2.state) ∧ r.2.1 = {} ∧
      ∃ visits answer, r.2.2.visits = w.visits ++ visits ∧
        PastFailures log.records.reverse visits answer ∧ r.1 = answer.map fun () => log.size := by
  obtain ⟨same, visits, noted, past⟩ := undoEach_watch act log.records w
  simp only [undoAll, same]
  generalize undoEach (watch act) log.records w = r at noted past
  rcases r with ⟨e | _, w'⟩
  · exact ⟨rfl, rfl, visits, .error e, noted, past, rfl⟩
  · exact ⟨rfl, rfl, visits, .ok (), noted, past, rfl⟩

/-! ## Runs -/

/-- One call on a log; every call has a callback of its own. -/
inductive LogCall (P S : Type) where
  | append (r : Record P)
  | apply (act : Record P → S → Except Error Unit × S)
  | undo (act : Record P → S → Except Error Unit × S)
  | discard

/-- The records that a call appends. -/
def LogCall.appended : LogCall P S → List (Record P)
  | .append r => [r]
  | .apply _ | .undo _ | .discard => []

def LogCall.perform : LogCall P S → DeferredLog P → Watched P S → DeferredLog P × Watched P S
  | .append r, log, w => (log.append r, w)
  | .apply act, log, w => (log.applyAll (watch act) w).2
  | .undo act, log, w => (log.undoAll (watch act) w).2
  | .discard, log, w => (log.discard.2, w)

def run : List (LogCall P S) → DeferredLog P → Watched P S → DeferredLog P × Watched P S
  | [], log, w => (log, w)
  | call :: rest, log, w => let r := call.perform log w; run rest r.1 r.2

/-- What a call leaves in a log that holds `before`: a record that is appended comes last, and any other
call leaves nothing. -/
def LogCall.leaves (before : List (Record P)) : LogCall P S → List (Record P)
  | .append r => before ++ [r]
  | .apply _ | .undo _ | .discard => []

/-- What calls leave in a log that holds `before`: the records appended since it was emptied. -/
def present (before : List (Record P)) (calls : List (LogCall P S)) : List (Record P) :=
  calls.foldl LogCall.leaves before

theorem LogCall.perform_leaves (call : LogCall P S) (log : DeferredLog P) (w : Watched P S) :
    (call.perform log w).1.records = call.leaves log.records := by
  cases call with
  | append r => rfl
  | apply act => exact congrArg records (log.applyAll_watch act w).2.1
  | undo act => exact congrArg records (log.undoAll_watch act w).2.1
  | discard => rfl

/-- **What is in a log** can be told from the calls, whatever the callbacks answered. -/
theorem run_present (calls : List (LogCall P S)) (log : DeferredLog P) (w : Watched P S) :
    (run calls log w).1.records = present log.records calls := by
  induction calls generalizing log w with
  | nil => rfl
  | cons call rest ih =>
      refine (ih (call.perform log w).1 (call.perform log w).2).trans ?_
      rw [call.perform_leaves]
      rfl

@[simp] theorem map_fst_unfailing (rs : List (Record P)) : (unfailing rs).map Prod.fst = rs := by
  simp [unfailing, Function.comp_def]

theorem UpToFailure.records_prefix {rs : List (Record P)}
    {visits : List (Record P × Except Error Unit)} {answer : Except Error Unit}
    (upTo : UpToFailure rs visits answer) : visits.map Prod.fst <+: rs := by
  cases upTo with
  | all => exact (map_fst_unfailing rs).symm ▸ List.prefix_rfl
  | failed done x rest e split =>
      refine ⟨rest, ?_⟩
      rw [split, List.map_append, map_fst_unfailing, List.append_assoc]
      rfl

theorem PastFailures.records_eq {rs : List (Record P)}
    {visits : List (Record P × Except Error Unit)} {answer : Except Error Unit}
    (past : PastFailures rs visits answer) : visits.map Prod.fst = rs := by
  cases past with
  | all => exact map_fst_unfailing rs
  | failed done x e rest split => rw [split, List.map_append, map_fst_unfailing, List.map_cons]

/-- **One call** visits or drops what the log holds, and holds nothing new but what it appends. -/
theorem LogCall.perform_visits (call : LogCall P S) (log : DeferredLog P) (w : Watched P S) :
    let r := call.perform log w
    ∃ visits, r.2.visits = w.visits ++ visits ∧
      (visits.map Prod.fst ++ r.1.records).Subperm (log.records ++ call.appended) := by
  cases call with
  | append r => exact ⟨[], (List.append_nil _).symm, .refl _⟩
  | apply act =>
      obtain ⟨-, empty, visits, answer, noted, upTo, -⟩ := log.applyAll_watch act w
      refine ⟨visits, noted, ?_⟩
      simp only [perform, empty, appended, List.append_nil]
      exact upTo.records_prefix.sublist.subperm
  | undo act =>
      obtain ⟨-, empty, visits, answer, noted, past, -⟩ := log.undoAll_watch act w
      refine ⟨visits, noted, ?_⟩
      simp only [perform, empty, appended, List.append_nil, past.records_eq]
      exact (List.reverse_perm _).subperm
  | discard => exact ⟨[], (List.append_nil _).symm, List.nil_subperm⟩

/-- **A run** visits nothing but what was in the log and what it appends, none of it twice, and nothing
that is in the log at its end. -/
theorem run_visits (calls : List (LogCall P S)) (log : DeferredLog P) (w : Watched P S) :
    let r := run calls log w
    ∃ visits, r.2.visits = w.visits ++ visits ∧
      (visits.map Prod.fst ++ r.1.records).Subperm
        (log.records ++ calls.flatMap LogCall.appended) := by
  induction calls generalizing log w with
  | nil =>
      refine ⟨[], (List.append_nil _).symm, ?_⟩
      rw [List.flatMap_nil, List.append_nil]
      exact .refl _
  | cons call rest ih =>
      obtain ⟨first, noted, moved⟩ := call.perform_visits log w
      obtain ⟨later, notedLater, movedLater⟩ := ih (call.perform log w).1 (call.perform log w).2
      refine ⟨first ++ later, ?_, ?_⟩
      · simp only [run]
        rw [notedLater, noted, List.append_assoc]
      · rw [List.map_append, List.append_assoc, List.flatMap_cons, ← List.append_assoc log.records]
        refine ((List.subperm_append_left (first.map Prod.fst)).2 movedLater).trans ?_
        rw [← List.append_assoc]
        exact (List.subperm_append_right _).2 moved

/-- **Each record is acted on at most once.**  Over a whole run the records that are visited, and those
in the log at its end, are among those that were in the log and those that were appended, each as often
at most: records that are told apart are visited once at most.  At its end, as at any other point, the
log holds what was appended since it was emptied, and can be performed or reverted, whatever the callback
answers.  Performing it visits its records in
the order they were appended up to and including the first that fails; reverting it visits all of them
from the newest to the oldest; the answer is the first failure, or the number of records, and the log is
empty then.  An empty log visits nothing, and whatever is called on it visits only what is appended
from then on. -/
theorem run_visits_once (calls : List (LogCall P S)) (log : DeferredLog P) (s : S) :
    let r := run calls log { state := s }
    (r.2.records ++ r.1.records).Subperm (log.records ++ calls.flatMap LogCall.appended) ∧
    ((log.records ++ calls.flatMap LogCall.appended).Nodup → r.2.records.Nodup) ∧
    r.1.records = present log.records calls ∧
    (∀ (act : Record P → S → Except Error Unit × S) (now : S),
      (let performed := r.1.applyAll (watch act) { state := now }
        ∃ answer, UpToFailure r.1.records performed.2.2.visits answer ∧
          r.1.applyAll act now = (answer.map fun () => r.1.size, {}, performed.2.2.state)) ∧
      (let reverted := r.1.undoAll (watch act) { state := now }
        ∃ answer, PastFailures r.1.records.reverse reverted.2.2.visits answer ∧
          r.1.undoAll act now = (answer.map fun () => r.1.size, {}, reverted.2.2.state)) ∧
      ∀ w : Watched P S, ({} : DeferredLog P).applyAll (watch act) w = (.ok 0, {}, w) ∧
        ({} : DeferredLog P).undoAll (watch act) w = (.ok 0, {}, w)) ∧
    ∀ (later : List (LogCall P S)) (now : S),
      (run later {} { state := now }).2.records.Subperm (later.flatMap LogCall.appended) := by
  have visited (calls : List (LogCall P S)) (log : DeferredLog P) (s : S) :
      ((run calls log { state := s }).2.records ++ (run calls log { state := s }).1.records).Subperm
        (log.records ++ calls.flatMap LogCall.appended) := by
    obtain ⟨visits, noted, moved⟩ := run_visits calls log { state := s }
    rw [Watched.records, noted]
    exact moved
  refine ⟨visited calls log s, ?_, run_present calls log { state := s }, ?_, ?_⟩
  · intro apart
    obtain ⟨arranged, same, part⟩ := visited calls log s
    exact (List.nodup_append.1 (same.nodup_iff.1 (part.nodup apart))).1
  · intro act now
    generalize (run calls log { state := s }).1 = log
    refine ⟨?_, ?_, fun w => ⟨rfl, rfl⟩⟩
    · obtain ⟨same, empty, visits, answer, noted, upTo, came⟩ :=
        log.applyAll_watch act { state := now }
      refine ⟨answer, ?_, ?_⟩
      · rw [noted]
        exact upTo
      · rw [same, empty, came]
    · obtain ⟨same, empty, visits, answer, noted, past, came⟩ :=
        log.undoAll_watch act { state := now }
      refine ⟨answer, ?_, ?_⟩
      · rw [noted]
        exact past
      · rw [same, empty, came]
  · intro later now
    exact (List.sublist_append_left _ _).subperm.trans (visited later {} now)

/-- A failure while performing drops what is left; what was appended since is reverted. -/
theorem run_visits_once_mixed :
    let record (n : Nat) : Record Nat := .deferred (.named "log") n
    let act (r : Record Nat) (count : Nat) : Except Error Unit × Nat :=
      (if r.payload = 1 then .error (.of .ioError "one") else .ok (), count + 1)
    let calls : List (LogCall Nat Nat) := [.append (record 0), .append (record 1), .append (record 2),
      .apply act, .append (record 3), .append (record 4), .undo act, .undo act, .append (record 5)]
    let r := run calls {} { state := 0 }
    r.2.records = [record 0, record 1, record 4, record 3] ∧ r.2.state = 4 ∧
      r.1.records = [record 5] ∧ r.2.records.Nodup := by
  intro record act calls r
  have apart : (({} : DeferredLog Nat).records ++ calls.flatMap LogCall.appended).Nodup := by decide
  exact ⟨rfl, rfl, rfl, (run_visits_once calls {} 0).2.1 apart⟩

end Transact.DeferredLog
