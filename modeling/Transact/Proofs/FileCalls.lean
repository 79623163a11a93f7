/-
# Transact.Proofs.FileCalls -- transactions on files, interleaved and one after another

A `FileCall` is one call of a program on a transaction that works on files: it opens one, works
through a handle, or ends the transaction.  A `Session` is the shared world with all transactions on
it; `Session.run` makes the calls of a schedule in its order and notes every answer and every commit
that reached the apply phase.  `serially` lets whole transactions run one after another.

A released transaction refuses every call in the same words and nothing happens
(`perform_released`), and which calls release one does not depend on the world (`performAll_phase`).
-/
import Transact.Participant.Builtin
import Transact.Proofs.Ending
import Transact.Proofs.Turns

namespace Transact

set_option autoImplicit false

/-! ## Handles -/

namespace Files

variable {s : Files} {h : FileHandle} {f : OpenFile}

theorem handle_of_open (opened : s.openFile h = .ok f) : s.handles.get? h.number = some f := by
  unfold openFile at opened
  cases found : s.handles.get? h.number with
  | none => simp [found] at opened
  | some f' =>
      simp only [found] at opened
      split at opened <;> cases opened
      rfl

theorem open_of_readable (allowed : s.checkReadable h = .ok f) : s.openFile h = .ok f := by
  unfold checkReadable at allowed
  rcases opened : s.openFile h with e | f' <;> simp only [opened, reduceCtorEq] at allowed
  · split at allowed
    · cases allowed
    · rcases checked : s.checkNotRemoved f'.id with e | _ <;> rw [checked] at allowed <;>
        cases allowed
      rfl

theorem open_of_writable (allowed : s.checkWritable h = .ok f) : s.openFile h = .ok f := by
  unfold checkWritable at allowed
  rcases opened : s.openFile h with e | f' <;> simp only [opened, reduceCtorEq] at allowed
  · split at allowed
    · cases allowed
    · rcases checked : s.checkNotRemoved f'.id with e | _ <;> rw [checked] at allowed <;>
        cases allowed
      rfl

end Files

/-! ## Calls -/

/-- Work on the files of a transaction. -/
inductive FileWork where
  | openPath (path : String) (flags : OpenFlags)
  | read (handle : FileHandle) (len : Nat)
  | write (handle : FileHandle) (bytes : Bytes)
  | seek (handle : FileHandle) (pos : SeekFrom)
  | tell (handle : FileHandle)
  | close (handle : FileHandle)

/-- What work gives back. -/
inductive FileValue where
  | handle (h : FileHandle)
  | bytes (b : Bytes)
  | number (n : Nat)
  | done

/-- Do the work. -/
def FileWork.perform (s : Files) (w : World) : FileWork → Except Error FileValue × Files × World
  | .openPath path flags => let r := s.openPath path flags w; (r.1.map .handle, r.2)
  | .read h len => let r := s.read h len w; (r.1.map .bytes, r.2)
  | .write h bytes => let r := s.write h bytes w; (r.1.map .number, r.2)
  | .seek h pos => let r := s.seek h pos w; (r.1.map .number, r.2)
  | .tell h => let r := s.tell h w; (r.1.map .number, r.2)
  | .close h => let r := s.close h w; (r.1.map fun _ => .done, r.2)

/-- A call on a transaction that works on files. -/
inductive FileCall where
  | work (job : FileWork)
  | commit
  | abort
  | drop

/-- What a call came to. -/
inductive FileAnswer where
  | worked (result : Except Error FileValue)
  | ended (result : Except Error Outcome)
  | dropped

namespace FileCall

/-- Make one call. -/
def perform (t : Transaction Builtin) (w : World) :
    FileCall → FileAnswer × Transaction Builtin × World
  | .work job =>
      let r := Transaction.withModule Builtin.filesFacet (fun _ s w => job.perform s w) t w
      (.worked r.1, r.2)
  | .commit => let r := t.commit w; (.ended r.1, r.2)
  | .abort => let r := t.abort w; (.ended r.1, r.2)
  | .drop => (.dropped, t.drop w)

/-- Make calls one after another. -/
def performAll : List FileCall → Transaction Builtin → World →
    List FileAnswer × Transaction Builtin × World
  | [], t, w => ([], t, w)
  | call :: rest, t, w =>
      let (answer, t, w) := call.perform t w
      let (answers, t, w) := performAll rest t w
      (answer :: answers, t, w)

/-- `true` for a call that ends the transaction. -/
def ends : FileCall → Bool
  | .work _ => false
  | _ => true

/-- What a released transaction answers. -/
def refusal : FileCall → FileAnswer
  | .work _ => .worked (.error (Transaction.notActive "use a module" .released))
  | .commit => .ended (.error (Transaction.notActive "commit" .released))
  | .abort => .ended (.error (Transaction.notActive "abort" .released))
  | .drop => .dropped

theorem performAll_eq (calls : List FileCall) (t : Transaction Builtin) (w : World) :
    performAll calls t w = callAll (fun call t w => call.perform t w) calls t w := by
  induction calls generalizing t w with
  | nil => rfl
  | cons call rest ih => simp only [performAll, callAll, ih]

theorem performAll_snoc (calls : List FileCall) (last : FileCall) (t : Transaction Builtin)
    (w : World) :
    performAll (calls ++ [last]) t w =
      let r := performAll calls t w
      let s := last.perform r.2.1 r.2.2
      (r.1 ++ [s.1], s.2) := by
  simp only [performAll_eq, callAll_snoc]

end FileCall

/-! ## Sessions -/

/-- Transactions at work on one world. -/
structure Session where
  world : World
  transactions : TxId → Transaction Builtin
  /-- Those whose commit reached the apply phase, in that order. -/
  applied : List TxId := []
  /-- What they were answered, oldest first. -/
  answers : List (TxId × FileAnswer) := []

/-- A transaction at its beginning. -/
def newTransaction (config : TxId → Config) (who : TxId) : Transaction Builtin :=
  { id := who, config := config who }

namespace Session

def start (config : TxId → Config) (w : World) : Session :=
  { world := w, transactions := newTransaction config }

/-- Let one transaction make a call. -/
def step (s : Session) (entry : TxId × FileCall) : Session :=
  let (who, call) := entry
  let before := s.transactions who
  let (answer, t, w) := call.perform before s.world
  { world := w
    transactions := fun other => if other = who then t else s.transactions other
    applied := if .applying ∈ t.visited ∧ .applying ∉ before.visited then s.applied ++ [who]
      else s.applied
    answers := s.answers ++ [(who, answer)] }

/-- Make the calls of a schedule in its order. -/
def run (s : Session) (schedule : List (TxId × FileCall)) : Session := schedule.foldl step s

end Session

/-- Let transactions run one after another, each making all its calls; with the answers of each. -/
def serially (config : TxId → Config) (calls : TxId → List FileCall) :
    List TxId → World → List (List FileAnswer) × World
  | [], w => ([], w)
  | who :: rest, w =>
      let (answers, _, w) := FileCall.performAll (calls who) (newTransaction config who) w
      let (others, w) := serially config calls rest w
      (answers :: others, w)

/-- The paths a schedule opens. -/
def openedIn (schedule : List (TxId × FileCall)) (path : String) : Prop :=
  ∃ who flags, (who, .work (.openPath path flags)) ∈ schedule

/-! ## The end of a transaction -/

namespace Transaction

variable {P W : Type} [Participant P W]

theorem finishAndRelease_phase {t : Transaction P} (phase : t.phase.canAdvance .finishing)
    (locked : Nat) (outcome : Outcome) (w : W) :
    (t.finishAndRelease locked outcome w).2.1.phase = .released := by
  simp only [finishAndRelease, advance, phase, if_true]
  rfl

theorem undoAndRelease_phase {t : Transaction P} (phase : t.phase.canAdvance .undoing)
    (locked : Nat) (reason : AbortReason) (w : W) :
    (t.undoAndRelease locked reason w).2.1.phase = .released := by
  simp only [undoAndRelease, advance, phase, if_true]
  exact finishAndRelease_phase rfl _ _ _

theorem commit_phase {t : Transaction P} (active : t.phase = .active) (w : W) :
    (t.commit w).2.1.phase = .released := by
  simp only [commit, checkActive, active, if_true]
  split
  · exact undoAndRelease_phase rfl _ _ _
  · simp only [validateAndRelease, advance, Phase.canAdvance, if_true]
    split
    · simp only [applyAndRelease, advance, Phase.canAdvance, if_true]
      exact finishAndRelease_phase rfl _ _ _
    · exact undoAndRelease_phase rfl _ _ _

theorem abort_phase {t : Transaction P} (active : t.phase = .active) (w : W) :
    (t.abort w).2.1.phase = .released := by
  simp only [abort, checkActive, active, if_true]
  exact undoAndRelease_phase (by rw [active]; rfl) _ _ _

theorem drop_phase {t : Transaction P} (active : t.phase = .active) (w : W) :
    (t.drop w).1.phase = .released := by
  simp only [drop, isActive, active, beq_self_eq_true, if_true]
  exact undoAndRelease_phase (by rw [active]; rfl) _ _ _

omit [Participant P W] in
/-- Work through a participant goes on in the same phase. -/
theorem withModule_phase {M α : Type} (facet : Facet P M)
    (f : Context → M → W → Except Error α × M × W) (t : Transaction P) (w : W) :
    (withModule facet f t w).2.1.phase = t.phase := by
  unfold withModule
  split
  · rfl
  · split
    · rfl
    · rename_i t' ensured
      have phase : t'.phase = t.phase := by
        unfold ensure at ensured
        split at ensured
        · cases ensured
          rfl
        · split at ensured
          · cases ensured
          · cases ensured
            rfl
      split
      · exact phase
      · exact phase

end Transaction

namespace FileCall

/-- A released transaction answers every call in the same way, and nothing happens. -/
theorem perform_released {t : Transaction Builtin} (released : t.phase = .released)
    (call : FileCall) (w : World) : call.perform t w = (call.refusal, t, w) := by
  cases call <;>
    simp only [perform, refusal, Transaction.withModule_released released,
      Transaction.commit_released released, Transaction.abort_released released,
      Transaction.drop_released released]

theorem perform_phase {t : Transaction Builtin} (active : t.phase = .active) (call : FileCall)
    (w : World) :
    (call.perform t w).2.1.phase = if call.ends then .released else .active := by
  cases call with
  | work job => exact (Transaction.withModule_phase ..).trans active
  | commit => exact Transaction.commit_phase active w
  | abort => exact Transaction.abort_phase active w
  | drop => exact Transaction.drop_phase active w

/-- Whether calls release a transaction does not depend on the world they are made in. -/
theorem performAll_phase (calls : List FileCall) {t : Transaction Builtin}
    (active : t.phase = .active) (w : World) :
    (performAll calls t w).2.1.phase = if calls.any ends then .released else .active := by
  have step (call : FileCall) (t : Transaction Builtin) (w : World) (active : t.phase = .active) :
      if call.ends then (call.perform t w).2.1.phase = .released
      else (call.perform t w).2.1.phase = .active := by
    rw [perform_phase active]
    cases call.ends <;> rfl
  have ended := callAll_ends step (fun call t w released => perform_released released call w) calls
    active w
  rw [performAll_eq]
  cases last : calls.any ends <;> rw [last] at ended <;> exact ended

end FileCall

end Transact
