/-
# Transact.Proofs.ManagerPrograms -- programs that work with one manager

An `Office` is a manager together with the transactions that were begun with it and are not released
yet.  A `Dealing` is one thing a program can do there, and an `Errand` is a program: it deals, looks at
everything but the listeners, and goes on as it sees fit.

`Errand.run` performs a body in one attempt after another, dealing by dealing.  Main statement:
`Errand.run_exec`.  It is the run of the manager, whatever the body does besides, other runs included.
-/
import Transact.Proofs.Readiness
import Transact.Proofs.Retrying

namespace Transact

set_option autoImplicit false

variable {P W B L α β : Type}

/-! ## Dealings -/

/-- A manager, and what was begun with it. -/
structure Office (P W B : Type) where
  manager : Manager W B
  /-- The transactions that are not released, under their serials. -/
  pending : Table Nat (Transaction P) := {}

/-- What a program can do with a manager. -/
inductive Dealing (P W L : Type) : Type 1 where
  | begin (label : String)
  /-- Begin the transaction of an attempt. -/
  | enter
  | use (n : Nat) (use : Use P W)
  /-- Count a retry. -/
  | retry
  /-- Do something past all transactions. -/
  | outside (f : W → W)
  | subscribe (listener : L)
  | unsubscribe (number : Nat)
  | close

/-- What comes back of it. -/
inductive Response (P : Type) where
  | done
  /-- With the transaction as the call left it. -/
  | used (reply : Reply) (t : Transaction P)
  | number (r : Except Error Nat)
  | result (r : Except Error Unit)

namespace Table

variable {κ : Type} [DecidableEq κ]

theorem erase_absent {t : Table κ α} {key : κ} (absent : t.get? key = none) : t.erase key = t := by
  rcases t with ⟨entries⟩
  simp only [get?, erase, mk.injEq] at absent ⊢
  induction entries with
  | nil => rfl
  | cons e rest ih =>
      obtain ⟨k, a⟩ := e
      by_cases here : k = key
      · simp [find, here] at absent
      · simp only [find, here, if_false] at absent
        simp only [without, here, if_false, ih absent]

end Table

namespace Office

/-- What is left of a transaction that was released: nothing comes of using it. -/
def gone (n : Nat) : Transaction P :=
  { id := { serial := n, label := "" }, config := {}, phase := .released }

/-- The transaction under a number. -/
def find (o : Office P W B) (n : Nat) : Transaction P := (o.pending.get? n).getD (gone n)

variable [Delivery B L TxEvent] [Participant P W]

/-- Deal once.  A transaction leaves the office with the call that releases it. -/
def deal (o : Office P W B) : Dealing P W L → Response P × Office P W B
  | .begin label =>
      let (t, manager) := o.manager.begin label
      (.done, { manager, pending := o.pending.set t.id.serial t })
  | .enter =>
      let m := { o.manager with attempts := o.manager.attempts + 1 }
      let (t, manager) := m.begin ("run" ++ toString m.attempts)
      (.done, { manager, pending := o.pending.set t.id.serial t })
  | .use n use =>
      let (reply, t, manager) := o.manager.through (o.find n) fun t w => use.perform t w
      (.used reply t,
        { manager
          pending := if t.phase = .released then o.pending.erase n else o.pending.set n t })
  | .retry => (.done, { o with manager := { o.manager with stats := o.manager.stats.recordRetry } })
  | .outside f => (.done, { o with manager := { o.manager with world := f o.manager.world } })
  | .subscribe listener =>
      let (number, manager) := o.manager.subscribe listener
      (.number number, { o with manager })
  | .unsubscribe number =>
      let (result, manager) := o.manager.unsubscribe number
      (.result result, { o with manager })
  | .close =>
      let (result, manager) := o.manager.close
      (.result result, { o with manager })

/-- Deal again and again. -/
def perform (o : Office P W B) : List (Dealing P W L) → Office P W B
  | [] => o
  | d :: rest => (o.deal d).2.perform rest

omit [Participant P W] [Delivery B L TxEvent] in
/-- All but the bus. -/
def sight (o : Office P W B) : Office P W Unit :=
  { manager := { o.manager with bus := () }, pending := o.pending }

end Office

/-! ## Transactions at work -/

/-- A transaction that will be counted and announced, and was not yet. -/
structure Transaction.AtWork (t : Transaction P) : Prop where
  reports : t.reports = true
  active : t.phase = .active
  outcome : t.outcome = none
  roster : t.roster = domainsOf t.members

theorem Transaction.AtWork.unreleased {t : Transaction P} (work : t.AtWork) :
    t.phase ≠ .released := by
  rw [work.active]
  decide

/-- What listeners are told of `t` when it was released with `outcome`. -/
def Transaction.notice (t : Transaction P) (outcome : Outcome) : TxEvent :=
  { tx := t.id, outcome, roster := t.roster }

section Uses

variable [Delivery B L TxEvent] [Participant P W]

/-- While a transaction is active its roster lists those who take part. -/
theorem Use.perform_roster {t : Transaction P} (active : t.phase = .active)
    (roster : t.roster = domainsOf t.members) (use : Use P W) (w : W)
    (still : (use.perform t w).2.1.phase = .active) :
    (use.perform t w).2.1.roster = domainsOf (use.perform t w).2.1.members := by
  have ended {outcome : Outcome} {left : Transaction P} (ends : t.Ends outcome left)
      (gone : (use.perform t w).2.1 = left) : False := by
    obtain ⟨visited, rfl⟩ := ends
    rw [gone] at still
    cases still
  cases use with
  | register p =>
      simp only [perform, Transaction.register, Transaction.checkActive_active active]
      rfl
  | withModule facet f =>
      have ensured {t' : Transaction P} (ensured : Transaction.Ensured facet t t') :
          t'.roster = domainsOf t'.members := by
        cases ensured with
        | same => exact roster
        | fresh => rfl
      have kept {after : Transaction P × W} (worked : Transaction.Worked facet f t w after) :
          after.1.roster = domainsOf after.1.members := by
        cases worked with
        | idle grown => exact ensured grown
        | done grown members =>
            have before := ensured grown
            rw [members] at before
            simpa [domainsOf] using before
      exact kept (Transaction.withModule_worked facet f t w)
  | validateEarly =>
      rcases Transaction.validateEarly_ends active w with same | ⟨e, reason, left, w', gone, ends⟩
      · simpa only [perform, same] using roster
      · exact (ended ends (by simp only [perform, gone])).elim
  | commit =>
      obtain ⟨outcome, left, w', gone, ends⟩ := Transaction.commit_ends active w
      exact (ended ends (by simp only [perform, gone])).elim
  | abort =>
      obtain ⟨reason, left, w', gone, ends⟩ := Transaction.abort_ends active w
      exact (ended ends (by simp only [perform, gone])).elim
  | drop =>
      obtain ⟨reason, left, w', gone, ends⟩ := Transaction.drop_ends active w
      exact (ended ends (by simp only [perform, gone])).elim

/-- What comes of a call on a transaction at work. -/
inductive Manager.Through (m : Manager W B) (t : Transaction P) : Transaction P → Manager W B → Prop where
  /-- It is at work as before. -/
  | still {t' : Transaction P} (id : t'.id = t.id) (work : t'.AtWork) (world : W) :
      Through m t t' { m with world }
  /-- It was released, counted and announced. -/
  | ended (visited : List Phase) (outcome : Outcome) (world : W) :
      Through m t (t.ended visited outcome)
        { m with
          world
          stats := m.stats.recordOutcome outcome
          bus := (EventBus.publish (t.notice outcome) m.bus).2 }

/-- **A call leaves a transaction at work, or releases it and then counts and announces it.** -/
theorem Use.through {t : Transaction P} (work : t.AtWork) (use : Use P W) (m : Manager W B) :
    let r := m.through t fun t w => use.perform t w
    Manager.Through m t r.2.1 r.2.2 := by
  simp only [Manager.through_eq]
  have begun : Transaction.Still t t := ⟨rfl, rfl, rfl, work.active, work.outcome⟩
  rcases use.perform_still begun m.world with still | ⟨outcome, left, w', gone, ends, -⟩
  · rw [Manager.reportEnd_same (still.outcome.trans work.outcome.symm)]
    exact .still still.id ⟨still.reports.trans work.reports, still.active, still.outcome,
      use.perform_roster work.active work.roster m.world still.active⟩ _
  · obtain ⟨visited, rfl⟩ := ends
    have reports : (t.ended visited outcome).reports = true := work.reports
    have reported : ({ m with world := w' } : Manager W B).reportEnd t (t.ended visited outcome) =
        { m with
          world := w'
          stats := m.stats.recordOutcome outcome
          bus := (EventBus.publish (t.notice outcome) m.bus).2 } := by
      rw [Manager.reportEnd, work.outcome]
      exact if_pos reports
    rw [gone, reported]
    exact .ended visited outcome w'

/-! ## Ends -/

namespace Transaction

variable {t : Transaction P}

/-- After a commit a transaction is released, if it was not halfway there. -/
theorem released_commit (settled : t.phase = .active ∨ t.phase = .released) (w : W) :
    (t.commit w).2.1.phase = .released := by
  rcases settled with active | released
  · obtain ⟨outcome, left, w', gone, ends⟩ := commit_ends active w
    obtain ⟨visited, rfl⟩ := ends
    rw [gone]
    rfl
  · rw [commit_released released]
    exact released

theorem released_abort (active : t.phase = .active) (w : W) : (t.abort w).2.1.phase = .released := by
  obtain ⟨reason, left, w', gone, ends⟩ := abort_ends active w
  obtain ⟨visited, rfl⟩ := ends
  rw [gone]
  rfl

end Transaction

/-! ## Offices in order -/

namespace Office

/-- All pending transactions are at work under their serials. -/
def Sound (o : Office P W B) : Prop :=
  ∀ n t, o.pending.get? n = some t → t.id.serial = n ∧ t.AtWork

variable {o : Office P W B}

omit [Participant P W] in
theorem Sound.set (sound : o.Sound) (m : Manager W B) {n : Nat} {t : Transaction P}
    (serial : t.id.serial = n) (work : t.AtWork) :
    Sound { manager := m, pending := o.pending.set n t } := by
  intro k t' found
  by_cases same : k = n
  · subst same
    rw [Table.get?_set_self] at found
    cases found
    exact ⟨serial, work⟩
  · rw [Table.get?_set_of_ne _ _ same] at found
    exact sound k t' found

omit [Participant P W] in
theorem Sound.erase (sound : o.Sound) (m : Manager W B) (n : Nat) :
    Sound { manager := m, pending := o.pending.erase n } := by
  intro k t' found
  by_cases same : k = n
  · subst same
    simp at found
  · rw [Table.get?_erase_of_ne _ same] at found
    exact sound k t' found

omit [Participant P W] in
theorem find_of_get? {n : Nat} {t : Transaction P} (found : o.pending.get? n = some t) :
    o.find n = t := by
  rw [find, found, Option.getD_some]

omit [Participant P W] in
theorem find_of_absent {n : Nat} (absent : o.pending.get? n = none) : o.find n = gone n := by
  rw [find, absent, Option.getD_none]

/-- Nothing comes of using what is gone. -/
theorem deal_use_gone {n : Nat} (absent : o.pending.get? n = none) (use : Use P W) :
    (o.deal (.use n use)).2 = o := by
  have still := use.perform_released (t := gone n) rfl o.manager.world
  simp only [deal, find_of_absent absent, Manager.through_eq, still, Manager.reportEnd_same]
  rw [if_pos (show (gone n : Transaction P).phase = .released from rfl),
    Table.erase_absent absent]

omit [Participant P W] in
theorem Sound.find (sound : o.Sound) (n : Nat) :
    (o.find n).phase = .active ∨ (o.find n).phase = .released := by
  cases found : o.pending.get? n with
  | none => exact Or.inr (find_of_absent found ▸ rfl)
  | some t => exact Or.inl (find_of_get? found ▸ (sound n t found).2.active)

theorem Sound.deal (sound : o.Sound) (d : Dealing P W L) : (o.deal d).2.Sound := by
  cases d with
  | begin label => exact sound.set _ rfl ⟨rfl, rfl, rfl, rfl⟩
  | enter => exact sound.set _ rfl ⟨rfl, rfl, rfl, rfl⟩
  | use n use =>
      cases found : o.pending.get? n with
      | none => exact (deal_use_gone found use).symm ▸ sound
      | some t =>
          obtain ⟨serial, work⟩ := sound n t found
          have came := use.through work o.manager
          simp only [Office.deal, find_of_get? found]
          generalize o.manager.through t (fun t w => use.perform t w) = r at came
          obtain ⟨reply, t', m⟩ := r
          simp only at came ⊢
          cases came with
          | still id stays world =>
              rw [if_neg stays.unreleased]
              exact sound.set _ (id ▸ serial) stays
          | ended visited outcome world =>
              rw [if_pos (show (t.ended visited outcome).phase = .released from rfl)]
              exact sound.erase _ n
  | retry => exact sound
  | outside f => exact sound
  | subscribe listener => exact sound
  | unsubscribe number => exact sound
  | close => exact sound

theorem Sound.perform (sound : o.Sound) (dealings : List (Dealing P W L)) :
    (o.perform dealings).Sound := by
  induction dealings generalizing o with
  | nil => exact sound
  | cons d rest ih => exact ih (sound.deal d)

end Office

end Uses

/-! ## Errands -/

/-- A program that works with a manager and comes to an answer of type `α`. -/
inductive Errand (P W L α : Type) : Type 1 where
  | done (a : α)
  | look (next : Office P W Unit → Errand P W L α)
  | deal (d : Dealing P W L) (next : Response P → Errand P W L α)

namespace Errand

/-- Go on with the answer. -/
def bind (errand : Errand P W L α) (f : α → Errand P W L β) : Errand P W L β :=
  match errand with
  | .done a => f a
  | .look next => .look fun o => (next o).bind f
  | .deal d next => .deal d fun r => (next r).bind f

instance : Monad (Errand P W L) where
  pure := .done
  bind := bind

section Exec

variable [Delivery B L TxEvent] [Participant P W]

/-- The answer, and the office as it was left. -/
def exec : Errand P W L α → Office P W B → α × Office P W B
  | .done a, o => (a, o)
  | .look next, o => (next o.sight).exec o
  | .deal d next, o => (next (o.deal d).1).exec (o.deal d).2

/-- The dealings of an errand, one after another. -/
def dealings : Errand P W L α → Office P W B → List (Dealing P W L)
  | .done _, _ => []
  | .look next, o => (next o.sight).dealings o
  | .deal d next, o => d :: (next (o.deal d).1).dealings (o.deal d).2

/-- An errand does nothing but its dealings. -/
theorem exec_dealings (errand : Errand P W L α) (o : Office P W B) :
    (errand.exec o).2 = o.perform (errand.dealings o) := by
  induction errand generalizing o with
  | done a => rfl
  | look next ih => exact ih _ _
  | deal d next ih => exact ih _ _

@[simp] theorem exec_pure (a : α) (o : Office P W B) : (pure a : Errand P W L α).exec o = (a, o) := rfl

@[simp] theorem exec_bind (errand : Errand P W L α) (f : α → Errand P W L β) (o : Office P W B) :
    (errand >>= f).exec o = (f (errand.exec o).1).exec (errand.exec o).2 := by
  show (errand.bind f).exec o = _
  induction errand generalizing o with
  | done a => rfl
  | look next ih => exact ih _ _
  | deal d next ih => exact ih _ _

theorem sound_exec (errand : Errand P W L α) {o : Office P W B} (sound : o.Sound) :
    (errand.exec o).2.Sound :=
  errand.exec_dealings o ▸ sound.perform _

end Exec

/-! ## Runs -/

/-- Begin a transaction for an attempt.  The answer is its serial. -/
def enter : Errand P W L Nat := .deal .enter fun _ => .look fun o => .done o.manager.serial

def use (n : Nat) (use : Use P W) : Errand P W L Reply :=
  .deal (.use n use) fun
    | .used reply _ => .done reply
    | _ => .done .done

def isPending (n : Nat) : Errand P W L Bool := .look fun o => .done (o.pending.contains n)

def retry : Errand P W L Unit := .deal .retry fun _ => .done ()

/-- What the answer to its commit makes of an attempt whose body came to `value`. -/
def finish (value : α) : Reply → Manager.Attempt α
  | .outcome (.aborted reason) => .failed reason.toError
  | .refused e => .final (.error e)
  | _ => .final (.ok value)

/-- What the answer to its abort makes of an attempt whose body failed with `e`. -/
def giveUp (e : Error) : Reply → Manager.Attempt α
  | .refused other => .final (.error other)
  | _ => .failed e

/-- What is left to do in an attempt once its body came to an answer. -/
def conclude (own : Nat) : Except Error α → Errand P W L (Manager.Attempt α)
  | .ok value => do return finish value (← use own .commit)
  | .error e => do if ← isPending own then return giveUp e (← use own .abort) else return .failed e

/-- One attempt.  The body is told its number and the serial of its transaction. -/
def attempt (body : Nat → Nat → Errand P W L (Except Error α)) (k : Nat) :
    Errand P W L (Manager.Attempt α) := do
  let own ← enter
  conclude own (← body k own)

/-- Attempt number `k`, and after contention at most `retries` more. -/
def runFrom (body : Nat → Nat → Errand P W L (Except Error α)) :
    Nat → Nat → Errand P W L (Except Error α)
  | retries, k => do
      let now ← attempt body k
      if now.contended then
        match retries with
        | 0 => return now.verdict
        | retries + 1 => do
            retry
            runFrom body retries (k + 1)
      else return now.verdict

/-- Perform `body` in a transaction and commit it, again after contention. -/
def run (body : Nat → Nat → Errand P W L (Except Error α)) : Errand P W L (Except Error α) :=
  .look fun o => runFrom body o.manager.config.maxRetries 0

section Exec

variable [Delivery B L TxEvent] [Participant P W]

/-- An errand as the body of a run: the other pending transactions are the state of its caller, and
its own is handed back at the end. -/
def asBody (body : Nat → Nat → Errand P W L (Except Error α)) :
    Manager.Body P W B (Table Nat (Transaction P)) α := fun k t m pending =>
  let own := t.id.serial
  let r := (body k own).exec { manager := m, pending := pending.set own t }
  (r.1, r.2.find own, r.2.manager, r.2.pending.erase own)

@[simp] theorem exec_enter (o : Office P W B) :
    (enter : Errand P W L Nat).exec o = ((o.deal .enter).2.manager.serial, (o.deal .enter).2) := rfl

@[simp] theorem exec_isPending (n : Nat) (o : Office P W B) :
    (isPending n : Errand P W L Bool).exec o = (o.pending.contains n, o) := rfl

@[simp] theorem exec_retry (o : Office P W B) :
    (retry : Errand P W L Unit).exec o =
      ((), { o with manager := { o.manager with stats := o.manager.stats.recordRetry } }) := rfl

variable {o : Office P W B}

theorem exec_use (n : Nat) (use : Use P W) (o : Office P W B) :
    (Errand.use n use).exec o =
      let r := o.manager.through (o.find n) fun t w => use.perform t w
      (r.1, { manager := r.2.2
              pending := if r.2.1.phase = .released then o.pending.erase n
                else o.pending.set n r.2.1 }) := rfl

/-- An attempt is concluded with a commit of its transaction, or with an abort if that is active. -/
theorem conclude_exec (sound : o.Sound) (own : Nat) (answer : Except Error α) :
    let t := o.find own
    (conclude own answer).exec o =
      match answer with
      | .ok value =>
          let r := o.manager.commit t
          (finish value (.ofExcept .outcome r.1),
            { manager := r.2.2, pending := o.pending.erase own })
      | .error e =>
          if t.isActive then
            let r := o.manager.abort t
            (giveUp e (.ofExcept .outcome r.1),
              { manager := r.2.2, pending := o.pending.erase own })
          else (.failed e, { o with pending := o.pending.erase own }) := by
  intro t
  cases answer with
  | ok value =>
      have released : (o.manager.commit t).2.1.phase = .released :=
        Transaction.released_commit (sound.find own) _
      simp only [conclude, exec_bind, exec_use, exec_pure]
      exact congrArg (Prod.mk _) (congrArg (Office.mk _) (if_pos released))
  | error e =>
      cases found : o.pending.get? own with
      | none =>
          -- The body itself had its transaction released, so there is nothing left to abort.
          have lost : t = Office.gone own := Office.find_of_absent found
          have absent : o.pending.contains own = false := by rw [Table.contains, found]; rfl
          simp only [conclude, exec_bind, exec_isPending, absent, lost, Table.erase_absent found]
          rfl
      | some t' =>
          have same : t = t' := Office.find_of_get? found
          have active : t.phase = .active := same ▸ (sound own t' found).2.active
          have present : o.pending.contains own = true := by rw [Table.contains, found]; rfl
          have isActive : t.isActive = true := by rw [Transaction.isActive, active]; rfl
          have released : (o.manager.abort t).2.1.phase = .released :=
            Transaction.released_abort active _
          simp only [conclude, exec_bind, exec_isPending, present, isActive, if_true, exec_use,
            exec_pure]
          exact congrArg (Prod.mk _) (congrArg (Office.mk _) (if_pos released))

variable (body : Nat → Nat → Errand P W L (Except Error α))

/-- **An attempt at an errand is one of the manager.** -/
theorem attempt_exec (k : Nat) (sound : o.Sound) :
    let r := (attempt body k).exec o
    Manager.attempt (asBody body) k o.manager o.pending = (r.1, r.2.manager, r.2.pending) := by
  have entered : (o.deal .enter).2.Sound := sound.deal .enter
  have left := (body k (o.manager.serial + 1)).sound_exec entered
  have begins : Manager.begin (P := P) { o.manager with attempts := o.manager.attempts + 1 }
      ("run" ++ toString (o.manager.attempts + 1)) = (o.manager.fresh, o.manager.beginning) := rfl
  have given : asBody body k o.manager.fresh o.manager.beginning o.pending =
      let r := (body k (o.manager.serial + 1)).exec (o.deal .enter).2
      (r.1, r.2.find (o.manager.serial + 1), r.2.manager,
        r.2.pending.erase (o.manager.serial + 1)) := rfl
  have serial : (o.deal .enter).2.manager.serial = o.manager.serial + 1 := rfl
  simp only [attempt, exec_bind, exec_enter, serial, conclude_exec left, Manager.attempt, begins, given]
  generalize (body k (o.manager.serial + 1)).exec (o.deal .enter).2 = after
  rcases after with ⟨e | value, o'⟩
  · simp only
    cases (o'.find (o.manager.serial + 1)).isActive with
    | false => rfl
    | true =>
        rcases o'.manager.abort (o'.find (o.manager.serial + 1)) with ⟨_ | _, t, m⟩ <;> rfl
  · simp only
    rcases o'.manager.commit (o'.find (o.manager.serial + 1)) with ⟨_ | _ | _, t, m⟩ <;> rfl

theorem runFrom_exec (retries k : Nat) (sound : o.Sound) :
    let r := (runFrom body retries k).exec o
    Manager.runFrom (asBody body) retries k o.manager o.pending =
      (r.1, r.2.manager, r.2.pending) := by
  induction retries generalizing k o with
  | zero =>
      rw [Manager.runFrom_eq, attempt_exec body k sound, runFrom]
      simp only [exec_bind]
      split <;> rfl
  | succ retries ih =>
      have after := (attempt body k).sound_exec sound
      rw [Manager.runFrom_eq, attempt_exec body k sound, runFrom]
      simp only [exec_bind]
      split
      · simp only [exec_bind, exec_retry]
        exact ih (k + 1) (after.deal .retry)
      · rfl

/-- **A run of an errand is one of the manager**, dealing by dealing: it comes to the same answer and
leaves the manager and the other transactions the same. -/
theorem run_exec (sound : o.Sound) :
    let r := (run body).exec o
    Manager.run (asBody body) o.manager o.pending = (r.1, r.2.manager, r.2.pending) :=
  runFrom_exec body o.manager.config.maxRetries 0 sound

end Exec

end Errand

end Transact
