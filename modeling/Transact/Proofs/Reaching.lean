/-
# Transact.Proofs.Reaching -- the states that a transaction can reach

A transaction is begun, makes its calls one after another, and between them anything may become of the
world: others work on it, outside of any transaction or within one.  Only locks are taken in nobody
else's name.  `Reached` are the states that come of it.

Of a transaction that was reached all is ready for its end (`Reached.ready`), and it holds no lock
(`Reached.unheld`).
-/
import Transact.Proofs.Readiness
import Transact.Proofs.Retrying

namespace Transact

set_option autoImplicit false

section Reaching

variable {G V : Type} [Participant G V] (chunk : Nat → Nat → Nat) {t : Transaction (Party G)}

/-- **What a call makes of a transaction**: its participants do something, somebody is added to them, it
ends, or nothing comes of it. -/
inductive PartyCall.Made (t : Transaction (Party G)) (w : World × V) :
    PartyCall G → Transaction (Party G) → Prop where
  | kept (call : PartyCall G) : Made t w call t
  | worked (job : Work) : Made t w (.work job) (job.perform chunk t w).1
  | registered (g : G) : Made t w (.register g) (t.register (Party.guest g)).2
  | ended (call : PartyCall G) (active : t.phase = .active) (visited : List Phase)
      (outcome : Outcome) : Made t w call (t.ended visited outcome)

theorem PartyCall.perform_made (call : PartyCall G) (t : Transaction (Party G)) (w : World × V) :
    call.Made chunk t w (call.perform chunk t w).1 := by
  by_cases active : t.phase = .active
  · have gone {outcome : Outcome} {left : Transaction (Party G)} (ends : t.Ends outcome left) :
        call.Made chunk t w left := by
      obtain ⟨visited, rfl⟩ := ends
      exact .ended call active visited outcome
    cases call with
    | work job => exact .worked job
    | register g => exact .registered g
    | validate =>
        rcases Transaction.validateEarly_ends active w with same | ⟨e, reason, left, w', done, ends⟩
        · rw [perform, same]
          exact .kept _
        · rw [perform, done]
          exact gone ends
    | commit =>
        obtain ⟨outcome, left, w', done, ends⟩ := Transaction.commit_ends active w
        rw [perform, done]
        exact gone ends
    | abort =>
        obtain ⟨reason, left, w', done, ends⟩ := Transaction.abort_ends active w
        rw [perform, done]
        exact gone ends
    | drop =>
        obtain ⟨reason, left, w', done, ends⟩ := Transaction.drop_ends active w
        rw [perform, done]
        exact gone ends
  · have refused := Transaction.checkActive_inactive active
    cases call with
    | work job => exact .worked job
    | register g => exact .registered g
    | validate =>
        simp only [perform, Transaction.validateEarly, refused]
        exact .kept _
    | commit =>
        simp only [perform, Transaction.commit, refused]
        exact .kept _
    | abort =>
        simp only [perform, Transaction.abort, refused]
        exact .kept _
    | drop =>
        have idle : ¬ t.isActive = true := by simpa [Transaction.isActive] using active
        rw [perform, Transaction.drop, if_neg idle]
        exact .kept _

namespace PartyCall.Made

variable {chunk} {t' : Transaction (Party G)} {w : World × V} {call : PartyCall G}

theorem id (made : call.Made chunk t w t') : t'.id = t.id := by
  cases made with
  | kept => rfl
  | worked job => exact job.perform_id chunk t w
  | registered g => exact t.register_id g
  | ended => rfl

/-- Every call leaves participants ready for their end, if only because nobody is left. -/
theorem ready (made : call.Made chunk t w t') (ready : t.Ready) : t'.Ready := by
  cases made with
  | kept => exact ready
  | worked job => exact job.perform_ready chunk ready w
  | registered g => exact Transaction.register_ready ready g
  | ended _ _ visited outcome => exact .ended visited outcome

/-- Who is still at work has entered no phase. -/
theorem unvisited (made : call.Made chunk t w t') (before : t.phase = .active → t.visited = [])
    (active : t'.phase = .active) : t'.visited = [] := by
  cases made with
  | kept => exact before active
  | worked job =>
      rw [job.perform_visited chunk t w]
      exact before ((job.perform_phase chunk t w).symm.trans active)
  | registered g =>
      obtain ⟨members, roster, same⟩ := Transaction.register_same t (Party.guest g)
      rw [same] at active ⊢
      exact before active
  | ended => cases active

end PartyCall.Made

/-- A transaction and a world that come of calls of the transaction, and of whatever happens to the
world between them. -/
inductive Reached : Transaction (Party G) → World × V → Prop where
  | begun (who : TxId) (config : Config) (reports : Bool) (w : World × V)
      (unheld : ∀ k, w.1.locks.holderOf k ≠ some who) : Reached { id := who, config, reports } w
  | called {t : Transaction (Party G)} {w : World × V} (before : Reached t w) (call : PartyCall G) :
      Reached (call.perform chunk t w).1 (call.perform chunk t w).2
  | meanwhile {t : Transaction (Party G)} {w : World × V} (before : Reached t w) (w' : World × V)
      (unheld : ∀ k, w'.1.locks.holderOf k ≠ some t.id) : Reached t w'

namespace Reached

variable {chunk} {w : World × V}

/-- What it takes to end a transaction was touched before. -/
theorem ready (reached : Reached chunk t w) : t.Ready := by
  induction reached with
  | begun who config => exact ⟨.nil, fun _ member => absurd member List.not_mem_nil⟩
  | called _ call ih => exact (call.perform_made chunk _ _).ready ih
  | meanwhile _ _ _ ih => exact ih

/-- **Between its calls a transaction holds no lock.** -/
theorem unheld (reached : Reached chunk t w) : ∀ k, w.1.locks.holderOf k ≠ some t.id := by
  induction reached with
  | begun who config reports w unheld => exact unheld
  | @called t w _ call ih =>
      have before : w.1.locks.Among t.id fun _ => False := ih
      rw [(call.perform_made chunk t w).id]
      exact call.perform_among chunk before
  | meanwhile _ _ unheld => exact unheld

theorem unvisited (reached : Reached chunk t w) (active : t.phase = .active) : t.visited = [] := by
  induction reached with
  | begun => rfl
  | called _ call ih => exact (call.perform_made chunk _ _).unvisited ih active
  | meanwhile _ _ _ ih => exact ih active

/-- Calls may be made one after another. -/
theorem calls {s : Transaction (Party G) × World × V} (before : Reached chunk s.1 s.2)
    (calls : List (PartyCall G)) :
    let r := calls.foldl (fun s call => call.perform chunk s.1 s.2) s
    Reached chunk r.1 r.2 := by
  induction calls generalizing s with
  | nil => exact before
  | cons call rest ih => exact ih (before.called call)

end Reached

end Reaching

end Transact
