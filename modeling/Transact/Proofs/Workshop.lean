/-
# Transact.Proofs.Workshop -- what becomes of every thread that was asked for

A `Workshop` lets transactions make their calls, threads be joined and their bodies get on, and the rest
of the world change meanwhile.  It remembers who asked for which thread, whose apply was refused a start
by the system, and which joins came back from their thread.  Asked for are the threads that calls were
answered with (`Kept.run_requests`).

`Fate` lists what can have become of a thread.  One of them is no end: where the system refuses a start,
the records that were to be applied are gone from the log, so nobody discards that thread nor those
behind it, and they stay pending although their transaction is released.

Main statement: `Workshop.run_fulfils`.
-/
import Mathlib.Data.List.Nodup
import Transact.Proofs.FilesInPlace
import Transact.Proofs.Starting

namespace Transact

set_option autoImplicit false

/-! ## Handles -/

/-- The join came back from its thread: it was neither refused nor waits still. -/
def Thread.cameBack : Option (Except Error ThreadReport) → Bool
  | some (.ok _) => true
  | some (.error e) => e.kind != .invalidOperation
  | none => false

namespace ThreadTable

variable {t t' : ThreadTable} {ids : List Nat} {id : Nat}

/-- How far a thread has come. -/
def state? (t : ThreadTable) (id : Nat) : Option ThreadState := (t.threads.get? id).map Thread.state

/-- Whether the handle of a thread says that it was started. -/
def spawned (t : ThreadTable) (id : Nat) : Bool := (t.threads.get? id).any Thread.isSpawned

/-- Whether the handle of a thread says that it was given up. -/
def discarded (t : ThreadTable) (id : Nat) : Bool := (t.threads.get? id).any Thread.isDiscarded

theorem spawned_running {ended : Option (Option ThreadReport)}
    (state : t.state? id = some (.running ended)) : t.spawned id = true := by
  obtain ⟨thread, found, is⟩ := Option.map_eq_some_iff.1 state
  rw [spawned, found, Option.any_some, Thread.isSpawned, is]

theorem spawned_joined (state : t.state? id = some .joined) : t.spawned id = true := by
  obtain ⟨thread, found, is⟩ := Option.map_eq_some_iff.1 state
  rw [spawned, found, Option.any_some, Thread.isSpawned, is]

theorem discarded_of_state (state : t.state? id = some .discarded) : t.discarded id = true := by
  obtain ⟨thread, found, is⟩ := Option.map_eq_some_iff.1 state
  rw [discarded, found, Option.any_some, Thread.isDiscarded, is]
  rfl

theorem Lets.state_other (lets : t.Lets ids t') (outside : id ∉ ids) : t'.state? id = t.state? id := by
  rw [state?, lets.others id outside, state?]

theorem Lets.state_own (lets : t.Lets ids t') (member : id ∈ ids) {state : ThreadState}
    (was : t.state? id = some state) : ∃ ended, t'.state? id = some (.running ended) := by
  obtain ⟨thread, found, -⟩ := Option.map_eq_some_iff.1 was
  obtain ⟨ended, now⟩ := lets.own id member thread found
  exact ⟨ended, by rw [state?, now, Option.map_some]⟩

theorem GivesUp.state_other (gives : t.GivesUp ids t') (outside : id ∉ ids) :
    t'.state? id = t.state? id := by
  rw [state?, gives.each, if_neg outside, state?]

theorem GivesUp.state_own (gives : t.GivesUp ids t') (member : id ∈ ids)
    (was : t.state? id = some .pending) : t'.state? id = some .discarded := by
  obtain ⟨thread, found, is⟩ := Option.map_eq_some_iff.1 was
  rw [state?, gives.each, if_pos member, found, Option.map_some, Option.map_some,
    Thread.discard_state (Or.inl is)]

/-- Where nobody is known under a number nobody is after some were let run. -/
theorem Lets.unknown (lets : t.Lets ids t') (known : ∀ id ∈ ids, id < t.next)
    (unknown : ∀ id, t.next ≤ id → t.state? id = none) : ∀ id, t'.next ≤ id → t'.state? id = none := by
  intro id beyond
  rw [lets.next] at beyond
  rw [lets.state_other fun member => absurd (known id member) (Nat.not_lt.2 beyond)]
  exact unknown id beyond

theorem GivesUp.unknown (gives : t.GivesUp ids t')
    (unknown : ∀ id, t.next ≤ id → t.state? id = none) : ∀ id, t'.next ≤ id → t'.state? id = none := by
  intro id beyond
  rw [gives.next] at beyond
  have nobody := unknown id beyond
  rw [state?, Option.map_eq_none_iff] at nobody
  rw [state?, gives.each, nobody, Option.map_none, ite_self, Option.map_none]

/-- Who is asked for waits under the next number. -/
theorem state?_request (t : ThreadTable) (name : Option String) (task : ThreadTask) (id : Nat) :
    (t.request name task).2.state? id = if id = t.next then some .pending else t.state? id := by
  simp only [request, state?]
  split
  · next same => rw [same, Table.get?_set_self, Option.map_some]
  · next ne => rw [Table.get?_set_of_ne _ _ ne]

end ThreadTable

theorem Threads.asked_spawn (s : Threads) (name : Option String) (task : ThreadTask) (w : World) :
    (s.spawn name task w).2.1.asked = s.asked ++ [w.threads.next] := by
  simp only [spawn, asked, DeferredLog.append, List.map_append, List.map_cons, List.map_nil]
  rfl

/-- From `t` to `t'` the thread `id` came to be in `state`, and nothing else happened. -/
structure ThreadTable.Becomes (t : ThreadTable) (id : Nat) (state : ThreadState) (t' : ThreadTable) :
    Prop where
  started : t'.started = t.started
  next : t'.next = t.next
  each : ∀ other, t'.state? other = if other = id then some state else t.state? other

theorem ThreadTable.becomes_setState {t t' : ThreadTable} {id : Nat} {was : ThreadState}
    (known : t.Becomes id was t') (state : ThreadState) : t.Becomes id state (t'.setState id state) where
  started := known.started
  next := known.next
  each other := by
    have here := known.each id
    rw [if_pos rfl] at here
    obtain ⟨thread, found, -⟩ := Option.map_eq_some_iff.1 here
    simp only [setState, state?, Table.get?_modify]
    split
    · rw [found, Option.map_some, Option.map_some]
    · next ne =>
      have there := known.each other
      rwa [if_neg ne] at there

theorem ThreadTable.Becomes.same {t : ThreadTable} {id : Nat} {state : ThreadState}
    (is : t.state? id = some state) : t.Becomes id state t where
  started := rfl
  next := rfl
  each other := by
    split
    · next same => rw [same, is]
    · rfl

namespace World

/-- Only a body that has not ended gets on. -/
theorem runThread_idle (w : World) (id : Nat) (idle : w.threads.state? id ≠ some (.running none)) :
    w.runThread id = w := by
  unfold runThread
  split
  · next name task found => exact absurd (by rw [ThreadTable.state?, found, Option.map_some]) idle
  · rfl

/-- A body that gets on ends, or waits on. -/
theorem runThread_becomes (w : World) (id : Nat) : (w.runThread id).threads = w.threads ∨
    w.threads.state? id = some (.running none) ∧
      ∃ ended, w.threads.Becomes id (.running (some ended)) (w.runThread id).threads := by
  rcases w.runThread_threads id with same | ⟨thread, ended, found, is, ends⟩
  · exact Or.inl same
  · have running : w.threads.state? id = some (.running none) := by
      rw [ThreadTable.state?, found, Option.map_some, is]
    refine Or.inr ⟨running, ended, ?_⟩
    rw [ends]
    exact ThreadTable.becomes_setState (.same running) _

theorem runThread_running {w : World} {id : Nat}
    (running : w.threads.state? id = some (.running none)) :
    ∃ ended, (w.runThread id).threads.state? id = some (.running ended) := by
  rcases w.runThread_becomes id with same | ⟨-, ended, becomes⟩
  · exact ⟨none, by rw [same, running]⟩
  · exact ⟨some ended, by rw [becomes.each, if_pos rfl]⟩

/-- **A join is refused and changes nothing, or it waits, or it comes back** from a thread that runs. -/
theorem joinThread_cases (w : World) (id : Nat) :
    let r := w.joinThread id
    (∃ e, r = (some (.error e), w) ∧ e.kind = .invalidOperation) ∨
      r.1 = none ∧ r.2.threads = w.threads ∨
      Thread.cameBack r.1 = true ∧ (∃ ended, w.threads.state? id = some (.running ended)) ∧
        w.threads.Becomes id .joined r.2.threads := by
  have idle (other : ∀ ended, (w.runThread id).threads.state? id ≠ some (.running ended)) :
      w.runThread id = w :=
    w.runThread_idle id fun running =>
      have ⟨ended, still⟩ := runThread_running running
      other ended still
  unfold joinThread
  simp only
  cases found : (w.runThread id).threads.threads.get? id with
  | none =>
      rw [idle fun ended => by simp [ThreadTable.state?, found]]
      exact Or.inl ⟨_, rfl, rfl⟩
  | some thread =>
      have now : (w.runThread id).threads.state? id = some thread.state := by
        rw [ThreadTable.state?, found, Option.map_some]
      simp only
      rcases is : thread.state with _ | ended | _ | _ <;> rw [is] at now
      · rw [idle fun ended => by simp [now]]
        exact Or.inl ⟨_, rfl, rfl⟩
      · rcases w.runThread_becomes id with same | ⟨was, ended', becomes⟩
        · cases ended with
          | none => exact Or.inr (Or.inl ⟨rfl, same⟩)
          | some ended =>
              have known : w.threads.Becomes id (.running (some ended)) (w.runThread id).threads :=
                same ▸ .same (same ▸ now)
              refine Or.inr (Or.inr ?_)
              cases ended <;> exact ⟨rfl, ⟨_, same ▸ now⟩, ThreadTable.becomes_setState known _⟩
        · rw [becomes.each, if_pos rfl] at now
          cases now
          refine Or.inr (Or.inr ?_)
          cases ended' <;> exact ⟨rfl, ⟨none, was⟩, ThreadTable.becomes_setState becomes _⟩
      · rw [idle fun ended => by simp [now]]
        exact Or.inl ⟨_, rfl, rfl⟩
      · rw [idle fun ended => by simp [now]]
        exact Or.inl ⟨_, rfl, rfl⟩

end World

/-- Who was not at the end is at work as before. -/
theorem Conduct.seated {G V : Type} [Participant G V] {call : PartyCall G}
    {t t' : Transaction (Party G)} {w w' : World × V} (conduct : Conduct call t w t' w')
    (onward : t'.visited = t.visited) : t'.Seated := by
  cases conduct with
  | aside same seated => exact seated
  | filed job asked same seated => exact seated
  | closing ended =>
      have nothing {visited : List Phase} {outcome : Outcome} {phase : Phase}
          (same : (t.ended visited outcome).visited = t.visited) : phase ∉ visited := by
        rw [List.append_right_eq_self.1 same]
        exact List.not_mem_nil
      cases ended with
      | undone s w₁ _ visited outcome mine before after undoing => exact absurd undoing (nothing onward)
      | applied s w₁ w₂ _ visited outcome mine before valid meanwhile after applying =>
          exact absurd applying (nothing onward)

/-! ## What became of a thread -/

section Fates

variable {G : Type}

/-- What can have become of a thread that the transaction `t` asked for.  `denied` says that the system
refused a start while `t` applied, `begun` that the thread was let run, and `back` that a join came back
from it. -/
inductive Fate (t : Transaction (Party G)) (denied begun back : Prop) : Option ThreadState → Prop where
  | waits (atWork : t.phase = .active) (open_ : t.outcome = none) (unbegun : ¬ begun) :
      Fate t denied begun back (some .pending)
  | givenUp (released : t.phase = .released) (unapplied : .applying ∉ t.visited)
      (uncommitted : t.outcome ≠ some .committed) (unbegun : ¬ begun) :
      Fate t denied begun back (some .discarded)
  | runs (applied : .applying ∈ t.visited) (started : begun) (alone : ¬ back)
      (ended : Option (Option ThreadReport)) : Fate t denied begun back (some (.running ended))
  | joined (applied : .applying ∈ t.visited) (started : begun) (joined : back) :
      Fate t denied begun back (some .joined)
  /-- Its start was refused, or one before it was. -/
  | stranded (applied : .applying ∈ t.visited) (unbegun : ¬ begun) (refused : denied)
      (uncommitted : t.outcome ≠ some .committed) : Fate t denied begun back (some .pending)

variable {t t' : Transaction (Party G)} {denied begun back denied' begun' back' : Prop}
  {state : Option ThreadState} {ended : Option (Option ThreadReport)}

/-- What became of a thread stays so where neither the transaction nor the thread moved on. -/
theorem Fate.kept (fate : Fate t denied begun back state) (refusals : denied → denied')
    (starts : begun' ↔ begun) (joins : back' ↔ back) : Fate t denied' begun' back' state := by
  cases fate with
  | waits atWork open_ unbegun => exact .waits atWork open_ (mt starts.1 unbegun)
  | givenUp released unapplied uncommitted unbegun =>
      exact .givenUp released unapplied uncommitted (mt starts.1 unbegun)
  | runs applied started alone ended => exact .runs applied (starts.2 started) (mt joins.1 alone) ended
  | joined applied started joined => exact .joined applied (starts.2 started) (joins.2 joined)
  | stranded applied unbegun refused uncommitted =>
      exact .stranded applied (mt starts.1 unbegun) (refusals refused) uncommitted

/-- A transaction at work has only threads that wait. -/
theorem Fate.pending (fate : Fate t denied begun back state) (seated : t.Seated) :
    state = some .pending ∧ ¬ begun := by
  cases fate with
  | waits atWork open_ unbegun => exact ⟨rfl, unbegun⟩
  | givenUp released => rw [seated.active] at released; cases released
  | runs applied => exact absurd applied (seated.fresh _)
  | joined applied => exact absurd applied (seated.fresh _)
  | stranded applied => exact absurd applied (seated.fresh _)

/-- The body of a thread that runs gets on. -/
theorem Fate.runsOn (fate : Fate t denied begun back (some (.running ended)))
    (ended' : Option (Option ThreadReport)) : Fate t denied begun back (some (.running ended')) := by
  cases fate with
  | runs applied started alone => exact .runs applied started alone ended'

/-- A thread that runs was let run, and no join came back from it. -/
theorem Fate.running (fate : Fate t denied begun back (some (.running ended))) : begun ∧ ¬ back := by
  cases fate with
  | runs applied started alone => exact ⟨started, alone⟩

/-- A thread that runs is joined. -/
theorem Fate.join (fate : Fate t denied begun back (some (.running ended))) (now : back') :
    Fate t denied begun back' (some .joined) := by
  cases fate with
  | runs applied started alone => exact .joined applied started now

/-- A thread that was let run is one of a transaction that applied. -/
theorem Fate.applied (fate : Fate t denied begun back state) (started : begun) :
    .applying ∈ t.visited := by
  cases fate with
  | waits _ _ unbegun => exact absurd started unbegun
  | givenUp _ _ _ unbegun => exact absurd started unbegun
  | runs applied => exact applied
  | joined applied => exact applied
  | stranded applied => exact applied

/-- A thread that was not let run is one of a transaction that did not commit. -/
theorem Fate.uncommitted (fate : Fate t denied begun back state) (unbegun : ¬ begun) :
    t.outcome ≠ some .committed := by
  cases fate with
  | waits _ open_ => rw [open_]; nofun
  | givenUp _ _ uncommitted => exact uncommitted
  | runs _ started => exact absurd started unbegun
  | joined _ started => exact absurd started unbegun
  | stranded _ _ _ uncommitted => exact uncommitted

/-- The handle of a thread that was let run says so. -/
theorem Fate.spawned {table : ThreadTable} {id : Nat}
    (fate : Fate t denied begun back (table.state? id)) (started : begun) :
    table.spawned id = true := by
  generalize is : table.state? id = state at fate
  cases fate with
  | waits _ _ unbegun => exact absurd started unbegun
  | givenUp _ _ _ unbegun => exact absurd started unbegun
  | runs => exact ThreadTable.spawned_running is
  | joined => exact ThreadTable.spawned_joined is
  | stranded _ unbegun => exact absurd started unbegun

/-- The handle of a thread of a transaction that was released without an apply says that it was given
up. -/
theorem Fate.discarded {table : ThreadTable} {id : Nat}
    (fate : Fate t denied begun back (table.state? id)) (released : t.phase = .released)
    (unapplied : .applying ∉ t.visited) : table.discarded id = true := by
  generalize is : table.state? id = state at fate
  cases fate with
  | waits atWork => rw [atWork] at released; cases released
  | givenUp => exact ThreadTable.discarded_of_state is
  | runs applied => exact absurd applied unapplied
  | joined applied => exact absurd applied unapplied
  | stranded applied => exact absurd applied unapplied

/-- A thread that an apply did not let run is stranded. -/
theorem Fate.left (fate : Fate t denied begun back state) (applied : .applying ∈ t.visited)
    (atWork : t.phase = .active → .applying ∉ t.visited) (unbegun : ¬ begun) :
    state = some .pending ∧ denied := by
  cases fate with
  | waits active => exact absurd applied (atWork active)
  | givenUp _ unapplied => exact absurd applied unapplied
  | runs _ started => exact absurd started unbegun
  | joined _ started => exact absurd started unbegun
  | stranded _ _ refused => exact ⟨rfl, refused⟩

end Fates

/-! ## Workshops -/

section Workshops

variable {G V : Type}

/-- Something that happens. -/
inductive Happening (G V : Type) where
  | call (who : TxId) (call : PartyCall G)
  | join (id : Nat)
  /-- A body that was let run gets on, as far as it can. -/
  | wake (id : Nat)
  /-- The rest of the world changes. -/
  | meanwhile (change : World × V → World × V)

/-- Transactions at work, and what is remembered of their threads. -/
structure Workshop (G V : Type) where
  assembly : Assembly G V
  /-- Who asked for which thread. -/
  requests : List (TxId × Nat) := []
  /-- Who was refused a start. -/
  refused : List TxId := []
  /-- The threads from which a join came back. -/
  joined : List Nat := []

namespace Workshop

/-- All transactions begin, with no thread in the world; `refusals` are the system's answers to the
starts to come. -/
def start (config : TxId → Config) (w : World × V) (refusals : List Bool) : Workshop G V where
  assembly := .start config ({ w.1 with threads := { refusals } }, w.2)

def threads (s : Workshop G V) : ThreadTable := s.assembly.world.1.threads

/-- The threads that one transaction asked for. -/
def asked (s : Workshop G V) (who : TxId) : List Nat :=
  (s.requests.filter (·.1 = who)).map Prod.snd

/-- Note what came of a call: the threads that are new, and whether a start was refused. -/
def note (s : Workshop G V) (who : TxId) (after : Assembly G V) : Workshop G V :=
  let table := after.world.1.threads
  { s with
    assembly := after
    requests := s.requests ++
      (List.range' s.threads.next (table.next - s.threads.next)).map fun id => (who, id)
    refused := if table.refusing < s.threads.refusing then s.refused ++ [who] else s.refused }

@[simp] theorem note_assembly (s : Workshop G V) (who : TxId) (after : Assembly G V) :
    (s.note who after).assembly = after := rfl

@[simp] theorem note_threads (s : Workshop G V) (who : TxId) (after : Assembly G V) :
    (s.note who after).threads = after.world.1.threads := rfl

@[simp] theorem note_joined (s : Workshop G V) (who : TxId) (after : Assembly G V) :
    (s.note who after).joined = s.joined := rfl

/-- Where no thread is new nobody asked for one. -/
theorem note_requests {s : Workshop G V} {after : Assembly G V}
    (next : after.world.1.threads.next = s.threads.next) (who : TxId) :
    (s.note who after).requests = s.requests := by
  simp only [note, next, Nat.sub_self, List.range'_zero, List.map_nil, List.append_nil]

theorem refused_note {s : Workshop G V} {other : TxId} (refused : other ∈ s.refused) (who : TxId)
    (after : Assembly G V) : other ∈ (s.note who after).refused := by
  simp only [note]
  split
  · exact List.mem_append_left _ refused
  · exact refused

theorem refused_now {s : Workshop G V} {after : Assembly G V}
    (fewer : after.world.1.threads.refusing < s.threads.refusing) (who : TxId) :
    who ∈ (s.note who after).refused := by
  simp only [note, if_pos fewer]
  exact List.mem_append_right _ (List.mem_singleton_self who)

variable [Participant G V]

def step (chunk : Nat → Nat → Nat) (s : Workshop G V) : Happening G V → Workshop G V
  | .call who call => s.note who (s.assembly.step chunk (who, call))
  | .join id =>
      let r := s.assembly.world.1.joinThread id
      { s with
        assembly.world := (r.2, s.assembly.world.2)
        joined := if Thread.cameBack r.1 then s.joined ++ [id] else s.joined }
  | .wake id => { s with assembly.world := (s.assembly.world.1.runThread id, s.assembly.world.2) }
  | .meanwhile change =>
      let r := change s.assembly.world
      { s with assembly.world := ({ r.1 with threads := s.threads }, r.2) }

def run (chunk : Nat → Nat → Nat) (s : Workshop G V) (happenings : List (Happening G V)) :
    Workshop G V :=
  happenings.foldl (step chunk) s

omit [Participant G V] in
/-- Who asks for a thread in what happens, and the thread that the call is answered with. -/
def requested (s : Workshop G V) : Happening G V → Option (TxId × Nat)
  | .call who call =>
      (call.requested (s.assembly.transactions who) s.assembly.world).map fun id => (who, id)
  | _ => none

/-- Who asks for which threads while things happen. -/
def requestedIn (chunk : Nat → Nat → Nat) : Workshop G V → List (Happening G V) → List (TxId × Nat)
  | _, [] => []
  | s, happening :: rest =>
      (s.requested happening).toList ++ requestedIn chunk (s.step chunk happening) rest

/-- What can be said of the threads at any time. -/
structure Kept (s : Workshop G V) : Prop where
  numbered : s.requests.map Prod.snd = List.range s.threads.next
  unknown : ∀ id, s.threads.next ≤ id → s.threads.state? id = none
  each : ∀ who, (s.assembly.transactions who).Seated ∧ (s.assembly.transactions who).outcome = none ∧
      ((s.assembly.transactions who).seat Party.threads).asked = s.asked who ∨
    (s.assembly.transactions who).phase = .released
  fates : ∀ r ∈ s.requests, Fate (s.assembly.transactions r.1) (r.1 ∈ s.refused)
    (r.2 ∈ s.threads.started) (r.2 ∈ s.joined) (s.threads.state? r.2)
  once : s.threads.started.Nodup
  below : ∀ id ∈ s.threads.started, id < s.threads.next
  joins : s.joined.Nodup
  ran : ∀ id ∈ s.joined, id ∈ s.threads.started

variable {s : Workshop G V}

omit [Participant G V] in
theorem kept_start (config : TxId → Config) (w : World × V) (refusals : List Bool) :
    (start config w refusals : Workshop G V).Kept where
  numbered := rfl
  unknown _ _ := rfl
  each _ := Or.inl
    ⟨⟨rfl, rfl, Nat.zero_le _, Nat.zero_le _, Nat.zero_le _, Nat.zero_le _⟩, rfl, rfl⟩
  fates _ member := absurd member List.not_mem_nil
  once := List.nodup_nil
  below _ member := absurd member List.not_mem_nil
  joins := List.nodup_nil
  ran _ member := absurd member List.not_mem_nil

namespace Kept

omit [Participant G V] in
/-- A thread is asked for by one transaction. -/
theorem alone (kept : s.Kept) {who other : TxId} {id : Nat} (mine : (who, id) ∈ s.requests)
    (theirs : (other, id) ∈ s.requests) : who = other := by
  have distinct : (s.requests.map Prod.snd).Nodup := by
    rw [kept.numbered]
    exact List.nodup_range
  exact congrArg Prod.fst (List.inj_on_of_nodup_map distinct mine theirs rfl)

omit [Participant G V] in
theorem mem_asked {who : TxId} {id : Nat} : id ∈ s.asked who ↔ (who, id) ∈ s.requests := by
  simp [asked]

omit [Participant G V] in
theorem request_below (kept : s.Kept) {r : TxId × Nat} (member : r ∈ s.requests) :
    r.2 < s.threads.next := by
  rw [← List.mem_range, ← kept.numbered]
  exact List.mem_map_of_mem member

omit [Participant G V] in
/-- Who is at work did not get to apply. -/
theorem unapplied (kept : s.Kept) (who : TxId) (active : (s.assembly.transactions who).phase = .active) :
    .applying ∉ (s.assembly.transactions who).visited := by
  rcases kept.each who with ⟨seated, -⟩ | released
  · exact seated.fresh _
  · rw [active] at released
    cases released

omit [Participant G V] in
/-- Whatever thread there is was asked for. -/
theorem request (kept : s.Kept) {id : Nat} (below : id < s.threads.next) :
    ∃ who, (who, id) ∈ s.requests := by
  rw [← List.mem_range, ← kept.numbered] at below
  obtain ⟨⟨who, _⟩, member, rfl⟩ := List.mem_map.1 below
  exact ⟨who, member⟩

/-! ### Nobody calls -/

omit [Participant G V] in
/-- Where threads stay as they are. -/
theorem still (kept : s.Kept) {world : World × V} (same : world.1.threads = s.threads) :
    ({ s with assembly.world := world } : Workshop G V).Kept where
  numbered := by rw [threads, same]; exact kept.numbered
  unknown := by rw [threads, same]; exact kept.unknown
  each := kept.each
  fates := by rw [threads, same]; exact kept.fates
  once := by rw [threads, same]; exact kept.once
  below := by rw [threads, same]; exact kept.below
  joins := kept.joins
  ran := by rw [threads, same]; exact kept.ran

omit [Participant G V] in
/-- A thread that has a state was asked for. -/
theorem known (kept : s.Kept) {id : Nat} {state : ThreadState}
    (is : s.threads.state? id = some state) : id < s.threads.next := by
  by_contra beyond
  rw [kept.unknown id (Nat.not_lt.1 beyond)] at is
  cases is

omit [Participant G V] in
/-- Where one thread that runs comes to be in another state. -/
theorem becomes (kept : s.Kept) {id : Nat} {ended : Option (Option ThreadReport)}
    (runs : s.threads.state? id = some (.running ended)) {world : World} {state : ThreadState}
    (becomes : s.threads.Becomes id state world.threads) {joined : List Nat}
    (joins : joined.Nodup) (others : ∀ other, other ≠ id → (other ∈ joined ↔ other ∈ s.joined))
    (fate : ∀ {t : Transaction (Party G)} {denied begun : Prop},
      Fate t denied begun (id ∈ s.joined) (some (.running ended)) →
        Fate t denied begun (id ∈ joined) (some state)) :
    ({ s with assembly.world := (world, s.assembly.world.2), joined } : Workshop G V).Kept where
  numbered := by rw [threads, becomes.next]; exact kept.numbered
  unknown other beyond := by
    rw [threads, becomes.next] at beyond
    have ne : other ≠ id := by
      rintro rfl
      exact absurd (kept.known runs) (Nat.not_lt.2 beyond)
    rw [threads, becomes.each, if_neg ne]
    exact kept.unknown other beyond
  each := kept.each
  fates r member := by
    have before := kept.fates r member
    rw [threads, becomes.each, becomes.started]
    split
    · next same =>
      rw [same, runs] at before
      rw [same]
      exact fate before
    · next ne => exact before.kept (fun refused => refused) Iff.rfl (others r.2 ne)
  once := by rw [threads, becomes.started]; exact kept.once
  below := by rw [threads, becomes.started, becomes.next]; exact kept.below
  joins := joins
  ran other member := by
    rw [threads, becomes.started]
    by_cases same : other = id
    · obtain ⟨who, asked⟩ := kept.request (kept.known runs)
      have before := kept.fates _ asked
      rw [runs] at before
      rw [same]
      exact before.running.1
    · exact kept.ran other ((others other same).1 member)

theorem join (kept : s.Kept) (chunk : Nat → Nat → Nat) (id : Nat) : (s.step chunk (.join id)).Kept := by
  simp only [step]
  rcases s.assembly.world.1.joinThread_cases id with
    ⟨e, refused, kind⟩ | ⟨waits, same⟩ | ⟨back, ⟨ended, runs⟩, becomes⟩
  · have stays : Thread.cameBack (some (.error e)) = false := by rw [Thread.cameBack, kind]; rfl
    rw [refused, if_neg (by rw [stays]; decide)]
    exact kept.still rfl
  · rw [waits, if_neg (by decide)]
    exact kept.still same
  · rw [if_pos back]
    obtain ⟨who, asked⟩ := kept.request (kept.known runs)
    have before := kept.fates _ asked
    rw [show s.threads.state? id = _ from runs] at before
    refine kept.becomes runs becomes ?_ (fun other ne => ?_) fun fate => ?_
    · exact kept.joins.append (List.nodup_singleton id)
        (List.disjoint_singleton.2 before.running.2)
    · rw [List.mem_append, List.mem_singleton, or_iff_left ne]
    · exact fate.join (List.mem_append_right _ (List.mem_singleton_self id))

theorem wake (kept : s.Kept) (chunk : Nat → Nat → Nat) (id : Nat) : (s.step chunk (.wake id)).Kept := by
  rcases s.assembly.world.1.runThread_becomes id with same | ⟨runs, ended, becomes⟩
  · exact kept.still same
  · exact kept.becomes runs becomes kept.joins (fun _ _ => Iff.rfl) fun fate => fate.runsOn _

/-! ### Somebody calls -/

variable {who : TxId} {after : Assembly G V}

omit [Participant G V] in
theorem asked_nodup (kept : s.Kept) (who : TxId) : (s.asked who).Nodup := by
  refine List.Nodup.sublist ((List.filter_sublist).map _) (?_ : (s.requests.map Prod.snd).Nodup)
  rw [kept.numbered]
  exact List.nodup_range

omit [Participant G V] in
/-- A call of which nothing came. -/
theorem unnoted (kept : s.Kept) (who : TxId) : (s.note who s.assembly).Kept := by
  have same : s.note who s.assembly = s := by
    simp only [note, threads, Nat.sub_self, List.range'_zero, List.map_nil, List.append_nil,
      Nat.lt_irrefl, if_false]
  rw [same]
  exact kept

omit [Participant G V] in
/-- A transaction at work has only threads that wait. -/
theorem waiting (kept : s.Kept) (seated : (s.assembly.transactions who).Seated) {id : Nat}
    (asked : id ∈ s.asked who) : s.threads.state? id = some .pending ∧ id ∉ s.threads.started :=
  (kept.fates (who, id) (mem_asked.1 asked)).pending seated

omit [Participant G V] in
/-- A call that asks for no thread: it is enough to know what became of the threads of who called. -/
theorem noted (kept : s.Kept) (ids : List Nat) (next : after.world.1.threads.next = s.threads.next)
    (unknown : ∀ id, after.world.1.threads.next ≤ id → after.world.1.threads.state? id = none)
    (others : ∀ other, other ≠ who → after.transactions other = s.assembly.transactions other)
    (own : (after.transactions who).Seated ∧ (after.transactions who).outcome = none ∧
        ((after.transactions who).seat Party.threads).asked = s.asked who ∨
      (after.transactions who).phase = .released)
    (within : ∀ id ∈ ids, id ∈ s.asked who) (distinct : ids.Nodup)
    (started : after.world.1.threads.started = s.threads.started ++ ids)
    (seated : (s.assembly.transactions who).Seated)
    (theirs : ∀ id, id ∉ s.asked who → after.world.1.threads.state? id = s.threads.state? id)
    (mine : ∀ id ∈ s.asked who, id ∉ s.threads.started → Fate (after.transactions who)
      (after.world.1.threads.refusing < s.threads.refusing) (id ∈ ids) (id ∈ s.joined)
      (after.world.1.threads.state? id)) : (s.note who after).Kept := by
  have requests := note_requests next who
  have begun (id : Nat) : id ∈ after.world.1.threads.started ↔ id ∈ s.threads.started ∨ id ∈ ids := by
    rw [started, List.mem_append]
  exact {
    numbered := by rw [requests, kept.numbered]; exact congrArg List.range next.symm
    unknown := unknown
    each := fun other => by
      rw [asked, requests, note_assembly]
      by_cases same : other = who
      · rw [same]
        exact own
      · rw [others other same]
        exact kept.each other
    fates := fun r member => by
      rw [requests] at member
      simp only [note_assembly, note_threads, note_joined]
      by_cases same : r.1 = who
      · have asked : r.2 ∈ s.asked who := mem_asked.2 (same ▸ member)
        have unbegun := (kept.waiting seated asked).2
        rw [same]
        exact (mine r.2 asked unbegun).kept (fun fewer => refused_now fewer who)
          ((begun r.2).trans (or_iff_right unbegun)) Iff.rfl
      · have foreign : r.2 ∉ s.asked who := fun asked =>
          same (kept.alone member (mem_asked.1 asked))
        rw [others r.1 same, theirs r.2 foreign]
        exact (kept.fates r member).kept (fun refused => refused_note refused who after)
          ((begun r.2).trans (or_iff_left fun member => foreign (within _ member))) Iff.rfl
    once := by
      rw [note_threads, started]
      exact kept.once.append distinct fun id old new => (kept.waiting seated (within id new)).2 old
    below := fun id member => by
      rw [note_threads] at member ⊢
      rw [next]
      rcases (begun id).1 member with old | new
      · exact kept.below id old
      · exact kept.request_below (mem_asked.1 (within id new))
    joins := kept.joins
    ran := fun id member => (begun id).2 (Or.inl (kept.ran id member)) }

omit [Participant G V] in
/-- A call that asks for a thread. -/
theorem asks (kept : s.Kept) (name : Option String) (task : ThreadTask)
    (table : after.world.1.threads = (s.threads.request name task).2)
    (others : ∀ other, other ≠ who → after.transactions other = s.assembly.transactions other)
    (seated : (s.assembly.transactions who).Seated) (seated' : (after.transactions who).Seated)
    (open_ : (after.transactions who).outcome = none)
    (asked : ((after.transactions who).seat Party.threads).asked = s.asked who ++ [s.threads.next]) :
    (s.note who after).Kept := by
  have next : after.world.1.threads.next = s.threads.next + 1 := by rw [table]; rfl
  have started : after.world.1.threads.started = s.threads.started := by rw [table]; rfl
  have state (id : Nat) : after.world.1.threads.state? id =
      if id = s.threads.next then some .pending else s.threads.state? id := by
    rw [table, ThreadTable.state?_request]
  have requests : (s.note who after).requests = s.requests ++ [(who, s.threads.next)] := by
    simp only [note, next, Nat.add_sub_cancel_left, List.range'_one, List.map_cons, List.map_nil]
  exact {
    numbered := by
      rw [requests, List.map_append, kept.numbered, note_threads, next, List.range_succ]
      rfl
    unknown := fun id beyond => by
      rw [note_threads, next] at beyond
      rw [note_threads, state, if_neg (by omega)]
      exact kept.unknown id (by omega)
    each := fun other => by
      rw [note_assembly]
      by_cases same : other = who
      · refine Or.inl ⟨same ▸ seated', same ▸ open_, ?_⟩
        rw [same, asked, Workshop.asked, Workshop.asked, requests]
        simp
      · have theirs : (s.note who after).asked other = s.asked other := by
          rw [Workshop.asked, Workshop.asked, requests]
          simp [Ne.symm same]
        rw [others other same, theirs]
        exact kept.each other
    fates := fun r member => by
      rw [requests, List.mem_append, List.mem_singleton] at member
      simp only [note_assembly, note_threads, note_joined, state, started]
      rcases member with old | rfl
      · have below := kept.request_below old
        rw [if_neg (by omega)]
        by_cases same : r.1 = who
        · have mine : r.2 ∈ s.asked who := mem_asked.2 (same ▸ old)
          have waits := kept.waiting seated mine
          rw [waits.1, same]
          exact .waits seated'.active open_ waits.2
        · rw [others r.1 same]
          exact (kept.fates r old).kept (fun refused => refused_note refused who after) Iff.rfl Iff.rfl
      · rw [if_pos rfl]
        exact .waits seated'.active open_ fun begun => Nat.lt_irrefl _ (kept.below _ begun)
    once := by rw [note_threads, started]; exact kept.once
    below := fun id member => by
      rw [note_threads, started] at member
      rw [note_threads, next]
      exact Nat.lt_succ_of_lt (kept.below id member)
    joins := kept.joins
    ran := fun id member => by
      rw [note_threads, started]
      exact kept.ran id member }

/-- **Every call keeps the account of the threads.** -/
theorem call (kept : s.Kept) (chunk : Nat → Nat → Nat) (who : TxId) (call : PartyCall G) :
    (s.step chunk (.call who call)).Kept := by
  have others (other : TxId) (ne : other ≠ who) :
      (s.assembly.step chunk (who, call)).transactions other = s.assembly.transactions other :=
    s.assembly.step_other chunk ne
  have own := s.assembly.step_self chunk who call
  have world : (s.assembly.step chunk (who, call)).world =
      (call.perform chunk (s.assembly.transactions who) s.assembly.world).2 := rfl
  rw [step]
  rcases kept.each who with ⟨seated, open_, asked⟩ | released
  · have spawning := call.spawning chunk seated s.assembly.world
    have conduct := call.conduct chunk seated s.assembly.world
    rw [← own, ← world] at spawning conduct
    generalize call.requested (s.assembly.transactions who) s.assembly.world = requested at spawning
    generalize s.assembly.step chunk (who, call) = after at others spawning conduct
    generalize mine : after.transactions who = t' at spawning conduct
    generalize seen : after.world = w' at spawning conduct
    cases spawning with
    | aside visited outcome seat table =>
        have same : after.world.1.threads = s.threads := by rw [seen]; exact table
        have seated' := conduct.seated visited
        refine kept.noted [] (by rw [same]) (by rw [same]; exact kept.unknown) others
          (Or.inl ⟨mine ▸ seated', ?_, ?_⟩) nofun List.nodup_nil (by rw [same, List.append_nil]) seated
          (fun id _ => by rw [same]) fun id theirs unbegun => ?_
        · rw [mine, outcome, open_]
        · rw [mine, seat, asked]
        · rw [mine, same, (kept.waiting seated theirs).1]
          exact .waits seated'.active (outcome.trans open_) List.not_mem_nil
    | asked name task visited outcome seat =>
        refine kept.asks name task ?_ others seated (mine ▸ conduct.seated visited) ?_ ?_
        · rw [seen]
          rfl
        · rw [mine, outcome, open_]
        · rw [mine, seat, Threads.asked_spawn, asked]
          rfl
    | gaveUp visited outcome unapplied lost gives =>
        rw [asked, ← seen] at gives
        replace gives : s.threads.GivesUp (s.asked who) after.world.1.threads := gives
        refine kept.noted [] gives.next (gives.unknown kept.unknown) others
          (Or.inr (by rw [mine]; rfl)) nofun List.nodup_nil (by rw [gives.started, List.append_nil])
          seated (fun id theirs => gives.state_other theirs) fun id own unbegun => ?_
        rw [mine, gives.state_own own (kept.waiting seated own).1]
        exact .givenUp rfl (List.mem_append.not.2 (not_or.2 ⟨seated.fresh _, unapplied⟩))
          (fun won => lost (Option.some.inj won)) List.not_mem_nil
    | applied visited outcome applying w₁ same table committed =>
        obtain ⟨-, done, rest, split, lets, how⟩ :=
          ((s.assembly.transactions who).seat Party.threads).apply_lets w₁
        rw [← table, same, ← seen] at lets how
        replace lets : s.threads.Lets done after.world.1.threads := lets
        rw [asked] at split
        have within (id : Nat) (member : id ∈ done) : id ∈ s.asked who := by
          rw [split]
          exact List.mem_append_left _ member
        refine kept.noted done lets.next (lets.unknown (fun id member =>
            kept.request_below (mem_asked.1 (within id member))) kept.unknown) others
          (Or.inr (by rw [mine]; rfl)) within ?_ lets.started seated
          (fun id theirs => lets.state_other fun member => theirs (within id member))
          fun id own unbegun => ?_
        · have distinct := kept.asked_nodup who
          rw [split] at distinct
          exact distinct.of_append_left
        · have applied : .applying ∈ ((s.assembly.transactions who).ended visited outcome).visited :=
            List.mem_append_right _ applying
          have pending := (kept.waiting seated own).1
          rw [mine]
          by_cases begun : id ∈ done
          · obtain ⟨ended, runs⟩ := lets.state_own begun pending
            rw [runs]
            exact .runs applied begun (fun back => unbegun (kept.ran id back)) ended
          · rw [lets.state_other begun, pending]
            have left : rest ≠ [] := by
              rintro rfl
              rw [split, List.append_nil] at own
              exact begun own
            rcases how with ⟨⟨e, failed⟩, -, fewer⟩ | ⟨-, nobodyLeft, -⟩
            · refine .stranded applied begun fewer fun won => ?_
              rw [committed (Option.some.inj won)] at failed
              cases failed
            · exact absurd nobodyLeft left
  · have idle : s.assembly.step chunk (who, call) = s.assembly :=
      Assembly.step_released chunk released
    rw [idle]
    exact kept.unnoted who

theorem step (kept : s.Kept) (chunk : Nat → Nat → Nat) (happening : Happening G V) :
    (s.step chunk happening).Kept := by
  cases happening with
  | call who call => exact kept.call chunk who call
  | join id => exact kept.join chunk id
  | wake id => exact kept.wake chunk id
  | meanwhile change => exact kept.still rfl

theorem run (kept : s.Kept) (chunk : Nat → Nat → Nat) (happenings : List (Happening G V)) :
    (s.run chunk happenings).Kept := by
  induction happenings generalizing s with
  | nil => exact kept
  | cons happening rest ih => exact ih (kept.step chunk happening)

/-! ### Requests -/

/-- A request is what a call is answered with. -/
theorem step_requests (kept : s.Kept) (chunk : Nat → Nat → Nat) (happening : Happening G V) :
    (s.step chunk happening).requests = s.requests ++ (s.requested happening).toList := by
  cases happening with
  | call who call =>
      show s.requests ++ (List.range' _ _).map _ = _
      rw [Workshop.requested, Option.toList_map]
      refine congrArg (fun ids => s.requests ++ List.map _ ids) ?_
      rcases kept.each who with ⟨seated, -, -⟩ | released
      · exact (call.spawning chunk seated s.assembly.world).requested
      · rw [Assembly.step_released chunk released, call.requested_released released]
        exact List.range'_eq_nil_iff.2 (Nat.sub_self _)
  | join id => exact (List.append_nil _).symm
  | wake id => exact (List.append_nil _).symm
  | meanwhile change => exact (List.append_nil _).symm

theorem run_requests (kept : s.Kept) (chunk : Nat → Nat → Nat) (happenings : List (Happening G V)) :
    (s.run chunk happenings).requests = s.requests ++ s.requestedIn chunk happenings := by
  induction happenings generalizing s with
  | nil => exact (List.append_nil _).symm
  | cons happening rest ih =>
      refine (ih (kept.step chunk happening)).trans ?_
      rw [kept.step_requests chunk happening, List.append_assoc]
      rfl

end Kept

/-! ## What threads come to -/

/-- What holds of the threads of a workshop. -/
structure Fulfilled (s : Workshop G V) : Prop where
  /-- No body is let run twice. -/
  once : s.threads.started.Nodup
  /-- A body is let run only for a transaction that asked for it and got to apply. -/
  applied : ∀ id ∈ s.threads.started, ∃ who, (who, id) ∈ s.requests ∧
    .applying ∈ (s.assembly.transactions who).visited
  /-- Whoever committed has all its threads. -/
  committed : ∀ who id, (who, id) ∈ s.requests →
    (s.assembly.transactions who).outcome = some .committed → s.threads.spawned id = true
  /-- Whoever was released without a refused start has no thread pending. -/
  settled : ∀ who id, (who, id) ∈ s.requests → (s.assembly.transactions who).phase = .released →
    who ∉ s.refused → s.threads.spawned id = true ∨ s.threads.discarded id = true
  /-- Whoever was released without an apply has no thread. -/
  unapplied : ∀ who id, (who, id) ∈ s.requests → (s.assembly.transactions who).phase = .released →
    .applying ∉ (s.assembly.transactions who).visited → s.threads.discarded id = true
  /-- A thread that an apply did not let run stays pending, and a start of that apply was refused. -/
  stranded : ∀ who id, (who, id) ∈ s.requests → .applying ∈ (s.assembly.transactions who).visited →
    id ∉ s.threads.started → s.threads.state? id = some .pending ∧ who ∈ s.refused
  /-- A join comes back once at most, and only from a body that was let run. -/
  joins : s.joined.Nodup ∧ ∀ id ∈ s.joined, id ∈ s.threads.started
  /-- A join that is refused as an invalid operation changes nothing. -/
  refusal : ∀ id e, (s.assembly.world.1.joinThread id).1 = some (.error e) →
    e.kind = .invalidOperation → (s.assembly.world.1.joinThread id).2 = s.assembly.world.1

omit [Participant G V] in
theorem Kept.fulfilled (kept : s.Kept) : s.Fulfilled where
  once := kept.once
  applied id begun := by
    obtain ⟨who, asked⟩ := kept.request (kept.below id begun)
    exact ⟨who, asked, (kept.fates _ asked).applied begun⟩
  committed who id asked won := by
    have fate := kept.fates _ asked
    by_cases begun : id ∈ s.threads.started
    · exact fate.spawned begun
    · exact absurd won (fate.uncommitted begun)
  settled who id asked released unrefused := by
    have fate := kept.fates _ asked
    by_cases begun : id ∈ s.threads.started
    · exact Or.inl (fate.spawned begun)
    · refine Or.inr (fate.discarded released fun applied => unrefused ?_)
      exact (fate.left applied (kept.unapplied who) begun).2
  unapplied who id asked released unapplied := (kept.fates _ asked).discarded released unapplied
  stranded who id asked applied unbegun := (kept.fates _ asked).left applied (kept.unapplied who) unbegun
  joins := ⟨kept.joins, kept.ran⟩
  refusal id e refused kind := by
    rcases s.assembly.world.1.joinThread_cases id with ⟨e', same, -⟩ | ⟨waits, -⟩ | ⟨back, -⟩
    · rw [same]
    · rw [waits] at refused
      cases refused
    · rw [refused, Thread.cameBack, kind] at back
      cases back

/-- **Threads run exactly once for a transaction that applied, and are given up for one that did not.**
After a commit all have been started; once a transaction is released none is pending, unless the system
refused a start: then that thread and those behind it stay pending for good.  The threads in question are
those that calls were answered with, all of them. -/
theorem run_fulfils (chunk : Nat → Nat → Nat) (config : TxId → Config) (w : World × V)
    (refusals : List Bool) (happenings : List (Happening G V)) :
    let s : Workshop G V := start config w refusals
    (s.run chunk happenings).Fulfilled ∧
      (s.run chunk happenings).requests = s.requestedIn chunk happenings := by
  intro s
  have kept : s.Kept := kept_start config w refusals
  exact ⟨(kept.run chunk happenings).fulfilled, kept.run_requests chunk happenings⟩

example :
    let who : TxId := ⟨1, "tx"⟩
    let ask : Happening Yields World := .call who (.work (.spawn none {}))
    let s := (start (fun _ => {}) ({}, {}) [false, true]).run (fun _ _ => 1)
      [ask, ask, ask, .call who .commit]
    (s.assembly.transactions who).phase = .released ∧ s.threads.started = [0] ∧
      s.threads.state? 1 = some .pending ∧ s.threads.state? 2 = some .pending := by
  decide

end Workshop

end Workshops

end Transact
