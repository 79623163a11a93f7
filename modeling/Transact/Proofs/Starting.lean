/-
# Transact.Proofs.Starting -- what becomes of the threads that a transaction wrote down

Threads are let run one after another until the system refuses one: `ThreadTable.Lets` says what came of
those it let run, and `Threads.apply_lets` how far an apply gets.  Undo gives up all of them
(`Threads.undo_threads`).

At the end of a transaction nobody else does anything to threads, and once the one in the seat was
undone or applied nothing is written down any more, so its release does nothing either
(`Transaction.close_threads`).  `Spawning` lists what a call can do to threads, exactly.
-/
import Transact.Proofs.Unlocking
import Transact.Proofs.Unopposed
import Transact.Proofs.Withholding

namespace Transact

set_option autoImplicit false

/-! ## The table -/

namespace ThreadTable

/-- How many of the coming starts the system will refuse. -/
def refusing (t : ThreadTable) : Nat := t.refusals.count true

/-- From `t` to `t'` the threads `ids` were let run, and no other. -/
structure Lets (t : ThreadTable) (ids : List Nat) (t' : ThreadTable) : Prop where
  started : t'.started = t.started ++ ids
  next : t'.next = t.next
  others : ∀ id, id ∉ ids → t'.threads.get? id = t.threads.get? id
  own : ∀ id ∈ ids, ∀ thread, t.threads.get? id = some thread →
    ∃ ended, t'.threads.get? id = some { thread with state := .running ended }

theorem Lets.nothing {t t' : ThreadTable} (started : t'.started = t.started) (next : t'.next = t.next)
    (threads : t'.threads = t.threads) : t.Lets [] t' where
  started := by rw [started, List.append_nil]
  next := next
  others _ _ := by rw [threads]
  own _ member := absurd member List.not_mem_nil

theorem Lets.trans {t t' t'' : ThreadTable} {first second : List Nat} (early : t.Lets first t')
    (late : t'.Lets second t'') : t.Lets (first ++ second) t'' where
  started := by rw [late.started, early.started, List.append_assoc]
  next := late.next.trans early.next
  others id outside := by
    obtain ⟨before, after⟩ := not_or.1 (List.mem_append.not.1 outside)
    rw [late.others id after, early.others id before]
  own id member thread found := by
    by_cases before : id ∈ first
    · obtain ⟨ended, running⟩ := early.own id before thread found
      by_cases after : id ∈ second
      · obtain ⟨ended', running'⟩ := late.own id after _ running
        exact ⟨ended', running'⟩
      · exact ⟨ended, (late.others id after).trans running⟩
    · have after := (List.mem_append.1 member).resolve_left before
      exact late.own id after thread ((early.others id before).trans found)

/-- A start is refused and nothing comes of it, or the thread is let run. -/
theorem start_lets (t : ThreadTable) (id : Nat) :
    (∃ e t', t.start id = (.error e, t') ∧ t.Lets [] t' ∧ t'.refusing < t.refusing) ∨
      ∃ t', t.start id = (.ok (), t') ∧ t.Lets [id] t' ∧ t'.refusing = t.refusing := by
  unfold start
  split
  · next rest refusals =>
    refine Or.inl ⟨_, _, rfl, .nothing rfl rfl rfl, ?_⟩
    rw [refusing, refusing, refusals, List.count_cons_self]
    exact Nat.lt_succ_self _
  · next agreed =>
    refine Or.inr ⟨_, rfl, ⟨rfl, rfl, fun other outside => ?_, fun other member thread found => ?_⟩, ?_⟩
    · rw [Table.get?_modify, if_neg (List.mem_singleton.not.1 outside)]
    · obtain rfl := List.mem_singleton.1 member
      exact ⟨none, by rw [Table.get?_modify, if_pos rfl, found, Option.map_some]⟩
    · rw [refusing, refusing]
      rcases refusals : t.refusals with _ | ⟨_ | _, rest⟩
      · rfl
      · rw [List.tail_cons, List.count_cons_of_ne (by decide)]
      · exact absurd refusals (agreed rest)

end ThreadTable

namespace World

/-- A body that runs ends, or waits; nothing else happens to threads. -/
theorem runThread_threads (w : World) (id : Nat) :
    (w.runThread id).threads = w.threads ∨ ∃ thread ended,
      w.threads.threads.get? id = some thread ∧ thread.state = .running none ∧
        (w.runThread id).threads = w.threads.setState id (.running (some ended)) := by
  unfold runThread
  split
  · next name task found =>
    have finished (ended : Option ThreadReport) : ∃ thread ended',
        w.threads.threads.get? id = some thread ∧ thread.state = .running none ∧
          w.threads.setState id (.running (some ended)) =
            w.threads.setState id (.running (some ended')) := ⟨_, ended, found, rfl, rfl⟩
    simp only
    split
    · exact Or.inr (finished _)
    split
    · exact Or.inr (finished _)
    split
    · exact Or.inr (finished _)
    split
    · exact Or.inr (finished _)
    · exact Or.inl rfl
    · exact Or.inr (finished _)
  · exact Or.inl rfl

/-- The body of a thread that was let run may run on. -/
theorem runThread_lets {t : ThreadTable} {w : World} {ids : List Nat} (lets : t.Lets ids w.threads)
    {id : Nat} (member : id ∈ ids) : t.Lets ids (w.runThread id).threads := by
  rcases w.runThread_threads id with same | ⟨thread, ended, found, running, ends⟩
  · rw [same]
    exact lets
  · rw [ends]
    refine ⟨lets.started, lets.next, fun other outside => ?_, fun other within asked before => ?_⟩
    · have ne : other ≠ id := fun same => outside (same ▸ member)
      rw [ThreadTable.setState, Table.get?_modify, if_neg ne]
      exact lets.others other outside
    · obtain ⟨ended', now⟩ := lets.own other within asked before
      rw [ThreadTable.setState, Table.get?_modify]
      split
      · next same =>
        subst same
        exact ⟨some ended, by rw [now, Option.map_some]⟩
      · exact ⟨ended', now⟩

theorem startThread_lets (w : World) (id : Nat) :
    (∃ e w', w.startThread id = (.error e, w') ∧ w.threads.Lets [] w'.threads ∧
        w'.threads.refusing < w.threads.refusing) ∨
      ∃ w', w.startThread id = (.ok (), w') ∧ w.threads.Lets [id] w'.threads ∧
        w'.threads.refusing = w.threads.refusing := by
  unfold startThread
  rcases w.threads.start_lets id with ⟨e, t, refused, lets, fewer⟩ | ⟨t, started, lets, same⟩
  · rw [refused]
    exact Or.inl ⟨e, _, rfl, lets, fewer⟩
  · rw [started]
    refine Or.inr ⟨_, rfl, ?_, ?_⟩
    · exact runThread_lets (w := { w with threads := t }) lets List.mem_cons_self
    · rw [ThreadTable.refusing, refusals_runThread]
      exact same

end World

/-! ## The log -/

namespace Threads

/-- The threads that are written down, in the order they were asked for. -/
def asked (s : Threads) : List Nat := s.log.records.map (·.payload.thread)

theorem applyEach_lets (rs : List (Record SpawnRequest)) (w : World) :
    let r := DeferredLog.applyEach applyRecord rs w
    ∃ done rest, rs.map (·.payload.thread) = done ++ rest ∧ w.threads.Lets done r.2.threads ∧
      ((∃ e, r.1 = .error e) ∧ rest ≠ [] ∧ r.2.threads.refusing < w.threads.refusing ∨
        r.1 = .ok () ∧ rest = [] ∧ r.2.threads.refusing = w.threads.refusing) := by
  induction rs generalizing w with
  | nil => exact ⟨[], [], rfl, .nothing rfl rfl rfl, Or.inr ⟨rfl, rfl, rfl⟩⟩
  | cons r rest ih =>
      simp only [DeferredLog.applyEach, applyRecord, List.map_cons]
      rcases w.startThread_lets r.payload.thread with ⟨e, w', came, lets, fewer⟩ | ⟨w', came, lets, same⟩
      · rw [came]
        exact ⟨[], _, rfl, lets, Or.inl ⟨⟨_, rfl⟩, List.cons_ne_nil _ _, fewer⟩⟩
      · rw [came]
        obtain ⟨done, left, split, further, how⟩ := ih w'
        rw [same] at how
        exact ⟨r.payload.thread :: done, left, congrArg _ split, lets.trans further, how⟩

/-- **An apply lets run what is written down**, one after another, up to the first start that the system
refuses. -/
theorem apply_lets (s : Threads) (w : World) :
    let r := s.apply w
    r.2.1.log = {} ∧ ∃ done rest, s.asked = done ++ rest ∧ w.threads.Lets done r.2.2.threads ∧
      ((∃ e, r.1 = .error e) ∧ rest ≠ [] ∧ r.2.2.threads.refusing < w.threads.refusing ∨
        r.1 = .ok () ∧ rest = [] ∧ r.2.2.threads.refusing = w.threads.refusing) := by
  have each := applyEach_lets s.log.records w
  simp only [apply, DeferredLog.applyAll]
  generalize DeferredLog.applyEach applyRecord s.log.records w = r at each
  obtain ⟨done, rest, split, lets, how⟩ := each
  rcases r with ⟨e | _, w'⟩
  · obtain left | ⟨granted, -⟩ := how
    · exact ⟨rfl, done, rest, split, lets, Or.inl ⟨⟨e, rfl⟩, left.2⟩⟩
    · cases granted
  · obtain ⟨⟨_, refused⟩, -⟩ | all := how
    · cases refused
    · exact ⟨rfl, done, rest, split, lets, Or.inr ⟨rfl, all.2⟩⟩

end Threads

/-- From `t` to `t'` the threads `ids` were given up, and no other. -/
structure ThreadTable.GivesUp (t : ThreadTable) (ids : List Nat) (t' : ThreadTable) : Prop where
  started : t'.started = t.started
  next : t'.next = t.next
  refusals : t'.refusals = t.refusals
  each : ∀ id, t'.threads.get? id =
    if id ∈ ids then (t.threads.get? id).map Thread.discard else t.threads.get? id

/-- **An undo gives up what is written down.** -/
theorem Threads.undo_threads (s : Threads) (w : World) :
    w.threads.GivesUp s.asked (s.undo w).2.2.threads where
  started := (s.withheld_undo w).threads.started
  next := (s.withheld_undo w).threads.next
  refusals := by
    rw [undo_world]
    induction s.log.records with
    | nil => rfl
    | cons r rest ih => exact ih
  each := s.get?_undo w

theorem Threads.undo_log (s : Threads) (w : World) : (s.undo w).2.1.log = {} := by
  simp only [undo, DeferredLog.undoAll]
  split <;> rfl

/-! ## Everybody -/

namespace Pipes

theorem write_threads (pipe : Nat) (bytes : Bytes) (s : Pipes) (w : World) :
    (Pipes.write pipe bytes s w).2.2.threads = w.threads := by
  unfold Pipes.write
  split
  · rfl
  · simp only
    split <;> rfl

end Pipes

namespace Files

theorem removeIfCurrent_threads (access : AccessSet) (id : ResourceId) (path : String) (w : World) :
    (removeIfCurrent access id path w).2.threads = w.threads := by
  unfold removeIfCurrent
  split
  · split <;> rfl
  · rfl

theorem undoRecord_threads (tx : TxId) (s : Files) (r : Record FileEffect) (w : World) :
    (undoRecord tx s r w).2.threads = w.threads := by
  unfold undoRecord
  split
  · split
    · unfold revertCreation
      split
      · exact removeIfCurrent_threads ..
      · split
        · rfl
        · exact removeIfCurrent_threads ..
    · rfl
  · split
    · rfl
    · split <;> rfl
  · rfl

theorem undo_threads (s : Files) (ctx : Context) (w : World) :
    (s.undo ctx w).2.2.threads = w.threads := by
  rw [undo_world]
  induction s.log.records with
  | nil => rfl
  | cons r rest ih => exact (undoRecord_threads ctx.tx s r _).trans ih

end Files

section Parties

variable {G V : Type} [Participant G V] (ctx : Context)

/-- The participants for threads. -/
def threadSeats (members : List (Member (Party G))) : List Threads :=
  seatsOf (Party.threads : Facet (Party G) Threads).view members

/-- Threads and their participant were left alone. -/
structure Party.Heedless (p : Party G) (w : World × V) (r : Party G × World × V) : Prop where
  view : Party.threads.view r.1 = Party.threads.view p
  threads : r.2.1.threads = w.1.threads

namespace Party

theorem heedless_lock (p : Party G) (w : World × V) : p.Heedless w (Participant.lock ctx p w).2 := by
  rcases p with (s | s | s | s) | g <;> exact ⟨rfl, rfl⟩

theorem heedless_unlock (p : Party G) (w : World × V) :
    p.Heedless w (Participant.unlock ctx p w) := by
  rcases p with (s | s | s | s) | g <;> exact ⟨rfl, rfl⟩

theorem heedless_finish (p : Party G) (w : World × V) :
    p.Heedless w (Participant.finish ctx p w) := by
  rcases p with (s | s | s | s) | g <;> exact ⟨rfl, rfl⟩

theorem heedless_apply {p : Party G} (other : Party.threads.view p = none) (w : World × V) :
    p.Heedless w (Participant.apply ctx p w).2 := by
  rcases p with (s | s | s | s) | g
  · obtain ⟨files, versions, same⟩ := s.apply_rest w.1
    exact ⟨rfl, show (s.apply w.1).2.2.threads = w.1.threads by rw [same]⟩
  · exact ⟨rfl, s.apply_threads w.1⟩
  · cases other
  · exact ⟨rfl, rfl⟩
  · exact ⟨rfl, rfl⟩

theorem heedless_undo {p : Party G} (other : Party.threads.view p = none) (w : World × V) :
    p.Heedless w (Participant.undo ctx p w).2 := by
  rcases p with (s | s | s | s) | g
  · exact ⟨rfl, s.undo_threads ctx w.1⟩
  · exact ⟨rfl, congrArg World.threads (s.undo_world w.1)⟩
  · cases other
  · exact ⟨rfl, rfl⟩
  · exact ⟨rfl, rfl⟩

end Party

variable {members : List (Member (Party G))} {w : World × V} {s : Threads}

omit [Participant G V] in
theorem threadSeats_cons_same {m : Member (Party G)} {p : Party G}
    (same : Party.threads.view p = Party.threads.view m.state) {rest rest' : List (Member (Party G))}
    (later : threadSeats rest' = threadSeats rest) :
    threadSeats ({ m with state := p } :: rest') = threadSeats (m :: rest) := by
  unfold threadSeats seatsOf at later ⊢
  simp only [List.filterMap_cons, same, later]

theorem lockAll_threads (members : List (Member (Party G))) (w : World × V) :
    threadSeats (lockAll ctx members w).members = threadSeats members ∧
      (lockAll ctx members w).world.1.threads = w.1.threads := by
  induction members generalizing w with
  | nil => exact ⟨rfl, rfl⟩
  | cons m rest ih =>
      have here := m.state.heedless_lock ctx w
      simp only [lockAll]
      rcases taken : Participant.lock ctx m.state w with ⟨e | _, p, w'⟩ <;> rw [taken] at here
      · exact ⟨threadSeats_cons_same here.view rfl, here.threads⟩
      · exact ⟨threadSeats_cons_same here.view (ih w').1, (ih w').2.trans here.threads⟩

theorem finishAll_threads (members : List (Member (Party G))) (w : World × V) :
    threadSeats (finishAll ctx members w).1 = threadSeats members ∧
      (finishAll ctx members w).2.1.threads = w.1.threads := by
  induction members generalizing w with
  | nil => exact ⟨rfl, rfl⟩
  | cons m rest ih =>
      have here := m.state.heedless_finish ctx w
      have later := ih (Participant.finish ctx m.state w).2
      exact ⟨threadSeats_cons_same here.view later.1, later.2.trans here.threads⟩

theorem unlockAll_threads (members : List (Member (Party G))) (w : World × V) :
    threadSeats (unlockAll ctx members w).1 = threadSeats members ∧
      (unlockAll ctx members w).2.1.threads = w.1.threads := by
  induction members with
  | nil => exact ⟨rfl, rfl⟩
  | cons m rest ih =>
      have here := m.state.heedless_unlock ctx (unlockAll ctx rest w).2
      exact ⟨threadSeats_cons_same here.view ih.1, here.threads.trans ih.2⟩

/-- Where nothing is written down a release does nothing to threads. -/
theorem releaseAll_threads (idle : ∀ s ∈ threadSeats members, s.log = {}) (w : World × V) :
    (releaseAll members w).1.threads = w.1.threads := by
  induction members generalizing w with
  | nil => rfl
  | cons m rest ih =>
      have here : (Participant.release m.state w).2.1.threads = w.1.threads := by
        rcases m with ⟨domain, (s | s | s | s) | g⟩
        · rfl
        · rfl
        · have nothing : s.log = {} := idle s List.mem_cons_self
          simp only [Participant.release, Threads.release, nothing]
          rfl
        · rfl
        · rfl
      refine (ih (fun s member => idle s ?_) _).trans here
      exact ((List.sublist_cons_self m rest).filterMap _).subset member

/-- **Once nothing is written down the closing leaves threads alone.** -/
theorem Transaction.close_threads (idle : ∀ s ∈ threadSeats members, s.log = {}) (locked : Nat)
    (w : World × V) : (close ctx members locked w).1.threads = w.1.threads := by
  obtain ⟨finished, first⟩ := finishAll_threads ctx members w
  obtain ⟨unlocked, second⟩ := unlockAll_threads ctx
    ((finishAll ctx members w).1.take locked) (finishAll ctx members w).2
  refine (releaseAll_threads ?_ _).trans (second.trans first)
  rw [threadSeats, seatsOf_append, ← threadSeats, unlocked, threadSeats, ← seatsOf_append,
    List.take_append_drop, ← threadSeats, finished]
  exact idle

/-! ### Applying and undoing -/

/-- Whatever the first one answers to an apply, the others are applied after it. -/
theorem applyAll_cons (ctx : Context) (m : Member (Party G)) (rest : List (Member (Party G)))
    (w : World × V) :
    let here := Participant.apply ctx m.state w
    let later := applyAll ctx rest here.2.2
    (applyAll ctx (m :: rest) w).2 = ({ m with state := here.2.1 } :: later.2.1, later.2.2) ∧
      ((applyAll ctx (m :: rest) w).1 = none → here.1 = .ok () ∧ later.1 = none) := by
  simp only [applyAll]
  rcases Participant.apply ctx m.state w with ⟨_ | _, p, w'⟩
  · exact ⟨rfl, fun faultless => by cases faultless⟩
  · exact ⟨rfl, fun faultless => ⟨rfl, faultless⟩⟩

/-- Whatever the others answer to an undo, the first one is undone after them. -/
theorem undoAll_cons (ctx : Context) (m : Member (Party G)) (rest : List (Member (Party G)))
    (w : World × V) :
    let later := undoAll ctx rest w
    let here := Participant.undo ctx m.state later.2.2
    (undoAll ctx (m :: rest) w).2 = ({ m with state := here.2.1 } :: later.2.1, here.2.2) := by
  simp only [undoAll]
  rcases Participant.undo ctx m.state (undoAll ctx rest w).2.2 with ⟨_ | _, p, w'⟩ <;> rfl

omit [Participant G V] in
theorem threadSeats_cons_none {m : Member (Party G)} (unseen : Party.threads.view m.state = none)
    (rest : List (Member (Party G))) : threadSeats (m :: rest) = threadSeats rest :=
  Transaction.seatsOf_cons_none unseen rest

omit [Participant G V] in
theorem threadSeats_cons_some {m : Member (Party G)} (seen : Party.threads.view m.state = some s)
    (rest : List (Member (Party G))) : threadSeats (m :: rest) = s :: threadSeats rest :=
  Transaction.seatsOf_cons_some seen rest

theorem applyAll_heedless (nobody : threadSeats members = []) (w : World × V) :
    threadSeats (applyAll ctx members w).2.1 = [] ∧
      (applyAll ctx members w).2.2.1.threads = w.1.threads := by
  induction members generalizing w with
  | nil => exact ⟨rfl, rfl⟩
  | cons m rest ih =>
      have unseen := mem_seatsOf_none nobody m List.mem_cons_self
      rw [threadSeats_cons_none unseen] at nobody
      have here := Party.heedless_apply ctx unseen w
      obtain ⟨empty, same⟩ := ih nobody (Participant.apply ctx m.state w).2.2
      rw [(applyAll_cons ctx m rest w).1]
      exact ⟨(threadSeats_cons_none (here.view.trans unseen) _).trans empty, same.trans here.threads⟩

theorem undoAll_heedless (nobody : threadSeats members = []) (w : World × V) :
    threadSeats (undoAll ctx members w).2.1 = [] ∧
      (undoAll ctx members w).2.2.1.threads = w.1.threads := by
  induction members with
  | nil => exact ⟨rfl, rfl⟩
  | cons m rest ih =>
      have unseen := mem_seatsOf_none nobody m List.mem_cons_self
      rw [threadSeats_cons_none unseen] at nobody
      have here := Party.heedless_undo ctx unseen (undoAll ctx rest w).2.2
      obtain ⟨empty, same⟩ := ih nobody
      rw [undoAll_cons]
      exact ⟨(threadSeats_cons_none (here.view.trans unseen) _).trans empty, here.threads.trans same⟩

/-- **Applying all applies the one in the seat**, and nobody else does anything to threads. -/
theorem applyAll_threads (seats : threadSeats members = [s] ∨ threadSeats members = [] ∧ s = {})
    (w : World × V) :
    (∀ s' ∈ threadSeats (applyAll ctx members w).2.1, s'.log = {}) ∧ ∃ w₁ : World,
      w₁.threads = w.1.threads ∧
      (applyAll ctx members w).2.2.1.threads = (s.apply w₁).2.2.threads ∧
      ((applyAll ctx members w).1 = none → (s.apply w₁).1 = .ok ()) := by
  induction members generalizing w with
  | nil =>
      obtain seated | ⟨-, rfl⟩ := seats
      · cases seated
      · exact ⟨nofun, w.1, rfl, rfl, fun _ => rfl⟩
  | cons m rest ih =>
      obtain ⟨done, faultless⟩ := applyAll_cons ctx m rest w
      rw [done]
      cases seen : Party.threads.view m.state with
      | none =>
          have here := Party.heedless_apply ctx seen w
          rw [threadSeats_cons_none seen] at seats
          obtain ⟨idle, w₁, same, applied, ok⟩ := ih seats (Participant.apply ctx m.state w).2.2
          refine ⟨?_, w₁, same.trans here.threads, applied, fun all => ok (faultless all).2⟩
          rw [threadSeats_cons_none (here.view.trans seen)]
          exact idle
      | some s₀ =>
          obtain ⟨domain, state⟩ := m
          obtain rfl := Party.lawful_threads.wrap_of_view _ _ seen
          rw [threadSeats_cons_some seen] at seats
          obtain ⟨rfl, nobody⟩ := List.cons.inj (seats.resolve_right fun empty => nomatch empty.1)
          obtain ⟨empty, same⟩ := applyAll_heedless ctx nobody
            (Participant.apply ctx (Party.threads.wrap s₀ : Party G) w).2.2
          refine ⟨?_, w.1, rfl, same, fun all => (faultless all).1⟩
          rw [threadSeats_cons_some (s := (s₀.apply w.1).2.1) rfl, empty]
          exact List.forall_mem_singleton.2 (s₀.apply_lets w.1).1

/-- **Undoing all undoes the one in the seat**, and nobody else does anything to threads. -/
theorem undoAll_threads (seats : threadSeats members = [s] ∨ threadSeats members = [] ∧ s = {})
    (w : World × V) :
    (∀ s' ∈ threadSeats (undoAll ctx members w).2.1, s'.log = {}) ∧
      w.1.threads.GivesUp s.asked (undoAll ctx members w).2.2.1.threads := by
  induction members with
  | nil =>
      obtain seated | ⟨-, rfl⟩ := seats
      · cases seated
      · exact ⟨nofun, ({} : Threads).undo_threads w.1⟩
  | cons m rest ih =>
      rw [undoAll_cons]
      cases seen : Party.threads.view m.state with
      | none =>
          have here := Party.heedless_undo ctx seen (undoAll ctx rest w).2.2
          rw [threadSeats_cons_none seen] at seats
          obtain ⟨idle, gives⟩ := ih seats
          refine ⟨?_, here.threads ▸ gives⟩
          rw [threadSeats_cons_none (here.view.trans seen)]
          exact idle
      | some s₀ =>
          obtain ⟨domain, state⟩ := m
          obtain rfl := Party.lawful_threads.wrap_of_view _ _ seen
          rw [threadSeats_cons_some seen] at seats
          obtain ⟨rfl, nobody⟩ := List.cons.inj (seats.resolve_right fun empty => nomatch empty.1)
          obtain ⟨empty, same⟩ := undoAll_heedless ctx nobody w
          have gives := s₀.undo_threads (undoAll ctx rest w).2.2.1
          rw [same] at gives
          refine ⟨?_, gives⟩
          rw [threadSeats_cons_some (s := (s₀.undo (undoAll ctx rest w).2.2.1).2.1) rfl, empty]
          exact List.forall_mem_singleton.2 (s₀.undo_log _)

/-! ## Calls -/

/-- The thread that a call asks for, if it asks for one and is not refused. -/
def PartyCall.requested (t : Transaction (Party G)) (w : World × V) : PartyCall G → Option Nat
  | .work (.spawn name task) =>
      (Transaction.withModule Party.threads
        (onWorld fun s w => let r := s.spawn name task w; (.ok r.1, r.2)) t w).1.toOption
  | _ => none

/-- What a call on a transaction can do to threads, and the thread that it asks for. -/
inductive Spawning (t : Transaction (Party G)) (w : World × V) :
    Option Nat → Transaction (Party G) → World × V → Prop where
  /-- Nothing. -/
  | aside {t' : Transaction (Party G)} {w' : World × V} (visited : t'.visited = t.visited)
      (outcome : t'.outcome = t.outcome)
      (seat : t'.seat Party.threads = t.seat Party.threads) (threads : w'.1.threads = w.1.threads) :
      Spawning t w none t' w'
  /-- It asks for a thread. -/
  | asked {t' : Transaction (Party G)} (name : Option String) (task : ThreadTask)
      (visited : t'.visited = t.visited) (outcome : t'.outcome = t.outcome)
      (seat : t'.seat Party.threads = ((t.seat Party.threads).spawn name task w.1).2.1) :
      Spawning t w (some ((t.seat Party.threads).spawn name task w.1).1) t'
        (((t.seat Party.threads).spawn name task w.1).2.2, w.2)
  /-- It gives up what is written down. -/
  | gaveUp {w' : World × V} (visited : List Phase) (outcome : Outcome)
      (unapplied : .applying ∉ visited) (lost : outcome ≠ .committed)
      (gives : w.1.threads.GivesUp (t.seat Party.threads).asked w'.1.threads) :
      Spawning t w none (t.ended visited outcome) w'
  /-- It applies what is written down. -/
  | applied {w' : World × V} (visited : List Phase) (outcome : Outcome)
      (applying : .applying ∈ visited) (w₁ : World) (same : w₁.threads = w.1.threads)
      (threads : w'.1.threads = ((t.seat Party.threads).apply w₁).2.2.threads)
      (committed : outcome = .committed → ((t.seat Party.threads).apply w₁).1 = .ok ()) :
      Spawning t w none (t.ended visited outcome) w'

namespace Transaction

variable {t : Transaction (Party G)}

theorem undoAndRelease_threads (phase : t.phase.canAdvance .undoing)
    (seats : threadSeats t.members = [s] ∨ threadSeats t.members = [] ∧ s = {}) (locked : Nat)
    (reason : AbortReason) (w : World × V) :
    ∃ outcome w', t.undoAndRelease locked reason w =
        (.ok outcome, t.ended [.undoing, .finishing, .released] outcome, w') ∧
      outcome ≠ .committed ∧ w.1.threads.GivesUp s.asked w'.1.threads := by
  obtain ⟨idle, gives⟩ := undoAll_threads t.context seats w
  refine ⟨_, _, undoAndRelease_eq phase locked reason w, nofun, ?_⟩
  rw [close_threads t.context idle]
  exact gives

theorem applyAndRelease_threads (phase : t.phase.canAdvance .applying)
    (seats : threadSeats t.members = [s] ∨ threadSeats t.members = [] ∧ s = {}) (locked : Nat)
    (w : World × V) :
    ∃ outcome w', t.applyAndRelease locked w =
        (.ok outcome, t.ended [.applying, .finishing, .released] outcome, w') ∧
      ∃ w₁ : World, w₁.threads = w.1.threads ∧ w'.1.threads = (s.apply w₁).2.2.threads ∧
        (outcome = .committed → (s.apply w₁).1 = .ok ()) := by
  obtain ⟨idle, w₁, same, applied, ok⟩ := applyAll_threads t.context seats w
  refine ⟨_, _, applyAndRelease_eq phase locked w, w₁, same, ?_, fun committed => ok ?_⟩
  · rw [close_threads t.context idle]
    exact applied
  · cases fault : (applyAll t.context t.members w).1 with
    | none => rfl
    | some code =>
        rw [fault] at committed
        cases committed

theorem abandon_spawning (active : t.phase = .active) (single : t.Single Party.threads)
    (reason : AbortReason) (w : World × V) :
    Spawning t w none (t.undoAndRelease 0 reason w).2.1 (t.undoAndRelease 0 reason w).2.2 := by
  obtain ⟨outcome, w', done, lost, gives⟩ :=
    undoAndRelease_threads (by rw [active]; rfl) (Manners.seats single) 0 reason w
  rw [done]
  exact .gaveUp _ outcome (by decide) lost gives

theorem commit_spawning (active : t.phase = .active) (single : t.Single Party.threads)
    (w : World × V) : Spawning t w none (t.commit w).2.1 (t.commit w).2.2 := by
  obtain ⟨seats, same⟩ := lockAll_threads t.context t.members w
  have mine := Manners.seats single
  rw [← threadSeats, ← seats] at mine
  simp only [commit, checkActive_active active]
  generalize lockAll t.context t.members w = r at same mine
  cases r.refusal with
  | some e =>
      obtain ⟨outcome, w', done, lost, gives⟩ :=
        undoAndRelease_threads (t := { t with members := r.members })
          (show t.phase.canAdvance .undoing = true by rw [active]; rfl) mine r.locked (lockReason e)
          r.world
      rw [same] at gives
      simp only [done]
      exact .gaveUp _ outcome (by decide) lost gives
  | none =>
      have forward : t.phase.canAdvance .locked = true := by rw [active]; rfl
      have further : Phase.canAdvance .locked .validating = true := rfl
      simp only [validateAndRelease, advance, forward, further, if_true]
      generalize valid : ({ t with
          phase := Phase.validating
          visited := t.visited ++ [Phase.locked] ++ [Phase.validating]
          members := r.members } : Transaction (Party G)) = t'
      have world := validateAll_world t'.context .final r.members r.world
      rcases checked : validateAll t'.context .final r.members r.world with ⟨_ | _, w'⟩ <;>
        rw [checked] at world <;> rw [← world] at same <;> subst valid <;> simp only
      · obtain ⟨outcome, w'', done, lost, gives⟩ :=
          undoAndRelease_threads (t := { t with
            phase := .validating, visited := t.visited ++ [.locked] ++ [.validating],
            members := r.members }) rfl mine r.locked .validationFailed w'
        rw [same] at gives
        rw [done]
        simp only [List.append_assoc, List.singleton_append, ended_onward]
        exact .gaveUp _ outcome (by decide) lost gives
      · obtain ⟨outcome, w'', done, w₁, before, applied, ok⟩ :=
          applyAndRelease_threads (t := { t with
            phase := .validating, visited := t.visited ++ [.locked] ++ [.validating],
            members := r.members }) rfl mine r.locked w'
        rw [done]
        simp only [List.append_assoc, List.singleton_append, ended_onward]
        exact .applied _ outcome (by decide) w₁ (before.trans same) applied ok

theorem validateEarly_spawning (active : t.phase = .active) (single : t.Single Party.threads)
    (w : World × V) : Spawning t w none (t.validateEarly w).2.1 (t.validateEarly w).2.2 := by
  have same := validateAll_world t.context .early t.members w
  simp only [validateEarly, checkActive_active active]
  rcases checked : validateAll t.context .early t.members w with ⟨_ | _, w'⟩ <;>
    rw [checked] at same
  · obtain ⟨outcome, w'', done, lost, gives⟩ :=
      undoAndRelease_threads (by rw [active]; rfl) (Manners.seats single) 0 .validationFailed w'
    rw [same] at gives
    simp only [done]
    exact .gaveUp _ outcome (by decide) lost gives
  · exact .aside rfl rfl rfl (congrArg World.threads same)

end Transaction

omit [Participant G V] in
theorem Work.spawning (chunk : Nat → Nat → Nat) {t : Transaction (Party G)} (seated : t.Seated)
    (work : Work) (w : World × V) :
    Spawning t w (PartyCall.requested t w (.work work)) (work.perform chunk t w).1
      (work.perform chunk t w).2 := by
  have idle : Spawning t w none t w := .aside rfl rfl rfl rfl
  have elsewhere {M α : Type} {facet : Facet (Party G) M} (lawful : facet.Lawful)
      (single : t.Single facet)
      (foreign : ∀ m, (Party.threads : Facet (Party G) Threads).view (facet.wrap m) = none)
      (f : M → World → Except Error α × M × World) (same : ∀ s, (f s w.1).2.2.threads = w.1.threads) :
      Spawning t w none (Transaction.withModule facet (onWorld f) t w).2.1
        (Transaction.withModule facet (onWorld f) t w).2.2 := by
    rcases Transaction.withModule_seat lawful single (onWorld f) w with ⟨e, refused⟩ |
      ⟨-, members, roster, done, -, others⟩
    · rw [refused]
      exact idle
    · rw [done]
      exact .aside rfl rfl (Transaction.seat_of_seats (others Party.threads foreign)) (same _)
  cases work with
  | files job =>
      exact elsewhere Party.lawful_files seated.files (fun _ => rfl) (fun s w => job.perform s w)
        fun s => by rw [job.perform_files]
  | readPipe pipe max =>
      exact elsewhere Party.lawful_pipes seated.pipes (fun _ => rfl) _
        fun s => s.read_threads (chunk pipe) pipe max w.1
  | writePipe pipe bytes =>
      exact elsewhere Party.lawful_pipes seated.pipes (fun _ => rfl) _
        fun s => s.write_threads pipe bytes w.1
  | spawn name task =>
      rcases Transaction.withModule_seat Party.lawful_threads seated.threads
        (onWorld fun s w => let r := s.spawn name task w; (.ok r.1, r.2)) w with ⟨e, same⟩ |
        ⟨-, members, roster, done, own, -⟩
      · rw [PartyCall.requested, Work.perform, same]
        exact idle
      · rw [PartyCall.requested, Work.perform, done]
        refine .asked name task rfl rfl ?_
        rw [Transaction.seat, own]
        rfl
  | yieldOnce =>
      exact elsewhere Party.lawful_yields seated.yields (fun _ => rfl) _ fun _ => rfl

/-- **A call does nothing else to threads.** -/
theorem PartyCall.spawning (chunk : Nat → Nat → Nat) {t : Transaction (Party G)} (seated : t.Seated)
    (call : PartyCall G) (w : World × V) :
    Spawning t w (call.requested t w) (call.perform chunk t w).1 (call.perform chunk t w).2 := by
  cases call with
  | work job => exact job.spawning chunk seated w
  | register g =>
      rcases Transaction.register_seats (p := Party.guest g) (t := t) with same |
        ⟨members, roster, done, seats⟩
      · rw [PartyCall.perform, same]
        exact .aside rfl rfl rfl rfl
      · rw [PartyCall.perform, done]
        exact .aside rfl rfl (Transaction.seat_of_seats (seats Party.threads rfl)) rfl
  | validate => exact Transaction.validateEarly_spawning seated.active seated.threads w
  | commit => exact Transaction.commit_spawning seated.active seated.threads w
  | abort =>
      rw [perform_abandon chunk seated.active (Or.inl rfl)]
      exact Transaction.abandon_spawning seated.active seated.threads .requested w
  | drop =>
      rw [perform_abandon chunk seated.active (Or.inr rfl)]
      exact Transaction.abandon_spawning seated.active seated.threads .requested w

omit [Participant G V] in
/-- A released transaction is asked for no thread. -/
theorem PartyCall.requested_released {t : Transaction (Party G)} (released : t.phase = .released)
    (call : PartyCall G) (w : World × V) : call.requested t w = none := by
  unfold requested
  split
  · rw [Transaction.withModule_released released]
    rfl
  · rfl

omit [Participant G V] in
/-- **The threads that are new after a call** are those that it asked for. -/
theorem Spawning.requested {t t' : Transaction (Party G)} {w w' : World × V} {id : Option Nat}
    (spawning : Spawning t w id t' w') :
    List.range' w.1.threads.next (w'.1.threads.next - w.1.threads.next) = id.toList := by
  have nothing (same : w'.1.threads.next = w.1.threads.next) :
      List.range' w.1.threads.next (w'.1.threads.next - w.1.threads.next) = [] := by
    rw [same, Nat.sub_self, List.range'_zero]
  cases spawning with
  | aside _ _ _ threads => exact nothing (by rw [threads])
  | asked name task =>
      simp only [Threads.spawn, ThreadTable.request, Nat.add_sub_cancel_left, List.range'_one,
        Option.toList_some]
  | gaveUp _ _ _ _ gives => exact nothing gives.next
  | applied _ _ _ w₁ same threads =>
      obtain ⟨-, _, _, -, lets, -⟩ := (t.seat Party.threads).apply_lets w₁
      exact nothing (by rw [threads, lets.next, same])

end Parties

end Transact
