/-
# Transact.Proofs.Withholding -- pipes and threads are held back until apply

What a transaction does to pipes and threads it writes down.  Until it applies, looking into a pipe
pulls bytes from the channel at most (`PipeTable.Pulled`), and a thread is asked for or given up, and
never let run (`ThreadTable.Waiting`).  `Withholding` lists what a call can do; its one act on threads,
besides asking for one, is the undo, which gives up everything that is written down (`Asked.undo`).
-/
import Transact.Proofs.Conduct
import Transact.Proofs.Filings
import Transact.Proofs.PipeEnding

namespace Transact

set_option autoImplicit false

/-! ## Pipes -/

/-- From `t` to `t'` bytes were pulled from channels at most. -/
structure PipeTable.Pulled (t t' : PipeTable) : Prop where
  sound : t.Sound → t'.Sound
  fronts : t.Sound → ∀ n, (t'.get? n).map Pipe.front = (t.get? n).map Pipe.front
  stocks : t.Sound → ∀ n, (t'.get? n).map Pipe.stock = (t.get? n).map Pipe.stock

namespace PipeTable.Pulled

variable {t t' t'' : PipeTable}

theorem refl (t : PipeTable) : t.Pulled t := ⟨id, fun _ _ => rfl, fun _ _ => rfl⟩

theorem trans (first : t.Pulled t') (second : t'.Pulled t'') : t.Pulled t'' where
  sound sound := second.sound (first.sound sound)
  fronts sound n := (second.fronts (first.sound sound) n).trans (first.fronts sound n)
  stocks sound n := (second.stocks (first.sound sound) n).trans (first.stocks sound n)

/-- Where nothing came in and nothing left a pipe holds what it held. -/
theorem set {pipe : Nat} {p p' : Pipe} (found : t.get? pipe = some p) (flows : p.Flows [] [] p') :
    t.Pulled (t.set p') := by
  have stock : p'.stock = p.stock := by simpa using flows.stock.symm
  have front : p'.front = p.front := flows.front
  have alike {α : Type} {view : Pipe → α} (same : view p' = view p) (sound : t.Sound) (n : Nat) :
      ((t.set p').get? n).map view = (t.get? n).map view := by
    rw [get?_set]
    split
    · next here =>
      rw [here, flows.id, sound.named pipe p found, found, Option.map_some, Option.map_some, same]
    · rfl
  exact ⟨fun sound => sound.set found flows.id, alike front, alike stock⟩

end PipeTable.Pulled

theorem Pipes.pulled_read (chunk : Nat → Nat) (pipe max : Nat) (s : Pipes) (w : World) :
    w.pipes.Pulled (Pipes.read chunk pipe max s w).2.2.pipes := by
  unfold Pipes.read
  cases found : w.pipes.get? pipe with
  | none => exact .refl w.pipes
  | some p =>
      simp only
      generalize (((s.track pipe).cursors.get? pipe).getD { start := p.front, next := p.front }) =
        cursor
      rcases made : p.peekAt chunk cursor.next max with ⟨reading, p'⟩
      have pulled := PipeTable.Pulled.set found (Pipe.peekAt_flows made).1
      cases reading with
      | failed e => exact pulled
      | waits => exact pulled
      | bytes content =>
          simp only
          split <;> exact pulled

theorem Pipes.read_threads (chunk : Nat → Nat) (pipe max : Nat) (s : Pipes) (w : World) :
    (Pipes.read chunk pipe max s w).2.2.threads = w.threads := by
  unfold Pipes.read
  split
  · rfl
  · simp only
    split
    · rfl
    · rfl
    · split <;> rfl

/-! ## Threads -/

theorem Thread.discard_discard (t : Thread) : t.discard.discard = t.discard := by
  unfold Thread.discard
  by_cases pending : t.state = .pending
  · rw [if_pos pending]
    rfl
  · rw [if_neg pending, if_neg pending]

/-- From `t` to `t'` threads were given up at most. -/
structure ThreadTable.Waiting (t t' : ThreadTable) : Prop where
  started : t'.started = t.started
  next : t'.next = t.next
  each : ∀ id, t'.threads.get? id = t.threads.get? id ∨
    t'.threads.get? id = (t.threads.get? id).map Thread.discard

namespace ThreadTable.Waiting

variable {t t' t'' : ThreadTable}

theorem refl (t : ThreadTable) : t.Waiting t := ⟨rfl, rfl, fun _ => Or.inl rfl⟩

theorem trans (first : t.Waiting t') (second : t'.Waiting t'') : t.Waiting t'' where
  started := second.started.trans first.started
  next := second.next.trans first.next
  each id := by
    rcases first.each id with same | gone <;> rcases second.each id with same' | gone'
    · exact Or.inl (same'.trans same)
    · exact Or.inr (same ▸ gone')
    · exact Or.inr (same'.trans gone)
    · refine Or.inr ?_
      rw [gone', gone, Option.map_map]
      exact congrArg (Option.map · _) (funext Thread.discard_discard)

end ThreadTable.Waiting

theorem ThreadTable.get?_discard (t : ThreadTable) (id other : Nat) :
    (t.discard id).threads.get? other =
      if other = id then (t.threads.get? other).map Thread.discard else t.threads.get? other := by
  simp only [discard, Table.get?_modify]
  split
  · next same => rw [same]
  · rfl

theorem ThreadTable.waiting_discard (t : ThreadTable) (id : Nat) : t.Waiting (t.discard id) where
  started := rfl
  next := rfl
  each other := by
    rw [get?_discard]
    split
    · exact Or.inr rfl
    · exact Or.inl rfl

/-- Undo gives up the threads that are written down, and no other. -/
theorem Threads.get?_undo (s : Threads) (w : World) (id : Nat) :
    (s.undo w).2.2.threads.threads.get? id =
      if id ∈ s.log.records.map (·.payload.thread) then
        (w.threads.threads.get? id).map Thread.discard
      else w.threads.threads.get? id := by
  rw [undo_world]
  induction s.log.records with
  | nil => rfl
  | cons r rest ih =>
      rw [List.foldr_cons, discardRecord, ThreadTable.get?_discard, ih, List.map_cons]
      by_cases here : id = r.payload.thread
      · rw [if_pos here, if_pos (List.mem_cons.2 (Or.inl here))]
        split
        · rw [Option.map_map]
          exact congrArg (Option.map · _) (funext Thread.discard_discard)
        · rfl
      · simp only [List.mem_cons, here, false_or, if_false]

/-! ## Both -/

/-- Of pipes and threads nothing was performed. -/
structure Withheld (w w' : World) : Prop where
  pipes : w.pipes.Pulled w'.pipes
  threads : w.threads.Waiting w'.threads

theorem frame_withheld : Frame Withheld where
  refl w := ⟨.refl w.pipes, .refl w.threads⟩
  trans first second := ⟨first.pipes.trans second.pipes, first.threads.trans second.threads⟩

theorem Withheld.ofSame {w w' : World} (pipes : w'.pipes = w.pipes)
    (threads : w'.threads = w.threads) : Withheld w w' :=
  ⟨pipes ▸ .refl _, threads ▸ .refl _⟩

/-! ### Participants one by one -/

namespace Files

theorem withheld_removeIfCurrent (access : AccessSet) (id : ResourceId) (path : String) (w : World) :
    Withheld w (removeIfCurrent access id path w).2 := by
  unfold removeIfCurrent
  split
  · split <;> exact .ofSame rfl rfl
  · exact .ofSame rfl rfl

theorem withheld_revertCreation (tx : TxId) (access : AccessSet) (held : HeldLocks)
    (id : ResourceId) (path : String) (w : World) :
    Withheld w (revertCreation tx access held id path w).2 := by
  unfold revertCreation
  split
  · exact withheld_removeIfCurrent access id path w
  · split
    · exact .ofSame rfl rfl
    · next locks taken =>
      have borrowed : Withheld w { w with locks } := .ofSame rfl rfl
      have removed := frame_withheld.trans borrowed
        (withheld_removeIfCurrent access id path { w with locks })
      exact frame_withheld.trans removed (.ofSame rfl rfl)

theorem withheld_undoRecord (tx : TxId) (s : Files) (r : Record FileEffect) (w : World) :
    Withheld w (undoRecord tx s r w).2 := by
  unfold undoRecord
  split
  · split
    · exact withheld_revertCreation ..
    · exact .ofSame rfl rfl
  · split
    · exact .ofSame rfl rfl
    · split <;> exact .ofSame rfl rfl
  · exact .ofSame rfl rfl

theorem withheld_undo (ctx : Context) (s : Files) (w : World) :
    Withheld w (s.undo ctx w).2.2 := by
  have done := s.log.undoAll_foldr (undoRecord ctx.tx s) w
  simp only [Files.undo, done]
  induction s.log.records with
  | nil => exact frame_withheld.refl w
  | cons r rest ih => exact frame_withheld.trans ih (withheld_undoRecord ctx.tx s r _)

end Files

theorem Threads.withheld_discardRecord (r : Record SpawnRequest) (w : World) :
    Withheld w (discardRecord r w) :=
  ⟨.refl w.pipes, ThreadTable.waiting_discard w.threads r.payload.thread⟩

theorem Threads.withheld_undo (s : Threads) (w : World) : Withheld w (s.undo w).2.2 := by
  rw [undo_world]
  induction s.log.records with
  | nil => exact frame_withheld.refl w
  | cons r rest ih => exact frame_withheld.trans ih (withheld_discardRecord r _)

theorem Threads.withheld_release (s : Threads) (w : World) : Withheld w (s.release w).2 := by
  simp only [release]
  generalize s.log.records = rs
  induction rs generalizing w with
  | nil => exact frame_withheld.refl w
  | cons r rest ih => exact frame_withheld.trans (withheld_discardRecord r w) (ih _)

section Parties

variable {G V : Type} [Participant G V]

/-- At the end of a transaction pipes and threads are left alone until it applies, but for the undo of
threads. -/
theorem threads_manners (ctx : Context) :
    Manners (Party.threads : Facet (Party G) Threads) (Within (V := V) Withheld) (fun _ _ => True)
      Eq ctx where
  lawful := Party.lawful_threads
  quiet := frame_within frame_withheld
  busy := ⟨fun _ => trivial, fun _ _ => trivial⟩
  weaken _ := trivial
  lock p w := by
    cases p with
    | builtin b => cases b <;> exact .ofSame rfl rfl
    | guest g => exact .ofSame rfl rfl
  locked s w := ⟨s, rfl, rfl⟩
  unseen p w unseen := by
    cases p with
    | builtin b => cases b <;> first | rfl | cases unseen
    | guest g => rfl
  same := rfl
  unlock p w := by
    cases p with
    | builtin b => cases b <;> exact .ofSame rfl rfl
    | guest g => exact .ofSame rfl rfl
  validate v p w := by
    cases p with
    | builtin b => cases b <;> exact .ofSame rfl rfl
    | guest g => exact .ofSame rfl rfl
  finish p w := by
    cases p with
    | builtin b => cases b <;> exact .ofSame rfl rfl
    | guest g => exact .ofSame rfl rfl
  release p w := by
    cases p with
    | builtin b =>
        cases b with
        | threads s => exact s.withheld_release w.1
        | _ => exact .ofSame rfl rfl
    | guest g => exact .ofSame rfl rfl
  undo p unseen w := by
    cases p with
    | builtin b =>
        cases b with
        | files s => exact s.withheld_undo ctx w.1
        | pipes s =>
            have idle := s.undo_world w.1
            exact .ofSame (congrArg World.pipes idle) (congrArg World.threads idle)
        | threads s => cases unseen
        | yields s => exact .ofSame rfl rfl
    | guest g => exact .ofSame rfl rfl
  apply _ _ _ := trivial
  idleUndo _ := rfl
  idleApply _ := rfl
  idleValid _ _ := rfl

/-! ## Calls -/

/-- What a call on a transaction can do to pipes and threads. -/
inductive Withholding (call : PartyCall G) (t : Transaction (Party G)) (w : World × V) :
    Transaction (Party G) → World × V → Prop where
  /-- Nothing but pulling, and giving up threads. -/
  | aside {t' : Transaction (Party G)} {w' : World × V} (onward : t'.visited = t.visited)
      (seat : t'.seat Party.threads = t.seat Party.threads) (withheld : Withheld w.1 w'.1) :
      Withholding call t w t' w'
  /-- It asks for a thread. -/
  | asked {t' : Transaction (Party G)} (name : Option String) (task : ThreadTask)
      (onward : t'.visited = t.visited)
      (seat : t'.seat Party.threads = ((t.seat Party.threads).spawn name task w.1).2.1) :
      Withholding call t w t' (((t.seat Party.threads).spawn name task w.1).2.2, w.2)
  /-- It undoes or applies what is written down. -/
  | closing {t' : Transaction (Party G)} {w' : World × V}
      (ended : Ended Party.threads (Within Withheld) (fun _ _ => True) Eq t w t' w') :
      Withholding call t w t' w'

theorem Work.withholding (chunk : Nat → Nat → Nat) {t : Transaction (Party G)} (seated : t.Seated)
    (work : Work) (w : World × V) :
    Withholding (.work work) t w (work.perform chunk t w).1 (work.perform chunk t w).2 := by
  have idle : Withholding (.work work) t w t w := .aside rfl rfl (frame_withheld.refl _)
  have elsewhere {M α : Type} {facet : Facet (Party G) M} (lawful : facet.Lawful)
      (single : t.Single facet)
      (foreign : ∀ m, (Party.threads : Facet (Party G) Threads).view (facet.wrap m) = none)
      (f : M → World → Except Error α × M × World) (withheld : ∀ s, Withheld w.1 (f s w.1).2.2) :
      Withholding (.work work) t w (Transaction.withModule facet (onWorld f) t w).2.1
        (Transaction.withModule facet (onWorld f) t w).2.2 := by
    rcases Transaction.withModule_seat lawful single (onWorld f) w with ⟨e, same⟩ |
      ⟨-, members, roster, done, -, others⟩
    · rw [same]
      exact idle
    · rw [done]
      exact .aside rfl (Transaction.seat_of_seats (others Party.threads foreign)) (withheld _)
  cases work with
  | files job =>
      refine elsewhere Party.lawful_files seated.files (fun _ => rfl)
        (fun s w => job.perform s w) fun s => ?_
      rw [job.perform_files]
      exact .ofSame rfl rfl
  | readPipe pipe max =>
      refine elsewhere Party.lawful_pipes seated.pipes (fun _ => rfl) _ fun s => ?_
      have pulled := Pipes.pulled_read (chunk pipe) pipe max s w.1
      exact ⟨pulled, s.read_threads (chunk pipe) pipe max w.1 ▸ .refl _⟩
  | writePipe pipe bytes =>
      refine elsewhere Party.lawful_pipes seated.pipes (fun _ => rfl) _ fun s => ?_
      unfold Pipes.write
      cases w.1.pipes.get? pipe with
      | none => exact frame_withheld.refl _
      | some p =>
          simp only
          split <;> exact frame_withheld.refl _
  | spawn name task =>
      rcases Transaction.withModule_seat Party.lawful_threads seated.threads
        (onWorld fun s w => let r := s.spawn name task w; (.ok r.1, r.2)) w with ⟨e, same⟩ |
        ⟨-, members, roster, done, own, -⟩
      · rw [Work.perform, same]
        exact idle
      · rw [Work.perform, done]
        refine .asked name task rfl ?_
        rw [Transaction.seat, own]
        rfl
  | yieldOnce =>
      exact elsewhere Party.lawful_yields seated.yields (fun _ => rfl) _ fun s => frame_withheld.refl _

/-- **A call does nothing else to pipes and threads, short of applying.** -/
theorem PartyCall.withholding (chunk : Nat → Nat → Nat) {t : Transaction (Party G)}
    (seated : t.Seated) (call : PartyCall G) (w : World × V) :
    Withholding call t w (call.perform chunk t w).1 (call.perform chunk t w).2 := by
  have manners := threads_manners (G := G) (V := V) t.context
  cases call with
  | work job => exact job.withholding chunk seated w
  | register g =>
      rcases Transaction.register_seats (p := Party.guest g) (t := t) with same |
        ⟨members, roster, done, seats⟩
      · rw [PartyCall.perform, same]
        exact .aside rfl rfl (frame_withheld.refl _)
      · rw [PartyCall.perform, done]
        exact .aside rfl (Transaction.seat_of_seats (seats Party.threads rfl)) (frame_withheld.refl _)
  | validate =>
      rcases manners.validateEarly_ended seated.threads seated.active w with ⟨same, still⟩ | ended
      · refine .aside (congrArg Transaction.visited same) ?_ still
        rw [PartyCall.perform, same]
      · exact .closing ended
  | commit => exact .closing (manners.commit_ended seated.threads seated.active w)
  | abort => exact .closing (manners.abort_ended seated.threads seated.active w)
  | drop => exact .closing (manners.drop_ended seated.threads seated.active w)

end Parties

/-! ## Requests -/

variable {w₀ w w' : World} {s : Threads}

/-- Since `w₀` no thread was let run, and every thread that was asked for is written down and waits. -/
structure Asked (w₀ w : World) (s : Threads) : Prop where
  started : w.threads.started = w₀.threads.started
  next : w₀.threads.next ≤ w.threads.next
  each : ∀ id, w₀.threads.next ≤ id → id < w.threads.next →
    id ∈ s.log.records.map (·.payload.thread) ∧ ∃ thread,
      w.threads.threads.get? id = some thread ∧
        (thread.state = .pending ∨ thread.state = .discarded)

/-- Since `w₀` no thread was let run, and every thread that was asked for was given up. -/
structure CalledOff (w₀ w : World) : Prop where
  started : w.threads.started = w₀.threads.started
  each : ∀ id, w₀.threads.next ≤ id → id < w.threads.next → ∃ thread,
    w.threads.threads.get? id = some thread ∧ thread.state = .discarded

theorem Asked.fresh (w : World) : Asked w w {} where
  started := rfl
  next := Nat.le_refl _
  each _ above below := absurd below (Nat.not_lt.2 above)

/-- A thread that waits still waits, or was given up. -/
theorem Thread.discard_state {t : Thread} (waits : t.state = .pending ∨ t.state = .discarded) :
    t.discard.state = .discarded := by
  unfold Thread.discard
  rcases waits with pending | discarded
  · rw [if_pos pending]
  · rw [if_neg (by rw [discarded]; decide), discarded]

theorem Asked.withheld (asked : Asked w₀ w s) (withheld : Withheld w w') : Asked w₀ w' s where
  started := withheld.threads.started.trans asked.started
  next := withheld.threads.next ▸ asked.next
  each id above below := by
    rw [withheld.threads.next] at below
    obtain ⟨written, thread, found, waits⟩ := asked.each id above below
    refine ⟨written, ?_⟩
    rcases withheld.threads.each id with same | gone
    · exact ⟨thread, same.trans found, waits⟩
    · rw [found] at gone
      exact ⟨thread.discard, gone, Or.inr (Thread.discard_state waits)⟩

theorem CalledOff.withheld (off : CalledOff w₀ w) (withheld : Withheld w w') : CalledOff w₀ w' where
  started := withheld.threads.started.trans off.started
  each id above below := by
    rw [withheld.threads.next] at below
    obtain ⟨thread, found, discarded⟩ := off.each id above below
    rcases withheld.threads.each id with same | gone
    · exact ⟨thread, same.trans found, discarded⟩
    · rw [found] at gone
      exact ⟨thread.discard, gone, Thread.discard_state (Or.inr discarded)⟩

/-- A thread that is asked for is written down under its number. -/
theorem Asked.spawn (asked : Asked w₀ w s) (name : Option String) (task : ThreadTask) :
    Asked w₀ (s.spawn name task w).2.2 (s.spawn name task w).2.1 where
  started := asked.started
  next := Nat.le_succ_of_le asked.next
  each id above below := by
    simp only [Threads.spawn, ThreadTable.request, DeferredLog.append, List.map_append,
      List.map_cons, List.map_nil, List.mem_append, List.mem_singleton, Record.deferred] at below ⊢
    by_cases new : id = w.threads.next
    · rw [new, Table.get?_set_self]
      exact ⟨Or.inr rfl, _, rfl, Or.inl rfl⟩
    · obtain ⟨written, thread, found, waits⟩ := asked.each id above (by omega)
      rw [Table.get?_set_of_ne _ _ new]
      exact ⟨Or.inl written, thread, found, waits⟩

/-- **Undo calls off every thread that was asked for.** -/
theorem Asked.undo (asked : Asked w₀ w s) : CalledOff w₀ (s.undo w).2.2 := by
  have waiting := (s.withheld_undo w).threads
  refine ⟨waiting.started.trans asked.started, fun id above below => ?_⟩
  rw [waiting.next] at below
  obtain ⟨written, thread, found, waits⟩ := asked.each id above below
  rw [Threads.get?_undo, if_pos written, found]
  exact ⟨thread.discard, rfl, Thread.discard_state waits⟩

/-! ## Giving up -/

/-- **Whoever gives up calls its threads off**, and takes nothing from a pipe. -/
theorem Withholding.undone {G V : Type} [Participant G V] {call : PartyCall G}
    {t t' : Transaction (Party G)} {w w' : World × V} (withholding : Withholding call t w t' w')
    (asked : Asked w₀ w.1 (t.seat Party.threads)) (open_ : .undoing ∉ t.visited)
    (undoing : .undoing ∈ t'.visited) : CalledOff w₀ w'.1 ∧ w.1.pipes.Pulled w'.1.pipes := by
  cases withholding with
  | aside onward => exact absurd (onward ▸ undoing) open_
  | asked name task onward => exact absurd (onward ▸ undoing) open_
  | closing ended =>
      cases ended with
      | undone s w₁ _ visited outcome mine before after =>
          cases or_self_iff.1 mine
          have off := (asked.withheld before).undo
          have here := (t.seat Party.threads).withheld_undo w₁.1
          exact ⟨off.withheld after, (before.pipes.trans here.pipes).trans after.pipes⟩
      | applied s w₁ w₂ _ visited outcome mine before valid meanwhile after applying kept =>
          exact absurd undoing (List.mem_append.not.2 (not_or.2 ⟨open_, kept⟩))

end Transact
