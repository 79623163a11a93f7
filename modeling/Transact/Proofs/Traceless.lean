/-
# Transact.Proofs.Traceless -- a transaction that gives up leaves no trace

One transaction works on files, pipes and threads through any calls, while nobody else does anything,
and gives up: it is aborted or dropped, or its commit or an early validation undoes it, which a guest
may bring about.  Until then all it did at once is `Reversible`; what it put off never happens.

`run_traceless` says what the world is like afterwards: names, contents, descriptors and pipes are as
they were, no thread that was asked for ever runs, no lock is taken, and only what the transaction had
created has another version.
-/
import Transact.Proofs.FilesInPlace
import Transact.Proofs.Restoring
import Transact.Proofs.Unlocking
import Transact.Proofs.Withholding

namespace Transact

set_option autoImplicit false

/-! ## Worlds -/

/-- A world in which nobody is at work: names, descriptors and pipes are in order, no descriptor is past
where it can be put, and no lock is taken. -/
structure World.Quiet (w : World) : Prop where
  sound : w.files.Sound
  inodes : ∀ at_ inode, w.files.entry? at_ = some (.file inode) → inode < w.files.nextInode
  numbers : ∀ fd d, w.files.descriptors.get? fd = some d → fd < w.files.nextDescriptor
  positions : ∀ fd, w.files.position fd ≤ w.files.positionLimit fd
  pipes : w.pipes.Sound
  locks : w.locks.Free

/-- `w'` is like `w₀`, but for threads that never run, bytes that wait in the buffer of their pipe and
no longer in its channel, and the versions of files that stood in `w` in between. -/
structure Traceless (w₀ w w' : World) : Prop where
  entries : ∀ at_, w'.files.entry? at_ = w₀.files.entry? at_
  contents : ∀ at_ inode, w₀.files.entry? at_ = some (.file inode) →
    w'.files.content inode = w₀.files.content inode
  descriptors : ∀ fd d, w₀.files.descriptors.get? fd = some d →
    w'.files.descriptors.get? fd = some d
  fronts : ∀ n, (w'.pipes.get? n).map Pipe.front = (w₀.pipes.get? n).map Pipe.front
  stocks : ∀ n, (w'.pipes.get? n).map Pipe.stock = (w₀.pipes.get? n).map Pipe.stock
  threads : CalledOff w₀ w'
  locks : w'.locks.Free
  versions : ∀ id : ResourceId, w'.versions.current id ≠ w₀.versions.current id →
    ∃ at_ inode, id.key = (ResourceId.path (Path.ofNames at_)).key ∧
      w₀.files.entry? at_ = none ∧ w.files.entry? at_ = some (.file inode)

/-! ## Calls -/

section Calls

variable {G V : Type} [Participant G V] {call : PartyCall G} {t t' : Transaction (Party G)}
  {w₀ : World} {w w' : World × V}

/-- What a transaction at work did since `w₀` can be taken back. -/
structure Reversible (w₀ : World) (w : World × V) (t : Transaction (Party G)) : Prop where
  seated : t.Seated
  anchored : Files.Anchored w.1 (t.seat Party.files)
  built : Files.Built w₀ w.1 (t.seat Party.files)
  displaced : Files.Displaced w₀ w.1 (t.seat Party.files)
  asked : Asked w₀ w.1 (t.seat Party.threads)
  pulled : w₀.pipes.Pulled w.1.pipes
  free : w.1.locks.Free

omit [Participant G V] in
theorem Reversible.start (config : TxId → Config) (w : World × V) (free : w.1.locks.Free)
    (who : TxId) : Reversible (G := G) w.1 w { id := who, config := config who } where
  seated := ⟨rfl, rfl, Nat.zero_le _, Nat.zero_le _, Nat.zero_le _, Nat.zero_le _⟩
  anchored := .fresh w.1
  built := .fresh w.1
  displaced := .fresh w.1
  asked := .fresh w.1
  pulled := .refl w.1.pipes
  free := free

/-- **Every call that does not end the transaction keeps it so.** -/
theorem Reversible.perform (reversible : Reversible w₀ w t) (sound : w₀.files.Sound)
    (roomy : w₀.files.Roomy) (chunk : Nat → Nat → Nat) (call : PartyCall G)
    (busy : (call.perform chunk t w).1.phase ≠ .released) :
    Reversible w₀ (call.perform chunk t w).2 (call.perform chunk t w).1 := by
  have sound' := reversible.built.keeps.sound sound
  have roomy' := reversible.built.keeps.roomy roomy
  have free := call.perform_free chunk reversible.seated reversible.free
  have conduct := call.conduct chunk reversible.seated w
  have withholding := call.withholding chunk reversible.seated w
  rcases done : call.perform chunk t w with ⟨t', w'⟩
  rw [done] at busy free conduct withholding
  obtain ⟨asked, pulled⟩ : Asked w₀ w'.1 (t'.seat Party.threads) ∧ w₀.pipes.Pulled w'.1.pipes := by
    cases withholding with
    | aside onward seat withheld =>
        rw [seat]
        exact ⟨reversible.asked.withheld withheld, reversible.pulled.trans withheld.pipes⟩
    | asked name task onward seat =>
        rw [seat]
        exact ⟨reversible.asked.spawn name task, reversible.pulled⟩
    | closing ended => cases ended <;> exact absurd rfl busy
  cases conduct with
  | aside same seated seat still =>
      have drift := Drift.ofStill still
      exact ⟨seated, seat ▸ reversible.anchored.drift drift,
        seat ▸ reversible.built.alike still.files still.versions (t.seat Party.files).held,
        seat ▸ reversible.displaced.alike still.files (t.seat Party.files).held, asked, pulled, free⟩
  | filed job demanded same seated seat =>
      have filed := job.perform_filed (s := t.seat Party.files) sound' roomy'
      exact ⟨seated, seat ▸ reversible.anchored.filed sound' filed,
        seat ▸ reversible.built.filed sound' filed, seat ▸ reversible.displaced.filed filed, asked,
        pulled, free⟩
  | closing ended => cases ended <;> exact absurd rfl busy

/-- **What is reversible is taken back by the undo.** -/
theorem Reversible.undone (reversible : Reversible w₀ w t) (quiet : w₀.Quiet)
    (roomy : w₀.files.Roomy) (chunk : Nat → Nat → Nat) (call : PartyCall G)
    (undoing : .undoing ∈ (call.perform chunk t w).1.visited) :
    Traceless w₀ w.1 (call.perform chunk t w).2.1 := by
  have free := call.perform_free chunk reversible.seated reversible.free
  have conduct := call.conduct chunk reversible.seated w
  have withholding := call.withholding chunk reversible.seated w
  rcases done : call.perform chunk t w with ⟨t', w'⟩
  rw [done] at undoing free conduct withholding
  have nothing : .undoing ∉ t.visited := reversible.seated.fresh _
  obtain ⟨threads, pulled⟩ := withholding.undone reversible.asked nothing undoing
  have pipes := reversible.pulled.trans pulled
  -- The files are undone in a world that differs in locks, pipes and threads.
  obtain ⟨held, w₁, before, after⟩ := conduct.undone nothing undoing
  have sound : w₁.files.Sound := before.files ▸ reversible.built.keeps.sound quiet.sound
  have roomy : w₁.files.Roomy := before.files ▸ reversible.built.keeps.roomy roomy
  have anchored := (reversible.anchored.drift (.ofStill before)).held held
  have built := reversible.built.alike before.files before.versions held
  have displaced := reversible.displaced.alike before.files held
  obtain ⟨entries, contents, versions⟩ := built.undo anchored sound roomy t.context fun k =>
    before.locks k (Or.inl (reversible.free k))
  refine ⟨fun at_ => ?_, fun at_ inode stood => ?_, fun fd d found => ?_, pipes.fronts quiet.pipes,
    pipes.stocks quiet.pipes, threads, free, fun id up => ?_⟩
  · rw [after.files]
    exact entries at_
  · rw [after.files]
    exact contents inode (quiet.inodes at_ inode stood)
  · rw [after.files, ← found]
    exact displaced.undo anchored sound roomy t.context (quiet.numbers fd d found)
      (quiet.positions fd)
  · rw [after.versions] at up
    rw [← before.files]
    exact versions id up

/-- An abort and a drop undo. -/
theorem PartyCall.undoes (chunk : Nat → Nat → Nat) (active : t.phase = .active)
    (gives : call = .abort ∨ call = .drop) : .undoing ∈ (call.perform chunk t w).1.visited := by
  obtain ⟨outcome, ended⟩ := Transaction.undoAndRelease_close
    (show t.phase.canAdvance .undoing = true by rw [active]; rfl) 0 .requested w
  rw [PartyCall.perform_abandon chunk active gives, ended]
  exact List.mem_append_right _ List.mem_cons_self

/-- Whoever undoes is released afterwards. -/
theorem Conduct.released (conduct : Conduct call t w t' w') (undoing : .undoing ∈ t'.visited) :
    t'.phase = .released := by
  cases conduct with
  | aside same seated => exact absurd undoing (seated.fresh _)
  | filed job demanded same seated => exact absurd undoing (seated.fresh _)
  | closing ended => cases ended <;> rfl

end Calls

/-! ## Assemblies -/

namespace Assembly

variable {G V : Type} [Participant G V] (chunk : Nat → Nat → Nat) {s : Assembly G V} {who : TxId}

/-- What every call keeps as long as it does not end the transaction holds while that is at work. -/
theorem busy_run {Q : World × V → Transaction (Party G) → Prop}
    (kept : ∀ (call : PartyCall G) (w : World × V) (t : Transaction (Party G)), Q w t →
      (call.perform chunk t w).1.phase ≠ .released →
        Q (call.perform chunk t w).2 (call.perform chunk t w).1)
    (calls : List (PartyCall G)) (here : Q s.world (s.transactions who))
    (busy : ((s.run chunk (calls.map (who, ·))).transactions who).phase ≠ .released) :
    Q (s.run chunk (calls.map (who, ·))).world
      ((s.run chunk (calls.map (who, ·))).transactions who) := by
  induction calls generalizing s with
  | nil => exact here
  | cons call rest ih =>
      refine ih ?_ busy
      have next : ((s.step chunk (who, call)).transactions who).phase ≠ .released :=
        fun released => busy (released_run chunk released _)
      rw [step_self] at next ⊢
      exact kept call s.world _ here next

/-- What one transaction did is reversible as long as it is at work. -/
theorem reversible_run {w₀ : World} (sound : w₀.files.Sound) (roomy : w₀.files.Roomy)
    (calls : List (PartyCall G)) (reversible : Reversible w₀ s.world (s.transactions who))
    (busy : ((s.run chunk (calls.map (who, ·))).transactions who).phase ≠ .released) :
    Reversible w₀ (s.run chunk (calls.map (who, ·))).world
      ((s.run chunk (calls.map (who, ·))).transactions who) :=
  busy_run chunk (fun call _ _ before => before.perform sound roomy chunk call) calls reversible busy

/-- Nothing happens any more when the only transaction is released. -/
theorem run_released (released : (s.transactions who).phase = .released)
    (calls : List (PartyCall G)) : s.run chunk (calls.map (who, ·)) = s := by
  induction calls with
  | nil => rfl
  | cons call rest ih =>
      have same : s.step chunk (who, call) = s := step_released chunk released
      rw [List.map_cons, run, List.foldl_cons, same]
      exact ih

/-- **A transaction that gives up leaves no trace.**  Alone on a world where nobody is at work, a
transaction makes any calls and is still at work; then it is aborted or dropped, or another call undoes
it.  Whatever it calls afterwards, the world is as it was at the beginning. -/
theorem run_traceless (config : TxId → Config) {w : World × V} (quiet : w.1.Quiet)
    (roomy : w.1.files.Roomy) (who : TxId) (calls : List (PartyCall G)) (last : PartyCall G)
    (later : List (PartyCall G)) :
    let before := (start config w).run chunk (calls.map (who, ·))
    let after := before.step chunk (who, last)
    (before.transactions who).phase = .active →
    last = .abort ∨ last = .drop ∨ .undoing ∈ (after.transactions who).visited →
    Traceless w.1 before.world.1 (after.run chunk (later.map (who, ·))).world.1 := by
  intro before after active gives
  have reversible : Reversible w.1 before.world (before.transactions who) :=
    reversible_run chunk quiet.sound roomy calls (.start config w quiet.locks who)
      (by rw [show (Assembly.run _ _ _) = before from rfl, active]; simp)
  have undoing : .undoing ∈ (after.transactions who).visited := by
    rcases gives with abort | drop | undoing
    · rw [step_self]
      exact PartyCall.undoes chunk active (Or.inl abort)
    · rw [step_self]
      exact PartyCall.undoes chunk active (Or.inr drop)
    · exact undoing
  have released := (conduct_step chunk (who, last) reversible.seated).released undoing
  rw [run_released chunk released]
  rw [step_self] at undoing
  exact reversible.undone quiet roomy chunk last undoing

/-- `/old` with a descriptor from outside on it, and a pipe with two bytes in its channel. -/
def oldAndPipe : World :=
  { files := { oneOld.files with
      descriptors := ⟨[(0, { inode := some 0, position := 1, readable := true, writable := true })]⟩
      nextDescriptor := 1 }
    pipes := { pipes := ⟨[(0, { id := 0, channel := [5, 6] })]⟩, registered := [0], next := 1 } }

theorem quiet_oldAndPipe : oldAndPipe.Quiet where
  sound := ⟨sound_oneOld.home, sound_oneOld.placed⟩
  inodes at_ inode stands := by
    have there : oneOld.files.entry? at_ = some (.file inode) := stands
    rcases entry?_oneOld there with ⟨-, same⟩ | ⟨-, same⟩ <;> cases same
    decide
  numbers fd d found := by
    have member := Table.mem_of_get? found
    simp only [oldAndPipe, List.mem_singleton, Prod.mk.injEq] at member
    rw [member.1]
    decide
  positions fd := by
    cases found : oldAndPipe.files.descriptors.get? fd with
    | none => simp [Filesystem.position, found]
    | some d =>
        have member := Table.mem_of_get? found
        simp only [oldAndPipe, List.mem_singleton, Prod.mk.injEq] at member
        rw [member.1]
        decide
  pipes := by
    constructor <;> intro pipe p found
    · have member := Table.mem_of_get? found
      simp only [oldAndPipe, List.mem_singleton, Prod.mk.injEq] at member
      rw [member.1, member.2]
    · have member := Table.mem_of_get? found
      simp only [oldAndPipe, List.mem_singleton, Prod.mk.injEq] at member
      rw [member.1]
      decide
  locks k := rfl

/-- A guest that cannot be locked. -/
inductive Refuser where
  | refuser

instance : Participant Refuser Unit where
  domain _ := .custom 0
  lock _ g v := (.error (.busy (.named "guest")), g, v)
  unlock _ g v := (g, v)
  validate _ _ _ v := (true, v)
  apply _ g v := (.ok (), g, v)
  undo _ g v := (.ok (), g, v)
  finish _ g v := (g, v)
  release g v := (g, v)
  journal _ _ := []

/-- It creates a file, reads through the descriptor twice, works on the pipe and asks for a thread. -/
def errand : List (PartyCall Refuser) :=
  [.work (.files (.plain (.openPath "/new" { write := true, create := true }))),
    .work (.files (.plain (.write ⟨0⟩ [7]))),
    .work (.files (.adopt 0 "/old")),
    .work (.files (.plain (.read ⟨1⟩ 1))),
    .work (.files (.adopt 0 "/old")),
    .work (.readPipe 0 1),
    .work (.writePipe 0 [8]),
    .work (.spawn none {}),
    .work .yieldOnce,
    .register .refuser]

/-- The guest refuses to be locked: `/new` is gone, and the descriptor and the pipe are as they were. -/
theorem run_traceless_errand :
    let s : Assembly Refuser Unit := start (fun _ => {}) (oldAndPipe, ())
    let before := s.run (fun _ _ => 1) (errand.map (⟨1, "first"⟩, ·))
    let after := before.step (fun _ _ => 1) (⟨1, "first"⟩, .commit)
    (before.world.1.files.entry? ["new"] = some (.file 1) ∧
        after.world.1.files.entry? ["new"] = none) ∧
      (before.world.1.files.position 0 = 2 ∧
        after.world.1.files.descriptors.get? 0 = oldAndPipe.files.descriptors.get? 0) ∧
      (after.world.1.pipes.get? 0).map Pipe.stock = some [5, 6] ∧ after.world.1.locks.Free := by
  have traceless := run_traceless (fun _ _ => 1) (fun _ => {}) quiet_oldAndPipe roomy_oneOld
    ⟨1, "first"⟩ errand .commit [] (w := (oldAndPipe, ())) (by decide) (Or.inr (Or.inr (by decide)))
  exact ⟨⟨by decide, traceless.entries ["new"]⟩, ⟨by decide, traceless.descriptors 0 _ rfl⟩,
    traceless.stocks 0, traceless.locks⟩

end Assembly

end Transact
