/-
# Transact.Proofs.Alone -- what a transaction that runs alone can commit

One transaction over the built-in participants makes any calls while nobody else does anything, and
commits.  What it removes is written down once and stands there (`Orders`), nobody else took from its
pipes, and no lock and no version stands in its way (`Alone`).  So its commit gets to apply, and
`run_performable` says when that succeeds: exactly if what its files wrote down can be performed.

The calls do not ask for that.  They accept the removal of a directory (`run_performable_clearing`), a
write through a descriptor from outside that cannot be written to, and offsets which the system does not
know.
-/
import Transact.Proofs.Performing
import Transact.Proofs.Traceless
import Transact.Proofs.UntouchedPipes

namespace Transact

set_option autoImplicit false

/-! ## Removals -/

namespace Files

/-- Removals are written down once, and of what stands there. -/
structure Orders (fs : Filesystem) (s : Files) : Prop where
  listed : s.removed = removals s.log.records
  once : s.removed.Nodup
  standing : ∀ r ∈ s.log.records, Standing fs r

namespace Orders

variable {fs fs' : Filesystem} {s s' : Files} {w : World}

theorem fresh (fs : Filesystem) : Orders fs {} where
  listed := rfl
  once := .nil
  standing _ member := absurd member List.not_mem_nil

theorem keeps (orders : s.Orders fs) (keeps : Filesystem.Keeps (fun _ => False) fs fs') :
    s.Orders fs' where
  listed := orders.listed
  once := orders.once
  standing r member remove := by
    obtain ⟨at_, e, named, stands⟩ := orders.standing r member remove
    exact ⟨at_, e, named, (keeps.stands at_ e stands).resolve_right id⟩

/-- Only the log and the list of what is removed matter. -/
theorem congr (orders : s.Orders fs) (removed : s'.removed = s.removed) (log : s'.log = s.log) :
    s'.Orders fs := by
  refine ⟨?_, ?_, ?_⟩
  · rw [removed, log]
    exact orders.listed
  · rw [removed]
    exact orders.once
  · rw [log]
    exact orders.standing

/-- One more record, of another effect. -/
theorem append (orders : s.Orders fs) {r : Record FileEffect} (other : r.payload ≠ .remove)
    (removed : s'.removed = s.removed) (log : s'.log = s.log.append r) : s'.Orders fs := by
  have records : s'.log.records = s.log.records ++ [r] := congrArg DeferredLog.records log
  refine ⟨?_, ?_, fun q member => ?_⟩
  · rw [removed, orders.listed, records, removals, removals, List.filterMap_append]
    simp [other]
  · rw [removed]
    exact orders.once
  · rw [records] at member
    rcases List.mem_append.1 member with before | last
    · exact orders.standing q before
    · rw [List.mem_singleton.1 last]
      exact fun remove => absurd remove other

/-- A removal is written down for what stands there and was not removed before. -/
theorem remove (orders : s.Orders w.files) (sound : w.files.Sound) (roomy : w.files.Roomy)
    (path : String) : (s.remove path w).2.1.Orders w.files := by
  simp only [Files.remove, checkNotRemoved]
  by_cases removed : s.removed.contains (resource w.files path).key = true
  · simp only [removed, if_true]
    exact orders
  · simp only [removed, if_false, Bool.false_eq_true]
    cases named : w.files.names path with
    | false => exact orders
    | true =>
        have new : (resource w.files path).key ∉ s.removed :=
          fun member => removed (List.contains_iff_mem.2 member)
        obtain ⟨at_, e, stands, same⟩ := Filesystem.resource_of_names sound roomy named
        refine ⟨?_, ?_, fun r member => ?_⟩
        · simp [DeferredLog.append, removals, List.filterMap_append, orders.listed, Record.deferred]
        · exact List.nodup_append.2 ⟨orders.once, List.pairwise_singleton _ _, fun k known k' last =>
            fun both => new (by rw [← List.mem_singleton.1 last, ← both]; exact known)⟩
        · rcases List.mem_append.1 member with before | last
          · exact orders.standing r before
          · rw [List.mem_singleton.1 last]
            exact fun _ => ⟨at_, e, same, stands⟩

end Orders

end Files

/-- **Work on files keeps the removals in order.** -/
theorem Filing.perform_orders {s : Files} {w : World} (orders : s.Orders w.files)
    (sound : w.files.Sound) (roomy : w.files.Roomy) (job : Filing) :
    (job.perform s w).2.1.Orders (job.perform s w).2.2.files := by
  have keeps : Filesystem.Keeps (fun _ => False) w.files (job.perform s w).2.2.files :=
    (job.perform_filed sound roomy).keeps
  refine Files.Orders.keeps ?_ keeps
  cases job with
  | adopt descriptor path =>
      simp only [perform, Files.adopt]
      rcases s.checkNotRemoved (Files.resource w.files path) with e | _
      · exact orders
      · exact orders.append (by rw [Record.eager]; exact fun same => by cases same) rfl rfl
  | remove path => exact orders.remove sound roomy path
  | plain job =>
      cases job with
      | openPath path flags =>
          simp only [perform, FileWork.perform]
          rcases s.openPath_cases w path flags with same | ⟨fd, created, files, -, done⟩
          · rw [same]
            exact orders
          · rw [done]
            cases created with
            | true => exact orders.append (by rw [Record.eager]; exact fun same => by cases same) rfl rfl
            | false => exact orders.congr rfl rfl
      | read h len =>
          simp only [perform, FileWork.perform, Files.read]
          rcases s.checkReadable h with e | f
          · exact orders
          · simp only
            rcases w.files.readAt f.descriptor f.offset len with ⟨e | window, files⟩ <;>
              exact orders.congr rfl rfl
      | write h bytes =>
          simp only [perform, FileWork.perform, Files.write]
          rcases s.checkWritable h with e | f
          · exact orders
          · exact orders.append (by rw [Record.deferred]; exact fun same => by cases same) rfl rfl
      | seek h pos =>
          simp only [perform, FileWork.perform, Files.seek]
          rcases s.openFile h with e | f
          · exact orders
          · simp only
            rcases s.seekTarget f w.files pos with _ | offset
            · exact orders
            · exact orders.congr rfl rfl
      | tell h => exact orders
      | close h =>
          simp only [perform, FileWork.perform, Files.close]
          rcases s.openFile h with e | f
          · exact orders
          · exact orders.congr rfl rfl

/-! ## Calls -/

section Calls

variable {G V : Type} [Participant G V] (chunk : Nat → Nat → Nat) {t : Transaction (Party G)}
  {w₀ : World} {w : World × V}

omit [Participant G V] in
/-- Work of another participant leaves the pipes poised. -/
theorem Transaction.withModule_poised_elsewhere {M α : Type} {facet : Facet (Party G) M}
    (lawful : facet.Lawful) (single : t.Single facet)
    (foreign : ∀ m, (Party.pipes : Facet (Party G) Pipes).view (facet.wrap m) = none)
    (poised : (t.seat Party.pipes).Poised w.1) (willing : w.1.threads.Willing)
    (f : M → World → Except Error α × M × World) (pipes : ∀ s, (f s w.1).2.2.pipes = w.1.pipes)
    (versions : ∀ s, (f s w.1).2.2.versions = w.1.versions)
    (refusals : ∀ s, (f s w.1).2.2.threads.refusals = w.1.threads.refusals) :
    let r := Transaction.withModule facet (onWorld f) t w
    (r.2.1.seat Party.pipes).Poised r.2.2.1 ∧ r.2.2.1.threads.Willing := by
  rcases Transaction.withModule_seat lawful single (onWorld f) w with ⟨e, same⟩ |
    ⟨-, members, roster, done, -, others⟩
  · simp only [same]
    exact ⟨poised, willing⟩
  · simp only [done]
    have seat : Transaction.seat Party.pipes { t with members, roster } = t.seat Party.pipes :=
      Transaction.seat_of_seats (others Party.pipes foreign)
    have after := poised.congr (pipes (t.seat facet)) (versions (t.seat facet))
    rw [← seat] at after
    exact ⟨after, fun refused member => willing refused (refusals _ ▸ member)⟩

omit [Participant G V] in
/-- So does work of the pipes themselves. -/
theorem Transaction.withModule_poised (single : t.Single Party.pipes)
    (poised : (t.seat Party.pipes).Poised w.1) (willing : w.1.threads.Willing) {α : Type}
    (f : Pipes → World → Except Error α × Pipes × World)
    (after : (f (t.seat Party.pipes) w.1).2.1.Poised (f (t.seat Party.pipes) w.1).2.2)
    (threads : ∀ s, (f s w.1).2.2.threads = w.1.threads) :
    let r := Transaction.withModule Party.pipes (onWorld f) t w
    (r.2.1.seat Party.pipes).Poised r.2.2.1 ∧ r.2.2.1.threads.Willing := by
  rcases Transaction.withModule_seat Party.lawful_pipes single (onWorld f) w with ⟨e, same⟩ |
    ⟨-, members, roster, done, own, -⟩
  · simp only [same]
    exact ⟨poised, willing⟩
  · simp only [done]
    have seat : Transaction.seat Party.pipes { t with members, roster } =
        (f (t.seat Party.pipes) w.1).2.1 := by
      rw [Transaction.seat, own]
      rfl
    rw [← seat] at after
    exact ⟨after, fun refused member => willing refused (threads _ ▸ member)⟩

omit [Participant G V] in
/-- Work leaves the pipes poised, and asks no thread to start. -/
theorem Work.perform_poised (seated : t.Seated) (poised : (t.seat Party.pipes).Poised w.1)
    (sound : w.1.pipes.Sound) (willing : w.1.threads.Willing) (work : Work) :
    ((work.perform chunk t w).1.seat Party.pipes).Poised (work.perform chunk t w).2.1 ∧
      (work.perform chunk t w).2.1.threads.Willing := by
  cases work with
  | files job =>
      refine Transaction.withModule_poised_elsewhere Party.lawful_files seated.files (fun _ => rfl)
        poised willing (fun s w => job.perform s w) (fun s => ?_) (fun s => ?_) fun s => ?_ <;>
        rw [job.perform_files]
  | readPipe pipe max =>
      refine Transaction.withModule_poised seated.pipes poised willing
        (Pipes.read (chunk pipe) pipe max) (poised.read sound (chunk pipe) pipe max) fun s => ?_
      cases found : w.1.pipes.get? pipe with
      | none => rw [Pipes.read, found]
      | some p =>
          obtain ⟨p', cursors, new, done, -⟩ := s.read_done (w := w.1) (chunk pipe) pipe max found
          rw [done]
  | writePipe pipe bytes =>
      have after := poised.write sound pipe bytes
      have still (s : Pipes) : (Pipes.write pipe bytes s w.1).2.2 = w.1 := by
        unfold Pipes.write
        cases w.1.pipes.get? pipe with
        | none => rfl
        | some p =>
            simp only
            split <;> rfl
      exact Transaction.withModule_poised seated.pipes poised willing (Pipes.write pipe bytes)
        (by rw [still]; exact after) fun s => by rw [still]
  | spawn name task =>
      exact Transaction.withModule_poised_elsewhere Party.lawful_threads seated.threads (fun _ => rfl)
        poised willing (fun s w => let r := s.spawn name task w; (.ok r.1, r.2)) (fun _ => rfl)
        (fun _ => rfl) fun _ => rfl
  | yieldOnce =>
      exact Transaction.withModule_poised_elsewhere Party.lawful_yields seated.yields (fun _ => rfl)
        poised willing (fun s w => (.ok (), s.yieldOnce, w)) (fun _ => rfl) (fun _ => rfl)
        fun _ => rfl

omit [Participant G V] in
/-- Whoever stands among the participants is the one in the seat. -/
theorem Transaction.Single.eq_seat {M : Type} {facet : Facet (Party G) M} (single : t.Single facet)
    {m : Member (Party G)} (member : m ∈ t.members) {s : M} (seen : facet.view m.state = some s) :
    s = t.seat facet := by
  have there : s ∈ seatsOf facet.view t.members := List.mem_filterMap.2 ⟨m, member, seen⟩
  rcases single.cases with ⟨nobody, -⟩ | seated
  · rw [nobody] at there
    exact absurd there List.not_mem_nil
  · rw [seated] at there
    exact List.mem_singleton.1 there

/-- A transaction at work has been alone since `w₀`. -/
structure Alone (w₀ : World) (w : World × V) (t : Transaction (Party G)) : Prop where
  reversible : Reversible w₀ w t
  ready : t.Ready
  orders : (t.seat Party.files).Orders w.1.files
  poised : (t.seat Party.pipes).Poised w.1
  willing : w.1.threads.Willing

omit [Participant G V] in
theorem Alone.start (config : TxId → Config) (w : World × V) (quiet : w.1.Quiet)
    (willing : w.1.threads.Willing) (who : TxId) :
    Alone (G := G) w.1 w { id := who, config := config who } where
  reversible := .start config w quiet.locks who
  ready := .fresh who (config who)
  orders := .fresh w.1.files
  poised := .fresh w.1
  willing := willing

variable [IsEmpty G]

/-- A call that does not end the transaction is work, or an early validation that finds all valid. -/
theorem PartyCall.perform_busy (seated : t.Seated) (call : PartyCall G)
    (busy : (call.perform chunk t w).1.phase ≠ .released) :
    (∃ work, call = .work work) ∨
      (call.perform chunk t w).1 = t ∧ (call.perform chunk t w).2.1 = w.1 := by
  have manners := files_manners (G := G) (V := V) t.context
  cases call with
  | work work => exact Or.inl ⟨work, rfl⟩
  | register g => exact isEmptyElim g
  | validate =>
      have same := validateAll_world t.context .early t.members w
      simp only [perform, Transaction.validateEarly, Transaction.checkActive_active seated.active]
        at busy ⊢
      rcases checked : validateAll t.context .early t.members w with ⟨_ | _, w'⟩
      · have ended := Transaction.undoAndRelease_eq
          (show t.phase.canAdvance .undoing = true by rw [seated.active]; rfl) 0 .validationFailed w'
        simp only [checked, ended] at busy
        exact absurd rfl busy
      · rw [checked] at same
        exact Or.inr ⟨rfl, same⟩
  | commit => exact absurd (manners.commit_ended seated.files seated.active w).released busy
  | abort => exact absurd (manners.abort_ended seated.files seated.active w).released busy
  | drop => exact absurd (manners.drop_ended seated.files seated.active w).released busy

/-- **Every call that does not end the transaction leaves it alone.** -/
theorem Alone.perform (alone : Alone w₀ w t) (quiet : w₀.Quiet) (roomy : w₀.files.Roomy)
    (call : PartyCall G) (busy : (call.perform chunk t w).1.phase ≠ .released) :
    Alone w₀ (call.perform chunk t w).2 (call.perform chunk t w).1 := by
  have seated := alone.reversible.seated
  have reversible := alone.reversible.perform quiet.sound roomy chunk call busy
  have keeps := alone.reversible.built.keeps
  have orders : ((call.perform chunk t w).1.seat Party.files).Orders
      (call.perform chunk t w).2.1.files := by
    have conduct := call.conduct chunk seated w
    rcases done : call.perform chunk t w with ⟨t', w'⟩
    rw [done] at conduct busy
    cases conduct with
    | aside same seated seat still =>
        rw [seat, still.files]
        exact alone.orders
    | filed job asked same seated seat =>
        rw [seat]
        exact job.perform_orders alone.orders (keeps.sound quiet.sound) (keeps.roomy roomy)
    | closing ended => cases ended <;> exact absurd rfl busy
  rcases call.perform_busy chunk seated busy with ⟨work, rfl⟩ | ⟨same, world⟩
  · obtain ⟨poised, willing⟩ := work.perform_poised chunk seated alone.poised
      (alone.reversible.pulled.sound quiet.pipes) alone.willing
    exact ⟨reversible, work.perform_ready chunk alone.ready w, orders, poised, willing⟩
  · refine ⟨reversible, ?_, orders, ?_, ?_⟩
    · rw [same]
      exact alone.ready
    · rw [same, world]
      exact alone.poised
    · rw [world]
      exact alone.willing

/-- **Its commit succeeds exactly if what its files wrote down can be performed**, and else answers
with what failed. -/
theorem Alone.commit (alone : Alone w₀ w t) (quiet : w₀.Quiet) (roomy : w₀.files.Roomy)
    (room : Files.Room (t.seat Party.files).handles (t.seat Party.files).log.records w.1.files) :
    ∃ fault, (t.commit w).1 = .ok (.ofApply fault) ∧
      (fault = none ↔ (t.seat Party.files).Performable w.1.files) := by
  have seated := alone.reversible.seated
  have built := alone.reversible.built
  have pipes : w.1.pipes.Sound := alone.reversible.pulled.sound quiet.pipes
  have own (m : Member (Party G)) (member : m ∈ t.members) (s : Pipes)
      (state : m.state = .builtin (.pipes s)) : s = t.seat Party.pipes ∧ s.access.Keyed := by
    have ready := (alone.ready.members m member).1.ready
    rw [state] at ready
    exact ⟨seated.pipes.eq_seat member (by rw [state]; rfl), Party.Ready.keyed ready⟩
  have valid (m : Member (Party G)) (member : m ∈ t.members) : m.state.Valid w.1 := by
    rcases state : m.state with (s | s | s | s) | g
    · have ready := (alone.ready.members m member).1.ready
      rw [state] at ready
      have here : s = t.seat Party.files := seated.files.eq_seat member (by rw [state]; rfl)
      refine (AccessSet.validate_iff (Party.Ready.keyed ready) w.1.versions).2 fun id seen noted => ?_
      rw [built.versions]
      exact built.notes id seen (here ▸ noted)
    · obtain ⟨here, keyed⟩ := own m member s state
      subst here
      exact alone.poised.valid keyed
    · trivial
    · trivial
    · exact isEmptyElim g
  obtain ⟨locks, came⟩ := Transaction.commit_unopposed seated.active alone.reversible.free valid
  have fault := Transaction.applyAll_fault t.context (w := ({ w.1 with locks }, w.2))
    alone.ready
    (fun m member s state => by
      obtain ⟨here, keyed⟩ := own m member s state
      subst here
      exact alone.poised.appliable keyed pipes)
    alone.willing
  refine ⟨_, came, fault.trans (Files.apply_ok_iff (w := { w.1 with locks }) ?_)⟩
  exact {
    sound := built.keeps.sound quiet.sound
    roomy := built.keeps.roomy roomy
    standing := alone.orders.standing
    once := alone.orders.listed ▸ alone.orders.once
    room := room }

end Calls

/-! ## Assemblies -/

namespace Assembly

variable {G V : Type} [Participant G V] [IsEmpty G] (chunk : Nat → Nat → Nat)

/-- **What a transaction that runs alone can commit.**  Over the built-in participants, on a world where
nobody is at work, a transaction makes any calls and is still at work.  If the disk has room and the
system starts every thread, its commit is a success exactly if every write that was put off is accepted
by the system, no directory is to be removed, and the system knows the positions that adopted
descriptors are left at; else the commit answers that it was aborted by what failed first. -/
theorem run_performable (config : TxId → Config) {w : World × V} (quiet : w.1.Quiet)
    (roomy : w.1.files.Roomy) (willing : w.1.threads.Willing) (who : TxId)
    (calls : List (PartyCall G)) :
    let before := (start config w).run chunk (calls.map (who, ·))
    let t := before.transactions who
    let files := t.seat Party.files
    t.phase = .active → Files.Room files.handles files.log.records before.world.1.files →
    ∃ fault, (t.commit before.world).1 = .ok (.ofApply fault) ∧
      (fault = none ↔ files.Performable before.world.1.files) := by
  intro before t files active room
  have alone : Alone w.1 before.world t :=
    busy_run chunk (fun call _ _ before => before.perform chunk quiet roomy call) calls
      (.start config w quiet willing who)
      (by rw [show (Assembly.run _ _ _).transactions who = t from rfl, active]; simp)
  exact alone.commit quiet roomy room

instance : Participant Empty Unit where
  domain e := e.elim
  lock _ e _ := e.elim
  unlock _ e _ := e.elim
  validate _ _ e _ := e.elim
  apply _ e _ := e.elim
  undo _ e _ := e.elim
  finish _ e _ := e.elim
  release e _ := e.elim
  journal e _ := e.elim

/-- It writes through the descriptor, works on the pipe, asks for a thread and removes something. -/
def clearing (path : String) : List (PartyCall Empty) :=
  [.work (.files (.adopt 0 "/old")),
    .work (.files (.plain (.write ⟨0⟩ [7]))),
    .work (.readPipe 0 1),
    .work (.writePipe 0 [8]),
    .work (.spawn none {}),
    .validate,
    .work (.files (.remove path))]

/-- A file can be removed and the root cannot, though both removals were accepted. -/
theorem run_performable_clearing :
    let before (path : String) : Assembly Empty Unit :=
      (start (fun _ => {}) (oldAndPipe, ())).run (fun _ _ => 1)
        ((clearing path).map (⟨1, "first"⟩, ·))
    let t (path : String) := (before path).transactions ⟨1, "first"⟩
    (((t "/old").commit (before "/old").world).1 = .ok .committed ∧
        ((t "/old").seat Party.files).Performable (before "/old").world.1.files) ∧
      ¬ ((t "/").seat Party.files).Performable (before "/").world.1.files ∧
        ∃ code, ((t "/").commit (before "/").world).1 = .ok (.aborted (.moduleError code)) := by
  intro before t
  have performable (path : String) := run_performable (fun _ _ => 1) (fun _ => {}) quiet_oldAndPipe
    roomy_oneOld (fun _ member => absurd member List.not_mem_nil) ⟨1, "first"⟩ (clearing path)
    (w := (oldAndPipe, ()))
  refine ⟨?_, ?_⟩
  · obtain ⟨fault, came, performed⟩ := performable "/old" (by decide) (Files.room_of_plain (by decide))
    have done : ((t "/old").commit (before "/old").world).1 = .ok .committed := by decide +kernel
    refine ⟨done, performed.1 ?_⟩
    cases fault with
    | none => rfl
    | some code =>
        rw [done] at came
        cases came
  · have root : ¬ ((t "/").seat Party.files).Performable (before "/").world.1.files := fun all =>
      all.records (.deferred (.path "/") .remove) (by decide) [] (by decide) rfl
    obtain ⟨fault, came, performed⟩ := performable "/" (by decide) (Files.room_of_plain (by decide))
    refine ⟨root, ?_⟩
    cases fault with
    | none => exact absurd (performed.1 rfl) root
    | some code => exact ⟨code, came⟩

end Assembly

end Transact
