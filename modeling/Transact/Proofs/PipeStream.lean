/-
# Transact.Proofs.PipeStream -- every byte of a pipe is delivered once and in order

`Stream` is what every call keeps: the bytes that came into a pipe are those of its ledger, the bytes
that left it are the ledger's too, and the rest is its stock.  A transaction at work has its reads at
hand (`Pipes.Engaged`); one that ended has no more calls to make.  `Stream.call` and `Stream.raw` are
the two kinds of steps, and `run_delivers` is what they come to for a whole schedule.
-/
import Mathlib.Data.List.Infix
import Transact.Proofs.PipeEnding

namespace Transact

set_option autoImplicit false

/-! ## Raw calls -/

namespace RawCall

/-- A raw call on a pipe brings in and takes out what the ledger says. -/
theorem onPipe_flows (chunk : Nat → Nat) (share : TxId → List Deed) (call : RawCall) {there : Nat}
    (on : call.pipe? = some there) (p : Pipe) :
    let r := call.onPipe chunk p
    p.Flows (enteredBy share there (.raw call, r.1)) (takenBy share there (.raw call, r.1)) r.2 ∧
      (takenBy share there (.raw call, r.1)).length ≤ p.stock.length := by
  intro r
  cases call with
  | openPipe => cases on
  | read pipe max =>
      cases on
      obtain ⟨flows, within⟩ := Pipe.read_flows (show p.read chunk max = (_, _) from rfl)
      have taken : takenBy share there (.raw (.read there max), r.1) =
          (p.read chunk max).1.content := by
        simp only [r, onPipe]
        cases (p.read chunk max).1 <;> simp [takenBy, Pipe.Reading.content]
      rw [taken]
      exact ⟨flows, within⟩
  | peekAt pipe offset max =>
      cases on
      exact ⟨(Pipe.peekAt_flows rfl).1, Nat.zero_le _⟩
  | consumeAt pipe offset len =>
      cases on
      simp only [r, onPipe]
      cases made : p.consumeAt offset len with
      | error e => exact ⟨.refl p, Nat.zero_le _⟩
      | ok p' =>
          simp only [enteredBy, takenBy, if_true]
          exact ⟨(Pipe.consumeAt_flows made).1, Pipe.take_le_stock p len⟩
  | writeAll pipe bytes =>
      cases on
      simp only [r, onPipe]
      cases made : p.writeAll bytes with
      | error e => exact ⟨.refl p, Nat.zero_le _⟩
      | ok p' =>
          simp only [enteredBy, takenBy, if_true]
          exact ⟨(Pipe.writeAll_flows made).1, Nat.zero_le _⟩
  | closeWriter pipe => exact ⟨Pipe.closeWriter_flows p, Nat.zero_le _⟩

/-- A raw call is no entry in the ledger of another pipe. -/
theorem ledger_other (share : TxId → List Deed) (call : RawCall) {there pipe : Nat}
    (on : call.pipe? = some there) (ne : there ≠ pipe) (answer : PipeAnswer) :
    enteredBy share pipe (.raw call, answer) = [] ∧ takenBy share pipe (.raw call, answer) = [] := by
  constructor
  · unfold enteredBy
    split
    · next same =>
      cases same
      cases on
      exact if_neg ne
    · next same => cases same
    · rfl
  · unfold takenBy
    split
    · next same =>
      cases same
      cases on
      exact if_neg ne
    · next same =>
      cases same
      cases on
      exact if_neg ne
    · next same => cases same
    · rfl

/-- **A raw call moves a pipe as the ledger says**, and keeps the table in order. -/
theorem perform_flows {chunk : Nat → Nat → Nat} {t t' : PipeTable} (sound : t.Sound)
    {call : RawCall} {answer : PipeAnswer} (made : call.perform chunk t = (answer, t'))
    (share : TxId → List Deed) (pipe : Nat) :
    t'.Sound ∧
      (t.standing pipe).Flows (enteredBy share pipe (.raw call, answer))
        (takenBy share pipe (.raw call, answer)) (t'.standing pipe) ∧
      (takenBy share pipe (.raw call, answer)).length ≤ (t.standing pipe).stock.length := by
  have nothing : enteredBy share pipe (.raw call, .done) = [] ∧
      takenBy share pipe (.raw call, .done) = [] := by cases call <;> exact ⟨rfl, rfl⟩
  unfold perform at made
  cases on : call.pipe? with
  | none =>
      simp only [on] at made
      obtain ⟨rfl, rfl⟩ := Prod.mk.inj made
      obtain ⟨opened, same⟩ := sound.openPipe
      rw [nothing.1, nothing.2, same]
      exact ⟨opened, .refl _, Nat.zero_le _⟩
  | some there =>
      simp only [on] at made
      cases found : t.get? there with
      | none =>
          simp only [found] at made
          obtain ⟨rfl, rfl⟩ := Prod.mk.inj made
          rw [nothing.1, nothing.2]
          exact ⟨sound, .refl _, Nat.zero_le _⟩
      | some p =>
          simp only [found] at made
          obtain ⟨rfl, rfl⟩ := Prod.mk.inj made
          obtain ⟨flows, within⟩ := onPipe_flows (chunk there) share call on p
          have number : (call.onPipe (chunk there) p).2.id = there :=
            flows.id.trans (sound.named there p found)
          refine ⟨sound.set found flows.id, ?_⟩
          rw [PipeTable.standing_set, number]
          by_cases here : pipe = there
          · subst here
            rw [if_pos rfl, PipeTable.standing_of_get? found]
            exact ⟨flows, within⟩
          · obtain ⟨entered, taken⟩ := ledger_other share call on (Ne.symm here)
              (call.onPipe (chunk there) p).1
            rw [if_neg here, entered, taken]
            exact ⟨.refl _, Nat.zero_le _⟩

end RawCall

/-! ## Where a transaction stands -/

/-- A transaction works on pipes, with its deeds at hand, or it is released. -/
def Standing (pipe : Nat) (history : List PipeEvent) (p : Pipe) (who : TxId)
    (t : Transaction Builtin) : Prop :=
  (∃ s, t.OnPipes s ∧ s.Engaged pipe (deedsOf who pipe history) p ∧
      ∀ outcome, (.call who .commit, .ended (.ok outcome)) ∉ history) ∨
    t.phase = .released

/-- What a released transaction answers. -/
def PipeCall.refusal : PipeCall → PipeAnswer
  | .read .. => .read (.error (Transaction.notActive "use a module" .released))
  | .write .. => .wrote (.error (Transaction.notActive "use a module" .released))
  | .commit => .ended (.error (Transaction.notActive "commit" .released))
  | .abort => .ended (.error (Transaction.notActive "abort" .released))
  | .drop => .done

theorem PipeCall.perform_released {chunk : Nat → Nat → Nat} {t : Transaction Builtin}
    (released : t.phase = .released) (call : PipeCall) (w : World) :
    call.perform chunk t w = (call.refusal, t, w) := by
  cases call <;>
    simp only [perform, refusal, Transaction.withModule_released released,
      Transaction.commit_released released, Transaction.abort_released released,
      Transaction.drop_released released]

namespace Standing

variable {pipe : Nat} {history : List PipeEvent} {p p' : Pipe} {who : TxId}
  {t : Transaction Builtin} {entered taken : Bytes}

theorem start (config : TxId → Config) (pipe : Nat) (p : Pipe) (who : TxId) :
    Standing pipe [] p who (newTransaction config who) :=
  Or.inl ⟨{}, ⟨rfl, rfl, Or.inl ⟨rfl, rfl⟩⟩, .fresh pipe p, fun _ => List.not_mem_nil⟩

/-- A call of somebody else moves the pipe and nothing else. -/
theorem meanwhile (standing : Standing pipe history p who t) (flows : p.Flows entered taken p')
    {step : PipeStep} {answer : PipeAnswer} (foreign : ∀ call, step ≠ .call who call) :
    Standing pipe (history ++ [(step, answer)]) p' who t := by
  refine standing.imp_left ?_
  rintro ⟨s, on, engaged, open_⟩
  have noDeed : deed? who pipe (step, answer) = none := by
    cases step with
    | raw call => rfl
    | call other call => exact deed?_other (fun same => foreign call (by rw [same])) call answer
  have same : deedsOf who pipe (history ++ [(step, answer)]) = deedsOf who pipe history := by
    rw [deedsOf_append]
    simp [deedsOf, noDeed]
  refine ⟨s, on, same ▸ engaged.meanwhile flows, fun outcome member => ?_⟩
  rcases List.mem_append.1 member with before | last
  · exact open_ outcome before
  · exact foreign .commit (congrArg Prod.fst (List.mem_singleton.1 last)).symm

end Standing

/-! ## The invariant -/

/-- After the calls of its history the session stands where the ledger of the pipe says. -/
structure Stream (pipe : Nat) (share : TxId → List Deed) (s : PipeSession) : Prop where
  sound : s.world.pipes.Sound
  flows : Pipe.Flows { id := pipe } (s.history.flatMap (enteredBy share pipe))
    (s.history.flatMap (takenBy share pipe)) (s.world.pipes.standing pipe)
  entered : s.entered pipe = s.history.flatMap (enteredBy share pipe)
  shares : Shares pipe s share
  each : ∀ who, Standing pipe s.history (s.world.pipes.standing pipe) who (s.transactions who)

/-- What an event is in the ledger depends only on the share of the one that committed in it. -/
theorem ledger_congr {share share' : TxId → List Deed} {pipe : Nat} {e : PipeEvent}
    (same : ∀ who outcome, e = (.call who .commit, .ended (.ok outcome)) → share' who = share who) :
    enteredBy share' pipe e = enteredBy share pipe e ∧ takenBy share' pipe e = takenBy share pipe e := by
  unfold enteredBy takenBy
  constructor <;> split <;> first | rfl | (rw [same _ _ rfl])

namespace Stream

variable {pipe : Nat} {share share' : TxId → List Deed} {s : PipeSession} {w : World}
  {chunk : Nat → Nat → Nat} {who : TxId} {call : PipeCall} {answer : PipeAnswer}
  {t : Transaction Builtin}

theorem start (config : TxId → Config) (w : World) (pipe : Nat) :
    Stream pipe (fun _ => []) (.start config w) where
  sound := PipeTable.sound_empty
  flows := .refl _
  entered := rfl
  shares :=
    { first := fun _ => List.prefix_refl _
      committed := fun _ member => absurd member List.not_mem_nil
      pending := fun _ _ => rfl }
  each who := .start config pipe _ who

/-- One more event, which moved the pipe as the ledger says. -/
theorem next (stream : Stream pipe share s) {step : PipeStep}
    {transactions : TxId → Transaction Builtin} (sound : w.pipes.Sound)
    (flows : (s.world.pipes.standing pipe).Flows (enteredBy share' pipe (step, answer))
      (takenBy share' pipe (step, answer)) (w.pipes.standing pipe))
    (within : (takenBy share' pipe (step, answer)).length ≤
      (s.world.pipes.standing pipe).stock.length)
    (past : ∀ e ∈ s.history, enteredBy share' pipe e = enteredBy share pipe e ∧
      takenBy share' pipe e = takenBy share pipe e)
    (shares : Shares pipe (s.next step answer transactions w) share')
    (each : ∀ who, Standing pipe (s.history ++ [(step, answer)]) (w.pipes.standing pipe) who
      (transactions who)) :
    Stream pipe share' (s.next step answer transactions w) := by
  have entered : s.history.flatMap (enteredBy share' pipe) =
      s.history.flatMap (enteredBy share pipe) :=
    List.flatMap_congr fun e member => (past e member).1
  have taken : s.history.flatMap (takenBy share' pipe) = s.history.flatMap (takenBy share pipe) :=
    List.flatMap_congr fun e member => (past e member).2
  refine ⟨sound, ?_, ?_, shares, each⟩
  · simp only [PipeSession.next, List.flatMap_append, List.flatMap_singleton, entered, taken]
    exact stream.flows.trans flows
  · simp only [PipeSession.next, List.flatMap_append, List.flatMap_singleton, entered,
      stream.entered, flows.arrived_eq within]

/-- A raw call. -/
theorem raw (stream : Stream pipe share s) (chunk : Nat → Nat → Nat) (call : RawCall) :
    Stream pipe share (s.step chunk (.raw call)) := by
  rcases made : call.perform chunk s.world.pipes with ⟨answer, pipes⟩
  obtain ⟨sound, flows, within⟩ := RawCall.perform_flows stream.sound made share pipe
  have same (who : TxId) :
      deedsOf who pipe (s.history ++ [(.raw call, answer)]) = deedsOf who pipe s.history := by
    rw [deedsOf_append]
    simp [deedsOf, deed?_raw]
  simp only [PipeSession.step, made]
  refine stream.next sound flows within (fun _ _ => ⟨rfl, rfl⟩) ⟨?_, ?_, stream.shares.pending⟩ ?_
  · intro who
    rw [PipeSession.next, same]
    exact stream.shares.first who
  · intro who member
    rw [PipeSession.next, same]
    refine stream.shares.committed who ?_
    simpa [PipeSession.next] using member
  · intro who
    exact (stream.each who).meanwhile flows fun _ same => by cases same

/-- A call on a transaction.  What is to be shown of its share of the ledger is about itself. -/
theorem call_next (stream : Stream pipe share s)
    (made : call.perform chunk (s.transactions who) s.world = (answer, t, w))
    (others : ∀ other, other ≠ who → share' other = share other)
    (open_ : share' who = share who ∨
      ∀ outcome, (.call who .commit, .ended (.ok outcome)) ∉ s.history)
    (sound : w.pipes.Sound)
    (flows : (s.world.pipes.standing pipe).Flows (enteredBy share' pipe (.call who call, answer))
      (takenBy share' pipe (.call who call, answer)) (w.pipes.standing pipe))
    (within : (takenBy share' pipe (.call who call, answer)).length ≤
      (s.world.pipes.standing pipe).stock.length)
    (first : share' who <+: deedsOf who pipe (s.history ++ [(.call who call, answer)]))
    (committed : (.call who .commit, .ended (.ok .committed)) ∈
        s.history ++ [(.call who call, answer)] →
      share' who = deedsOf who pipe (s.history ++ [(.call who call, answer)]))
    (pending : .applying ∉ t.visited → share' who = [])
    (own : Standing pipe (s.history ++ [(.call who call, answer)]) (w.pipes.standing pipe) who t) :
    Stream pipe share' (s.step chunk (.call who call)) := by
  have same {other : TxId} (ne : other ≠ who) :
      deedsOf other pipe (s.history ++ [(.call who call, answer)]) =
        deedsOf other pipe s.history := by
    rw [deedsOf_append]
    simp [deedsOf, deed?_other (Ne.symm ne)]
  simp only [PipeSession.step, made]
  refine stream.next sound flows within ?_ ⟨?_, ?_, ?_⟩ ?_
  · intro e member
    refine ledger_congr fun other outcome here => ?_
    by_cases mine : other = who
    · subst mine
      exact open_.resolve_right fun uncommitted => uncommitted outcome (here ▸ member)
    · exact others other mine
  · intro other
    by_cases mine : other = who
    · subst mine
      exact first
    · simp only [PipeSession.next, same mine, others other mine]
      exact stream.shares.first other
  · intro other member
    by_cases mine : other = who
    · subst mine
      exact committed member
    · simp only [PipeSession.next, same mine, others other mine]
      refine stream.shares.committed other ?_
      rcases List.mem_append.1 member with before | last
      · exact before
      · simp only [List.mem_singleton, Prod.mk.injEq, PipeStep.call.injEq] at last
        exact absurd last.1.1 mine
  · intro other without
    by_cases mine : other = who
    · subst mine
      simp only [PipeSession.next, if_true] at without
      exact pending without
    · simp only [PipeSession.next, mine, if_false] at without
      rw [others other mine]
      exact stream.shares.pending other without
  · intro other
    by_cases mine : other = who
    · subst mine
      simp only [if_true]
      exact own
    · simp only [mine, if_false]
      exact (stream.each other).meanwhile flows fun _ same => mine (PipeStep.call.inj same).1.symm

/-- A call that performs nothing of what was recorded. -/
theorem quiet (stream : Stream pipe share s)
    (made : call.perform chunk (s.transactions who) s.world = (answer, t, w))
    (sound : w.pipes.Sound)
    (flows : (s.world.pipes.standing pipe).Flows [] [] (w.pipes.standing pipe))
    (silent : enteredBy share pipe (.call who call, answer) = [] ∧
      takenBy share pipe (.call who call, answer) = [])
    (visited : .applying ∉ t.visited → .applying ∉ (s.transactions who).visited)
    (ends : answer ≠ .ended (.ok .committed))
    (deeds : deed? who pipe (.call who call, answer) = none ∨
      (.call who .commit, .ended (.ok .committed)) ∉ s.history)
    (own : Standing pipe (s.history ++ [(.call who call, answer)]) (w.pipes.standing pipe) who t) :
    Stream pipe share (s.step chunk (.call who call)) := by
  have extended : deedsOf who pipe (s.history ++ [(.call who call, answer)]) =
      deedsOf who pipe s.history ++ (deed? who pipe (.call who call, answer)).toList := by
    rw [deedsOf_append]
    cases here : deed? who pipe (.call who call, answer) <;> simp [deedsOf, here]
  refine stream.call_next made (fun _ _ => rfl) (Or.inl rfl) sound ?_ ?_ ?_ ?_ ?_ own
  · rw [silent.1, silent.2]
    exact flows
  · rw [silent.2]
    exact Nat.zero_le _
  · rw [extended]
    exact (stream.shares.first who).trans (List.prefix_append _ _)
  · intro member
    have before : (.call who .commit, .ended (.ok .committed)) ∈ s.history := by
      rcases List.mem_append.1 member with before | last
      · exact before
      · exact absurd (congrArg Prod.snd (List.mem_singleton.1 last)).symm ends
    rw [extended, deeds.resolve_right fun uncommitted => uncommitted before, Option.toList_none,
      List.append_nil]
    exact stream.shares.committed who before
  · intro without
    exact stream.shares.pending who (visited without)

/-- What a released transaction is asked is refused. -/
theorem released (stream : Stream pipe share s) (gone : (s.transactions who).phase = .released)
    (chunk : Nat → Nat → Nat) (call : PipeCall) : Stream pipe share (s.step chunk (.call who call)) := by
  refine stream.quiet (PipeCall.perform_released gone call s.world) stream.sound (.refl _) ?_ id ?_
    (Or.inl ?_) (Or.inr gone)
  · cases call <;> exact ⟨rfl, rfl⟩
  · cases call <;> simp [PipeCall.refusal]
  · cases call <;> rfl

/-! ### Calls of a transaction at work -/

section Work

variable {files : Pipes}

/-- After a piece of work the transaction is still at work. -/
theorem work {α : Type} (stream : Stream pipe share s) (on : (s.transactions who).OnPipes files)
    (open_ : ∀ outcome, (.call who .commit, .ended (.ok outcome)) ∉ s.history)
    (f : Pipes → World → Except Error α × Pipes × World) (wrap : Except Error α → PipeAnswer)
    (does : call.perform chunk (s.transactions who) s.world =
      let r := Transaction.withModule Builtin.pipesFacet (fun _ => f) (s.transactions who) s.world
      (wrap r.1, r.2))
    (job : ∀ outcome, (call, wrap (f files s.world).1) ≠ (.commit, .ended outcome))
    (unended : wrap (f files s.world).1 ≠ .ended (.ok .committed))
    (silent : enteredBy share pipe (.call who call, wrap (f files s.world).1) = [] ∧
      takenBy share pipe (.call who call, wrap (f files s.world).1) = [])
    (sound : (f files s.world).2.2.pipes.Sound)
    (flows : (s.world.pipes.standing pipe).Flows [] [] ((f files s.world).2.2.pipes.standing pipe))
    (engaged : Pipes.Engaged pipe
      (deedsOf who pipe s.history ++
        (deed? who pipe (.call who call, wrap (f files s.world).1)).toList)
      (f files s.world).2.1 ((f files s.world).2.2.pipes.standing pipe)) :
    Stream pipe share (s.step chunk (.call who call)) := by
  obtain ⟨roster, made⟩ := Transaction.withModule_alone Builtin.pipesFacet
    (fun _ => rfl) on.active on.members (fun _ => f) s.world
  rw [made] at does
  refine stream.quiet does sound flows silent id unended (Or.inr (open_ _)) (Or.inl ?_)
  refine ⟨_, ⟨on.active, on.unseen, Or.inr rfl⟩, ?_, ?_⟩
  · rw [deedsOf_append]
    cases here : deed? who pipe (.call who call, wrap (f files s.world).1) with
    | none => simpa [deedsOf, here] using engaged
    | some deed => simpa [deedsOf, here] using engaged
  · intro outcome member
    rcases List.mem_append.1 member with before | last
    · exact open_ outcome before
    · simp only [List.mem_singleton, Prod.mk.injEq, PipeStep.call.injEq, true_and] at last
      exact job (.ok outcome) (Prod.ext last.1.symm last.2.symm)

/-- An end at which nothing is applied. -/
theorem gives_up (stream : Stream pipe share s) {visited : List Phase} {outcome : Outcome}
    (made : call.perform chunk (s.transactions who) s.world =
      (answer, (s.transactions who).ended visited outcome, w))
    (same : w.pipes = s.world.pipes)
    (silent : enteredBy share pipe (.call who call, answer) = [] ∧
      takenBy share pipe (.call who call, answer) = [])
    (ends : answer ≠ .ended (.ok .committed))
    (deeds : deed? who pipe (.call who call, answer) = none) :
    Stream pipe share (s.step chunk (.call who call)) := by
  refine stream.quiet made (same ▸ stream.sound) (same ▸ .refl _) silent ?_ ends (Or.inl deeds)
    (Or.inr rfl)
  intro without member
  exact without (List.mem_append_left _ member)

/-- **A commit adds its deeds to the ledger, up to the one that fails, or nothing at all.** -/
theorem commits (stream : Stream pipe share s) (on : (s.transactions who).OnPipes files)
    (engaged : files.Engaged pipe (deedsOf who pipe s.history) (s.world.pipes.standing pipe))
    (open_ : ∀ outcome, (.call who .commit, .ended (.ok outcome)) ∉ s.history)
    (chunk : Nat → Nat → Nat) :
    ∃ share', Stream pipe share' (s.step chunk (.call who .commit)) := by
  obtain ⟨outcome, visited, w', committed, ending⟩ := on.commit s.world
  have made : PipeCall.commit.perform chunk (s.transactions who) s.world =
      (.ended (.ok outcome), (s.transactions who).ended visited outcome, w') := by
    simp only [PipeCall.perform, committed]
  rcases ending with ⟨-, refused, same⟩ | ⟨applying, unmoved, w₁, before, after, whole⟩
  · -- its share is empty, so the entry in the ledger is
    have nothing : share who = [] := by
      refine stream.shares.pending who ?_
      rw [on.unseen]
      exact List.not_mem_nil
    refine ⟨share, stream.gives_up made same ?_ ?_ rfl⟩
    · simp only [enteredBy, takenBy, nothing]
      exact ⟨rfl, rfl⟩
    · intro same
      cases same
      exact refused rfl
  · obtain ⟨⟨stop, goes⟩, ready⟩ := engaged.ready unmoved
    rw [← engaged.recorded] at ready
    rw [← before] at goes ready
    obtain ⟨sound, done, first, all, flows⟩ :=
      Pipes.applyEach_flows (s := files) (before ▸ stream.sound) engaged.plain goes ready
    rw [← after] at sound flows
    rw [before] at flows ready
    rw [engaged.recorded] at first all
    have extended : deedsOf who pipe
        (s.history ++ [(.call who .commit, .ended (.ok outcome))]) = deedsOf who pipe s.history := by
      rw [deedsOf_append]
      simp [deedsOf, deed?]
    refine ⟨fun other => if other = who then done else share other,
      stream.call_next made (fun other ne => if_neg ne) (Or.inr open_) sound ?_ ?_ ?_ ?_ ?_
        (Or.inr rfl)⟩
    · simp only [enteredBy, takenBy, if_true]
      exact flows
    · simp only [takenBy, if_true, Pipe.stock, List.length_append]
      have short := ((first.flatMap _).trans (engaged.recorded ▸ ready)).length_le
      exact Nat.le_trans short (Nat.le_add_right _ _)
    · rw [if_pos rfl, extended]
      exact first
    · intro member
      rw [if_pos rfl, extended]
      rcases List.mem_append.1 member with before | last
      · exact absurd before (open_ _)
      · simp only [List.mem_singleton, Prod.mk.injEq, PipeAnswer.ended.injEq, Except.ok.injEq,
          true_and] at last
        exact all (whole last.symm)
    · intro without
      exact absurd (List.mem_append_right _ applying) without

/-- **Every call on a transaction keeps to the ledger.** -/
theorem call_step (stream : Stream pipe share s) (chunk : Nat → Nat → Nat) (who : TxId)
    (call : PipeCall) : ∃ share', Stream pipe share' (s.step chunk (.call who call)) := by
  rcases stream.each who with ⟨files, on, engaged, open_⟩ | gone
  · cases call with
    | read there max =>
        obtain ⟨sound, flows, engaged'⟩ := engaged.read stream.sound (chunk there) who there max
        exact ⟨share, stream.work on open_ (fun s w => Pipes.read (chunk there) there max s w) .read
          rfl (fun _ same => by cases same) (fun same => by cases same) ⟨rfl, rfl⟩ sound flows engaged'⟩
    | write there bytes =>
        obtain ⟨same, engaged'⟩ := engaged.write stream.sound who there bytes
        exact ⟨share, stream.work on open_ (fun s w => Pipes.write there bytes s w) .wrote
          rfl (fun _ same => by cases same) (fun same => by cases same) ⟨rfl, rfl⟩
          (same.symm ▸ stream.sound) (same.symm ▸ .refl _) (same.symm ▸ engaged')⟩
    | commit => exact stream.commits on engaged open_ chunk
    | abort =>
        obtain ⟨w', gave, same⟩ := on.abandon .requested s.world
        have made : PipeCall.abort.perform chunk (s.transactions who) s.world =
            (.ended (.ok (.aborted .requested)),
              (s.transactions who).ended [.undoing, .finishing, .released] (.aborted .requested),
              w') := by
          simp only [PipeCall.perform, Transaction.abort_active on.active, gave]
        exact ⟨share, stream.gives_up made same ⟨rfl, rfl⟩ (by simp) rfl⟩
    | drop =>
        obtain ⟨w', gave, same⟩ := on.abandon .requested s.world
        have made : PipeCall.drop.perform chunk (s.transactions who) s.world =
            (.done,
              (s.transactions who).ended [.undoing, .finishing, .released] (.aborted .requested),
              w') := by
          simp only [PipeCall.perform, Transaction.drop_active on.active, gave]
        exact ⟨share, stream.gives_up made same ⟨rfl, rfl⟩ (by simp) rfl⟩
  · exact ⟨share, stream.released gone chunk call⟩

end Work

theorem step (stream : Stream pipe share s) (chunk : Nat → Nat → Nat) (step : PipeStep) :
    ∃ share', Stream pipe share' (s.step chunk step) := by
  cases step with
  | call who call => exact stream.call_step chunk who call
  | raw call => exact ⟨share, stream.raw chunk call⟩

theorem run (stream : Stream pipe share s) (chunk : Nat → Nat → Nat) (schedule : List PipeStep) :
    ∃ share', Stream pipe share' (s.run chunk schedule) := by
  induction schedule generalizing s share with
  | nil => exact ⟨share, stream⟩
  | cons step rest ih =>
      obtain ⟨share', next⟩ := stream.step chunk step
      exact ih next

end Stream

namespace PipeSession

/-- **Pipes deliver every byte exactly once and in order.**  Whatever the calls, through transactions
and past them, the bytes that came into a pipe are those of the raw writes and of the deeds performed
by commits, one transaction's in one piece; those before its front are the bytes of the raw reads and
consumptions and the bytes the performed reads had returned; the rest is in the buffer and in the
channel.  A committed transaction performed all its deeds, one that did not get to apply none, and
one that failed there the first of them. -/
theorem run_delivers (chunk : Nat → Nat → Nat) (config : TxId → Config) (w : World)
    (schedule : List PipeStep) (pipe : Nat) (p : Pipe)
    (opened : ((start config w).run chunk schedule).world.pipes.get? pipe = some p) :
    let s := (start config w).run chunk schedule
    ∃ share, Shares pipe s share ∧
      s.entered pipe = s.history.flatMap (enteredBy share pipe) ∧
      p.front ≤ (s.entered pipe).length ∧
      (s.entered pipe).take p.front = s.history.flatMap (takenBy share pipe) ∧
      (s.entered pipe).drop p.front = p.buffer ++ p.channel := by
  intro s
  obtain ⟨share, stream⟩ := (Stream.start config w pipe).run chunk schedule
  have flows := stream.flows
  rw [PipeTable.standing_of_get? opened] at flows
  have stock : s.entered pipe = s.history.flatMap (takenBy share pipe) ++ p.stock := by
    rw [stream.entered]
    exact flows.stock
  have front : p.front = (s.history.flatMap (takenBy share pipe)).length :=
    flows.front.trans (Nat.zero_add _)
  refine ⟨share, stream.shares, stream.entered, ?_, ?_, ?_⟩
  · rw [stock, front, List.length_append]
    exact Nat.le_add_right _ _
  · rw [stock, front, List.take_left]
  · rw [stock, front, List.drop_left]
    rfl

/-- Two transactions look at the same bytes and both write; one of them commits.  A third reads past a
raw read and fails in apply, since the writer was closed after its write. -/
def sharedReads : List PipeStep :=
  let first : TxId := ⟨1, "first"⟩
  let second : TxId := ⟨2, "second"⟩
  let third : TxId := ⟨3, "third"⟩
  [.raw .openPipe,
    .raw (.writeAll 0 [1, 2, 3, 4]),
    .call first (.read 0 2),
    .call second (.read 0 3),
    .call second (.write 0 [9]),
    .call first (.write 0 [8]),
    .call first .commit,
    .call second .commit,
    .raw (.read 0 1),
    .call third (.read 0 1),
    .call third (.write 0 [7]),
    .call third (.read 0 4),
    .raw (.closeWriter 0),
    .call third .commit,
    .raw (.peekAt 0 4 9)]

/-- Of the five bytes that came in three were taken by transactions and one by the raw read. -/
theorem run_delivers_sharedReads :
    let s := (start (fun _ => {}) {}).run (fun _ _ => 3) sharedReads
    ∃ p, s.world.pipes.get? 0 = some p ∧ s.entered 0 = [1, 2, 3, 4, 8] ∧ p.front = 4 ∧
      ∃ share, Shares 0 s share ∧
        s.history.flatMap (enteredBy share 0) = [1, 2, 3, 4, 8] ∧
        s.history.flatMap (takenBy share 0) = [1, 2, 3, 4] := by
  have opened : ((start (fun _ => {}) {}).run (fun _ _ => 3) sharedReads).world.pipes.get? 0 =
      some { id := 0, front := 4, buffer := [8], pulls := 2, writerOpen := false } := by decide
  have entered : ((start (fun _ => {}) {}).run (fun _ _ => 3) sharedReads).entered 0 =
      [1, 2, 3, 4, 8] := by decide
  obtain ⟨share, shares, came, -, left, -⟩ :=
    run_delivers (fun _ _ => 3) (fun _ => {}) {} sharedReads 0 _ opened
  rw [entered] at came left
  exact ⟨_, opened, entered, rfl, share, shares, came.symm, left.symm⟩

end PipeSession

end Transact
