/-
# Transact.Proofs.PipeEnding -- the end of a transaction that works on pipes

What a transaction recorded for a pipe is a list of deeds (`deedsIn`).  Its reads are `Engaged`: they
follow each other without a gap from where the first one began, and as long as nobody else consumed
they are the first bytes of the buffer.  Both work (`Engaged.write`, `Engaged.read`) and what others
do (`Engaged.meanwhile`) keep that, so the apply phase consumes exactly what was read, and up to the
record it fails at it performs everything in order (`applyEach_flows`).
-/
import Transact.Proofs.Access
import Transact.Proofs.Ending
import Transact.Proofs.PipeCalls

namespace Transact

set_option autoImplicit false

/-! ## Tables of pipes -/

namespace PipeTable

/-- Every pipe stands under its number, and numbers yet to be given out are free. -/
structure Sound (t : PipeTable) : Prop where
  named : ∀ pipe p, t.get? pipe = some p → p.id = pipe
  given : ∀ pipe p, t.get? pipe = some p → pipe < t.next

variable {t : PipeTable} {p p' : Pipe} {pipe : Nat}

theorem sound_empty : ({} : PipeTable).Sound where
  named _ _ found := by cases found
  given _ _ found := by cases found

theorem standing_of_get? (found : t.get? pipe = some p) : t.standing pipe = p := by
  rw [standing, found, Option.getD_some]

theorem get?_set (t : PipeTable) (p : Pipe) (pipe : Nat) :
    (t.set p).get? pipe = if pipe = p.id then some p else t.get? pipe := by
  by_cases here : pipe = p.id
  · rw [if_pos here, here]
    exact Table.get?_set_self ..
  · rw [if_neg here]
    exact Table.get?_set_of_ne _ _ here

theorem standing_set (t : PipeTable) (p : Pipe) (pipe : Nat) :
    (t.set p).standing pipe = if pipe = p.id then p else t.standing pipe := by
  rw [standing, get?_set]
  by_cases here : pipe = p.id
  · rw [if_pos here, if_pos here, Option.getD_some]
  · rw [if_neg here, if_neg here, standing]

/-- A pipe takes the place of its former state. -/
theorem Sound.set (sound : t.Sound) (found : t.get? pipe = some p) (same : p'.id = p.id) :
    (t.set p').Sound := by
  have number : p'.id = pipe := same.trans (sound.named pipe p found)
  constructor
  · intro other q there
    rw [get?_set] at there
    split at there
    · next here =>
      cases there
      exact here.symm
    · exact sound.named other q there
  · intro other q there
    rw [get?_set] at there
    split at there
    · next here =>
      rw [here, number]
      exact sound.given pipe p found
    · exact sound.given other q there

/-- A new pipe is as it was before it was opened. -/
theorem Sound.openPipe (sound : t.Sound) :
    t.openPipe.2.Sound ∧ ∀ pipe, t.openPipe.2.standing pipe = t.standing pipe := by
  have opened (pipe : Nat) : t.openPipe.2.get? pipe =
      if pipe = t.next then some { id := t.next } else t.get? pipe :=
    get?_set t { id := t.next } pipe
  refine ⟨⟨?_, ?_⟩, ?_⟩
  · intro pipe p found
    rw [opened] at found
    split at found
    · next here =>
      cases found
      exact here.symm
    · exact sound.named pipe p found
  · intro pipe p found
    rw [opened] at found
    split at found
    · next here =>
      rw [here]
      exact Nat.lt_succ_self _
    · exact Nat.lt_succ_of_lt (sound.given pipe p found)
  · intro pipe
    rw [standing, opened]
    split
    · next here =>
      have fresh : t.get? pipe = none := by
        cases found : t.get? pipe with
        | none => rfl
        | some p =>
            have below := sound.given pipe p found
            omega
      rw [standing, fresh, here, Option.getD_some, Option.getD_none]
    · rfl

end PipeTable

/-! ## What is written down -/

namespace Pipes

/-- A record of a write or of a read. -/
inductive IsRecord : Record PipeEffect → Prop where
  | write (pipe : Nat) (bytes : Bytes) : IsRecord (.deferred (.pipeWrite pipe) (.write bytes))
  | read (pipe offset : Nat) (bytes : Bytes) :
      IsRecord (.deferred (.pipeRead pipe) (.read offset bytes))

/-- The deed in a record, if it is about this pipe. -/
def deedIn (pipe : Nat) (r : Record PipeEffect) : Option Deed :=
  match r.resource, r.payload with
  | .pipeWrite there, .write bytes => if there = pipe then some (.wrote bytes) else none
  | .pipeRead there, .read _ bytes => if there = pipe then some (.took bytes) else none
  | _, _ => none

def deedsIn (pipe : Nat) (rs : List (Record PipeEffect)) : List Deed := rs.filterMap (deedIn pipe)

/-- Where the reads of a pipe have come after a record, if those before it came to `offset` and it
goes on from there. -/
def goOn (pipe offset : Nat) (r : Record PipeEffect) : Option Nat :=
  match r.resource, r.payload with
  | .pipeRead there, .read start bytes =>
      if there = pipe then if start = offset then some (offset + bytes.length) else none
      else some offset
  | _, _ => some offset

/-- Where the reads of a pipe end, if they follow each other from `start` on. -/
def endOfReads (pipe start : Nat) (rs : List (Record PipeEffect)) : Option Nat :=
  rs.foldlM (goOn pipe) start

theorem endOfReads_snoc (pipe start : Nat) (rs : List (Record PipeEffect))
    (r : Record PipeEffect) :
    endOfReads pipe start (rs ++ [r]) = (endOfReads pipe start rs).bind (goOn pipe · r) := by
  simp only [endOfReads, List.foldlM_append, List.foldlM_cons, List.foldlM_nil, bind_pure]
  rfl

theorem endOfReads_cons (pipe start : Nat) (r : Record PipeEffect)
    (rs : List (Record PipeEffect)) :
    endOfReads pipe start (r :: rs) = (goOn pipe start r).bind (endOfReads pipe · rs) :=
  List.foldlM_cons ..

theorem deedsIn_snoc (pipe : Nat) (rs : List (Record PipeEffect)) (r : Record PipeEffect) :
    deedsIn pipe (rs ++ [r]) = deedsIn pipe rs ++ (deedIn pipe r).toList := by
  rw [deedsIn, List.filterMap_append, deedsIn]
  cases here : deedIn pipe r <;> simp [here]

theorem deedsIn_cons (pipe : Nat) (r : Record PipeEffect) (rs : List (Record PipeEffect)) :
    deedsIn pipe (r :: rs) = (deedIn pipe r).toList ++ deedsIn pipe rs := by
  simp only [deedsIn, List.filterMap_cons]
  cases deedIn pipe r <;> rfl

/-- A record takes the reads on by as many bytes as it reads. -/
theorem goOn_length {pipe start stop : Nat} {r : Record PipeEffect} (plain : IsRecord r)
    (goes : goOn pipe start r = some stop) :
    stop = start + (readsOf (deedIn pipe r).toList).length := by
  cases plain with
  | write there bytes =>
      have same : start = stop := Option.some.inj goes
      by_cases here : there = pipe <;> simp [deedIn, Record.deferred, here, readsOf, same]
  | read there offset bytes =>
      simp only [goOn, Record.deferred] at goes
      by_cases here : there = pipe
      · rw [if_pos here] at goes
        split at goes
        · cases goes
          simp [deedIn, Record.deferred, here, readsOf]
        · cases goes
      · rw [if_neg here] at goes
        cases goes
        simp [deedIn, Record.deferred, here, readsOf]

theorem endOfReads_length {pipe start stop : Nat} {rs : List (Record PipeEffect)}
    (plain : ∀ r ∈ rs, IsRecord r) (goes : endOfReads pipe start rs = some stop) :
    stop = start + (readsOf (deedsIn pipe rs)).length := by
  induction rs generalizing start with
  | nil =>
      cases goes
      rfl
  | cons r rest ih =>
      rw [endOfReads_cons] at goes
      obtain ⟨middle, first, second⟩ := Option.bind_eq_some_iff.1 goes
      have here := goOn_length (plain r List.mem_cons_self) first
      have there := ih (fun r member => plain r (List.mem_cons_of_mem _ member)) second
      rw [deedsIn_cons, readsOf_append, List.length_append]
      omega

/-! ## Transactions at work -/

/-- The pipes of a transaction that did `deeds` to a pipe, which now stands at `p`. -/
structure Engaged (pipe : Nat) (deeds : List Deed) (s : Pipes) (p : Pipe) : Prop where
  plain : ∀ r ∈ s.log.records, IsRecord r
  recorded : deedsIn pipe s.log.records = deeds
  /-- Once there is a cursor the reads go on from where it began, and where nobody consumed since
  they are what comes next. -/
  reads : ∀ cursor, s.cursors.get? pipe = some cursor → cursor.start ≤ p.front ∧
    endOfReads pipe cursor.start s.log.records = some cursor.next ∧
    (p.front = cursor.start → readsOf deeds <+: p.buffer)
  /-- Without a cursor nothing was read. -/
  idle : s.cursors.get? pipe = none → ∀ start, endOfReads pipe start s.log.records = some start

namespace Engaged

variable {pipe : Nat} {deeds : List Deed} {s : Pipes} {p p' : Pipe} {w : World}

theorem fresh (pipe : Nat) (p : Pipe) : Engaged pipe [] {} p where
  plain _ member := absurd member List.not_mem_nil
  recorded := rfl
  reads _ found := by cases found
  idle _ _ := rfl

/-- What others do to the pipe. -/
theorem meanwhile {entered taken : Bytes} (engaged : Engaged pipe deeds s p)
    (flows : p.Flows entered taken p') : Engaged pipe deeds s p' where
  plain := engaged.plain
  recorded := engaged.recorded
  reads cursor found := by
    obtain ⟨behind, goes, shown⟩ := engaged.reads cursor found
    have front := flows.front
    refine ⟨by omega, goes, fun same => ?_⟩
    have still : p'.front = p.front := by omega
    exact (shown (still ▸ same)).trans (flows.stays still)
  idle := engaged.idle

end Engaged

@[simp] theorem log_track (s : Pipes) (pipe : Nat) : (s.track pipe).log = s.log := by
  unfold track
  split <;> rfl

@[simp] theorem cursors_track (s : Pipes) (pipe : Nat) : (s.track pipe).cursors = s.cursors := by
  unfold track
  split <;> rfl

/-! ### Work -/

namespace Engaged

variable {pipe : Nat} {deeds : List Deed} {s : Pipes} {p : Pipe} {w : World}

/-- One more record that does not take the reads of the pipe on. -/
theorem append_quiet (engaged : Engaged pipe deeds s p) {r : Record PipeEffect} (plain : IsRecord r)
    (quiet : ∀ n, goOn pipe n r = some n) {s' : Pipes} (log : s'.log = s.log.append r)
    (cursors : s'.cursors.get? pipe = s.cursors.get? pipe) :
    Engaged pipe (deeds ++ (deedIn pipe r).toList) s' p := by
  have records : s'.log.records = s.log.records ++ [r] := congrArg DeferredLog.records log
  have goes (start : Nat) :
      endOfReads pipe start s'.log.records = endOfReads pipe start s.log.records := by
    simp only [records, endOfReads_snoc, quiet]
    exact Option.bind_fun_some _
  have nothing : readsOf (deedIn pipe r).toList = [] := by
    have length := goOn_length plain (quiet 0)
    exact List.length_eq_zero_iff.1 (by omega)
  refine ⟨?_, ?_, ?_, ?_⟩
  · intro other member
    rw [records] at member
    rcases List.mem_append.1 member with before | last
    · exact engaged.plain other before
    · rw [List.mem_singleton.1 last]
      exact plain
  · rw [records, deedsIn_snoc, engaged.recorded]
  · intro cursor found
    rw [cursors] at found
    rw [goes, readsOf_append, nothing, List.append_nil]
    exact engaged.reads cursor found
  · intro untracked start
    rw [cursors] at untracked
    rw [goes]
    exact engaged.idle untracked start

/-- One more read, of bytes that stand where the last one ended. -/
theorem append_read (engaged : Engaged pipe deeds s p) {cursor : ReadCursor} {content : Bytes}
    (found : s.cursors.get? pipe = some cursor) (reached : p.front ≤ cursor.next)
    (shown : content <+: p.buffer.drop (cursor.next - p.front)) {s' : Pipes}
    (log : s'.log = s.log.append (.deferred (.pipeRead pipe) (.read cursor.next content)))
    (cursors : s'.cursors.get? pipe =
      some { cursor with next := cursor.next + content.length }) :
    Engaged pipe (deeds ++ [.took content]) s' p := by
  have records : s'.log.records =
      s.log.records ++ [.deferred (.pipeRead pipe) (.read cursor.next content)] :=
    congrArg DeferredLog.records log
  obtain ⟨behind, goes, front⟩ := engaged.reads cursor found
  have length := endOfReads_length engaged.plain goes
  rw [engaged.recorded] at length
  refine ⟨?_, ?_, ?_, ?_⟩
  · intro other member
    rw [records] at member
    rcases List.mem_append.1 member with before | last
    · exact engaged.plain other before
    · rw [List.mem_singleton.1 last]
      exact .read pipe cursor.next content
  · rw [records, deedsIn_snoc, engaged.recorded]
    simp [deedIn, Record.deferred]
  · intro other there
    rw [cursors] at there
    cases there
    refine ⟨behind, ?_, fun same => ?_⟩
    · rw [records, endOfReads_snoc, goes]
      simp [goOn, Record.deferred]
    · have first := front same
      have past : cursor.next - p.front = (readsOf deeds).length := by
        have begun : p.front = cursor.start := same
        omega
      obtain ⟨rest, split⟩ := first
      rw [past, ← split, List.drop_left] at shown
      rw [readsOf_append, ← split]
      simpa [readsOf] using shown
  · intro untracked
    rw [cursors] at untracked
    cases untracked

/-- A write through the transaction is written down, or refused. -/
theorem write (engaged : Engaged pipe deeds s (w.pipes.standing pipe)) (sound : w.pipes.Sound)
    (who : TxId) (there : Nat) (bytes : Bytes) :
    let r := Pipes.write there bytes s w
    r.2.2 = w ∧
      Engaged pipe (deeds ++ (deed? who pipe (.call who (.write there bytes), .wrote r.1)).toList)
        r.2.1 (w.pipes.standing pipe) := by
  unfold Pipes.write
  cases found : w.pipes.get? there with
  | none => exact ⟨rfl, by simpa [deed?] using engaged⟩
  | some q =>
      cases writable : q.writerOpen with
      | false => simpa [writable, deed?] using engaged
      | true =>
          have named : q.writeId = .pipeWrite there := by rw [Pipe.writeId, sound.named there q found]
          have same : deed? who pipe (.call who (.write there bytes), .wrote (.ok bytes.length)) =
              deedIn pipe (.deferred (.pipeWrite there) (.write bytes)) := by
            simp only [deed?, deedIn, Record.deferred, true_and]
          simp only [writable, if_true, named, same, true_and]
          exact engaged.append_quiet (.write there bytes) (fun _ => rfl) (by simp) (by simp)

/-- The first read of a pipe sets its cursor to the front. -/
theorem begin (engaged : Engaged pipe deeds s p) {s' : Pipes} {cursor : ReadCursor}
    (start : (s.cursors.get? pipe).getD { start := p.front, next := p.front } = cursor)
    (log : s'.log = s.log) (cursors : s'.cursors.get? pipe = some cursor) :
    Engaged pipe deeds s' p := by
  have reads : cursor.start ≤ p.front ∧
      endOfReads pipe cursor.start s.log.records = some cursor.next ∧
      (p.front = cursor.start → readsOf deeds <+: p.buffer) := by
    cases found : s.cursors.get? pipe with
    | some before =>
        rw [found, Option.getD_some] at start
        rw [← start]
        exact engaged.reads before found
    | none =>
        rw [found, Option.getD_none] at start
        have goes := engaged.idle found p.front
        have nothing : readsOf deeds = [] := by
          have length := endOfReads_length engaged.plain goes
          rw [engaged.recorded] at length
          exact List.length_eq_zero_iff.1 (by omega)
        rw [← start, nothing]
        exact ⟨Nat.le_refl _, goes, fun _ => List.nil_prefix⟩
  refine ⟨by rw [log]; exact engaged.plain, by rw [log]; exact engaged.recorded, ?_, ?_⟩
  · intro other found
    rw [cursors] at found
    cases found
    rw [log]
    exact reads
  · intro untracked
    rw [cursors] at untracked
    cases untracked

/-- Only the log and the cursor matter. -/
theorem congr (engaged : Engaged pipe deeds s p) {s' : Pipes} (log : s'.log = s.log)
    (cursors : s'.cursors.get? pipe = s.cursors.get? pipe) : Engaged pipe deeds s' p where
  plain := by rw [log]; exact engaged.plain
  recorded := by rw [log]; exact engaged.recorded
  reads := by rw [log, cursors]; exact engaged.reads
  idle := by rw [log, cursors]; exact engaged.idle

/-- A read through the transaction takes nothing; what it brings is written down. -/
theorem read (engaged : Engaged pipe deeds s (w.pipes.standing pipe)) (sound : w.pipes.Sound)
    (chunk : Nat → Nat) (who : TxId) (there max : Nat) :
    let r := Pipes.read chunk there max s w
    r.2.2.pipes.Sound ∧
      (w.pipes.standing pipe).Flows [] [] (r.2.2.pipes.standing pipe) ∧
      Engaged pipe (deeds ++ (deed? who pipe (.call who (.read there max), .read r.1)).toList)
        r.2.1 (r.2.2.pipes.standing pipe) := by
  unfold Pipes.read
  cases found : w.pipes.get? there with
  | none => exact ⟨sound, .refl _, by simpa [deed?] using engaged⟩
  | some q =>
      simp only [cursors_track]
      rcases begun : (s.cursors.get? there).getD { start := q.front, next := q.front } with
        ⟨start, next⟩
      rcases looked : q.peekAt chunk next max with ⟨reading, q'⟩
      obtain ⟨flows, shown⟩ := Pipe.peekAt_flows looked
      have number : q'.id = there := flows.id.trans (sound.named there q found)
      have here : w.pipes.standing there = q := PipeTable.standing_of_get? found
      have sound' : (w.pipes.set q').Sound := sound.set found flows.id
      have now : (w.pipes.set q').standing there = q' := by
        rw [PipeTable.standing_set, if_pos number.symm]
      have after : (w.pipes.standing pipe).Flows [] [] ((w.pipes.set q').standing pipe) := by
        rw [PipeTable.standing_set, number]
        split
        · next same =>
          rw [same, here]
          exact flows
        · exact .refl _
      -- the state in which the read looked at the pipe
      let s₁ : Pipes :=
        { s.track there with
          access := s.access.write w.versions q.readId
          cursors := s.cursors.set there ⟨start, next⟩ }
      have log : s₁.log = s.log := log_track s there
      have set (t : Table Nat ReadCursor) (cursor : ReadCursor) (k : Nat) :
          (t.set there cursor).get? k = if k = there then some cursor else t.get? k := by
        by_cases same : k = there
        · rw [if_pos same, same, Table.get?_set_self]
        · rw [if_neg same, Table.get?_set_of_ne _ _ same]
      have looking : Engaged pipe deeds s₁ ((w.pipes.set q').standing pipe) := by
        by_cases same : pipe = there
        · subst same
          rw [here] at engaged
          exact (engaged.begin begun log (by rw [set, if_pos rfl])).meanwhile (here ▸ after)
        · exact (engaged.congr log (by rw [set, if_neg same])).meanwhile after
      cases reading with
      | failed e =>
          refine ⟨sound', after, ?_⟩
          simp only [deed?, Option.toList_none, List.append_nil]
          exact looking.congr rfl rfl
      | waits =>
          refine ⟨sound', after, ?_⟩
          simp only [deed?, Option.toList_none, List.append_nil]
          exact looking.congr rfl rfl
      | bytes content =>
          obtain ⟨reached, showing⟩ := shown content rfl
          by_cases nothing : content = []
          · subst nothing
            refine ⟨sound', after, ?_⟩
            simp only [if_true, deed?, ne_eq, not_true_eq_false, and_false, if_false,
              Option.toList_none, List.append_nil]
            refine looking.congr rfl ?_
            simp only [set, s₁, List.length_nil, Nat.add_zero]
            split <;> rfl
          · refine ⟨by simpa only [nothing, if_false] using sound',
              by simpa only [nothing, if_false] using after, ?_⟩
            have named : q'.readId = .pipeRead there := by rw [Pipe.readId, number]
            simp only [deed?, nothing, ne_eq, not_false_eq_true, and_true, if_false, named]
            by_cases same : there = pipe
            · subst same
              simp only [and_self, if_true, Option.toList_some]
              have front : q'.front = q.front := flows.front
              rw [now] at looking ⊢
              have s₁_cursor : s₁.cursors.get? there = some ⟨start, next⟩ := by rw [set, if_pos rfl]
              refine looking.append_read s₁_cursor (front ▸ reached)
                (front ▸ showing.resolve_left nothing) rfl ?_
              simp only [set, if_true]
            · simp only [same, and_false, if_false]
              have quiet : deedIn pipe (.deferred (.pipeRead there) (.read next content)) = none := by
                simp only [deedIn, Record.deferred, same, if_false]
              rw [← quiet]
              exact looking.append_quiet (.read there next content)
                (fun n => by simp only [goOn, Record.deferred, same, if_false]) rfl
                (by rw [set, if_neg (Ne.symm same)])

end Engaged

/-! ### The apply phase -/

section Apply

variable {pipe : Nat} {s : Pipes} {w : World}

/-- A record that fails moves nothing. -/
theorem applyRecord_error {r : Record PipeEffect} {e : Error} {w' : World}
    (made : applyRecord s r w = (.error e, w')) : w' = w := by
  unfold applyRecord at made
  split at made
  · cases made
    rfl
  · simp only at made
    split at made
    · cases made
    · cases made
      rfl

/-- A record that is performed moves the pipe it is about. -/
theorem applyRecord_ok {r : Record PipeEffect} {w' : World}
    (made : applyRecord s r w = (.ok (), w')) :
    ∃ q q', s.pipeOf r.resource w = .ok q ∧
      (match r.payload with
        | .write bytes => q.writeAll bytes
        | .read offset bytes => q.consumeAt offset bytes.length) = .ok q' ∧
      w' = { w with pipes := w.pipes.set q' } := by
  unfold applyRecord at made
  split at made
  · cases made
  · next q found =>
    simp only at made
    split at made
    · next q' moved =>
      cases made
      exact ⟨q, q', found, moved, rfl⟩
    · cases made

/-- The pipe of a resource is one in the world. -/
theorem pipeOf_ok {id : ResourceId} {q : Pipe} {there : Nat}
    (which : id = .pipeRead there ∨ id = .pipeWrite there) (made : s.pipeOf id w = .ok q) :
    w.pipes.get? there = some q := by
  rcases which with rfl | rfl <;>
  · simp only [pipeOf] at made
    split at made
    · next found =>
      cases made
      exact found
    · cases made

/-- What one performed record does to a pipe whose next bytes are those to be read. -/
theorem applyRecord_flows (sound : w.pipes.Sound) {r : Record PipeEffect} (plain : IsRecord r)
    {next : Nat} (goes : goOn pipe (w.pipes.standing pipe).front r = some next)
    {rest : Bytes} (ready : readsOf (deedIn pipe r).toList ++ rest <+: (w.pipes.standing pipe).buffer)
    {w' : World} (made : applyRecord s r w = (.ok (), w')) :
    w'.pipes.Sound ∧
      (w.pipes.standing pipe).Flows (writesOf (deedIn pipe r).toList)
        (readsOf (deedIn pipe r).toList) (w'.pipes.standing pipe) ∧
      rest <+: (w'.pipes.standing pipe).buffer := by
  cases plain with
  | write there bytes =>
      obtain ⟨q, q', which, written, rfl⟩ := applyRecord_ok made
      have found : w.pipes.get? there = some q := pipeOf_ok (Or.inr rfl) which
      obtain ⟨flows, buffer⟩ := Pipe.writeAll_flows written
      have number : q'.id = there := flows.id.trans (sound.named there q found)
      refine ⟨sound.set found flows.id, ?_⟩
      simp only [PipeTable.standing_set, number]
      by_cases here : pipe = there
      · subst here
        rw [PipeTable.standing_of_get? found] at ready ⊢
        simp only [deedIn, Record.deferred, if_true, Option.toList_some, writesOf, readsOf,
          List.flatMap_singleton, List.nil_append] at ready ⊢
        exact ⟨flows, buffer ▸ ready⟩
      · simp only [deedIn, Record.deferred, Ne.symm here, here, if_false, Option.toList_none,
          writesOf, readsOf, List.flatMap_nil, List.nil_append] at ready ⊢
        exact ⟨.refl _, ready⟩
  | read there offset bytes =>
      obtain ⟨q, q', which, consumed, rfl⟩ := applyRecord_ok made
      have found : w.pipes.get? there = some q := pipeOf_ok (Or.inl rfl) which
      obtain ⟨flows, buffer⟩ := Pipe.consumeAt_flows consumed
      have number : q'.id = there := flows.id.trans (sound.named there q found)
      refine ⟨sound.set found flows.id, ?_⟩
      simp only [PipeTable.standing_set, number]
      by_cases here : pipe = there
      · subst here
        rw [PipeTable.standing_of_get? found] at ready ⊢
        simp only [deedIn, Record.deferred, if_true, Option.toList_some, writesOf, readsOf,
          List.flatMap_singleton] at ready ⊢
        obtain ⟨more, split⟩ := ready
        have taken : q.buffer.take bytes.length = bytes := by
          rw [← split, List.append_assoc, List.take_left]
        have left : q.buffer.drop bytes.length = rest ++ more := by
          rw [← split, List.append_assoc, List.drop_left]
        rw [taken] at flows
        rw [buffer, left]
        exact ⟨flows, List.prefix_append _ _⟩
      · simp only [deedIn, Record.deferred, Ne.symm here, here, if_false, Option.toList_none,
          writesOf, readsOf, List.flatMap_nil, List.nil_append] at ready ⊢
        exact ⟨.refl _, ready⟩

/-- **The apply phase performs the deeds in their order, up to the first that fails.**  What it
consumes is what was read, provided that the reads are what comes next. -/
theorem applyEach_flows {rs : List (Record PipeEffect)} (sound : w.pipes.Sound)
    (plain : ∀ r ∈ rs, IsRecord r) {stop : Nat}
    (goes : endOfReads pipe (w.pipes.standing pipe).front rs = some stop)
    (ready : readsOf (deedsIn pipe rs) <+: (w.pipes.standing pipe).buffer) :
    let r := DeferredLog.applyEach (applyRecord s) rs w
    r.2.pipes.Sound ∧ ∃ done, done <+: deedsIn pipe rs ∧
      (r.1 = .ok () → done = deedsIn pipe rs) ∧
      (w.pipes.standing pipe).Flows (writesOf done) (readsOf done) (r.2.pipes.standing pipe) := by
  induction rs generalizing w with
  | nil => exact ⟨sound, [], List.prefix_refl _, fun _ => rfl, .refl _⟩
  | cons r rest ih =>
      rw [endOfReads_cons] at goes
      obtain ⟨next, first, others⟩ := Option.bind_eq_some_iff.1 goes
      rw [deedsIn_cons, readsOf_append] at ready
      simp only [DeferredLog.applyEach]
      rcases made : applyRecord s r w with ⟨e | _, w'⟩
      · obtain rfl := applyRecord_error made
        exact ⟨sound, [], List.nil_prefix, fun same => (by cases same), .refl _⟩
      · obtain ⟨sound', flows, ready'⟩ :=
          applyRecord_flows sound (plain r List.mem_cons_self) first ready made
        have front : next = (w'.pipes.standing pipe).front := by
          rw [goOn_length (plain r List.mem_cons_self) first, flows.front]
        obtain ⟨sound'', done, before, whole, more⟩ :=
          ih sound' (fun r member => plain r (List.mem_cons_of_mem _ member)) (front ▸ others) ready'
        refine ⟨sound'', (deedIn pipe r).toList ++ done, ?_, ?_, ?_⟩
        · rw [deedsIn_cons]
          exact (List.prefix_append_right_inj _).2 before
        · intro ended
          rw [deedsIn_cons, whole ended]
        · rw [writesOf_append, readsOf_append]
          exact flows.trans more

/-- The cursors stand where the fronts are, so what was read comes next. -/
theorem Engaged.ready {deeds : List Deed} (engaged : Engaged pipe deeds s (w.pipes.standing pipe))
    (unmoved : s.frontsUnmoved w = true) :
    (∃ stop, endOfReads pipe (w.pipes.standing pipe).front s.log.records = some stop) ∧
      readsOf deeds <+: (w.pipes.standing pipe).buffer := by
  cases found : s.cursors.get? pipe with
  | none =>
      have goes := engaged.idle found (w.pipes.standing pipe).front
      have nothing : readsOf deeds = [] := by
        have length := endOfReads_length engaged.plain goes
        rw [engaged.recorded] at length
        exact List.length_eq_zero_iff.1 (by omega)
      rw [nothing]
      exact ⟨⟨_, goes⟩, List.nil_prefix⟩
  | some cursor =>
      have here := List.all_eq_true.1 unmoved (pipe, cursor) (Table.mem_of_get? found)
      have same : (w.pipes.standing pipe).front = cursor.start := by
        cases there : w.pipes.get? pipe with
        | none => simp [there] at here
        | some q =>
            rw [PipeTable.standing_of_get? there]
            simp only [there, Bool.and_eq_true, beq_iff_eq] at here
            exact here.2
      obtain ⟨-, goes, shown⟩ := engaged.reads cursor found
      exact ⟨⟨_, same ▸ goes⟩, shown same⟩

end Apply

end Pipes

/-! ## The end of a transaction -/

/-- A participant under the domain of its facet. -/
def Facet.member {P M : Type} (facet : Facet P M) (s : M) : Member P :=
  { domain := facet.domain, state := facet.wrap s }

namespace Transaction

variable {P M W α : Type}

/-- Work goes to the one participant there is, which is registered at the first piece of it. -/
theorem withModule_alone (facet : Facet P M) (seen : ∀ m, facet.view (facet.wrap m) = some m)
    {t : Transaction P} {s : M} (active : t.phase = .active)
    (alone : t.members = [] ∧ s = facet.fresh ∨ t.members = [facet.member s])
    (f : Context → M → W → Except Error α × M × W) (w : W) :
    ∃ roster, withModule facet f t w =
      ((f t.context s w).1, { t with members := [facet.member (f t.context s w).2.1], roster },
        (f t.context s w).2.2) := by
  have found (s : M) :
      findFacet facet [facet.member s] = some (s, fun s => [facet.member s]) := by
    simp only [findFacet, Facet.member, seen]
  rcases alone with ⟨nobody, rfl⟩ | alone
  · have ensured : t.ensure facet =
        .ok { t with members := [facet.member facet.fresh], roster := [facet.domain] } := by
      have absent : t.module? facet = none := by
        simp only [module?, nobody, findFacet, Option.map_none]
      have free : t.hasDomain facet.domain = false := by
        simp only [hasDomain, nobody, List.any_nil]
      have inserted : t.insert (facet.member facet.fresh) =
          { t with members := [facet.member facet.fresh], roster := [facet.domain] } := by
        simp only [insert, nobody, insertMember]
        rfl
      rw [← inserted, ensure, absent]
      exact if_neg (by rw [free]; decide)
    exact ⟨[facet.domain], by
      simp only [withModule, checkActive_active active, ensured, found, context]⟩
  · have ensured : t.ensure facet = .ok t := by
      simp only [ensure, module?, alone, found, Option.map_some]
    exact ⟨t.roster, by simp only [withModule, checkActive_active active, ensured, alone, found]⟩

/-- `t` is active and works on the pipes `s`, or did not begin to work. -/
structure OnPipes (t : Transaction Builtin) (s : Pipes) : Prop where
  active : t.phase = .active
  unseen : t.visited = []
  members : t.members = [] ∧ s = Builtin.pipesFacet.fresh ∨ t.members = [Builtin.pipesFacet.member s]

variable {t : Transaction Builtin} {s : Pipes}

/-! ### Calls on the pipes alone -/

theorem lockAll_pipes (ctx : Context) (s : Pipes) (w : World) :
    ∃ held locks locked refusal,
      lockAll ctx [Builtin.pipesFacet.member s] w =
        { members := [Builtin.pipesFacet.member { s with held }], locked, refusal
          world := { w with locks } } := by
  rcases taken : s.held.acquireAll s.access.observedIds ctx.tx w.locks with ⟨e | _, held, locks⟩
  · refine ⟨held, locks, 0, some e, ?_⟩
    simp only [lockAll, Facet.member, Builtin.pipesFacet, Participant.lock, Builtin.withState,
      Pipes.lock, taken]
  · refine ⟨held, locks, 1, none, ?_⟩
    simp only [lockAll, Facet.member, Builtin.pipesFacet, Participant.lock, Builtin.withState,
      Pipes.lock, taken]

theorem validateAll_pipes (ctx : Context) (s : Pipes) (w : World) :
    validateAll ctx .final [Builtin.pipesFacet.member s] w = (s.validate w, w) := by
  simp only [validateAll, Facet.member, Builtin.pipesFacet, Participant.validate]
  cases s.validate w <;> rfl

theorem applyAll_pipes (ctx : Context) (s : Pipes) (w : World) :
    let r := DeferredLog.applyEach (Pipes.applyRecord s) s.log.records w
    ∃ fault s' w', applyAll ctx [Builtin.pipesFacet.member s] w =
        (fault, [Builtin.pipesFacet.member s'], w') ∧
      w'.pipes = r.2.pipes ∧ (fault = none → r.1 = .ok ()) := by
  intro r
  simp only [applyAll, Facet.member, Builtin.pipesFacet, Participant.apply, Builtin.withState,
    Pipes.apply, DeferredLog.applyAll]
  rcases made : DeferredLog.applyEach (Pipes.applyRecord s) s.log.records w with ⟨_ | _, w'⟩
  · refine ⟨_, _, _, rfl, by simp only [r, made], fun faultless => by cases faultless⟩
  · refine ⟨_, _, _, rfl, by simp only [r, made], fun _ => by simp only [r, made]⟩

/-- At most one participant, for pipes. -/
def PipesOnly (members : List (Member Builtin)) : Prop :=
  members = [] ∨ ∃ s, members = [Builtin.pipesFacet.member s]

/-- The last stretch moves no pipe. -/
theorem finishAndRelease_pipes (phase : t.phase.canAdvance .finishing)
    (only : PipesOnly t.members) (locked : Nat) (outcome : Outcome) (w : World) :
    ∃ w', t.finishAndRelease locked outcome w =
        (.ok outcome, t.ended [.finishing, .released] outcome, w') ∧ w'.pipes = w.pipes := by
  have last : Phase.canAdvance .finishing .released = true := rfl
  simp only [finishAndRelease, advance, phase, last, if_true, ended, List.append_assoc]
  rcases only with nobody | ⟨s, alone⟩
  · refine ⟨w, ?_, rfl⟩
    simp only [nobody, finishAll, List.take_nil, List.drop_nil, unlockAll]
    rfl
  · rw [alone]
    cases locked with
    | zero => exact ⟨w, rfl, rfl⟩
    | succ n =>
        have finished (ctx : Context) : finishAll ctx [Builtin.pipesFacet.member s] w =
            ([Builtin.pipesFacet.member s], w) := rfl
        refine ⟨{ w with locks := s.held.releaseAll t.id w.locks }, ?_, rfl⟩
        simp only [finished, List.take_succ_cons, List.take_nil, List.drop_succ_cons, List.drop_nil]
        rfl

/-- Nothing that was only recorded has to be reverted. -/
theorem undoAndRelease_pipes (phase : t.phase.canAdvance .undoing) (only : PipesOnly t.members)
    (locked : Nat) (reason : AbortReason) (w : World) :
    ∃ w', t.undoAndRelease locked reason w =
        (.ok (.aborted reason), t.ended [.undoing, .finishing, .released] (.aborted reason), w') ∧
      w'.pipes = w.pipes := by
  have forgets (rs : List (Record PipeEffect)) :
      DeferredLog.undoEach (fun _ w => (.ok (), w)) rs w = (.ok (), w) :=
    DeferredLog.undoEach_idle fun _ _ => rfl
  have undone : ∃ members, undoAll t.context t.members w = (none, members, w) ∧
      PipesOnly members := by
    rcases only with nobody | ⟨s, alone⟩
    · exact ⟨[], by rw [nobody]; rfl, Or.inl rfl⟩
    · refine ⟨[Builtin.pipesFacet.member { s with log := {}, cursors := {} }], ?_, Or.inr ⟨_, rfl⟩⟩
      simp only [alone, undoAll, Facet.member, Builtin.pipesFacet, Participant.undo,
        Builtin.withState, Pipes.undo, DeferredLog.undoAll, forgets]
      rfl
  obtain ⟨members, all, others⟩ := undone
  have context : ({ t with phase := Phase.undoing, visited := t.visited ++ [Phase.undoing] } :
      Transaction Builtin).context = t.context := rfl
  obtain ⟨w', result, pipes⟩ :=
    finishAndRelease_pipes
      (t := { t with phase := .undoing, visited := t.visited ++ [.undoing], members })
      rfl others locked (.aborted reason) w
  refine ⟨w', ?_, pipes⟩
  simp only [undoAndRelease, advance, phase, if_true, context, all]
  refine result.trans ?_
  simp only [ended, List.append_assoc, List.cons_append, List.nil_append]

namespace OnPipes

variable {w : World}

theorem only (on : t.OnPipes s) : PipesOnly t.members :=
  on.members.imp And.left fun alone => ⟨s, alone⟩

/-- Giving up moves no pipe. -/
theorem abandon (on : t.OnPipes s) (reason : AbortReason) (w : World) :
    ∃ w', t.undoAndRelease 0 reason w =
        (.ok (.aborted reason), t.ended [.undoing, .finishing, .released] (.aborted reason), w') ∧
      w'.pipes = w.pipes :=
  undoAndRelease_pipes (by rw [on.active]; rfl) on.only 0 reason w

/-- **A commit either moves no pipe, or finds the fronts unmoved and performs the log.** -/
theorem commit (on : t.OnPipes s) (w : World) :
    ∃ outcome visited w', t.commit w = (.ok outcome, t.ended visited outcome, w') ∧
      (.applying ∉ visited ∧ outcome ≠ .committed ∧ w'.pipes = w.pipes ∨
        .applying ∈ visited ∧ s.frontsUnmoved w = true ∧ ∃ w₁, w₁.pipes = w.pipes ∧
          let r := DeferredLog.applyEach (Pipes.applyRecord s) s.log.records w₁
          w'.pipes = r.2.pipes ∧ (outcome = .committed → r.1 = .ok ())) := by
  have forward : t.phase.canAdvance .locked = true := by rw [on.active]; rfl
  have further : Phase.canAdvance .locked .validating = true := rfl
  have apply : Phase.canAdvance .validating .applying = true := rfl
  simp only [Transaction.commit, checkActive_active on.active]
  rcases on.members with ⟨nobody, rfl⟩ | alone
  · obtain ⟨w', result, pipes⟩ := finishAndRelease_pipes
      (t := { t with
        phase := .applying, visited := t.visited ++ [.locked, .validating, .applying], members := [] })
      rfl (Or.inl rfl) 0 .committed w
    refine ⟨.committed, [.locked, .validating, .applying, .finishing, .released], w', ?_,
      Or.inr ⟨by decide, rfl, w, rfl, pipes, fun _ => rfl⟩⟩
    simp only [nobody, lockAll, validateAndRelease, advance, forward, further, if_true, validateAll,
      applyAndRelease, apply, applyAll, List.append_assoc]
    refine result.trans ?_
    simp only [ended, List.append_assoc, List.cons_append, List.nil_append]
  · obtain ⟨held, locks, locked, refusal, taken⟩ := lockAll_pipes t.context s w
    simp only [alone, taken]
    cases refusal with
    | some e =>
        obtain ⟨w', result, pipes⟩ := undoAndRelease_pipes
          (t := { t with members := [Builtin.pipesFacet.member { s with held }] })
          (by rw [on.active]; rfl) (Or.inr ⟨_, rfl⟩) locked (lockReason e) { w with locks }
        exact ⟨_, _, w', result, Or.inl ⟨by decide, by simp, pipes⟩⟩
    | none =>
        simp only [validateAndRelease, advance, forward, further, if_true, validateAll_pipes]
        cases valid : Pipes.validate { s with held } { w with locks } with
        | false =>
            obtain ⟨w', result, pipes⟩ := undoAndRelease_pipes
              (t := { t with
                phase := .validating, visited := t.visited ++ [Phase.locked] ++ [Phase.validating]
                members := [Builtin.pipesFacet.member { s with held }] })
              rfl (Or.inr ⟨_, rfl⟩) locked .validationFailed { w with locks }
            refine ⟨.aborted .validationFailed,
              [.locked, .validating, .undoing, .finishing, .released], w', result.trans ?_,
              Or.inl ⟨by decide, by decide, pipes⟩⟩
            simp only [ended, List.append_assoc, List.cons_append, List.nil_append]
        | true =>
            obtain ⟨fault, s', w₂, applied, moved, whole⟩ :=
              applyAll_pipes t.context { s with held } { w with locks }
            have closes (outcome : Outcome) := finishAndRelease_pipes
              (t := { t with
                phase := .applying
                visited := t.visited ++ [Phase.locked] ++ [Phase.validating] ++ [Phase.applying]
                members := [Builtin.pipesFacet.member s'] })
              rfl (Or.inr ⟨_, rfl⟩) locked outcome w₂
            have context : ({ t with
                phase := Phase.applying
                visited := t.visited ++ [Phase.locked] ++ [Phase.validating] ++ [Phase.applying]
                members := [Builtin.pipesFacet.member { s with held }] } :
                Transaction Builtin).context = t.context := rfl
            have unmoved : s.frontsUnmoved w = true := (Bool.and_eq_true_iff.1 valid).2
            simp only [applyAndRelease, advance, apply, if_true, context, applied]
            cases fault with
            | none =>
                obtain ⟨w', result, pipes⟩ := closes .committed
                refine ⟨.committed, [.locked, .validating, .applying, .finishing, .released], w',
                  result.trans ?_, Or.inr ⟨by decide, unmoved, { w with locks }, rfl,
                    pipes.trans moved, fun _ => whole rfl⟩⟩
                simp only [ended, List.append_assoc, List.cons_append, List.nil_append]
            | some code =>
                obtain ⟨w', result, pipes⟩ := closes (.aborted (.moduleError code))
                refine ⟨.aborted (.moduleError code),
                  [.locked, .validating, .applying, .finishing, .released], w',
                  result.trans ?_, Or.inr ⟨by decide, unmoved, { w with locks }, rfl,
                    pipes.trans moved, fun committed => by cases committed⟩⟩
                simp only [ended, List.append_assoc, List.cons_append, List.nil_append]

end OnPipes

end Transaction

end Transact
