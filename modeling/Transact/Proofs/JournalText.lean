/-
# Transact.Proofs.JournalText -- the lines of a journal can be read back

Of the four fields of a line only the resource may hold spaces.  Cutting at the first space takes off a
field that holds none (`cutFirst_append`), cutting at the last space the field behind it
(`cutLast_append`), and neither a domain nor a payload holds one.  A payload is never taken for the
mark of an empty one (`parsePayload_payloadText`).

The participants of a transaction stand in the order of their domains, each under its own, and work
writes down at the end of what they hold (`Work.perform_notes`).

Main statement: `journal_lines_parse`.
-/
import Transact.Proofs.Alone
import Transact.Proofs.Encoding
import Transact.Proofs.Reaching

namespace Transact

set_option autoImplicit false

/-! ## Fields without spaces -/

namespace JournalLine

open Text

theorem cutFirst_append {a b : List Char} (whole : ' ' ∉ a) :
    cutFirst (a ++ ' ' :: b) = some (a, b) := by
  induction a with
  | nil => rfl
  | cons c rest ih =>
      obtain ⟨here, later⟩ := not_or.1 (List.mem_cons.not.1 whole)
      rw [List.cons_append, cutFirst, if_neg (Ne.symm here), ih later]
      rfl

theorem cutLast_none {b : List Char} (whole : ' ' ∉ b) : cutLast b = none := by
  induction b with
  | nil => rfl
  | cons c rest ih =>
      obtain ⟨here, later⟩ := not_or.1 (List.mem_cons.not.1 whole)
      simp only [cutLast, ih later, if_neg (Ne.symm here)]

theorem cutLast_append (a : List Char) {b : List Char} (whole : ' ' ∉ b) :
    cutLast (a ++ ' ' :: b) = some (a, b) := by
  induction a with
  | nil => simp only [List.nil_append, cutLast, cutLast_none whole, if_true]
  | cons c rest ih => simp only [List.cons_append, cutLast, ih]

theorem toList_toString_digits (n : Nat) : ∀ c ∈ (toString n).toList, c.isDigit = true := by
  intro c member
  rw [Nat.toString_eq_repr, Nat.toList_repr] at member
  exact Nat.isDigit_of_mem_toDigits (by decide) (by decide) member

/-- A domain is a word. -/
theorem domain_word (domain : Domain) : domain.render ≠ "" ∧ ' ' ∉ domain.render.toList := by
  cases domain with
  | custom number =>
      constructor
      · intro empty
        have start := congrArg String.toList empty
        simp [Domain.render] at start
      · intro member
        simp only [Domain.render, String.toList_append, List.mem_append] at member
        rcases member with prefix_ | digits
        · revert prefix_
          decide
        · exact absurd (toList_toString_digits number ' ' digits) (by decide)
  | _ => decide

theorem digit_ne_space {n : Nat} (small : n < 64) : Base64.digit n ≠ ' ' := by
  have all : ∀ n : Fin 64, Base64.digit n ≠ ' ' := by decide
  exact all ⟨n, small⟩

theorem encode_word (bytes : Bytes) : ' ' ∉ (Base64.encode bytes).toList := by
  have digits (n : Nat) : ' ' ∉ Base64.digits n := by
    have different (k : Nat) : ' ' ≠ Base64.digit (k % 64) :=
      (digit_ne_space (Nat.mod_lt k (by decide))).symm
    simp [Base64.digits, different]
  rw [Base64.encode, String.toList_ofList]
  induction bytes using Base64.encodeChars.induct with
  | case1 => exact List.not_mem_nil
  | case2 a =>
      rw [Base64.encodeChars, List.mem_append, not_or]
      exact ⟨fun member => digits _ (List.mem_of_mem_take member), by decide⟩
  | case3 a b =>
      rw [Base64.encodeChars, List.mem_append, not_or]
      exact ⟨fun member => digits _ (List.mem_of_mem_take member), by decide⟩
  | case4 a b c rest ih =>
      rw [Base64.encodeChars, List.mem_append, not_or]
      exact ⟨digits _, ih⟩

/-- No payload is written as the mark of an empty one. -/
theorem encode_ne_emptyPayload (bytes : Bytes) : Base64.encode bytes ≠ emptyPayload := by
  intro same
  have accepted := Base64.decode_encode bytes
  rw [same] at accepted
  cases accepted

theorem payloadText_word (payload : Bytes) : ' ' ∉ (payloadText payload).toList := by
  unfold payloadText
  split
  · decide
  · exact encode_word payload

theorem parsePayload_payloadText (payload : Bytes) :
    parsePayload (payloadText payload) = .ok payload := by
  unfold payloadText
  split
  · next empty => rw [parsePayload, if_pos rfl, empty]
  · rw [parsePayload, if_neg (encode_ne_emptyPayload payload), Base64.decode_encode]

/-! ## Lines -/

/-- The first two fields of a line are words. -/
structure Worded (line : JournalLine) : Prop where
  named : line.module ≠ ""
  module : ' ' ∉ line.module.toList
  acts : line.op ≠ ""
  op : ' ' ∉ line.op.toList

theorem fields?_render {line : JournalLine} (worded : line.Worded) :
    fields? line.render = some (line.module, line.op, line.resource, payloadText line.payload) := by
  have shape : line.render.toList = line.module.toList ++ ' ' :: (line.op.toList ++ ' ' ::
      (line.resource.toList ++ ' ' :: (payloadText line.payload).toList)) := by
    simp [render]
  simp [fields?, shape, cutFirst_append worded.module, cutFirst_append worded.op,
    cutLast_append _ (payloadText_word line.payload), worded.named, worded.acts]

/-- **A line is read back as it was**, whatever its resource and its payload are. -/
theorem parse_render {line : JournalLine} (worded : line.Worded) : parse line.render = .ok line := by
  simp only [parse, fields?_render worded, parsePayload_payloadText]

theorem worded_of (domain : Domain) {op : String} (acts : op ≠ "") (word : ' ' ∉ op.toList)
    (id : ResourceId) (payload : Bytes) : (JournalLine.of domain op id payload).Worded :=
  ⟨(domain_word domain).1, (domain_word domain).2, acts, word⟩

end JournalLine

/-! ## What participants write down -/

/-- What is written down about one effect: the operation, the resource, and the bytes it carries. -/
structure Note where
  op : String
  resource : ResourceId
  payload : Bytes
  deriving DecidableEq

/-- What is written down about an effect on a file. -/
def Record.fileNote (r : Record FileEffect) : Note :=
  match r.payload with
  | .create => ⟨"create", r.resource, []⟩
  | .adopt _ => ⟨"adopt", r.resource, []⟩
  | .write _ _ bytes => ⟨"write", r.resource, bytes⟩
  | .remove => ⟨"remove", r.resource, []⟩

/-- What is written down about an effect on a pipe. -/
def Record.pipeNote (r : Record PipeEffect) : Note :=
  match r.payload with
  | .write bytes => ⟨"write", r.resource, bytes⟩
  | .read _ bytes => ⟨"read", r.resource, bytes⟩

/-- What is written down about a request for a thread: its name, if it was given one. -/
def Record.threadNote (r : Record SpawnRequest) : Note :=
  ⟨"spawn", r.resource, Text.Base64.utf8 (r.payload.name.getD "")⟩

/-- What a participant wrote down and has yet to perform or revert, oldest first. -/
def Builtin.notes : Builtin → List Note
  | .files s => s.log.records.map Record.fileNote
  | .pipes s => s.log.records.map Record.pipeNote
  | .threads s => s.log.records.map Record.threadNote
  | .yields s => List.replicate s.count ⟨"yield", .named "scheduler", []⟩

def Party.notes {G : Type} : Party G → List Note
  | .builtin b => b.notes
  | .guest _ => []

/-- The notes of those who stand under `domain`. -/
def Transaction.notesOf {G : Type} (domain : Domain) (t : Transaction (Party G)) : List Note :=
  (t.members.filter fun m => m.domain = domain).flatMap fun m => m.state.notes

/-- The operation of a note is a word. -/
theorem Builtin.notes_word {b : Builtin} {n : Note} (member : n ∈ b.notes) :
    n.op ≠ "" ∧ ' ' ∉ n.op.toList := by
  have named : n.op ∈ ["create", "adopt", "write", "remove", "read", "spawn", "yield"] := by
    cases b with
    | files s =>
        obtain ⟨r, -, rfl⟩ := List.mem_map.1 member
        cases effect : r.payload <;> simp [Record.fileNote, effect]
    | pipes s =>
        obtain ⟨r, -, rfl⟩ := List.mem_map.1 member
        cases effect : r.payload <;> simp [Record.pipeNote, effect]
    | threads s =>
        obtain ⟨r, -, rfl⟩ := List.mem_map.1 member
        simp [Record.threadNote]
    | yields s =>
        rw [List.eq_of_mem_replicate member]
        simp
  have words : ∀ op ∈ ["create", "adopt", "write", "remove", "read", "spawn", "yield"],
      op ≠ "" ∧ ' ' ∉ op.toList := by decide
  exact words _ named

/-- A log is described note by note. -/
theorem DeferredLog.journal_notes {P : Type} (log : DeferredLog P) (domain : Domain)
    (describe : P → String × Bytes) (note : Record P → Note)
    (same : ∀ r, note r = ⟨(describe r.payload).1, r.resource, (describe r.payload).2⟩) :
    log.journal domain describe =
      (log.records.map note).map fun n =>
        (JournalLine.of domain n.op n.resource n.payload).render := by
  simp only [journal, List.map_map]
  refine List.map_congr_left fun r _ => ?_
  simp only [Function.comp, same]

/-- A journal holds one line for each note, in their order. -/
theorem Builtin.journal_notes (b : Builtin) (w : World) :
    Participant.journal b w = b.notes.map fun n =>
      (JournalLine.of (Participant.domain b) n.op n.resource n.payload).render := by
  cases b with
  | files s =>
      refine s.log.journal_notes .file Files.describe Record.fileNote fun r => ?_
      cases effect : r.payload <;> simp only [Record.fileNote, Files.describe, effect]
  | pipes s =>
      refine s.log.journal_notes .pipe Pipes.describe Record.pipeNote fun r => ?_
      cases effect : r.payload <;> simp only [Record.pipeNote, Pipes.describe, effect]
  | threads s => exact s.log.journal_notes .thread Threads.describe Record.threadNote fun _ => rfl
  | yields s => simp only [notes, List.map_replicate]; rfl

section Journal

variable {G V : Type} [Participant G V] [IsEmpty G] {t : Transaction (Party G)}

/-- **Every line of a journal is read back as its note**, under the domain of its participant. -/
theorem Transaction.journal_parse (ready : t.Ready) (w : World × V) :
    (t.journal w).map JournalLine.parse = t.members.flatMap fun m =>
      m.state.notes.map fun n =>
        .ok { module := m.domain.render, op := n.op, resource := n.resource.render
              payload := n.payload } := by
  have each (m : Member (Party G)) (member : m ∈ t.members) :
      (Participant.journal m.state w).map JournalLine.parse =
        m.state.notes.map fun n =>
          .ok { module := m.domain.render, op := n.op, resource := n.resource.render
                payload := n.payload } := by
    have placed := (ready.members m member).1.place
    rcases state : m.state with b | g
    · rw [placed b state]
      show (Participant.journal b w.1).map JournalLine.parse = _
      rw [b.journal_notes, List.map_map]
      refine List.map_congr_left fun n there => ?_
      obtain ⟨acts, word⟩ := Builtin.notes_word there
      exact JournalLine.parse_render (JournalLine.worded_of _ acts word _ _)
    · exact isEmptyElim g
  rw [journal, journalAll, List.map_flatMap]
  exact List.flatMap_congr each

end Journal

/-! ## Work writes down at the end -/

theorem DeferredLog.prefix_append {P : Type} (log : DeferredLog P) (r : Record P) :
    log.records <+: (log.append r).records :=
  List.prefix_append _ _

theorem Filing.perform_log (s : Files) (w : World) (job : Filing) :
    s.log.records <+: (job.perform s w).2.1.log.records := by
  cases job with
  | adopt descriptor path =>
      simp only [perform, Files.adopt]
      rcases s.checkNotRemoved (Files.resource w.files path) with e | _
      · exact List.prefix_rfl
      · exact DeferredLog.prefix_append _ _
  | remove path =>
      simp only [perform, Files.remove]
      rcases s.checkNotRemoved (Files.resource w.files path) with e | _
      · exact List.prefix_rfl
      · cases w.files.names path with
        | false => exact List.prefix_rfl
        | true => exact DeferredLog.prefix_append _ _
  | plain job =>
      have filed {w' : World} {s' : Files} (filed : Files.Filed w s w' s') :
          s.log.records <+: s'.log.records := by
        cases filed with
        | found at_ => exact List.prefix_rfl
        | created at_ => exact DeferredLog.prefix_append _ _
        | adopted fd id => exact DeferredLog.prefix_append _ _
        | quiet moved touched =>
            obtain ⟨new, appended, -⟩ := touched.records
            exact ⟨new, appended.symm⟩
      cases job with
      | openPath path flags =>
          simp only [perform, FileWork.perform]
          rcases s.openPath_cases w path flags with same | ⟨fd, created, files, -, done⟩
          · simp only [same]
            exact List.prefix_rfl
          · rw [done]
            cases created with
            | true => exact DeferredLog.prefix_append _ _
            | false => exact List.prefix_rfl
      | read h len => exact filed (Files.read_filed h len)
      | write h bytes => exact filed (Files.write_filed h bytes)
      | seek h pos => exact filed (Files.seek_filed h pos)
      | tell h => exact List.prefix_rfl
      | close h => exact filed (Files.close_filed h)

theorem Pipes.write_log (s : Pipes) (w : World) (pipe : Nat) (bytes : Bytes) :
    s.log.records <+: (s.write pipe bytes w).2.1.log.records := by
  obtain ⟨tracked, same⟩ := s.track_eq pipe
  unfold Pipes.write
  cases w.pipes.get? pipe with
  | none => exact List.prefix_rfl
  | some p =>
      simp only [same]
      split
      · exact DeferredLog.prefix_append _ _
      · exact List.prefix_rfl

theorem Pipes.read_log (s : Pipes) (w : World) (chunk : Nat → Nat) (pipe max : Nat) :
    s.log.records <+: (s.read chunk pipe max w).2.1.log.records := by
  obtain ⟨tracked, same⟩ := s.track_eq pipe
  unfold Pipes.read
  cases w.pipes.get? pipe with
  | none => exact List.prefix_rfl
  | some p =>
      simp only [same]
      split
      · exact List.prefix_rfl
      · exact List.prefix_rfl
      · split
        · exact List.prefix_rfl
        · exact DeferredLog.prefix_append _ _

namespace Transaction

variable {G V M α : Type} {t : Transaction (Party G)}

/-- One more participant that wrote nothing down changes no notes. -/
theorem notesOf_insert (domain : Domain) {m : Member (Party G)} (blank : m.state.notes = [])
    (t : Transaction (Party G)) : (t.insert m).notesOf domain = t.notesOf domain := by
  rcases insertMember_cases m t.members with ⟨same, -⟩ | ⟨before, after, split, inserted⟩
  · simp only [notesOf, insert, same]
  · simp only [notesOf, insert, inserted]
    simp only [split, List.filter_append, List.flatMap_append, List.filter_cons]
    split
    · rw [List.flatMap_cons, blank, List.nil_append]
    · rfl

/-- Whose domain it is wrote down all notes of the domain. -/
theorem notesOf_member {before after : List (Member (Party G))} {m : Member (Party G)}
    (members : t.members = before ++ m :: after) (ascending : Ascending (domainsOf t.members)) :
    t.notesOf m.domain = m.state.notes := by
  rw [members, domainsOf, List.map_append, List.map_cons] at ascending
  obtain ⟨-, rest, cross⟩ := List.pairwise_append.1 ascending
  have first : before.filter (fun other => other.domain = m.domain) = [] := by
    refine List.filter_eq_nil_iff.2 fun other there => ?_
    simpa using (cross _ (List.mem_map_of_mem there) _ List.mem_cons_self).ne
  have later : after.filter (fun other => other.domain = m.domain) = [] := by
    refine List.filter_eq_nil_iff.2 fun other there => ?_
    simpa using ((List.pairwise_cons.1 rest).1 _ (List.mem_map_of_mem there)).ne.symm
  rw [notesOf, members, List.filter_append, List.filter_cons, first, later]
  simp

/-- Work of a participant that writes down at the end leaves everything that was written down. -/
theorem withModule_notes {of_ : Facet Builtin M}
    (lawful : (Party.facet of_ : Facet (Party G) M).Lawful)
    (ascending : Ascending (domainsOf t.members)) (blank : (of_.wrap of_.fresh).notes = [])
    {f : M → World → Except Error α × M × World} {w : World × V}
    (appends : ∀ s, (of_.wrap s).notes <+: (of_.wrap (f s w.1).2.1).notes) (domain : Domain) :
    t.notesOf domain <+: (withModule (Party.facet of_) (onWorld f) t w).2.1.notesOf domain := by
  have grown {t' : Transaction (Party G)} (ensured : Ensured (Party.facet of_) t t') :
      t'.notesOf domain = t.notesOf domain ∧ Ascending (domainsOf t'.members) := by
    cases ensured with
    | same => exact ⟨rfl, ascending⟩
    | fresh =>
        exact ⟨notesOf_insert domain (m := ⟨_, .builtin (of_.wrap of_.fresh)⟩) blank t,
          insertMember_ascending ascending⟩
  generalize (withModule (Party.facet of_) (onWorld f) t w).2 = r,
    withModule_worked (Party.facet of_) (onWorld f) t w = worked
  cases worked with
  | idle ensured _ => exact (grown ensured).1 ▸ List.prefix_rfl
  | @done t' before after m s ensured members seen _ =>
      obtain ⟨same, ascending'⟩ := grown ensured
      have here : m.state = .builtin (of_.wrap s) := lawful.wrap_of_view _ _ seen
      rw [← same]
      by_cases own : m.domain = domain
      · subst own
        have domains : domainsOf (before ++
            { m with state := .builtin (of_.wrap (f s w.1).2.1) } :: after) = domainsOf t'.members := by
          rw [members]
          simp only [domainsOf, List.map_append, List.map_cons]
        have now := notesOf_member
          (t := { t' with
            members := before ++ { m with state := .builtin (of_.wrap (f s w.1).2.1) } :: after })
          rfl (domains ▸ ascending')
        rw [notesOf_member members ascending', here]
        exact now ▸ appends s
      · simp only [notesOf, members, List.filter_append, List.filter_cons, own, decide_false,
          Bool.false_eq_true, if_false]
        exact List.prefix_rfl

end Transaction

/-- **Work writes down at the end**: under every domain stands what stood there, and perhaps more. -/
theorem Work.perform_notes {G V : Type} (chunk : Nat → Nat → Nat) {t : Transaction (Party G)}
    (ascending : Ascending (domainsOf t.members)) (w : World × V) (work : Work) (domain : Domain) :
    t.notesOf domain <+: (work.perform chunk t w).1.notesOf domain := by
  cases work with
  | files job =>
      exact Transaction.withModule_notes Party.lawful_files ascending rfl
        (f := fun s w => job.perform s w) (fun s => (job.perform_log s w.1).map _) domain
  | readPipe pipe max =>
      exact Transaction.withModule_notes Party.lawful_pipes ascending rfl
        (fun s => (s.read_log w.1 (chunk pipe) pipe max).map _) domain
  | writePipe pipe bytes =>
      exact Transaction.withModule_notes Party.lawful_pipes ascending rfl
        (fun s => (s.write_log w.1 pipe bytes).map _) domain
  | spawn name task =>
      exact Transaction.withModule_notes Party.lawful_threads ascending rfl
        (f := fun s w => let r := s.spawn name task w; (.ok r.1, r.2))
        (fun s => (DeferredLog.prefix_append s.log _).map _) domain
  | yieldOnce =>
      exact Transaction.withModule_notes Party.lawful_yields ascending rfl
        (f := fun s w => (.ok (), s.yieldOnce, w))
        (fun s => ⟨[_], List.replicate_succ'.symm⟩) domain

/-! ## Every reachable state -/

/-- **Lines of a journal are read back.**  A line is read back with the name of its domain, its operation,
the text of its resource and its payload, whatever these are, if the operation is a word.  So whatever
state a transaction over built-in participants reached, its journal is read back as the notes of its
participants, one line for each note: in the order of their domains, and for each participant in the
order in which work wrote them down. -/
theorem journal_lines_parse {G V : Type} [Participant G V] [IsEmpty G] (chunk : Nat → Nat → Nat) :
    (∀ domain op id payload, op ≠ "" → ' ' ∉ op.toList →
      JournalLine.parse (JournalLine.of domain op id payload).render =
        .ok { module := domain.render, op, resource := id.render, payload }) ∧
    ∀ (t : Transaction (Party G)) (w : World × V), Reached chunk t w →
      Ascending (domainsOf t.members) ∧
        ((t.journal w).map JournalLine.parse = t.members.flatMap fun m =>
          m.state.notes.map fun n =>
            .ok { module := m.domain.render, op := n.op, resource := n.resource.render
                  payload := n.payload }) ∧
        ∀ (job : Work) (domain : Domain),
          t.notesOf domain <+: (job.perform chunk t w).1.notesOf domain := by
  refine ⟨fun domain op id payload acts word =>
    JournalLine.parse_render (JournalLine.worded_of domain acts word id payload), ?_⟩
  intro t w reached
  have ready := reached.ready
  exact ⟨ready.ascending, Transaction.journal_parse ready w, fun job domain =>
    job.perform_notes chunk ready.ascending w domain⟩

/-- A resource may hold spaces, breaks and what looks like a payload.  The thread stands before the
yield that was written down first. -/
theorem journal_lines_parse_spaces :
    let first := Work.yieldOnce.perform (fun _ _ => 1)
      ({ id := ⟨1, "first"⟩, config := {} } : Transaction (Party Empty)) (({}, ()) : World × Unit)
    let second := (Work.spawn (some "a b") {}).perform (fun _ _ => 1) first.1 first.2
    JournalLine.parse (JournalLine.of .file "write" (.path " YQ== -\n") [97]).render =
        .ok { module := "file", op := "write", resource := "path: YQ== -\n", payload := [97] } ∧
      (second.1.journal second.2).map JournalLine.parse =
        [.ok { module := "thread", op := "spawn", resource := "named:thread-spawn-0"
               payload := [97, 32, 98] },
          .ok { module := "sched", op := "yield", resource := "named:scheduler"
                payload := [] }] := by
  intro first second
  obtain ⟨back, reads⟩ := journal_lines_parse (G := Empty) (V := Unit) (fun _ _ => 1)
  have begun : Reached (fun _ _ => 1)
      ({ id := ⟨1, "first"⟩, config := {} } : Transaction (Party Empty)) (({}, ()) : World × Unit) :=
    .begun _ _ _ _ fun k held => by cases held
  have reached : Reached (fun _ _ => 1) second.1 second.2 :=
    (begun.called (.work .yieldOnce)).called (.work (.spawn (some "a b") {}))
  refine ⟨back .file "write" (.path " YQ== -\n") [97] (by decide) (by decide), ?_⟩
  have notes : second.1.members.map (fun m => (m.domain, m.state.notes)) =
      [(.thread, [⟨"spawn", .named "thread-spawn-0", [97, 32, 98]⟩]),
        (.scheduler, [⟨"yield", .named "scheduler", []⟩])] := by decide
  rw [(reads second.1 second.2 reached).2.1]
  have apart := List.flatMap_map (l := second.1.members) (fun m => (m.domain, m.state.notes))
    fun under : Domain × List Note => under.2.map fun n =>
      (.ok ⟨under.1.render, n.op, n.resource.render, n.payload⟩ : Except Error JournalLine)
  rw [notes] at apart
  exact apart.symm

end Transact
