/-
# Transact.Proofs.Granting -- whose handle a handle is

A handle is a number, and every transaction numbers its own from zero on: the first handle that a
transaction is granted is `fd#0`, whoever the transaction is.  Nothing in a handle says where it comes
from, so another transaction takes it for its own where it has one of that number.

`Assembly.news` reads off a run which handles one transaction was granted and which it closed.
`foreign_refused_iff` says of every handle of one transaction when another refuses all work through it:
where it was granted fewer handles, where it closed its own of that number, or where it is over.
-/
import Transact.Proofs.FilesInPlace

namespace Transact

set_option autoImplicit false

/-! ## Handles one by one -/

/-- Work through a handle. -/
inductive Through (h : FileHandle) : FileWork → Prop where
  | read (len : Nat) : Through h (.read h len)
  | write (bytes : Bytes) : Through h (.write h bytes)
  | seek (pos : SeekFrom) : Through h (.seek h pos)
  | tell : Through h (.tell h)
  | close : Through h (.close h)

/-- What an answer says of the handles of a transaction. -/
inductive HandleNews where
  | granted (h : FileHandle)
  | closed (h : FileHandle)
  deriving DecidableEq

/-- The news in what a job on files was answered. -/
def Filing.news : Filing → Except Error FileValue → Option HandleNews
  | .plain (.openPath _ _), .ok (.handle h) => some (.granted h)
  | .adopt _ _, .ok (.handle h) => some (.granted h)
  | .plain (.close h), .ok _ => some (.closed h)
  | _, _ => none

/-- A refusal is no news. -/
theorem Filing.news_error (job : Filing) (e : Error) : job.news (.error e) = none := by
  cases job with
  | plain job => cases job <;> rfl
  | adopt descriptor path => rfl
  | remove path => rfl

namespace HandleNews

/-- The handles granted, oldest first. -/
def allGranted (news : List HandleNews) : List FileHandle :=
  news.filterMap fun
    | .granted h => some h
    | .closed _ => none

theorem allGranted_append (first second : List HandleNews) :
    allGranted (first ++ second) = allGranted first ++ allGranted second :=
  List.filterMap_append

end HandleNews

namespace Files

/-- `h` has an open file behind it. -/
def Opens (s : Files) (h : FileHandle) : Prop := ∃ f, s.openFile h = .ok f

/-- An open file stands behind a handle that was not closed. -/
theorem opens_iff {s : Files} {h : FileHandle} :
    s.Opens h ↔ ∃ f, s.handles.get? h.number = some f ∧ f.closed = false := by
  constructor
  · rintro ⟨f, opened⟩
    refine ⟨f, handle_of_open opened, ?_⟩
    rw [openFile, handle_of_open opened] at opened
    cases shut : f.closed with
    | false => rfl
    | true => simp [shut] at opened
  · rintro ⟨f, found, unclosed⟩
    exact ⟨f, by simp [openFile, found, unclosed]⟩

theorem openFile_of_unopened {s : Files} {h : FileHandle} (unopened : ¬ s.Opens h) :
    s.openFile h = .error (unknownHandle h) := by
  cases opened : s.openFile h with
  | ok f => exact absurd ⟨f, opened⟩ unopened
  | error e =>
      unfold openFile at opened
      split at opened
      · split at opened <;> cases opened
        rfl
      · cases opened
        rfl

theorem opens_fresh (h : FileHandle) : ¬ ({} : Files).Opens h := by
  rintro ⟨f, opened⟩
  cases handle_of_open opened

/-- A new handle is open, the others are as before. -/
theorem opens_set {s s' : Files} {n : Nat} {f : OpenFile}
    (handles : s'.handles = s.handles.set n f) (unclosed : f.closed = false) (k : FileHandle) :
    s'.Opens k ↔ s.Opens k ∨ k = ⟨n⟩ := by
  rw [opens_iff, opens_iff, handles]
  by_cases new : k.number = n
  · subst new
    rw [Table.get?_set_self]
    exact ⟨fun _ => Or.inr rfl, fun _ => ⟨f, rfl, unclosed⟩⟩
  · rw [Table.get?_set_of_ne _ _ new]
    refine ⟨Or.inl, fun either => either.resolve_right ?_⟩
    rintro rfl
    exact new rfl

/-- Moving offsets opens and closes nothing. -/
theorem opens_modify {s s' : Files} {n : Nat} {change : OpenFile → OpenFile}
    (handles : s'.handles = s.handles.modify n change)
    (kept : ∀ f, (change f).closed = f.closed) (k : FileHandle) : s'.Opens k ↔ s.Opens k := by
  rw [opens_iff, opens_iff, handles, Table.get?_modify]
  by_cases here : k.number = n
  · rw [if_pos here, here]
    constructor
    · rintro ⟨f', found, unclosed⟩
      obtain ⟨f, before, rfl⟩ := Option.map_eq_some_iff.1 found
      exact ⟨f, before, (kept f).symm.trans unclosed⟩
    · rintro ⟨f, found, unclosed⟩
      exact ⟨change f, by rw [found]; rfl, (kept f).trans unclosed⟩
  · rw [if_neg here]

theorem opens_congr {s s' : Files} (handles : s'.handles = s.handles) (k : FileHandle) :
    s'.Opens k ↔ s.Opens k := by
  rw [opens_iff, opens_iff, handles]

/-- Closing a handle closes no other. -/
theorem opens_close {s s' : Files} {h : FileHandle}
    (handles : s'.handles = s.handles.modify h.number fun f => { f with closed := true })
    (k : FileHandle) : s'.Opens k ↔ s.Opens k ∧ k ≠ h := by
  rw [opens_iff, opens_iff, handles, Table.get?_modify]
  by_cases here : k = h
  · subst here
    rw [if_pos rfl]
    constructor
    · rintro ⟨f', found, unclosed⟩
      obtain ⟨f, -, rfl⟩ := Option.map_eq_some_iff.1 found
      cases unclosed
    · rintro ⟨-, different⟩
      exact absurd rfl different
  · rw [if_neg fun same => here (congrArg FileHandle.mk same)]
    exact (and_iff_left here).symm

/-- What became of the handles, as the news have it. -/
inductive Told (s s' : Files) : Option HandleNews → Prop where
  /-- The next number was given out. -/
  | granted (next : s'.nextHandle = s.nextHandle + 1)
      (opens : ∀ k, s'.Opens k ↔ s.Opens k ∨ k = ⟨s.nextHandle⟩) :
      Told s s' (some (.granted ⟨s.nextHandle⟩))
  | closed (h : FileHandle) (opened : s.Opens h) (next : s'.nextHandle = s.nextHandle)
      (opens : ∀ k, s'.Opens k ↔ s.Opens k ∧ k ≠ h) : Told s s' (some (.closed h))
  | nothing (next : s'.nextHandle = s.nextHandle) (opens : ∀ k, s'.Opens k ↔ s.Opens k) :
      Told s s' none

theorem Told.refl (s : Files) : Told s s none := .nothing rfl fun _ => Iff.rfl

/-! ### Jobs one by one -/

variable {s : Files} {w : World}

theorem openPath_told (path : String) (flags : OpenFlags) :
    Told s (s.openPath path flags w).2.1
      ((Filing.plain (.openPath path flags)).news ((s.openPath path flags w).1.map .handle)) := by
  unfold openPath
  simp only
  rcases s.checkNotRemoved (resource w.files path) with e | _
  · exact .refl s
  · rcases openOrCreate w.files path flags with e | ⟨fd, _ | _, files⟩
    · exact .refl s
    · exact .granted rfl (opens_set rfl rfl)
    · exact .granted rfl (opens_set rfl rfl)

theorem adopt_told (descriptor : Nat) (path : String) :
    Told s (s.adopt descriptor path w).2.1
      ((Filing.adopt descriptor path).news ((s.adopt descriptor path w).1.map .handle)) := by
  unfold adopt
  simp only
  rcases s.checkNotRemoved (resource w.files path) with e | _
  · exact .refl s
  · exact .granted rfl (opens_set rfl rfl)

theorem remove_told (path : String) : Told s (s.remove path w).2.1 none := by
  unfold remove
  simp only
  rcases s.checkNotRemoved (resource w.files path) with e | _
  · exact .refl s
  · cases w.files.names path with
    | false => exact .refl s
    | true => exact .nothing rfl (opens_congr rfl)

theorem read_told (h : FileHandle) (len : Nat) : Told s (s.read h len w).2.1 none := by
  unfold read
  rcases s.checkReadable h with e | f
  · exact .refl s
  · simp only
    rcases w.files.readAt f.descriptor f.offset len with ⟨e | window, files⟩
    · exact .nothing rfl (opens_congr rfl)
    · exact .nothing rfl (opens_modify rfl fun _ => rfl)

theorem write_told (h : FileHandle) (bytes : Bytes) : Told s (s.write h bytes w).2.1 none := by
  unfold write
  rcases s.checkWritable h with e | f
  · exact .refl s
  · exact .nothing rfl (opens_modify rfl fun _ => rfl)

theorem seek_told (h : FileHandle) (pos : SeekFrom) : Told s (s.seek h pos w).2.1 none := by
  unfold seek
  rcases s.openFile h with e | f
  · exact .refl s
  · simp only
    rcases s.seekTarget f w.files pos with _ | offset
    · exact .refl s
    · exact .nothing rfl (opens_modify rfl fun _ => rfl)

theorem close_told (h : FileHandle) :
    Told s (s.close h w).2.1
      ((Filing.plain (.close h)).news ((s.close h w).1.map fun _ => .done)) := by
  unfold close
  rcases opened : s.openFile h with e | f
  · exact .refl s
  · exact .closed h ⟨f, opened⟩ rfl (opens_close rfl)

end Files

/-- **The news of a job say what became of the handles.** -/
theorem Filing.perform_told (s : Files) (w : World) (job : Filing) :
    Files.Told s (job.perform s w).2.1 (job.news (job.perform s w).1) := by
  cases job with
  | adopt descriptor path => exact Files.adopt_told descriptor path
  | remove path => exact Files.remove_told path
  | plain job =>
      cases job with
      | openPath path flags => exact Files.openPath_told path flags
      | read h len => exact Files.read_told h len
      | write h bytes => exact Files.write_told h bytes
      | seek h pos => exact Files.seek_told h pos
      | tell h => exact .refl s
      | close h => exact Files.close_told h

/-- Where nothing is open under a handle, all work through it is refused and does nothing. -/
theorem Through.refused {h : FileHandle} {job : FileWork} (through : Through h job) {s : Files}
    (unopened : ¬ s.Opens h) (w : World) :
    job.perform s w = (.error (Files.unknownHandle h), s, w) := by
  have unknown := Files.openFile_of_unopened unopened
  cases through with
  | read len => simp only [FileWork.perform, Files.read, Files.checkReadable, unknown]; rfl
  | write bytes => simp only [FileWork.perform, Files.write, Files.checkWritable, unknown]; rfl
  | seek pos => simp only [FileWork.perform, Files.seek, unknown]; rfl
  | tell => simp only [FileWork.perform, Files.tell, unknown]; rfl
  | close => simp only [FileWork.perform, Files.close, unknown]; rfl

/-! ## Transactions -/

section Transactions

variable {G V M α : Type}

/-- Work through a seat gives the answer of the one in the seat, or is refused. -/
theorem Transaction.withModule_answer {P W : Type} {facet : Facet P M} (lawful : facet.Lawful)
    {t : Transaction P} (single : t.Single facet)
    (f : Context → M → W → Except Error α × M × W) (w : W) :
    (∃ e, withModule facet f t w = (.error e, t, w)) ∨ t.phase = .active ∧
      (withModule facet f t w).1 = (f t.context (t.seat facet) w).1 ∧
      (withModule facet f t w).2.1.seat facet = (f t.context (t.seat facet) w).2.1 ∧
      (withModule facet f t w).2.2 = (f t.context (t.seat facet) w).2.2 := by
  by_cases active : t.phase = .active
  · rcases ensure_seat lawful single with ⟨e, refused⟩ | ⟨members, roster, ensured, seats, -⟩
    · exact Or.inl ⟨e, by simp only [withModule, checkActive_active active, refused]⟩
    · obtain ⟨put, found, own, -⟩ := findFacet_seat lawful seats
      refine Or.inr ⟨active, ?_, ?_, ?_⟩ <;>
        simp only [withModule, checkActive_active active, ensured, found]
      · rfl
      · rw [seat, own]
        rfl
      · rfl
  · exact Or.inl ⟨notActive "use a module" t.phase,
      by simp only [withModule, checkActive, if_neg active]⟩

/-- What a transaction answers to a job on files. -/
def Filing.answer (t : Transaction (Party G)) (w : World × V) (job : Filing) :
    Except Error FileValue :=
  (Transaction.withModule Party.files (onWorld fun s w => job.perform s w) t w).1

/-- The news in what a transaction answers. -/
def PartyCall.news (t : Transaction (Party G)) (w : World × V) :
    PartyCall G → Option HandleNews
  | .work (.files job) => job.news (job.answer t w)
  | _ => none

/-- The handles of a transaction are those in its news. -/
structure Transaction.Booked (t : Transaction (Party G)) (news : List HandleNews) : Prop where
  /-- They were granted in the order of their numbers. -/
  numbered : HandleNews.allGranted news =
    (List.range (HandleNews.allGranted news).length).map FileHandle.mk
  /-- Only what was granted was closed. -/
  closings : ∀ h, .closed h ∈ news → h ∈ HandleNews.allGranted news
  /-- Open is what was granted and not closed. -/
  atWork : t.phase = .released ∨ t.Seated ∧
    (t.seat Party.files).nextHandle = (HandleNews.allGranted news).length ∧
    ∀ h, (t.seat Party.files).Opens h ↔ h ∈ HandleNews.allGranted news ∧ .closed h ∉ news

variable {t : Transaction (Party G)} {news : List HandleNews}

theorem Transaction.Booked.mem_granted (booked : t.Booked news) (h : FileHandle) :
    h ∈ HandleNews.allGranted news ↔ h.number < (HandleNews.allGranted news).length := by
  rw [booked.numbered, List.mem_map]
  constructor
  · rintro ⟨n, within, rfl⟩
    simpa using within
  · intro within
    exact ⟨h.number, by simpa using within, rfl⟩

/-- A number is given out once. -/
theorem Transaction.Booked.granted (booked : t.Booked news) {t' : Transaction (Party G)}
    (seated' : t'.Seated) (count : (t.seat Party.files).nextHandle = (HandleNews.allGranted news).length)
    (used : ∀ h, (t.seat Party.files).Opens h ↔ h ∈ HandleNews.allGranted news ∧ .closed h ∉ news)
    (next : (t'.seat Party.files).nextHandle = (t.seat Party.files).nextHandle + 1)
    (opens : ∀ k, (t'.seat Party.files).Opens k ↔
      (t.seat Party.files).Opens k ∨ k = ⟨(t.seat Party.files).nextHandle⟩) :
    t'.Booked (news ++ [.granted ⟨(t.seat Party.files).nextHandle⟩]) := by
  rw [count] at next opens ⊢
  have more : HandleNews.allGranted (news ++ [.granted ⟨(HandleNews.allGranted news).length⟩]) =
      HandleNews.allGranted news ++ [⟨(HandleNews.allGranted news).length⟩] :=
    HandleNews.allGranted_append ..
  have new : .closed ⟨(HandleNews.allGranted news).length⟩ ∉ news := fun closed =>
    absurd ((booked.mem_granted _).1 (booked.closings _ closed)) (Nat.lt_irrefl _)
  refine ⟨?_, fun h closed => ?_, Or.inr ⟨seated', ?_, fun h => ?_⟩⟩
  · rw [more, List.length_append, List.length_singleton, List.range_succ, List.map_append,
      ← booked.numbered]
    rfl
  · rw [more]
    rcases List.mem_append.1 closed with before | last
    · exact List.mem_append_left _ (booked.closings h before)
    · simp at last
  · rw [more, List.length_append, List.length_singleton, next]
  · rw [opens, used, more, List.mem_append, List.mem_singleton, List.mem_append]
    constructor
    · rintro (⟨before, unclosed⟩ | rfl)
      · exact ⟨Or.inl before, by simp [unclosed]⟩
      · exact ⟨Or.inr rfl, by simp [new]⟩
    · rintro ⟨before | rfl, unclosed⟩
      · exact Or.inl ⟨before, fun closed => unclosed (Or.inl closed)⟩
      · exact Or.inr rfl

/-- The books go on with the news. -/
theorem Transaction.Booked.told (booked : t.Booked news) {t' : Transaction (Party G)}
    (seated : t.Seated) (seated' : t'.Seated) {one : Option HandleNews}
    (told : Files.Told (t.seat Party.files) (t'.seat Party.files) one) :
    t'.Booked (news ++ one.toList) := by
  obtain ⟨-, count, used⟩ := booked.atWork.resolve_left (by rw [seated.active]; simp)
  cases told with
  | granted next opens => exact booked.granted seated' count used next opens
  | closed k opened next opens =>
      have same : HandleNews.allGranted (news ++ [.closed k]) = HandleNews.allGranted news := by
        rw [HandleNews.allGranted_append]
        exact List.append_nil _
      refine ⟨?_, fun h closed => ?_, Or.inr ⟨seated', ?_, fun h => ?_⟩⟩
      · rw [Option.toList, same]
        exact booked.numbered
      · rw [Option.toList, same]
        rcases List.mem_append.1 closed with before | last
        · exact booked.closings h before
        · obtain rfl : h = k := by simpa using last
          exact ((used h).1 opened).1
      · rw [Option.toList, same, next, count]
      · rw [opens, used, Option.toList, same, List.mem_append, List.mem_singleton]
        simp only [HandleNews.closed.injEq, not_or, and_assoc]
  | nothing next opens =>
      rw [Option.toList, List.append_nil]
      exact ⟨booked.numbered, booked.closings,
        Or.inr ⟨seated', next.trans count, fun h => (opens h).trans (used h)⟩⟩

theorem Transaction.Booked.released (booked : t.Booked news) {t' : Transaction (Party G)}
    (released : t'.phase = .released) : t'.Booked news :=
  ⟨booked.numbered, booked.closings, Or.inl released⟩

variable [Participant G V]

/-- Work on files goes on with everybody in the seat. -/
theorem Transaction.seated_files (chunk : Nat → Nat → Nat) (seated : t.Seated) (job : Filing)
    (w : World × V) : ((Work.files job).perform chunk t w).1.Seated := by
  have phase : ((Work.files job).perform chunk t w).1.phase = t.phase :=
    Transaction.withModule_phase ..
  have conduct := (Work.files job).conduct chunk seated w
  generalize ((Work.files job).perform chunk t w).1 = t' at conduct phase
  generalize ((Work.files job).perform chunk t w).2 = w' at conduct
  cases conduct with
  | aside same seated' => exact seated'
  | filed other asked same seated' => exact seated'
  | closing ended =>
      rw [ended.released, seated.active] at phase
      cases phase

/-- **A call writes its news into the books.** -/
theorem PartyCall.perform_booked (chunk : Nat → Nat → Nat) (booked : t.Booked news)
    (call : PartyCall G) (w : World × V) :
    (call.perform chunk t w).1.Booked (news ++ (call.news t w).toList) := by
  rcases booked.atWork with released | ⟨seated, -⟩
  · have silent : call.news t w = none := by
      unfold PartyCall.news
      split
      · next job =>
        rw [Filing.answer, Transaction.withModule_released released]
        exact job.news_error _
      · rfl
    rw [silent, call.perform_released chunk released, Option.toList, List.append_nil]
    exact booked
  -- A call that is no job on files has no news.
  have quiet (silent : call.news t w = none) (aside : ∀ job, call ≠ .work (.files job)) :
      (call.perform chunk t w).1.Booked (news ++ (call.news t w).toList) := by
    have conduct := call.conduct chunk seated w
    rw [silent, Option.toList, List.append_nil]
    generalize (call.perform chunk t w).1 = t' at conduct
    generalize (call.perform chunk t w).2 = w' at conduct
    cases conduct with
    | aside same seated' seat still =>
        have told : Files.Told (t.seat Party.files) (t'.seat Party.files) none := by
          rw [seat]
          exact .refl _
        have next := booked.told seated seated' told
        rwa [Option.toList, List.append_nil] at next
    | filed job asked => exact absurd asked (aside job)
    | closing ended => exact booked.released ended.released
  cases call with
  | register g => exact quiet rfl (by simp)
  | validate => exact quiet rfl (by simp)
  | commit => exact quiet rfl (by simp)
  | abort => exact quiet rfl (by simp)
  | drop => exact quiet rfl (by simp)
  | work job =>
      cases job with
      | readPipe pipe max => exact quiet rfl (by simp)
      | writePipe pipe bytes => exact quiet rfl (by simp)
      | spawn name task => exact quiet rfl (by simp)
      | yieldOnce => exact quiet rfl (by simp)
      | files job =>
          have seated' := Transaction.seated_files chunk seated job w
          have told := job.perform_told (t.seat Party.files) w.1
          rcases Transaction.withModule_answer Party.lawful_files seated.files
            (onWorld fun s w => job.perform s w) w with ⟨e, refused⟩ | ⟨-, answer, seat, -⟩
          · have same : ((Work.files job).perform chunk t w).1 = t :=
              congrArg (fun r => r.2.1) refused
            have silent : (PartyCall.work (.files job)).news t w = none := by
              rw [PartyCall.news, Filing.answer, refused]
              exact job.news_error e
            rw [PartyCall.perform, silent, same, Option.toList, List.append_nil]
            exact booked
          · rw [PartyCall.news, Filing.answer, answer]
            refine booked.told seated seated' ?_
            rw [Work.perform, seat]
            exact told

end Transactions

/-! ## Any number of transactions -/

namespace Assembly

variable {G V : Type} [Participant G V] (chunk : Nat → Nat → Nat)

/-- The news of one transaction in the calls of a schedule, oldest first. -/
def news (who : TxId) : Assembly G V → List (TxId × PartyCall G) → List HandleNews
  | _, [] => []
  | s, entry :: rest =>
      (if entry.1 = who then (entry.2.news (s.transactions who) s.world).toList else []) ++
        news who (s.step chunk entry) rest

/-- The job is refused, and neither the files of the transaction nor the world are any different. -/
def Refuses (s : Assembly G V) (who : TxId) (job : FileWork) : Prop :=
  let s' := s.step chunk (who, .work (.files (.plain job)))
  (∃ e, Filing.answer (s.transactions who) s.world (.plain job) = .error e) ∧
    (s'.transactions who).seat Party.files = (s.transactions who).seat Party.files ∧
    s'.world = s.world

variable {s : Assembly G V} {who : TxId}

theorem booked_step {past : List HandleNews} (booked : (s.transactions who).Booked past)
    (entry : TxId × PartyCall G) :
    ((s.step chunk entry).transactions who).Booked
      (past ++ if entry.1 = who then (entry.2.news (s.transactions who) s.world).toList else []) := by
  by_cases own : entry.1 = who
  · subst own
    rw [if_pos rfl, step_self]
    exact entry.2.perform_booked chunk booked s.world
  · rw [if_neg own, List.append_nil, step_other chunk s (Ne.symm own)]
    exact booked

theorem booked_run {past : List HandleNews} (booked : (s.transactions who).Booked past)
    (schedule : List (TxId × PartyCall G)) :
    ((s.run chunk schedule).transactions who).Booked (past ++ s.news chunk who schedule) := by
  induction schedule generalizing s past with
  | nil =>
      rw [news, List.append_nil]
      exact booked
  | cons entry rest ih =>
      rw [news, ← List.append_assoc]
      exact ih (booked_step chunk booked entry)

omit [Participant G V] in
theorem booked_start (config : TxId → Config) (w : World × V) (who : TxId) :
    ((start config w : Assembly G V).transactions who).Booked [] where
  numbered := rfl
  closings _ closed := absurd closed List.not_mem_nil
  atWork := Or.inr ⟨⟨rfl, rfl, Nat.zero_le _, Nat.zero_le _, Nat.zero_le _, Nat.zero_le _⟩, rfl,
    fun h => ⟨fun opens => absurd opens (Files.opens_fresh h), fun used => absurd used.1
      List.not_mem_nil⟩⟩

/-- A transaction that is over refuses all work. -/
theorem refuses_released (released : (s.transactions who).phase = .released) (job : FileWork) :
    s.Refuses chunk who job := by
  have same : s.step chunk (who, .work (.files (.plain job))) = s := step_released chunk released
  refine ⟨⟨Transaction.notActive "use a module" .released, ?_⟩, ?_, ?_⟩
  · rw [Filing.answer, Transaction.withModule_released released]
  · rw [same]
  · rw [same]

/-- What is not open in a transaction at work is refused. -/
theorem refuses_unopened {h : FileHandle} {job : FileWork} (through : Through h job)
    (seated : (s.transactions who).Seated)
    (unopened : ¬ ((s.transactions who).seat Party.files).Opens h) : s.Refuses chunk who job := by
  have idle : onWorld (fun s w => (Filing.plain job).perform s w) (s.transactions who).context
      ((s.transactions who).seat Party.files) s.world =
        (.error (Files.unknownHandle h), (s.transactions who).seat Party.files, s.world) := by
    rw [onWorld, Filing.perform, through.refused unopened]
  unfold Refuses
  simp only [step_self]
  show _ ∧ _ ∧ ((Work.files (.plain job)).perform chunk (s.transactions who) s.world).2 = _
  rw [PartyCall.perform, Work.perform, Filing.answer]
  rcases Transaction.withModule_answer Party.lawful_files seated.files
    (onWorld fun s w => (Filing.plain job).perform s w) s.world with
    ⟨e, refused⟩ | ⟨-, answer, seat, world⟩
  · rw [refused]
    exact ⟨⟨e, rfl⟩, rfl, rfl⟩
  · rw [answer, seat, world, idle]
    exact ⟨⟨_, rfl⟩, rfl, rfl⟩

omit [Participant G V] in
/-- What is open tells its offset. -/
theorem tells_opened {h : FileHandle} (seated : (s.transactions who).Seated)
    (opened : ((s.transactions who).seat Party.files).Opens h) :
    ∃ value, Filing.answer (s.transactions who) s.world (.plain (.tell h)) = .ok value := by
  obtain ⟨f, found⟩ := opened
  rcases seated.files.cases with ⟨-, fresh⟩ | seats
  · rw [fresh] at found
    exact absurd ⟨f, found⟩ (Files.opens_fresh h)
  · obtain ⟨put, there, -⟩ := Transaction.findFacet_seat Party.lawful_files seats
    have ensured : (s.transactions who).ensure Party.files = .ok (s.transactions who) := by
      rw [Transaction.ensure, Transaction.module?, there]
      rfl
    refine ⟨.number f.offset, ?_⟩
    simp only [Filing.answer, Transaction.withModule, Transaction.checkActive_active seated.active,
      ensured, there, onWorld, Filing.perform, FileWork.perform, Files.tell, found]
    rfl

/-- **A handle works in every transaction that has one of its number.**  After any calls of any number
of transactions, the `n`-th handle that `owner` was granted, counted from zero, is `fd#n`.  Another
transaction refuses all work through it, and nothing comes of that, exactly if it is over, was granted
no more than `n` handles itself, or closed its own `fd#n`; otherwise the handle stands for a file of
its own. -/
theorem foreign_refused_iff (config : TxId → Config) (w : World × V)
    (schedule : List (TxId × PartyCall G)) (owner other : TxId) {n : Nat} {h : FileHandle}
    (granted : (HandleNews.allGranted
      ((start config w).news chunk owner schedule))[n]? = some h) :
    let s : Assembly G V := (start config w).run chunk schedule
    let own := (start config w).news chunk other schedule
    h = ⟨n⟩ ∧ ((∀ job, Through h job → s.Refuses chunk other job) ↔
      (s.transactions other).phase = .released ∨ (HandleNews.allGranted own).length ≤ n ∨
        .closed h ∈ own) := by
  intro s own
  have owned : (s.transactions owner).Booked ((start config w).news chunk owner schedule) :=
    booked_run chunk (booked_start config w owner) schedule
  have booked : (s.transactions other).Booked own :=
    booked_run chunk (booked_start config w other) schedule
  have number : h = ⟨n⟩ := by
    rw [owned.numbered, List.getElem?_map] at granted
    obtain ⟨k, at_, rfl⟩ := Option.map_eq_some_iff.1 granted
    rw [(List.getElem?_eq_some_iff.1 at_).2.symm, List.getElem_range]
  refine ⟨number, fun refused => ?_, fun unusable job through => ?_⟩
  · rcases booked.atWork with released | ⟨seated, -, opens⟩
    · exact Or.inl released
    · refine Or.inr (Classical.byContradiction fun usable => ?_)
      rw [not_or, Nat.not_le] at usable
      have member : h ∈ HandleNews.allGranted own :=
        (booked.mem_granted h).2 (by rw [number]; exact usable.1)
      obtain ⟨value, told⟩ := tells_opened (s := s) seated ((opens h).2 ⟨member, usable.2⟩)
      obtain ⟨⟨e, error⟩, -⟩ := refused (.tell h) .tell
      rw [told] at error
      cases error
  · rcases booked.atWork with released | ⟨seated, -, opens⟩
    · exact refuses_released chunk released job
    · refine refuses_unopened chunk through seated fun opened => ?_
      obtain ⟨member, unclosed⟩ := (opens h).1 opened
      have within := (booked.mem_granted h).1 member
      rw [number] at within
      rcases unusable with released | few | closed
      · rw [seated.active] at released
        cases released
      · exact absurd within (Nat.not_lt.2 few)
      · exact unclosed closed

/-- The first creates `/new`, and the second opens `/old`. -/
def oneEach : List (TxId × PartyCall Yields) :=
  [(⟨1, "first"⟩, .work (.files (.plain (.openPath "/new" { write := true, create := true })))),
    (⟨2, "second"⟩, .work (.files (.plain (.openPath "/old" { read := true, write := true }))))]

/-- The second writes to `/old` through the handle of the first, until it closes its own.  A third that
opened nothing refuses it. -/
theorem foreign_refused_iff_each :
    let s : Assembly Yields World := start (fun _ => {}) (oneOld, {})
    let closing := oneEach ++ [(⟨2, "second"⟩, .work (.files (.plain (.close ⟨0⟩))))]
    let write : FileWork := .write ⟨0⟩ [7]
    (¬ ∀ job, Through ⟨0⟩ job → (s.run (fun _ _ => 1) oneEach).Refuses (fun _ _ => 1) ⟨2, "second"⟩ job) ∧
      (s.run (fun _ _ => 1) closing).Refuses (fun _ _ => 1) ⟨2, "second"⟩ write ∧
      (s.run (fun _ _ => 1) oneEach).Refuses (fun _ _ => 1) ⟨3, "third"⟩ write := by
  intro s closing write
  have refused (schedule : List (TxId × PartyCall Yields)) (other : TxId)
      (granted : (HandleNews.allGranted (s.news (fun _ _ => 1) ⟨1, "first"⟩ schedule))[0]? =
        some ⟨0⟩) :=
    (foreign_refused_iff (fun _ _ => 1) (fun _ => {}) (oneOld, ({} : World)) schedule _ other granted).2
  refine ⟨fun all => ?_, ?_, ?_⟩
  · exact absurd ((refused oneEach ⟨2, "second"⟩ (by decide)).1 all) (by decide)
  · exact (refused closing ⟨2, "second"⟩ (by decide)).2 (by decide) write (.write [7])
  · exact (refused oneEach ⟨3, "third"⟩ (by decide)).2 (by decide) write (.write [7])

end Assembly

end Transact
