/-
# Transact.Proofs.Offsets -- offsets and the sums made of them

Offsets have 64 bits, and what is added to one is not checked: where a write that is put off ends, where a
window that is read ends, where a handle is to go.  `Filing.sums` lists what a job adds up.

Whatever was done in any number of transactions, no sum is too large but one: that of a write that is let
begin at an offset from which it reaches too far (`Filing.overruns`), as a seek can go to any offset
there is.  `Files.Fits` is the invariant that holds until there is such a write.  A seek is refused exactly
where its target is no offset (`Files.seek_eq`).
-/
import Transact.Proofs.Limits

namespace Transact

set_option autoImplicit false

/-! ## Windows -/

/-- A window that writes are laid over ends where it ended, or within what they reach. -/
theorem Bytes.foldl_overlay_within {offset len limit : Nat} {writes : List (Nat × Bytes)}
    (reach : ∀ write ∈ writes, write.1 + write.2.length ≤ limit) {window : Bytes}
    (within : offset + window.length ≤ limit) :
    offset + (writes.foldl (overlay offset len) window).length ≤ limit := by
  induction writes generalizing window with
  | nil => exact within
  | cons write rest ih =>
      obtain ⟨first, others⟩ := List.forall_mem_cons.1 reach
      refine ih others ?_
      unfold overlay
      simp only
      split
      · exact within
      · next reaches =>
        have part := length_slice write.2 (max write.1 offset - write.1)
          (min (write.1 + write.2.length) (offset + len) - max write.1 offset)
        rw [length_splice _ _ (List.ne_nil_of_length_pos (by omega)), part]
        omega

/-! ## What is added up -/

namespace Files

/-- No buffer is longer; to ask for one ends a read before anything is added up. -/
def maxBuffer : Nat := Nat.pow 2 63 - 1

/-- Where the writes end that are put off under `id`. -/
def ends (s : Files) (id : ResourceId) : List Nat :=
  (s.pendingOn id).map fun write => write.1 + write.2.length

end Files

namespace Filing

/-- The sums a job makes of offsets and lengths.  The logical end of a file takes the ends of all that is
put off for it, and so does a read, which also adds up where its window ends and where that leaves the
handle; a write adds up where it leaves the handle. -/
def sums (s : Files) (w : World) : Filing → List Nat
  | .plain (.read h len) =>
      match s.checkReadable h, (s.read h len w).1 with
      | .ok f, .ok bytes =>
          if len ≤ Files.maxBuffer then [f.offset + len] ++ s.ends f.id ++ [f.offset + bytes.length] else []
      | _, _ => []
  | .plain (.write h bytes) =>
      match s.checkWritable h with
      | .ok f =>
          (if f.flags.append then s.ends f.id else []) ++ [s.writesAt f w.files + bytes.length]
      | .error _ => []
  | .plain (.seek h (.fromEnd _)) =>
      match s.openFile h with
      | .ok f => s.ends f.id
      | .error _ => []
  | _ => []

/-- Whether a write is let through that ends where no offset is. -/
def overruns (s : Files) (w : World) : Filing → Bool
  | .plain (.write h bytes) =>
      match s.checkWritable h with
      | .ok f => Files.maxOffset < s.writesAt f w.files + bytes.length
      | .error _ => false
  | _ => false

/-- What is sought from the start is an offset. -/
def InRange : Filing → Prop
  | .plain (.seek _ (.start n)) => n ≤ Files.maxOffset
  | _ => True

end Filing

/-- Where a seek is to lead. -/
def SeekFrom.target (s : Files) (f : OpenFile) (fs : Filesystem) : SeekFrom → Int
  | .start n => n
  | .current delta => f.offset + delta
  | .fromEnd delta => s.logicalLength f fs + delta

/-! ## Offsets that fit -/

namespace Files

variable {s : Files} {w : World} {f : OpenFile} {h : FileHandle} {id : ResourceId}

/-- Every handle is at an offset, and every write that is put off ends at one. -/
structure Fits (s : Files) : Prop where
  offsets : s.offsetsFit = true
  writes : ∀ r ∈ s.log.records, ∀ h offset bytes, r.payload = .write h offset bytes →
    offset + bytes.length ≤ maxOffset

theorem offsetsFit_iff : s.offsetsFit = true ↔ ∀ f ∈ s.handles.values, f.offset ≤ maxOffset := by
  simp only [offsetsFit, List.all_eq_true, decide_eq_true_eq]

namespace Fits

theorem fresh : ({} : Files).Fits := ⟨rfl, fun _ member => absurd member List.not_mem_nil⟩

theorem offset_le (fits : s.Fits) (opened : s.openFile h = .ok f) : f.offset ≤ maxOffset :=
  offsetsFit_iff.1 fits.offsets f
    (List.mem_map_of_mem (Table.mem_of_get? (handle_of_open opened)))

theorem ends_le (fits : s.Fits) (id : ResourceId) : ∀ n ∈ s.ends id, n ≤ maxOffset := by
  intro n member
  obtain ⟨write, pending, rfl⟩ := List.mem_map.1 member
  obtain ⟨r, logged, found⟩ := List.mem_filterMap.1 pending
  split at found
  · next h offset bytes payload =>
    split at found <;> cases found
    exact fits.writes r logged h offset bytes payload
  · cases found

/-- The end of a file is an offset, where the files of the system are within bounds. -/
theorem logicalLength_le (fits : s.Fits) {fs : Filesystem} (bounded : fs.Bounded) (f : OpenFile) :
    s.logicalLength f fs ≤ maxOffset := by
  refine (Bytes.furthest_le_iff (s.pendingOn f.id)).2 ⟨?_, fun write member => ?_⟩
  · exact Nat.le_trans (bounded.length_le f.descriptor) (by decide)
  · exact fits.ends_le f.id _ (List.mem_map_of_mem member)

/-- What is read ends at an offset. -/
theorem read_le (fits : s.Fits) {fs : Filesystem} (bounded : fs.Bounded)
    (opened : s.openFile h = .ok f) {len : Nat} {window : Bytes}
    (done : (fs.readAt f.descriptor f.offset len).1 = .ok window) :
    f.offset + (overlay f.offset len window (s.pendingOn f.id)).length ≤ maxOffset := by
  have reach : ∀ write ∈ s.pendingOn f.id, write.1 + write.2.length ≤ maxOffset :=
    fun write member => fits.ends_le f.id _ (List.mem_map_of_mem member)
  have whole : fs.length f.descriptor ≤ maxOffset :=
    Nat.le_trans (bounded.length_le f.descriptor) (by decide)
  have near := fits.offset_le opened
  have ends := (Filesystem.readAt_ok done).2
  exact Bytes.foldl_overlay_within reach (by omega)

theorem append (fits : s.Fits) {r : Record FileEffect} (access : AccessSet)
    (short : ∀ h offset bytes, r.payload = .write h offset bytes → offset + bytes.length ≤ maxOffset) :
    ({ s with access, log := s.log.append r } : Files).Fits where
  offsets := fits.offsets
  writes q member := by
    rcases List.mem_append.1 member with before | new
    · exact fits.writes q before
    · rw [List.mem_singleton.1 new]
      exact short

theorem addHandle (fits : s.Fits) (near : f.offset ≤ maxOffset) : (s.addHandle f).2.Fits where
  offsets := by
    refine offsetsFit_iff.2 fun g member => ?_
    obtain ⟨e, entry, rfl⟩ := List.mem_map.1 member
    rcases Table.mem_entries_set entry with before | rfl
    · exact offsetsFit_iff.1 fits.offsets _ (List.mem_map_of_mem before)
    · exact near
  writes := fits.writes

/-- A handle may change in all but its offset, which may become another. -/
theorem modify (fits : s.Fits) (n : Nat) {change : OpenFile → OpenFile}
    (near : ∀ f, f.offset ≤ maxOffset → (change f).offset ≤ maxOffset) :
    ({ s with handles := s.handles.modify n change } : Files).Fits where
  offsets := by
    refine offsetsFit_iff.2 fun g member => ?_
    obtain ⟨e, entry, rfl⟩ := List.mem_map.1 member
    rcases Table.mem_entries_modify entry with before | ⟨g, before, rfl⟩
    · exact offsetsFit_iff.1 fits.offsets _ (List.mem_map_of_mem before)
    · exact near g (offsetsFit_iff.1 fits.offsets _ (List.mem_map_of_mem before))
  writes := fits.writes

theorem setOffset (fits : s.Fits) (h : FileHandle) {offset : Nat} (near : offset ≤ maxOffset) :
    (s.setOffset h offset).Fits :=
  fits.modify h.number fun _ _ => near

/-- What is touched does not matter. -/
theorem aside (fits : s.Fits) (access : AccessSet) : ({ s with access } : Files).Fits :=
  ⟨fits.offsets, fits.writes⟩

end Fits

/-- What a read comes to that is granted. -/
theorem read_ok (allowed : s.checkReadable h = .ok f) {len : Nat} {bytes : Bytes}
    (done : (s.read h len w).1 = .ok bytes) :
    ∃ window, (w.files.readAt f.descriptor f.offset len).1 = .ok window ∧
      bytes = overlay f.offset len window (s.pendingOn f.id) := by
  unfold read at done
  rcases granted : w.files.readAt f.descriptor f.offset len with ⟨e | window, files⟩ <;>
    simp only [allowed, granted] at done <;> cases done
  exact ⟨window, rfl, rfl⟩

/-- A handle that stands is where it was put. -/
theorem le_of_setOffset (stands : s.handles.get? h.number = some f) {offset : Nat}
    (fit : (s.setOffset h offset).offsetsFit = true) : offset ≤ maxOffset := by
  have there : (s.setOffset h offset).handles.get? h.number = some { f with offset } := by
    rw [setOffset, Table.get?_modify, if_pos rfl, stands, Option.map_some]
  exact offsetsFit_iff.1 fit _ (List.mem_map_of_mem (Table.mem_of_get? there))

/-! ### Seeks -/

/-- **A seek is refused exactly where its target is no offset**, and then changes nothing. -/
theorem seek_eq (opened : s.openFile h = .ok f) {pos : SeekFrom}
    (inRange : (Filing.plain (.seek h pos)).InRange) (w : World) :
    s.seek h pos w =
      if 0 ≤ pos.target s f w.files ∧ pos.target s f w.files ≤ maxOffset then
        (.ok (pos.target s f w.files).toNat, s.setOffset h (pos.target s f w.files).toNat, w)
      else (.error (badSeek h), s, w) := by
  have led : s.seekTarget f w.files pos =
      if 0 ≤ pos.target s f w.files ∧ pos.target s f w.files ≤ maxOffset then
        some (pos.target s f w.files).toNat
      else none := by
    cases pos with
    | start n =>
        have near : n ≤ maxOffset := inRange
        rw [if_pos ⟨Int.natCast_nonneg n, Int.ofNat_le.2 near⟩]
        rfl
    | current delta | fromEnd delta => rfl
  unfold seek
  by_cases within : 0 ≤ pos.target s f w.files ∧ pos.target s f w.files ≤ maxOffset
  · rw [if_pos within] at led ⊢
    simp only [opened, led]
  · rw [if_neg within] at led ⊢
    simp only [opened, led]

end Files

/-! ### Jobs -/

namespace Filing

variable {s : Files} {w : World} {job : Filing}

/-- **A job keeps offsets within 64 bits** unless it overruns. -/
theorem perform_fits (fits : s.Fits) (bounded : w.files.Bounded) (inRange : job.InRange)
    (kept : job.overruns s w = false) : (job.perform s w).2.1.Fits := by
  cases job with
  | adopt descriptor path =>
      have near : w.files.position descriptor ≤ Files.maxOffset :=
        Nat.le_trans (bounded.position_le descriptor) (by decide)
      simp only [perform, Files.adopt]
      split
      · exact fits
      · exact ((fits.aside _).addHandle near).append _ fun _ _ _ payload => by cases payload
  | remove path =>
      simp only [perform, Files.remove]
      split
      · exact fits
      · split
        · have noted := fits.append (r := .deferred (Files.resource w.files path) .remove)
            (s.access.write w.versions (Files.resource w.files path))
            fun _ _ _ payload => by cases payload
          exact ⟨noted.offsets, noted.writes⟩
        · exact fits
  | plain job =>
      cases job with
      | openPath path flags =>
          simp only [perform, FileWork.perform, Files.openPath]
          split
          · exact fits
          · split
            · exact fits
            · split
              · exact (fits.append _ fun _ _ _ payload => by cases payload).addHandle (Nat.zero_le _)
              · exact (fits.aside _).addHandle (Nat.zero_le _)
      | read h len =>
          simp only [perform, FileWork.perform, Files.read]
          cases allowed : s.checkReadable h with
          | error e => exact fits
          | ok f =>
              rcases done : w.files.readAt f.descriptor f.offset len with ⟨e | window, files⟩
              · simp only [done]
                exact fits.aside _
              · simp only [done]
                exact (fits.aside _).setOffset h
                  (fits.read_le bounded (Files.open_of_readable allowed) (congrArg Prod.fst done))
      | write h bytes =>
          simp only [perform, FileWork.perform, Files.write]
          cases allowed : s.checkWritable h with
          | error e => exact fits
          | ok f =>
              have near : s.writesAt f w.files + bytes.length ≤ Files.maxOffset := by
                simpa [overruns, allowed] using kept
              refine (fits.append _ fun _ _ _ payload => ?_).setOffset h near
              cases payload
              exact near
      | seek h pos =>
          simp only [perform, FileWork.perform]
          cases opened : s.openFile h with
          | error e => simpa only [Files.seek, opened] using fits
          | ok f =>
              rw [Files.seek_eq opened inRange]
              split
              · next near => exact fits.setOffset h (by omega)
              · exact fits
      | tell h => exact fits
      | close h =>
          simp only [perform, FileWork.perform, Files.close]
          split
          · exact fits
          · exact fits.modify h.number fun _ near => near

/-- A job that overruns leaves its handle past every offset. -/
theorem offsetsFit_of_overruns (overrun : job.overruns s w = true) :
    (job.perform s w).2.1.offsetsFit = false := by
  unfold overruns at overrun
  split at overrun
  · next h bytes =>
    split at overrun
    · next f allowed =>
      have far := of_decide_eq_true overrun
      have stands := Files.handle_of_open (Files.open_of_writable allowed)
      simp only [perform, FileWork.perform, Files.write, allowed]
      rw [← Bool.not_eq_true]
      intro fit
      exact absurd (Files.le_of_setOffset stands fit) (Nat.not_le.2 far)
    · cases overrun
  · cases overrun

/-- **Every sum of a job has 64 bits** exactly if the job does not overrun. -/
theorem sums_le_iff (fits : s.Fits) (bounded : w.files.Bounded) :
    (∀ n ∈ job.sums s w, n ≤ Files.maxOffset) ↔ job.overruns s w = false := by
  have aside (small : ∀ n ∈ job.sums s w, n ≤ Files.maxOffset) (kept : job.overruns s w = false) :
      (∀ n ∈ job.sums s w, n ≤ Files.maxOffset) ↔ job.overruns s w = false :=
    iff_of_true small kept
  cases job with
  | adopt descriptor path => exact aside (fun _ member => absurd member List.not_mem_nil) rfl
  | remove path => exact aside (fun _ member => absurd member List.not_mem_nil) rfl
  | plain job =>
      cases job with
      | openPath path flags => exact aside (fun _ member => absurd member List.not_mem_nil) rfl
      | tell h => exact aside (fun _ member => absurd member List.not_mem_nil) rfl
      | close h => exact aside (fun _ member => absurd member List.not_mem_nil) rfl
      | read h len =>
          refine aside ?_ rfl
          simp only [sums]
          split
          · next f bytes allowed done =>
            split
            · next short =>
              obtain ⟨window, granted, rfl⟩ := Files.read_ok allowed done
              have near := (Filesystem.readAt_ok granted).1
              have within := w.files.positionLimit_le f.descriptor
              -- Half of the range is for where the window begins, half for how long it is.
              have room : Filesystem.maxPosition + Files.maxBuffer ≤ Files.maxOffset := by decide
              have left := fits.read_le bounded (Files.open_of_readable allowed) granted
              simp only [List.mem_append, List.mem_singleton]
              rintro n ((rfl | ends) | rfl)
              · omega
              · exact fits.ends_le f.id n ends
              · exact left
            · exact fun _ member => absurd member List.not_mem_nil
          · exact fun _ member => absurd member List.not_mem_nil
      | write h bytes =>
          simp only [sums, overruns]
          cases allowed : s.checkWritable h with
          | error e => simp
          | ok f =>
              simp only [List.mem_append, List.mem_singleton, decide_eq_false_iff_not, Nat.not_lt]
              refine ⟨fun small => small _ (Or.inr rfl), ?_⟩
              rintro near n (ends | rfl)
              · split at ends
                · exact fits.ends_le f.id n ends
                · cases ends
              · exact near
      | seek h pos =>
          refine aside ?_ rfl
          cases pos with
          | start n => exact fun _ member => absurd member List.not_mem_nil
          | current delta => exact fun _ member => absurd member List.not_mem_nil
          | fromEnd delta =>
              simp only [sums]
              split
              · next f _ => exact fits.ends_le f.id
              · exact fun _ member => absurd member List.not_mem_nil

end Filing

/-! ## Sessions -/

section Sessions

variable {G V : Type}

/-- The offsets of a transaction fit, whether it is at work or over. -/
structure Transaction.Fitting (t : Transaction (Party G)) : Prop where
  files : (t.seat Party.files).Fits
  atWork : t.phase = .released ∨ t.Seated

/-- **A call keeps the offsets of its transaction within 64 bits** unless it overruns. -/
theorem PartyCall.perform_fitting [Participant G V] (chunk : Nat → Nat → Nat)
    {t : Transaction (Party G)} (fitting : t.Fitting) {w : World × V} (bounded : w.1.files.Bounded)
    (call : PartyCall G) (inRange : ∀ job, call = .work (.files job) → job.InRange)
    (kept : ∀ job, call = .work (.files job) → job.overruns (t.seat Party.files) w.1 = false) :
    (call.perform chunk t w).1.Fitting := by
  rcases fitting.atWork with released | seated
  · rw [call.perform_released chunk released]
    exact fitting
  · have conduct := call.conduct chunk seated w
    generalize (call.perform chunk t w).1 = t' at conduct
    generalize (call.perform chunk t w).2 = w' at conduct
    cases conduct with
    | aside same seated' seat still => exact ⟨seat ▸ fitting.files, Or.inr seated'⟩
    | filed job asked same seated' seat =>
        refine ⟨?_, Or.inr seated'⟩
        rw [seat]
        exact job.perform_fits fitting.files bounded (inRange job asked) (kept job asked)
    | closing ended =>
        refine ⟨?_, Or.inl ended.released⟩
        cases ended <;> exact .fresh

namespace Occurrence

/-- It seeks to offsets, and keeps files and descriptors within bounds. -/
def InRange : Occurrence G V → Prop
  | .call _ (.work (.files job)) => job.InRange
  | .call .. => True
  | .meanwhile change => ∀ w, w.1.files.Bounded → (change w).1.files.Bounded

/-- Whether it is a write that overruns. -/
def overruns (s : Assembly G V) : Occurrence G V → Bool
  | .call who (.work (.files job)) => job.overruns ((s.transactions who).seat Party.files) s.world.1
  | _ => false

end Occurrence

namespace Assembly

variable [Participant G V] (chunk : Nat → Nat → Nat)

/-- Whether nothing overruns of all that occurs. -/
def modest : Assembly G V → List (Occurrence G V) → Bool
  | _, [] => true
  | s, o :: rest => !o.overruns s && modest (s.occur chunk o) rest

/-- Files and descriptors are within bounds, and all offsets fit. -/
structure Fitting (s : Assembly G V) : Prop where
  bounded : s.world.1.files.Bounded
  each : ∀ who, (s.transactions who).Fitting

variable {chunk} {s : Assembly G V}

omit [Participant G V] in
theorem fitting_start (config : TxId → Config) {w : World × V} (bounded : w.1.files.Bounded) :
    (start config w : Assembly G V).Fitting where
  bounded := bounded
  each _ := ⟨.fresh, Or.inr ⟨rfl, rfl, Nat.zero_le _, Nat.zero_le _, Nat.zero_le _, Nat.zero_le _⟩⟩

theorem Fitting.occur (fitting : s.Fitting) {o : Occurrence G V} (inRange : o.InRange)
    (kept : o.overruns s = false) : (s.occur chunk o).Fitting := by
  cases o with
  | meanwhile change => exact ⟨inRange s.world fitting.bounded, fitting.each⟩
  | call who call =>
      refine ⟨call.perform_bounded chunk _ fitting.bounded, fun other => ?_⟩
      by_cases own : other = who
      · subst own
        have next := call.perform_fitting chunk (fitting.each other) fitting.bounded
          (fun job asked => by subst asked; exact inRange) (fun job asked => by subst asked; exact kept)
        exact (s.step_self chunk other call).symm ▸ next
      · have still : (s.occur chunk (.call who call)).transactions other = s.transactions other :=
          s.step_other chunk own
        rw [still]
        exact fitting.each other

theorem Fitting.proceed (fitting : s.Fitting) {occurrences : List (Occurrence G V)}
    (inRange : ∀ o ∈ occurrences, o.InRange) (modest : s.modest chunk occurrences = true) :
    (s.proceed chunk occurrences).Fitting := by
  induction occurrences generalizing s with
  | nil => exact fitting
  | cons o rest ih =>
      obtain ⟨first, others⟩ := List.forall_mem_cons.1 inRange
      rw [Assembly.modest, Bool.and_eq_true, Bool.not_eq_true'] at modest
      exact ih (fitting.occur first modest.1) others modest.2

/-- **Offsets have 64 bits, and so have the sums made of them, until a write overruns.**  Whatever is done
in any number of transactions, with anything happening in between, and as long as no write was let through
that ends past the largest offset: handles are at offsets, writes that are put off end at offsets, and so
do files; the next job computes no sum that is too large, and leaves all handles at offsets, exactly if it
is not such a write itself.  A seek goes to its target if that is an offset, and otherwise is refused and
leaves everything as it was. -/
theorem proceed_offsets (chunk : Nat → Nat → Nat) (config : TxId → Config) {w : World × V}
    (bounded : w.1.files.Bounded) {history : List (Occurrence G V)}
    (inRange : ∀ o ∈ history, o.InRange)
    (modest : (start config w : Assembly G V).modest chunk history = true) (who : TxId) :
    let s := (start config w : Assembly G V).proceed chunk history
    let files := (s.transactions who).seat Party.files
    (∀ f ∈ files.handles.values, f.offset ≤ Files.maxOffset) ∧
      (∀ r ∈ files.log.records, ∀ h offset bytes, r.payload = .write h offset bytes →
        offset + bytes.length ≤ Files.maxOffset) ∧
      (∀ f, files.logicalLength f s.world.1.files ≤ Files.maxOffset) ∧
      (∀ job : Filing, (∀ n ∈ job.sums files s.world.1, n ≤ Files.maxOffset) ↔
        job.overruns files s.world.1 = false) ∧
      (∀ job : Filing, job.InRange → (job.perform files s.world.1).2.1.offsetsFit =
        !job.overruns files s.world.1) ∧
      ∀ h f pos, files.openFile h = .ok f → (Filing.plain (.seek h pos)).InRange →
        files.seek h pos s.world.1 =
          if 0 ≤ pos.target files f s.world.1.files ∧
              pos.target files f s.world.1.files ≤ Files.maxOffset then
            (.ok (pos.target files f s.world.1.files).toNat,
              files.setOffset h (pos.target files f s.world.1.files).toNat, s.world.1)
          else (.error (Files.badSeek h), files, s.world.1) := by
  intro s files
  have fitting : s.Fitting := (fitting_start config bounded).proceed inRange modest
  have fits : files.Fits := (fitting.each who).files
  refine ⟨Files.offsetsFit_iff.1 fits.offsets, fits.writes, fits.logicalLength_le fitting.bounded,
    fun job => job.sums_le_iff fits fitting.bounded, fun job asked => ?_,
    fun h f pos opened asked => Files.seek_eq opened asked _⟩
  cases judged : job.overruns files s.world.1 with
  | true => exact Filing.offsetsFit_of_overruns judged
  | false => exact (job.perform_fits fits fitting.bounded asked judged).offsets

theorem bounded_oneOld : oneOld.files.Bounded where
  lengths inode := by
    by_cases here : 0 = inode
    · subst here
      decide
    · have nothing : oneOld.files.content inode = {} := by
        simp [Filesystem.content, oneOld, Table.get?, Table.find, here]
      rw [nothing]
      exact Nat.zero_le _
  positions _ := Nat.zero_le _

/-- A byte is written at the last offset that has one after it. -/
def writesLast : List (Occurrence Yields World) :=
  [.call ⟨1, "first"⟩ (.work (.files (.plain (.openPath "/old" { read := true, write := true })))),
    .call ⟨1, "first"⟩ (.work (.files (.plain (.seek ⟨0⟩ (.start 18446744073709551614))))),
    .call ⟨1, "first"⟩ (.work (.files (.plain (.write ⟨0⟩ [7]))))]

/-- The byte is put off and the handle is at the largest offset, where a write of no bytes does no harm.
One more byte is let through as well, and leaves the handle past all offsets; to go there is refused. -/
theorem proceed_offsets_last :
    let s : Assembly Yields World :=
      (start (fun _ => {}) (oneOld, {})).proceed (fun _ _ => 1) writesLast
    let files := (s.transactions ⟨1, "first"⟩).seat Party.files
    files.handles.values.map OpenFile.offset = [18446744073709551615] ∧
      (∀ f ∈ files.handles.values, f.offset ≤ Files.maxOffset) ∧
      (∀ n ∈ (Filing.plain (.write ⟨0⟩ [])).sums files s.world.1, n ≤ Files.maxOffset) ∧
      ¬ (∀ n ∈ (Filing.plain (.write ⟨0⟩ [8])).sums files s.world.1, n ≤ Files.maxOffset) ∧
      ((Filing.plain (.write ⟨0⟩ [8])).perform files s.world.1).2.1.offsetsFit = false ∧
      files.seek ⟨0⟩ (.current 1) s.world.1 = (.error (Files.badSeek ⟨0⟩), files, s.world.1) := by
  intro s files
  have inRange : ∀ o ∈ writesLast, o.InRange := by
    simp [writesLast, Occurrence.InRange, Filing.InRange, Files.maxOffset]
  obtain ⟨offsets, -, -, sums, fit, seek⟩ := proceed_offsets (fun _ _ => 1) (fun _ => {})
    (w := (oneOld, ({} : World))) bounded_oneOld inRange (by decide +kernel) ⟨1, "first"⟩
  refine ⟨by decide +kernel, offsets, (sums _).2 (by decide +kernel), fun small => ?_, ?_, ?_⟩
  · exact absurd ((sums _).1 small) (by decide +kernel)
  · exact (fit (.plain (.write ⟨0⟩ [8])) trivial).trans (by decide +kernel)
  · exact (seek ⟨0⟩ _ (.current 1) rfl trivial).trans (if_neg (by decide +kernel))

end Assembly

end Sessions

end Transact
