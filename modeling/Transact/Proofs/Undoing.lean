/-
# Transact.Proofs.Undoing -- what the undo of files does

Undo goes through the records from the newest to the oldest (`undo_world`) and acts on creations and
adoptions alone.  `Undoing` says what it does with one record: it removes what was created and nobody
published since, it moves a descriptor back, or it leaves all as it is, which has a reason.

At one location undo does what it does with the creation there: it leaves what somebody published
(`undo_leaves`), and removes and counts up what nobody did (`undo_removes`).
-/
import Transact.Proofs.NameVersions

namespace Transact

set_option autoImplicit false

/-- Locks were given back at most. -/
def LockTable.Eased (t t' : LockTable) : Prop :=
  ∀ k, t'.holderOf k = none ∨ t'.holderOf k = t.holderOf k

namespace LockTable.Eased

variable {t t' t'' : LockTable}

theorem refl (t : LockTable) : t.Eased t := fun _ => Or.inr rfl

theorem trans (first : t.Eased t') (second : t'.Eased t'') : t.Eased t'' := by
  intro k
  rcases second k with free | same
  · exact Or.inl free
  · exact (first k).imp same.trans same.trans

theorem opens (eased : t.Eased t') {who : TxId} {k : ResourceKey} (free : t.Open who k) :
    t'.Open who k := by
  rcases eased k with unheld | same
  · exact Or.inl unheld
  · rw [LockTable.Open, same]
    exact free

/-- A lock that is borrowed and given back. -/
theorem borrowed {id : ResourceId} {tx : TxId} (taken : t.acquire id tx = (true, t')) :
    t.Eased (t'.release id tx).2 := by
  obtain ⟨-, holders⟩ := LockTable.acquire_true taken
  have mine : t'.holder id = some tx := (holders id.key).trans (if_pos rfl)
  intro k
  rw [LockTable.holderOf_release mine]
  by_cases here : k = id.key
  · exact Or.inl (if_pos here)
  · rw [if_neg here, holders, if_neg here]
    exact Or.inr rfl

end LockTable.Eased

namespace Files

variable {w w' : World} {s : Files} {tx : TxId} {at_ : Location} {r : Record FileEffect}

/-- **What undoing a record does.** -/
inductive Undoing (tx : TxId) (s : Files) (w : World) (r : Record FileEffect) : World → Prop where
  /-- Nothing: a creation was published since, or its file is gone or locked; an adopted descriptor
  cannot be put back; or there is nothing to revert. -/
  | left (locks : LockTable) (eased : w.locks.Eased locks)
      (standing : ∀ at_ e, r = creationOf at_ →
        w.locks.Open tx (ResourceId.path (Path.ofNames at_)).key →
        s.access.isCurrent w.versions (.path (Path.ofNames at_)) = true →
        w.files.entry? at_ = some e → e = .directory)
      (astray : ∀ h before f, r.payload = .adopt h → r.preState = some (.offset before) →
        s.handles.get? h.number = some f → w.files.positionLimit f.descriptor < before) :
      Undoing tx s w r { w with locks }
  /-- It removes what was created. -/
  | removed (at_ : Location) (e : Entry) (locks : LockTable) (eased : w.locks.Eased locks)
      (creation : r = creationOf at_)
      (current : s.access.isCurrent w.versions (.path (Path.ofNames at_)) = true)
      (stands : w.files.entry? at_ = some e) (file : e ≠ .directory) :
      Undoing tx s w r
        (({ w with files := w.files.eraseEntry at_, locks } : World).bump (.path (Path.ofNames at_)))
  /-- It moves an adopted descriptor back. -/
  | sought (h : FileHandle) (before : Nat) (f : OpenFile) (adoption : r.payload = .adopt h)
      (offset : r.preState = some (.offset before)) (found : s.handles.get? h.number = some f)
      (reached : before ≤ w.files.positionLimit f.descriptor) :
      Undoing tx s w r { w with files := w.files.setPosition f.descriptor before }

/-! ### Record by record -/

theorem removeIfCurrent_cases (sound : w.files.Sound) (roomy : w.files.Roomy)
    (spot : w.files.Spot at_) (access : AccessSet) :
    (removeIfCurrent access (.path (Path.ofNames at_)) (Path.ofNames at_) w).2 = w ∧
        (access.isCurrent w.versions (.path (Path.ofNames at_)) = true →
          ∀ e, w.files.entry? at_ = some e → e = .directory) ∨
      access.isCurrent w.versions (.path (Path.ofNames at_)) = true ∧
        ∃ e, w.files.entry? at_ = some e ∧ e ≠ .directory ∧
          (removeIfCurrent access (.path (Path.ofNames at_)) (Path.ofNames at_) w).2 =
            ({ w with files := w.files.eraseEntry at_ } : World).bump (.path (Path.ofNames at_)) := by
  unfold removeIfCurrent
  by_cases current : access.isCurrent w.versions (.path (Path.ofNames at_)) = true
  · rw [if_pos current, Filesystem.unlink_spot sound roomy spot]
    rcases stands : w.files.entry? at_ with _ | ⟨_ | inode | target⟩
    · exact Or.inl ⟨rfl, fun _ e same => by cases same⟩
    · exact Or.inl ⟨rfl, fun _ e same => (Option.some.inj same).symm⟩
    · exact Or.inr ⟨current, _, rfl, fun same => (by cases same), rfl⟩
    · exact Or.inr ⟨current, _, rfl, fun same => (by cases same), rfl⟩
  · rw [if_neg current]
    exact Or.inl ⟨rfl, fun holds => absurd holds current⟩

/-- A creation is reverted under its lock, which is held or can be borrowed. -/
theorem revertCreation_undoing (sound : w.files.Sound) (roomy : w.files.Roomy)
    (spot : w.files.Spot at_) :
    Undoing tx s w (creationOf at_)
      (revertCreation tx s.access s.held (.path (Path.ofNames at_)) (Path.ofNames at_) w).2 := by
  have left {locks : LockTable} (eased : w.locks.Eased locks)
      (why : w.locks.Open tx (ResourceId.path (Path.ofNames at_)).key →
        s.access.isCurrent w.versions (.path (Path.ofNames at_)) = true →
        ∀ e, w.files.entry? at_ = some e → e = .directory) :
      Undoing tx s w (creationOf at_) { w with locks } := by
    refine .left locks eased (fun other e same free current stands => ?_)
      fun h before f same => by cases same
    cases creationOf_inj sound spot (sound.placed other e stands) same
    exact why free current e stands
  unfold revertCreation
  by_cases held : s.held.holds (.path (Path.ofNames at_)) = true
  · rw [if_pos held]
    rcases removeIfCurrent_cases sound roomy spot s.access with ⟨done, why⟩ |
      ⟨current, e, stands, file, done⟩
    · rw [done]
      exact left (.refl w.locks) fun _ => why
    · rw [done]
      exact .removed at_ e w.locks (.refl w.locks) rfl current stands file
  · rw [if_neg held]
    rcases taken : w.locks.acquire (.path (Path.ofNames at_)) tx with ⟨_ | _, locks⟩
    · obtain ⟨⟨other, holder, ne⟩, same⟩ := LockTable.acquire_false taken
      refine left (fun k => Or.inr (same k)) fun free => ?_
      rw [LockTable.holder_eq] at holder
      rcases free with unheld | mine
      · rw [unheld] at holder
        cases holder
      · rw [mine] at holder
        exact absurd (Option.some.inj holder).symm ne
    · have eased := LockTable.Eased.borrowed taken
      rcases removeIfCurrent_cases (w := { w with locks }) sound roomy spot s.access with
        ⟨done, why⟩ | ⟨current, e, stands, file, done⟩
      · simp only [done]
        exact left eased fun _ => why
      · simp only [done]
        exact .removed at_ e _ eased rfl current stands file

/-- Nothing is done for a record of another sort, or for a descriptor that cannot be put back. -/
theorem undoRecord_idle (other : r.payload ≠ .create)
    (astray : ∀ h before f, r.payload = .adopt h → r.preState = some (.offset before) →
      s.handles.get? h.number = some f → w.files.positionLimit f.descriptor < before) :
    (undoRecord tx s r w).2 = w := by
  unfold undoRecord
  split
  · next create _ => exact absurd create other
  · next h before adoption offset =>
    cases found : s.handles.get? h.number with
    | none => rfl
    | some f => simp only [Filesystem.seek, if_pos (astray h before f adoption offset found)]
  · rfl

theorem undoRecord_undoing (sound : w.files.Sound) (roomy : w.files.Roomy) (booked : Booked w s r)
    (founded : Founded w s.access r) : Undoing tx s w r (undoRecord tx s r w).2 := by
  by_cases create : r.payload = .create
  · obtain ⟨at_, seen, rfl, -⟩ := founded create
    obtain ⟨other, named, spot, -⟩ := booked (Or.inl create)
    have same : creationOf at_ = creationOf other := by
      rw [creationOf, creationOf, ResourceId.path.inj named]
    rw [same]
    exact revertCreation_undoing sound roomy spot
  by_cases back : ∃ h before f, r.payload = .adopt h ∧ r.preState = some (.offset before) ∧
      s.handles.get? h.number = some f ∧ before ≤ w.files.positionLimit f.descriptor
  · obtain ⟨h, before, f, adoption, offset, found, reached⟩ := back
    have done : (undoRecord tx s r w).2 =
        { w with files := w.files.setPosition f.descriptor before } := by
      simp only [undoRecord, adoption, offset, found, Filesystem.seek,
        if_neg (Nat.not_lt.2 reached)]
    rw [done]
    exact .sought h before f adoption offset found reached
  · have astray : ∀ h before f, r.payload = .adopt h → r.preState = some (.offset before) →
        s.handles.get? h.number = some f → w.files.positionLimit f.descriptor < before :=
      fun h before f adoption offset found =>
        Nat.lt_of_not_le fun reached => back ⟨h, before, f, adoption, offset, found, reached⟩
    rw [undoRecord_idle create astray]
    refine .left w.locks (.refl w.locks) (fun at_ e creation => ?_) astray
    rw [creation] at create
    exact absurd rfl create

/-- **A record that is undone loses no name without counting its version up.** -/
theorem Undoing.drift (undoing : Undoing tx s w r w') : Drift w w' := by
  cases undoing with
  | left locks => exact .ofSame rfl rfl
  | sought h before f =>
      exact .ofFiles (Filesystem.moved_setPosition w.files f.descriptor before).toOnward.keeps
  | removed at_ e locks eased creation current stands file =>
      have below := Filesystem.below_of_stands stands file
      refine ⟨fun id => ?_, Filesystem.keeps_eraseEntry below
        (fun same => file (Option.some.inj (stands.symm.trans same))) ?_⟩
      · have up := AccessSet.current_bump w.versions (.path (Path.ofNames at_)) id
        simp only [World.bump]
        omega
      · have up := VersionTable.current_bump_self w.versions (.path (Path.ofNames at_))
        simp only [World.bump]
        omega

/-! ### The whole undo -/

theorem undo_world (s : Files) (ctx : Context) (w : World) :
    (s.undo ctx w).2.2 = s.log.records.foldr (fun r w => (undoRecord ctx.tx s r w).2) w :=
  s.log.undoAll_foldr (undoRecord ctx.tx s) w

/-- What undoing each record keeps, undo keeps. -/
theorem Anchored.undo_induction (anchored : Anchored w s) (sound : w.files.Sound)
    (roomy : w.files.Roomy) (ctx : Context) {motive : List (Record FileEffect) → World → Prop}
    (start : motive [] w)
    (next : ∀ r rest w₁ w₂, r :: rest <:+ s.log.records → Drift w w₁ → motive rest w₁ →
      Undoing ctx.tx s w₁ r w₂ → motive (r :: rest) w₂) :
    motive s.log.records (s.undo ctx w).2.2 := by
  have each (rs : List (Record FileEffect)) (within : rs <:+ s.log.records) :
      Drift w (rs.foldr (fun r w => (undoRecord ctx.tx s r w).2) w) ∧
        motive rs (rs.foldr (fun r w => (undoRecord ctx.tx s r w).2) w) := by
    induction rs with
    | nil => exact ⟨.refl w, start⟩
    | cons r rest ih =>
        obtain ⟨drift, before⟩ := ih ((List.suffix_cons r rest).trans within)
        have member : r ∈ s.log.records := within.subset List.mem_cons_self
        have undoing : Undoing ctx.tx s _ r _ := undoRecord_undoing (drift.names.sound sound)
          (drift.names.roomy roomy) ((anchored.records r member).drift drift)
          ((anchored.creations r member).drift anchored.notes drift)
        rw [List.foldr_cons]
        exact ⟨drift.trans undoing.drift, next r rest _ _ within drift before undoing⟩
  rw [undo_world]
  exact (each s.log.records (List.suffix_refl _)).2

/-- **Undo loses no name without counting its version up.** -/
theorem Anchored.undo (anchored : Anchored w s) (sound : w.files.Sound) (roomy : w.files.Roomy)
    (ctx : Context) : Drift w (s.undo ctx w).2.2 :=
  anchored.undo_induction sound roomy ctx (motive := fun _ w' => Drift w w') (.refl w)
    fun _ _ _ _ _ drift _ undoing => drift.trans undoing.drift

/-! ### One location -/

theorem isCurrent_congr {a : AccessSet} {v v' : VersionTable} {id : ResourceId}
    (same : v'.current id = v.current id) : a.isCurrent v' id = a.isCurrent v id := by
  rw [AccessSet.isCurrent, AccessSet.isCurrent, same]

/-- A record of another location, or of a file that somebody published, leaves what stands. -/
theorem Undoing.leaves (undoing : Undoing tx s w r w') (sound : w.files.Sound)
    (spot : w.files.Spot at_)
    (stale : r = creationOf at_ →
      s.access.isCurrent w.versions (.path (Path.ofNames at_)) = false) :
    w'.files.entry? at_ = w.files.entry? at_ ∧
      w'.versions.current (.path (Path.ofNames at_)) =
        w.versions.current (.path (Path.ofNames at_)) := by
  cases undoing with
  | left locks => exact ⟨rfl, rfl⟩
  | sought h before f =>
      exact ⟨Filesystem.SameTree.entry? (Filesystem.onward_setPosition ..).tree at_, rfl⟩
  | removed other e locks eased creation current stands file =>
      have elsewhere : other ≠ at_ := by
        rintro rfl
        rw [stale creation] at current
        cases current
      have below := Filesystem.below_of_stands stands file
      refine ⟨?_, ?_⟩
      · have erased := Filesystem.entry?_eraseEntry w.files below at_
        rw [if_neg elsewhere.symm] at erased
        exact erased
      · have bumped := AccessSet.current_bump w.versions (.path (Path.ofNames other))
          (.path (Path.ofNames at_))
        rw [if_neg fun same => elsewhere.symm
          (spot.eq_of_key sound (sound.placed other e stands) same)] at bumped
        exact bumped

/-- The record of a file that nobody published removes it and counts its version up. -/
theorem Undoing.removes (undoing : Undoing tx s w (creationOf at_) w') (sound : w.files.Sound)
    (current : s.access.isCurrent w.versions (.path (Path.ofNames at_)) = true)
    (free : w.locks.Open tx (ResourceId.path (Path.ofNames at_)).key) {inode : Inode}
    (stands : w.files.entry? at_ = some (.file inode)) :
    w'.files.entry? at_ = none ∧
      w'.versions.current (.path (Path.ofNames at_)) =
        w.versions.current (.path (Path.ofNames at_)) + 1 := by
  cases undoing with
  | left locks eased standing => cases standing at_ _ rfl free current stands
  | sought h before f adoption => cases adoption
  | removed other e locks eased creation _ there file =>
      cases creationOf_inj sound (sound.placed at_ _ stands) (sound.placed other e there) creation
      have below := Filesystem.below_of_stands there file
      exact ⟨(Filesystem.entry?_eraseEntry w.files below at_).trans (if_pos rfl),
        VersionTable.current_bump_self ..⟩

theorem Undoing.contents (undoing : Undoing tx s w r w') : w'.files.contents = w.files.contents := by
  cases undoing <;> rfl

theorem Undoing.eased (undoing : Undoing tx s w r w') : w.locks.Eased w'.locks := by
  cases undoing with
  | left locks eased => exact eased
  | removed at_ e locks eased => exact eased
  | sought h before f => exact .refl w.locks

section Undo

variable (anchored : Anchored w s) (sound : w.files.Sound) (roomy : w.files.Roomy) (ctx : Context)

include anchored sound roomy

theorem Anchored.undo_contents : (s.undo ctx w).2.2.files.contents = w.files.contents :=
  anchored.undo_induction sound roomy ctx
    (motive := fun _ w' => w'.files.contents = w.files.contents) rfl
    fun _ _ _ _ _ _ before undoing => undoing.contents.trans before

/-- **Undo leaves what it did not create, and what somebody published since.** -/
theorem Anchored.undo_leaves (spot : w.files.Spot at_)
    (stale : creationOf at_ ∈ s.log.records →
      s.access.isCurrent w.versions (.path (Path.ofNames at_)) = false) :
    Filesystem.entry? (s.undo ctx w).2.2.files at_ = w.files.entry? at_ ∧
      (s.undo ctx w).2.2.versions.current (.path (Path.ofNames at_)) =
        w.versions.current (.path (Path.ofNames at_)) := by
  refine anchored.undo_induction sound roomy ctx (motive := fun _ w' =>
    w'.files.entry? at_ = w.files.entry? at_ ∧
      w'.versions.current (.path (Path.ofNames at_)) =
        w.versions.current (.path (Path.ofNames at_))) ⟨rfl, rfl⟩ ?_
  intro r rest w₁ w₂ within drift before undoing
  have after := undoing.leaves (drift.names.sound sound) (drift.names.spot.2 spot) fun creation => by
    rw [isCurrent_congr before.2]
    exact stale (creation ▸ within.subset List.mem_cons_self)
  exact ⟨after.1.trans before.1, after.2.trans before.2⟩

/-- **Undo removes a file it created and nobody published since**, and counts its version up. -/
theorem Anchored.undo_removes (created : creationOf at_ ∈ s.log.records)
    (current : s.access.isCurrent w.versions (.path (Path.ofNames at_)) = true)
    (free : w.locks.Open ctx.tx (ResourceId.path (Path.ofNames at_)).key) {inode : Inode}
    (stands : w.files.entry? at_ = some (.file inode)) :
    Filesystem.entry? (s.undo ctx w).2.2.files at_ = none ∧
      (s.undo ctx w).2.2.versions.current (.path (Path.ofNames at_)) =
        w.versions.current (.path (Path.ofNames at_)) + 1 := by
  have spot := sound.placed at_ _ stands
  -- Before the newest record of the file all is as it was; from then on the file is gone.
  have all := anchored.undo_induction sound roomy ctx (motive := fun rs w' =>
    w'.locks.Open ctx.tx (ResourceId.path (Path.ofNames at_)).key ∧
      (creationOf at_ ∉ rs ∧ w'.files.entry? at_ = w.files.entry? at_ ∧
          w'.versions.current (.path (Path.ofNames at_)) =
            w.versions.current (.path (Path.ofNames at_)) ∨
        w'.files.entry? at_ = none ∧ w'.versions.current (.path (Path.ofNames at_)) =
          w.versions.current (.path (Path.ofNames at_)) + 1))
    ⟨free, Or.inl ⟨List.not_mem_nil, rfl, rfl⟩⟩ ?_
  · rcases all with ⟨-, ⟨never, -⟩ | gone⟩
    · exact absurd created never
    · exact gone
  intro r rest w₁ w₂ within drift ⟨open_, before⟩ undoing
  have sound₁ := drift.names.sound sound
  refine ⟨undoing.eased.opens open_, ?_⟩
  rcases before with ⟨never, same, version⟩ | ⟨gone, version⟩
  · by_cases here : r = creationOf at_
    · subst here
      rw [← isCurrent_congr version] at current
      obtain ⟨erased, up⟩ := undoing.removes sound₁ current open_ (same.trans stands)
      exact Or.inr ⟨erased, up.trans (congrArg (· + 1) version)⟩
    · have after := undoing.leaves sound₁ (drift.names.spot.2 spot) fun creation =>
        absurd creation here
      refine Or.inl ⟨fun member => ?_, after.1.trans same, after.2.trans version⟩
      rcases List.mem_cons.1 member with first | later
      · exact here first.symm
      · exact never later
  · have after := undoing.leaves sound₁ (drift.names.spot.2 spot) fun _ => by
      rw [AccessSet.isCurrent, beq_iff_eq] at current
      rw [AccessSet.isCurrent, current, version]
      simp
    exact Or.inr ⟨after.1.trans gone, after.2.trans version⟩

end Undo

end Files

end Transact
