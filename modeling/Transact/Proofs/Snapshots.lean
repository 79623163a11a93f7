/-
# Transact.Proofs.Snapshots -- what an access set remembers

An access set is touched, marked and emptied while others count resources up in the table beside it.
`AccessSet.after` is the set and the table after such a history.  What the set says is read off the
history: a resource has the version that the table had when it was first touched since the set was last
emptied (`snapshot_after`), so it is current as long as nobody counts it up from there on, and the set is
valid as long as that is so of all it holds (`after_remembers`).
-/
import Mathlib.Data.List.Basic
import Mathlib.Data.List.Induction
import Transact.Proofs.Access

namespace Transact

set_option autoImplicit false

/-- What happens to an access set, or to the table beside it. -/
inductive AccessEvent where
  | observe (id : ResourceId)
  | write (id : ResourceId)
  | clear
  | bump (id : ResourceId)

namespace AccessEvent

/-- The event touches `id`. -/
def touches (id : ResourceId) : AccessEvent → Bool
  | observe other => other.key = id.key
  | write other => other.key = id.key
  | clear => false
  | bump _ => false

/-- The event marks `id` as changed. -/
def marks (id : ResourceId) : AccessEvent → Bool
  | observe _ => false
  | write other => other.key = id.key
  | clear => false
  | bump _ => false

/-- The event counts `id` up. -/
def bumps (id : ResourceId) : AccessEvent → Bool
  | observe _ => false
  | write _ => false
  | clear => false
  | bump other => other.key = id.key

variable {id : ResourceId} {e : AccessEvent}

theorem ne_clear_of_touches (touched : e.touches id = true) : e ≠ clear := by
  rintro rfl
  cases touched

theorem not_bumps_of_touches (touched : e.touches id = true) : e.bumps id = false := by
  cases e <;> first | rfl | cases touched

/-- The set and the table after one event. -/
def perform : AccessSet × VersionTable → AccessEvent → AccessSet × VersionTable
  | (a, v), observe id => (a.observe v id, v)
  | (a, v), write id => (a.write v id, v)
  | (_, v), clear => ({}, v)
  | (a, v), bump id => (a, v.bump id)

end AccessEvent

open AccessEvent (touches marks bumps perform)

/-! ## Since the set was last emptied -/

/-- There was such an event, and the set was not emptied after it. -/
def Lately (p : AccessEvent → Bool) (history : List AccessEvent) : Prop :=
  ∃ before e since, history = before ++ e :: since ∧ p e = true ∧ .clear ∉ since

/-- The first touch of `id` since the set was last emptied stands between the two parts. -/
structure FirstTouch (id : ResourceId) (history before since : List AccessEvent) : Prop where
  between : ∃ e, touches id e = true ∧ history = before ++ e :: since
  first : ¬ Lately (touches id) before
  kept : .clear ∉ since

section History

variable {p : AccessEvent → Bool} {id : ResourceId} {history before since : List AccessEvent}

theorem not_lately_nil : ¬ Lately p [] := by
  rintro ⟨before, e, since, split, -⟩
  cases before <;> cases split

theorem lately_snoc (history : List AccessEvent) (e : AccessEvent) :
    Lately p (history ++ [e]) ↔ p e = true ∨ e ≠ .clear ∧ Lately p history := by
  constructor
  · rintro ⟨before, e', since, split, holds, kept⟩
    rcases List.eq_nil_or_concat' since with rfl | ⟨since, last, rfl⟩
    · obtain ⟨rfl, same⟩ := List.append_inj' split rfl
      cases same
      exact Or.inl holds
    · rw [← List.cons_append, ← List.append_assoc] at split
      obtain ⟨rfl, same⟩ := List.append_inj' split rfl
      cases same
      simp only [List.mem_append, List.mem_singleton, not_or] at kept
      exact Or.inr ⟨Ne.symm kept.2, before, e', since, rfl, holds, kept.1⟩
  · rintro (holds | ⟨other, before, e', since, rfl, holds, kept⟩)
    · exact ⟨history, e, [], rfl, holds, List.not_mem_nil⟩
    · refine ⟨before, e', since ++ [e], by rw [List.append_assoc, List.cons_append], holds, ?_⟩
      simp only [List.mem_append, List.mem_singleton, not_or]
      exact ⟨kept, Ne.symm other⟩

/-- A first touch stays the first as long as the set is not emptied. -/
theorem FirstTouch.append (touch : FirstTouch id history before since) {more : List AccessEvent}
    (kept : .clear ∉ more) : FirstTouch id (history ++ more) before (since ++ more) := by
  obtain ⟨e, touched, rfl⟩ := touch.between
  refine ⟨⟨e, touched, by rw [List.append_assoc, List.cons_append]⟩, touch.first, ?_⟩
  rw [List.mem_append, not_or]
  exact ⟨touch.kept, kept⟩

/-- Of the touches since the set was last emptied one was the first. -/
theorem Lately.exists_first (lately : Lately (touches id) history) :
    ∃ before since, FirstTouch id history before since := by
  induction history using List.reverseRecOn with
  | nil => exact absurd lately not_lately_nil
  | append_singleton history e ih =>
      by_cases earlier : e ≠ .clear ∧ Lately (touches id) history
      · obtain ⟨before, since, touch⟩ := ih earlier.2
        exact ⟨before, _, touch.append (by simpa using Ne.symm earlier.1)⟩
      · have touched := ((lately_snoc history e).1 lately).resolve_right earlier
        have kept := AccessEvent.ne_clear_of_touches touched
        exact ⟨history, [], ⟨e, touched, rfl⟩, fun held => earlier ⟨kept, held⟩, List.not_mem_nil⟩

end History

namespace AccessSet

variable {a : AccessSet} {v : VersionTable} {id : ResourceId} {e : AccessEvent} {seen : Nat}
variable {history before since : List AccessEvent}

/-! ## One event -/

/-- A note stays as it is until the set is emptied. -/
theorem snapshot_perform_kept (noted : a.snapshot id = some seen) (v : VersionTable)
    (kept : e ≠ .clear) : (perform (a, v) e).1.snapshot id = some seen := by
  cases e with
  | observe other => exact snapshot_observe_kept noted v other
  | write other =>
      simp only [perform, snapshot, observed_write]
      exact snapshot_observe_kept noted v other
  | clear => exact absurd rfl kept
  | bump => exact noted

/-- A touch of what is not noted notes the version in force. -/
theorem snapshot_perform_touch (absent : id.key ∉ a.observed.keys) (v : VersionTable)
    (touched : e.touches id = true) : (perform (a, v) e).1.snapshot id = some (v.current id) := by
  have noted {other : ResourceId} (same : other.key = id.key) :
      (a.observe v other).snapshot id = some (v.current id) := by
    rw [← same, ← Table.contains_iff, Bool.not_eq_true] at absent
    rw [observe_new absent, snapshot, same, Table.get?_set_self, current_congr v same]
    rfl
  cases e with
  | observe other => exact noted (of_decide_eq_true touched)
  | write other =>
      simp only [perform, snapshot, observed_write]
      exact noted (of_decide_eq_true touched)
  | clear | bump => cases touched

/-! ## A history -/

/-- The set, which is empty to begin with, and the table after a history. -/
def after (v : VersionTable) (history : List AccessEvent) : AccessSet × VersionTable :=
  history.foldl perform ({}, v)

theorem after_append (v : VersionTable) (history more : List AccessEvent) :
    after v (history ++ more) = more.foldl perform (after v history) :=
  List.foldl_append

theorem keyed_after (v : VersionTable) (history : List AccessEvent) : (after v history).1.Keyed := by
  induction history using List.reverseRecOn with
  | nil => exact Keyed.empty
  | append_singleton history e ih =>
      rw [after_append]
      cases e with
      | observe id => exact ih.observe _ id
      | write id => exact ih.write _ id
      | clear => exact Keyed.empty
      | bump id => exact ih

/-- The table counts a resource up as often as it is told to. -/
theorem current_after (v : VersionTable) (history : List AccessEvent) (id : ResourceId) :
    (after v history).2.current id = v.current id + history.countP (bumps id) := by
  induction history using List.reverseRecOn with
  | nil => rfl
  | append_singleton history e ih =>
      rw [after_append, List.countP_append, ← Nat.add_assoc, ← ih, List.countP_singleton]
      cases e with
      | observe _ | write _ | clear => rfl
      | bump other =>
          refine (current_bump _ other id).trans ?_
          simp only [bumps, decide_eq_true_eq, eq_comm (b := id.key)]
          rfl

/-- What is held was touched since the set was last emptied. -/
theorem mem_observed_after (v : VersionTable) (history : List AccessEvent) (id : ResourceId) :
    id.key ∈ (after v history).1.observed.keys ↔ Lately (touches id) history := by
  induction history using List.reverseRecOn with
  | nil => exact iff_of_false List.not_mem_nil not_lately_nil
  | append_singleton history e ih =>
      rw [after_append, lately_snoc, ← ih]
      cases e with
      | observe other => simp [perform, mem_keys_observe, touches, or_comm, eq_comm]
      | write other => simp [perform, mem_keys_observe, touches, or_comm, eq_comm]
      | clear => simp [perform, Table.keys, touches]
      | bump other => simp [perform, touches]

/-- What is marked was marked since the set was last emptied. -/
theorem mem_written_after (v : VersionTable) (history : List AccessEvent) (id : ResourceId) :
    id.key ∈ (after v history).1.written.keys ↔ Lately (marks id) history := by
  induction history using List.reverseRecOn with
  | nil => exact iff_of_false List.not_mem_nil not_lately_nil
  | append_singleton history e ih =>
      rw [after_append, lately_snoc, ← ih]
      cases e with
      | observe other => simp [perform, marks]
      | write other => simp [perform, mem_keys_write, marks, or_comm, eq_comm]
      | clear => simp [perform, Table.keys, marks]
      | bump other => simp [perform, marks]

/-- A note stays as it is for as long as the set is not emptied. -/
theorem snapshot_after_kept (noted : (after v history).1.snapshot id = some seen)
    {more : List AccessEvent} (kept : .clear ∉ more) :
    (after v (history ++ more)).1.snapshot id = some seen := by
  induction more using List.reverseRecOn with
  | nil => rwa [List.append_nil]
  | append_singleton more e ih =>
      simp only [List.mem_append, List.mem_singleton, not_or] at kept
      rw [← List.append_assoc, after_append]
      exact snapshot_perform_kept (ih kept.1) _ (Ne.symm kept.2)

/-- The first touch notes the version in force. -/
theorem snapshot_of_first (touch : FirstTouch id history before since) (v : VersionTable) :
    (after v history).1.snapshot id = some ((after v before).2.current id) := by
  obtain ⟨e, touched, rfl⟩ := touch.between
  have absent := mt (mem_observed_after v before id).1 touch.first
  have noted : (after v (before ++ [e])).1.snapshot id = some ((after v before).2.current id) := by
    rw [after_append]
    exact snapshot_perform_touch absent _ touched
  rw [List.append_cons]
  exact snapshot_after_kept noted touch.kept

/-- **A resource has the version of its first touch.** -/
theorem snapshot_after (v : VersionTable) (history : List AccessEvent) (id : ResourceId) (seen : Nat) :
    (after v history).1.snapshot id = some seen ↔
      ∃ before since, FirstTouch id history before since ∧ (after v before).2.current id = seen := by
  constructor
  · intro noted
    obtain ⟨name, member⟩ := (snapshot_iff (keyed_after v history)).1 noted
    have held : id.key ∈ (after v history).1.observed.keys := List.mem_map_of_mem member
    obtain ⟨before, since, touch⟩ := ((mem_observed_after v history id).1 held).exists_first
    rw [snapshot_of_first touch v, Option.some.injEq] at noted
    exact ⟨before, since, touch, noted⟩
  · rintro ⟨before, since, touch, rfl⟩
    exact snapshot_of_first touch v

/-- Since its first touch a resource was counted up as often as the events say. -/
theorem current_of_first (touch : FirstTouch id history before since) (v : VersionTable) :
    (after v history).2.current id = (after v before).2.current id + since.countP (bumps id) := by
  obtain ⟨e, touched, rfl⟩ := touch.between
  rw [current_after, current_after, List.countP_append, List.countP_cons,
    AccessEvent.not_bumps_of_touches touched, Nat.add_assoc]
  rfl

/-- It stands where it stood exactly if none of them counted it up. -/
theorem current_eq_of_first_iff (touch : FirstTouch id history before since) (v : VersionTable) :
    (after v history).2.current id = (after v before).2.current id ↔
      ∀ e ∈ since, e.bumps id = false := by
  rw [current_of_first touch v, Nat.add_eq_left, List.countP_eq_zero]
  simp only [Bool.not_eq_true]

/-- **A set is valid** exactly if none of what it holds was counted up since its first touch. -/
theorem validate_after_iff (v : VersionTable) (history : List AccessEvent) :
    (after v history).1.validate (after v history).2 = true ↔
      ∀ id before since, FirstTouch id history before since → ∀ e ∈ since, e.bumps id = false := by
  rw [validate_iff (keyed_after v history)]
  constructor
  · intro valid id before since touch
    exact (current_eq_of_first_iff touch v).1 (valid id _ (snapshot_of_first touch v))
  · intro still id seen noted
    obtain ⟨before, since, touch, rfl⟩ := (snapshot_after v history id seen).1 noted
    exact (current_eq_of_first_iff touch v).2 (still id before since touch)

/-- **A resource is current** exactly if it was touched and not counted up since its first touch. -/
theorem isCurrent_after_iff (v : VersionTable) (history : List AccessEvent) (id : ResourceId) :
    (after v history).1.isCurrent (after v history).2 id = true ↔
      ∃ before since, FirstTouch id history before since ∧ ∀ e ∈ since, e.bumps id = false := by
  rw [isCurrent, beq_iff_eq, snapshot_after]
  constructor
  · rintro ⟨before, since, touch, same⟩
    exact ⟨before, since, touch, (current_eq_of_first_iff touch v).1 same.symm⟩
  · rintro ⟨before, since, touch, still⟩
    exact ⟨before, since, touch, ((current_eq_of_first_iff touch v).2 still).symm⟩

/-- **What a set remembers of any history.**  It holds the resources touched since it was last emptied,
and the marked ones of them.  A resource has the version that the table had at the first of these
touches, which is the same until the set is emptied; nobody having counted it up since then is what
makes it current, and nobody having counted up any of what is held is what makes the set valid.
Publishing counts up by one what is marked, and nothing else. -/
theorem after_remembers (v : VersionTable) (history : List AccessEvent) :
    let a := (after v history).1
    let now := (after v history).2
    (∀ id : ResourceId, id.key ∈ a.observedIds.map ResourceId.key ↔ Lately (touches id) history) ∧
      (∀ id : ResourceId, id.key ∈ a.writtenIds.map ResourceId.key ↔ Lately (marks id) history) ∧
      a.writtenIds.map ResourceId.key ⊆ a.observedIds.map ResourceId.key ∧
      (∀ id seen, a.snapshot id = some seen ↔
        ∃ before since, FirstTouch id history before since ∧ (after v before).2.current id = seen) ∧
      (∀ id seen more, a.snapshot id = some seen → .clear ∉ more →
        (after v (history ++ more)).1.snapshot id = some seen) ∧
      (∀ id, now.current id = v.current id + history.countP (bumps id)) ∧
      (a.validate now = true ↔
        ∀ id before since, FirstTouch id history before since → ∀ e ∈ since, e.bumps id = false) ∧
      (∀ id, a.isCurrent now id = true ↔
        ∃ before since, FirstTouch id history before since ∧ ∀ e ∈ since, e.bumps id = false) ∧
      (∀ id, a.isWritten id = true ↔ Lately (marks id) history) ∧
      ∀ id, (a.publish now).current id = now.current id + if a.isWritten id then 1 else 0 := by
  have keyed := keyed_after v history
  simp only [keys_observed keyed, keys_written keyed]
  refine ⟨mem_observed_after v history, mem_written_after v history, keyed.within, snapshot_after v history,
    fun _ _ _ noted kept => snapshot_after_kept noted kept, current_after v history,
    validate_after_iff v history, isCurrent_after_iff v history, fun id => ?_, current_publish keyed _⟩
  rw [isWritten, Table.contains_iff]
  exact mem_written_after v history id

end AccessSet

end Transact
