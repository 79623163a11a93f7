/-
# Transact.Proofs.Announcing -- every transaction is counted and announced once

Beside whatever is done with a manager a list is kept of the transactions it releases, each as it was
left and with whether anybody listened then (`Office.releases`).  `Accounts` say what the counters and
the deliveries have to do with that list, where of the service that delivers no more is known than
`Delivery.Attempts`.

Main statement: `Office.accounted`.  The accounts hold at every point, and what a service does with the
announcements, such as failing, changes nothing else.
-/
import Mathlib.Data.List.Perm.Basic
import Transact.Proofs.Access
import Transact.Proofs.ManagerPrograms
import Transact.Switchboard

namespace Transact

set_option autoImplicit false

variable {P W B L α : Type}

/-! ## Counting outcomes -/

/-- Whether a participant's failure made the outcome. -/
def Outcome.isFault : Outcome → Bool
  | .aborted (.moduleError _) => true
  | _ => false

/-- Every counter of outcomes says how many of `outcomes` are its own. -/
structure Stats.Tallies (s : Stats) (outcomes : List Outcome) : Prop where
  committed : s.committed = outcomes.count .committed
  validationFailed : s.validationFailed = outcomes.count (.aborted .validationFailed)
  lockFailed : s.lockFailed = outcomes.count (.aborted .lockFailed)
  requested : s.requested = outcomes.count (.aborted .requested)
  faulted : s.faulted = outcomes.countP Outcome.isFault

theorem Stats.Tallies.record {s : Stats} {outcomes : List Outcome} (tallies : s.Tallies outcomes)
    (outcome : Outcome) : (s.recordOutcome outcome).Tallies (outcomes ++ [outcome]) := by
  obtain ⟨committed, validationFailed, lockFailed, requested, faulted⟩ := tallies
  rcases outcome with _ | _ | _ | _ | _ <;>
    exact ⟨by simp [recordOutcome, committed], by simp [recordOutcome, validationFailed],
      by simp [recordOutcome, lockFailed], by simp [recordOutcome, requested],
      by simp [recordOutcome, faulted, Outcome.isFault]⟩

theorem Stats.Tallies.begin {s : Stats} {outcomes : List Outcome} (tallies : s.Tallies outcomes) :
    s.recordStarted.Tallies outcomes :=
  ⟨tallies.committed, tallies.validationFailed, tallies.lockFailed, tallies.requested,
    tallies.faulted⟩

theorem Stats.Tallies.retry {s : Stats} {outcomes : List Outcome} (tallies : s.Tallies outcomes) :
    s.recordRetry.Tallies outcomes :=
  ⟨tallies.committed, tallies.validationFailed, tallies.lockFailed, tallies.requested,
    tallies.faulted⟩

@[simp] theorem Stats.started_recordOutcome (s : Stats) (outcome : Outcome) :
    (s.recordOutcome outcome).started = s.started := by
  rcases outcome with _ | _ | _ | _ | _ <;> rfl

/-- Together the counters count every outcome. -/
theorem Stats.Tallies.ended {s : Stats} {outcomes : List Outcome} (tallies : s.Tallies outcomes) :
    s.ended = outcomes.length := by
  obtain ⟨committed, validationFailed, lockFailed, requested, faulted⟩ := tallies
  rw [Stats.ended, Stats.aborted, committed, validationFailed, lockFailed, requested, faulted]
  clear committed validationFailed lockFailed requested faulted
  induction outcomes with
  | nil => rfl
  | cons outcome rest ih =>
      rcases outcome with _ | _ | _ | _ | _ <;>
        · simp [List.countP_cons, ← ih, Outcome.isFault]
          omega

/-! ## Keys of a table -/

namespace Table

variable {κ : Type} [DecidableEq κ] {t : Table κ α} {key : κ}

theorem keys_set_of_absent (absent : t.contains key = false) (value : α) :
    (t.set key value).keys = t.keys ++ [key] := by
  rw [keys, entries_set_of_absent absent, List.map_append]
  rfl

theorem keys_set_of_get? {old : α} (found : t.get? key = some old) (value : α) :
    (t.set key value).keys = t.keys := by
  rcases t with ⟨entries⟩
  simp only [get?, set, keys] at found ⊢
  induction entries with
  | nil => cases found
  | cons e rest ih =>
      obtain ⟨k, a⟩ := e
      by_cases here : k = key
      · simp only [put, here, if_true, List.map_cons]
      · simp only [find, here, if_false] at found
        simp only [put, here, if_false, List.map_cons, ih found]

theorem keys_erase (t : Table κ α) (key : κ) : (t.erase key).keys = t.keys.filter (· ≠ key) := by
  rcases t with ⟨entries⟩
  simp only [erase, keys]
  induction entries with
  | nil => rfl
  | cons e rest ih =>
      obtain ⟨k, a⟩ := e
      by_cases here : k = key <;> simp [without, here, ih]

/-- A key is taken from the keys. -/
theorem perm_keys_erase (once : t.keys.Nodup) {value : α} (found : t.get? key = some value) :
    t.keys.Perm ((t.erase key).keys ++ [key]) := by
  have member : key ∈ t.keys := (contains_iff t key).1 (by rw [contains, found]; rfl)
  have erased : (t.erase key).keys = t.keys.erase key := by
    rw [keys_erase, once.erase_eq_filter]
    exact List.filter_congr fun k _ => by by_cases here : k = key <;> simp [here]
  rw [erased]
  exact (List.perm_cons_erase member).trans (List.perm_append_singleton ..).symm

end Table

/-! ## Releases -/

/-- A transaction that was released. -/
structure Release (P : Type) where
  /-- As the call that released it left it. -/
  transaction : Transaction P
  /-- The domains of those who took part. -/
  participants : List Domain
  /-- Whether anybody listened then. -/
  heard : Bool

/-- What is to be announced of a release. -/
def Release.notice (r : Release P) : Option TxEvent :=
  r.transaction.outcome.map fun outcome =>
    { tx := r.transaction.id, outcome, roster := r.participants }

/-- What is to be announced of releases, where anybody listened. -/
def Release.notices (releases : List (Release P)) : List TxEvent :=
  (releases.filter (·.heard)).filterMap Release.notice

/-! ## Accounts -/

/-- What counters and deliveries have to do with the transactions released so far, where `before` were
attempted already. -/
structure Accounts (attempted : B → List TxEvent) (before : List TxEvent) (o : Office P W B)
    (releases : List (Release P)) : Prop where
  working : ∀ n t, o.pending.get? n = some t → t.id.serial = n ∧ t.AtWork
  released : ∀ r ∈ releases, r.transaction.phase = .released ∧ r.transaction.outcome ≠ none ∧
    r.transaction.roster = r.participants
  serial : o.manager.serial = o.manager.stats.started
  /-- Every transaction begun is pending or was released, and that once. -/
  begun : (o.pending.keys ++ releases.map (·.transaction.id.serial)).Perm
    (List.range' 1 o.manager.stats.started)
  /-- Each of them was counted where its outcome belongs. -/
  counted : o.manager.stats.Tallies (releases.filterMap (·.transaction.outcome))
  /-- Each that was heard of was published once, as it was left, one after another. -/
  announced : attempted o.manager.bus = before ++ Release.notices releases

namespace Accounts

variable {attempted : B → List TxEvent} {before : List TxEvent} {o : Office P W B}
  {releases : List (Release P)}

/-- **What was begun and is not released is counted as nothing else.** -/
theorem balance (accounts : Accounts attempted before o releases) :
    o.manager.stats.started = o.manager.stats.ended + o.pending.size := by
  have outcomes : (releases.filterMap (·.transaction.outcome)).length = releases.length := by
    rw [List.length_filterMap_eq_countP, List.countP_eq_length]
    intro r member
    exact Option.isSome_iff_ne_none.2 (accounts.released r member).2.1
  have begun := accounts.begun.length_eq
  rw [List.length_append, List.length_map, List.length_range', ← outcomes,
    ← accounts.counted.ended] at begun
  have size : o.pending.keys.length = o.pending.size := List.length_map ..
  omega

/-- A number above that of the last transaction begun is free. -/
theorem unused (accounts : Accounts attempted before o releases) {n : Nat} (above : o.manager.serial < n) :
    o.pending.contains n = false := by
  rw [← Bool.not_eq_true, Table.contains_iff]
  intro member
  have known := accounts.begun.subset (List.mem_append_left _ member)
  have bounds := List.mem_range'_1.1 known
  have serial := accounts.serial
  omega

/-- One more transaction is begun. -/
theorem beginning (accounts : Accounts attempted before o releases) {m : Manager W B} {t : Transaction P}
    (serial : m.serial = o.manager.serial + 1) (stats : m.stats = o.manager.stats.recordStarted)
    (told : attempted m.bus = attempted o.manager.bus) (own : t.id.serial = m.serial) (work : t.AtWork) :
    Accounts attempted before { manager := m, pending := o.pending.set m.serial t } releases where
  working := Office.Sound.set accounts.working m own work
  released := accounts.released
  serial := by rw [serial, stats, accounts.serial]; rfl
  begun := by
    have free := accounts.unused (n := m.serial) (by omega)
    have more : List.range' 1 m.stats.started =
        List.range' 1 o.manager.stats.started ++ [m.serial] := by
      rw [stats, serial, accounts.serial, Nat.add_comm _ 1]
      exact List.range'_1_concat ..
    rw [Table.keys_set_of_absent free, more, List.append_assoc]
    refine (List.perm_append_comm.append_left _).trans ?_
    rw [← List.append_assoc]
    exact accounts.begun.append_right _
  counted := stats ▸ accounts.counted.begin
  announced := told.trans accounts.announced

/-- Nothing is begun or released, and nobody is told anything. -/
theorem idle (accounts : Accounts attempted before o releases) {m : Manager W B}
    (serial : m.serial = o.manager.serial)
    (started : m.stats.started = o.manager.stats.started)
    (counted : m.stats.Tallies (releases.filterMap (·.transaction.outcome)))
    (told : attempted m.bus = attempted o.manager.bus) :
    Accounts attempted before { manager := m, pending := o.pending } releases where
  working := accounts.working
  released := accounts.released
  serial := serial.trans (accounts.serial.trans started.symm)
  begun := started ▸ accounts.begun
  counted := counted
  announced := told.trans accounts.announced

variable {n : Nat} {t : Transaction P}

/-- A pending transaction goes on. -/
theorem going (accounts : Accounts attempted before o releases) (found : o.pending.get? n = some t)
    {t' : Transaction P} (id : t'.id = t.id) (work : t'.AtWork) (world : W) :
    Accounts attempted before { manager := { o.manager with world }, pending := o.pending.set n t' }
      releases where
  working := Office.Sound.set accounts.working _ (id ▸ (accounts.working n t found).1) work
  released := accounts.released
  serial := accounts.serial
  begun := (Table.keys_set_of_get? found t').symm ▸ accounts.begun
  counted := accounts.counted
  announced := accounts.announced

/-- A pending transaction is released, counted and announced. -/
theorem ending [Delivery B L TxEvent] (accounts : Accounts attempted before o releases)
    (attempts : Delivery.Attempts attempted) (found : o.pending.get? n = some t)
    (visited : List Phase) (outcome : Outcome) (world : W) :
    Accounts attempted before
      { manager :=
          { o.manager with
            world
            stats := o.manager.stats.recordOutcome outcome
            bus := (EventBus.publish (t.notice outcome) o.manager.bus).2 }
        pending := o.pending.erase n }
      (releases ++ [⟨t.ended visited outcome, domainsOf t.members,
        EventBus.hasListeners o.manager.bus⟩]) where
  working := Office.Sound.erase accounts.working _ n
  released := by
    intro r member
    rcases List.mem_append.1 member with past | now
    · exact accounts.released r past
    · rw [List.mem_singleton.1 now]
      exact ⟨rfl, Option.some_ne_none outcome, (accounts.working n t found).2.roster⟩
  serial := accounts.serial.trans (Stats.started_recordOutcome ..).symm
  begun := by
    have once : o.pending.keys.Nodup :=
      (List.nodup_append.1 (accounts.begun.nodup_iff.2 List.nodup_range')).1
    have own : (t.ended visited outcome).id.serial = n := (accounts.working n t found).1
    rw [Stats.started_recordOutcome, List.map_append]
    refine List.Perm.trans ?_ accounts.begun
    refine List.Perm.trans ?_ ((Table.perm_keys_erase once found).append_right _).symm
    rw [List.append_assoc, List.map_singleton, own]
    exact List.perm_append_comm.append_left _
  counted := by
    rw [List.filterMap_append]
    exact accounts.counted.record outcome
  announced := by
    have roster : t.roster = domainsOf t.members := (accounts.working n t found).2.roster
    rw [attempts.published, accounts.announced, List.append_assoc, Transaction.notice, roster]
    simp only [Release.notices, List.filter_append, List.filterMap_append]
    cases EventBus.hasListeners o.manager.bus <;> rfl

/-- Nothing was done yet. -/
theorem start (world : W) (config : Config) (bus : B) :
    Accounts attempted (attempted bus) ({ manager := { world, config, bus } } : Office P W B) [] where
  working n t found := by cases found
  released r member := by cases member
  serial := rfl
  begun := .refl _
  counted := ⟨rfl, rfl, rfl, rfl, rfl⟩
  announced := (List.append_nil _).symm

end Accounts

/-! ## Releasing -/

section Uses

variable [Delivery B L TxEvent] [Participant P W]

namespace Office

/-- The pending transaction that a dealing releases. -/
def releasedBy (o : Office P W B) : Dealing P W L → Option (Release P)
  | .use n use =>
      match o.pending.get? n with
      | none => none
      | some t =>
          let left := (use.perform t o.manager.world).2.1
          if left.phase = .released then
            some
              { transaction := left
                participants := domainsOf t.members
                heard := EventBus.hasListeners o.manager.bus }
          else none
  | _ => none

/-- The transactions that dealings release, in this order. -/
def releases (o : Office P W B) : List (Dealing P W L) → List (Release P)
  | [] => []
  | d :: rest => (o.releasedBy d).toList ++ (o.deal d).2.releases rest

end Office

namespace Accounts

variable {attempted : B → List TxEvent} {before : List TxEvent} {o : Office P W B}
  {releases : List (Release P)}

/-- A use of a pending transaction. -/
theorem use (accounts : Accounts attempted before o releases)
    (attempts : Delivery.Attempts attempted) (n : Nat) (use : Use P W) :
    Accounts attempted before (o.deal (.use n use)).2 (releases ++ (o.releasedBy (.use n use)).toList) := by
  cases found : o.pending.get? n with
  | none =>
      simp only [Office.deal_use_gone found, Office.releasedBy, found, Option.toList_none,
        List.append_nil]
      exact accounts
  | some t =>
      obtain ⟨serial, work⟩ := accounts.working n t found
      have came := use.through work o.manager
      have same : (use.perform t o.manager.world).2.1 =
          (o.manager.through t fun t w => use.perform t w).2.1 := rfl
      simp only [Office.deal, Office.find_of_get? found, Office.releasedBy, found, same]
      generalize o.manager.through t (fun t w => use.perform t w) = r at came
      obtain ⟨reply, t', m⟩ := r
      simp only at came ⊢
      cases came with
      | still id stays world =>
          rw [if_neg stays.unreleased, if_neg stays.unreleased]
          rw [Option.toList_none, List.append_nil]
          exact accounts.going found id stays world
      | ended visited outcome world =>
          have left : (t.ended visited outcome).phase = .released := rfl
          rw [if_pos left, if_pos left]
          exact accounts.ending attempts found visited outcome world

/-- **Every dealing keeps the accounts**, and what it releases is one more release. -/
theorem deal (accounts : Accounts attempted before o releases)
    (attempts : Delivery.Attempts attempted) (d : Dealing P W L) :
    Accounts attempted before (o.deal d).2 (releases ++ (o.releasedBy d).toList) := by
  have nothing : releases = releases ++ (none : Option (Release P)).toList :=
    (List.append_nil _).symm
  cases d with
  | begin label => exact nothing ▸ accounts.beginning rfl rfl rfl rfl ⟨rfl, rfl, rfl, rfl⟩
  | enter => exact nothing ▸ accounts.beginning rfl rfl rfl rfl ⟨rfl, rfl, rfl, rfl⟩
  | use n use => exact accounts.use attempts n use
  | retry => exact nothing ▸ accounts.idle rfl rfl accounts.counted.retry rfl
  | outside f => exact nothing ▸ accounts.idle rfl rfl accounts.counted rfl
  | subscribe listener =>
      exact nothing ▸ accounts.idle rfl rfl accounts.counted (attempts.subscribe listener _)
  | unsubscribe number =>
      exact nothing ▸ accounts.idle rfl rfl accounts.counted (attempts.unsubscribe number _)
  | close => exact nothing ▸ accounts.idle rfl rfl accounts.counted (attempts.clear _)

theorem perform (accounts : Accounts attempted before o releases)
    (attempts : Delivery.Attempts attempted) (dealings : List (Dealing P W L)) :
    Accounts attempted before (o.perform dealings) (releases ++ o.releases dealings) := by
  induction dealings generalizing o releases with
  | nil => exact (List.append_nil _).symm ▸ accounts
  | cons d rest ih =>
      rw [Office.releases, ← List.append_assoc]
      exact ih (accounts.deal attempts d)

end Accounts

end Uses

/-! ## Other services -/

variable {B' L' : Type}

/-- The same with `g l` in the place of a listener `l`. -/
def Dealing.readdress (g : L → L') : Dealing P W L → Dealing P W L'
  | .begin label => .begin label
  | .enter => .enter
  | .use n call => .use n call
  | .retry => .retry
  | .outside f => .outside f
  | .subscribe listener => .subscribe (g listener)
  | .unsubscribe number => .unsubscribe number
  | .close => .close

def Errand.readdress (g : L → L') : Errand P W L α → Errand P W L' α
  | .done a => .done a
  | .look next => .look fun o => (next o).readdress g
  | .deal d next => .deal (d.readdress g) fun r => (next r).readdress g

namespace Errand

variable {β : Type} (g : L → L')

theorem readdress_bind (errand : Errand P W L α) (f : α → Errand P W L β) :
    (errand >>= f).readdress g = errand.readdress g >>= fun a => (f a).readdress g := by
  show (errand.bind f).readdress g = (errand.readdress g).bind _
  induction errand with
  | done a => rfl
  | look next ih => exact congrArg Errand.look (funext ih)
  | deal d next ih => exact congrArg (Errand.deal _) (funext ih)

theorem readdress_use (n : Nat) (use : Use P W) :
    (Errand.use n use).readdress g = Errand.use n use := by
  refine congrArg (Errand.deal _) (funext fun r => ?_)
  cases r <;> rfl

theorem readdress_conclude (own : Nat) (answer : Except Error α) :
    (conclude own answer : Errand P W L (Manager.Attempt α)).readdress g = conclude own answer := by
  cases answer with
  | ok value =>
      simp only [conclude, readdress_bind, readdress_use]
      rfl
  | error e =>
      simp only [conclude, readdress_bind]
      refine congrArg (isPending own >>= ·) (funext fun pending => ?_)
      cases pending with
      | false => rfl
      | true =>
          simp only [if_true, readdress_bind, readdress_use]
          rfl

variable (body : Nat → Nat → Errand P W L (Except Error α))

theorem readdress_runFrom (retries k : Nat) :
    (runFrom body retries k).readdress g = runFrom (fun k own => (body k own).readdress g) retries k := by
  have attempt (k : Nat) :
      (attempt body k).readdress g = attempt (fun k own => (body k own).readdress g) k := by
    simp only [Errand.attempt, readdress_bind, readdress_conclude]
    rfl
  induction retries generalizing k with
  | zero =>
      rw [runFrom, runFrom, readdress_bind, attempt]
      refine congrArg (_ >>= ·) (funext fun now => ?_)
      split <;> rfl
  | succ retries ih =>
      rw [runFrom, runFrom, readdress_bind, attempt]
      refine congrArg (_ >>= ·) (funext fun now => ?_)
      split
      · rw [readdress_bind]
        exact congrArg (retry >>= ·) (funext fun _ => ih (k + 1))
      · rfl

/-- A run with other listeners is a run of the body with other listeners. -/
theorem readdress_run :
    (run body).readdress g = run fun k own => (body k own).readdress g :=
  congrArg Errand.look (funext fun _ => readdress_runFrom g body _ 0)

end Errand

/-- As far as `R` relates two services, they answer all but publishing alike, where `g l` registers with
one when `l` does with the other.  What comes of publishing may differ. -/
structure EventBus.Alike [Delivery B L TxEvent] [Delivery B' L' TxEvent] (g : L → L')
    (R : B → B' → Prop) : Prop where
  register : ∀ listener b b', R b b' →
    (EventBus.register (g listener) b').1 = (EventBus.register listener b).1 ∧
      R (EventBus.register listener b).2 (EventBus.register (g listener) b').2
  deregister : ∀ number b b', R b b' →
    (EventBus.deregister number b').1 = (EventBus.deregister number b).1 ∧
      R (EventBus.deregister number b).2 (EventBus.deregister number b').2
  close : ∀ b b', R b b' →
    (EventBus.close b').1 = (EventBus.close b).1 ∧ R (EventBus.close b).2 (EventBus.close b').2
  publish : ∀ event b b', R b b' →
    R (EventBus.publish event b).2 (EventBus.publish event b').2

section Alike

variable [Delivery B L TxEvent] [Delivery B' L' TxEvent]

namespace Manager

/-- The end of a transaction does the same to a manager with another service, the service apart. -/
theorem reportEnd_bus (m : Manager W B) (bus : B') (t t' : Transaction P) :
    let m' : Manager W B' := { m with bus }
    m'.reportEnd t t' = { m.reportEnd t t' with bus := (m'.reportEnd t t').bus } := by
  unfold reportEnd
  split
  · unfold report
    split <;> rfl
  · rfl

/-- So does every call of a transaction, and it is answered the same. -/
theorem through_bus {β : Type} (m : Manager W B) (bus : B') (t : Transaction P)
    (call : Transaction P → W → β × Transaction P × W) :
    let r := m.through t call
    let r' := ({ m with bus } : Manager W B').through t call
    r' = (r.1, r.2.1, { r.2.2 with bus := r'.2.2.bus }) := by
  intro r r'
  refine congrArg (Prod.mk _) (congrArg (Prod.mk _) ?_)
  exact reportEnd_bus { m with world := (call t m.world).2.2 } bus t (call t m.world).2.1

/-- Services that are alike stay so when a transaction ends. -/
theorem reportEnd_alike {g : L → L'} {R : B → B' → Prop} (alike : EventBus.Alike g R)
    {m : Manager W B} {m' : Manager W B'} (related : R m.bus m'.bus) (t t' : Transaction P) :
    R (m.reportEnd t t').bus (m'.reportEnd t t').bus := by
  unfold reportEnd
  split
  · unfold report
    split
    · exact alike.publish _ _ _ related
    · exact related
  · exact related

theorem through_alike {β : Type} {g : L → L'} {R : B → B' → Prop} (alike : EventBus.Alike g R)
    {m : Manager W B} {bus : B'} (related : R m.bus bus) (t : Transaction P)
    (call : Transaction P → W → β × Transaction P × W) :
    R (m.through t call).2.2.bus (({ m with bus } : Manager W B').through t call).2.2.bus := by
  let after : Manager W B := { m with world := (call t m.world).2.2 }
  exact reportEnd_alike alike (show R after.bus ({ after with bus } : Manager W B').bus from related)
    t (call t m.world).2.1

end Manager

namespace Office

omit [Delivery B L TxEvent] [Delivery B' L' TxEvent] in
/-- What looks the same is the same with another service. -/
theorem eq_of_sight {o : Office P W B} {o' : Office P W B'} (same : o'.sight = o.sight) :
    o' = { manager := { o.manager with bus := o'.manager.bus }, pending := o.pending } := by
  rcases o with ⟨⟨world, config, stats, bus, serial, attempts⟩, pending⟩
  rcases o' with ⟨⟨world', config', stats', bus', serial', attempts'⟩, pending'⟩
  simp only [sight, Office.mk.injEq, Manager.mk.injEq, true_and] at same
  obtain ⟨⟨rfl, rfl, rfl, rfl, rfl⟩, rfl⟩ := same
  rfl

variable [Participant P W] {o : Office P W B} {o' : Office P W B'}

/-- **The service has no bearing on the rest**: a dealing leaves the rest as it would with another one,
and releases the same transaction. -/
theorem deal_sight (same : o'.sight = o.sight) (g : L → L') (d : Dealing P W L) :
    (o'.deal (d.readdress g)).2.sight = (o.deal d).2.sight ∧
      (o'.releasedBy (d.readdress g)).map (·.transaction) =
        (o.releasedBy d).map (·.transaction) := by
  rw [eq_of_sight same]
  generalize o'.manager.bus = bus
  cases d with
  | use n use =>
      have called := o.manager.through_bus bus (o.find n) fun t w => use.perform t w
      have found : ({ manager := { o.manager with bus }, pending := o.pending } :
          Office P W B').find n = o.find n := rfl
      constructor
      · simp only [Dealing.readdress, Office.deal, found]
        rw [called]
        rfl
      · simp only [Dealing.readdress, Office.releasedBy]
        cases o.pending.get? n with
        | none => rfl
        | some t =>
            simp only
            split <;> rfl
  | _ => exact ⟨rfl, rfl⟩

/-- Services that are alike answer a dealing alike, and stay so. -/
theorem deal_alike {g : L → L'} {R : B → B' → Prop} (alike : EventBus.Alike g R)
    (same : o'.sight = o.sight) (related : R o.manager.bus o'.manager.bus) (d : Dealing P W L) :
    (o'.deal (d.readdress g)).1 = (o.deal d).1 ∧
      R (o.deal d).2.manager.bus (o'.deal (d.readdress g)).2.manager.bus := by
  rw [eq_of_sight same]
  generalize o'.manager.bus = bus at related
  cases d with
  | use n use =>
      have called := o.manager.through_bus bus (o.find n) fun t w => use.perform t w
      have found : ({ manager := { o.manager with bus }, pending := o.pending } :
          Office P W B').find n = o.find n := rfl
      constructor
      · simp only [Dealing.readdress, Office.deal, found]
        rw [called]
      · exact Manager.through_alike alike related (o.find n) fun t w => use.perform t w
  | subscribe listener =>
      obtain ⟨answer, after⟩ := alike.register listener _ _ related
      exact ⟨congrArg Response.number answer, after⟩
  | unsubscribe number =>
      obtain ⟨answer, after⟩ := alike.deregister number _ _ related
      exact ⟨congrArg Response.result answer, after⟩
  | close =>
      obtain ⟨answer, after⟩ := alike.close _ _ related
      exact ⟨congrArg Response.result answer, after⟩
  | _ => exact ⟨rfl, related⟩

/-- All of a sequence of dealings. -/
theorem perform_sight (same : o'.sight = o.sight) (g : L → L') (dealings : List (Dealing P W L)) :
    (o'.perform (dealings.map (·.readdress g))).sight = (o.perform dealings).sight ∧
      (o'.releases (dealings.map (·.readdress g))).map (·.transaction) =
        (o.releases dealings).map (·.transaction) := by
  induction dealings generalizing o o' with
  | nil => exact ⟨same, rfl⟩
  | cons d rest ih =>
      obtain ⟨after, now⟩ := deal_sight same g d
      obtain ⟨last, later⟩ := ih after
      refine ⟨last, ?_⟩
      simp only [List.map_cons, Office.releases, List.map_append, later]
      rw [← Option.toList_map, now, Option.toList_map]

/-- An errand notices nothing of which service there is, if it answers alike. -/
theorem exec_alike {g : L → L'} {R : B → B' → Prop} (alike : EventBus.Alike g R)
    (same : o'.sight = o.sight) (related : R o.manager.bus o'.manager.bus)
    (errand : Errand P W L α) :
    ((errand.readdress g).exec o').1 = (errand.exec o).1 ∧
      (errand.readdress g).dealings o' = (errand.dealings o).map (·.readdress g) := by
  induction errand generalizing o o' with
  | done a => exact ⟨rfl, rfl⟩
  | look next ih =>
      simp only [Errand.readdress, Errand.exec, Errand.dealings, same]
      exact ih _ same related
  | deal d next ih =>
      obtain ⟨answer, after⟩ := deal_alike alike same related d
      obtain ⟨last, rest⟩ := ih (o.deal d).1 (deal_sight same g d).1 after
      simp only [Errand.readdress, Errand.exec, Errand.dealings, answer, List.map_cons, rest]
      exact ⟨last, trivial⟩

end Office

end Alike

/-! ## Everything together -/

variable [Delivery B L TxEvent] [Participant P W]

/-- **Every transaction is counted and announced once.**  Of the service that delivers no more is known
than that publishing to listeners is one attempt to deliver.  Whatever is done with a new manager, and at
every point of it: what was begun and did not end in one of the five counters is what is not released;
every transaction that was released was counted where its outcome belongs, and where anybody listened one
delivery of it was attempted, as it was left and in the order of the releases.  With any other service,
such as one that fails, the same comes of it in every other respect.

That is so for programs too, which do one thing after another as they see fit, with the runs of the
manager among what they do.  A program cannot tell two services apart either that answer registrations
alike. -/
theorem Office.accounted {attempted : B → List TxEvent} (attempts : Delivery.Attempts attempted)
    (world : W) (config : Config) (bus : B) :
    let start : Office P W B := { manager := { world, config, bus } }
    (∀ dealings : List (Dealing P W L),
      let o := start.perform dealings
      let s := o.manager.stats
      Accounts attempted (attempted bus) o (start.releases dealings) ∧
      s.started = s.committed + s.validationFailed + s.lockFailed + s.requested + s.faulted +
        o.pending.size ∧
      ∀ (B' L' : Type) [Delivery B' L' TxEvent] (bus' : B') (g : L → L'),
        let other : Office P W B' := { manager := { world, config, bus := bus' } }
        (other.perform (dealings.map (·.readdress g))).sight = o.sight ∧
        (other.releases (dealings.map (·.readdress g))).map (·.transaction) =
          (start.releases dealings).map (·.transaction)) ∧
    (∀ errand : Errand P W L α,
      (errand.exec start).2 = start.perform (errand.dealings start) ∧
      ∀ (B' L' : Type) [Delivery B' L' TxEvent] (bus' : B') (g : L → L') (R : B → B' → Prop),
        EventBus.Alike g R → R bus bus' →
        let other : Office P W B' := { manager := { world, config, bus := bus' } }
        ((errand.readdress g).exec other).1 = (errand.exec start).1 ∧
        (errand.readdress g).dealings other = (errand.dealings start).map (·.readdress g)) ∧
    ∀ (dealings : List (Dealing P W L)) (body : Nat → Nat → Errand P W L (Except Error α)),
      let o := start.perform dealings
      let r := (Errand.run body).exec o
      Manager.run (Errand.asBody body) o.manager o.pending = (r.1, r.2.manager, r.2.pending) ∧
      ∀ (L' : Type) (g : L → L'),
        (Errand.run body).readdress g = Errand.run fun k own => (body k own).readdress g := by
  intro start
  have new : Accounts attempted (attempted bus) start [] := .start world config bus
  have same (B' : Type) (bus' : B') :
      ({ manager := { world, config, bus := bus' } } : Office P W B').sight = start.sight := rfl
  refine ⟨fun dealings => ?_, fun errand => ⟨errand.exec_dealings start, ?_⟩, fun dealings body => ?_⟩
  · have accounts := new.perform attempts dealings
    refine ⟨accounts, ?_, fun B' L' _ bus' g => Office.perform_sight (same B' bus') g dealings⟩
    have balance := accounts.balance
    simp only [Stats.ended, Stats.aborted] at balance ⊢
    omega
  · exact fun B' L' _ bus' g R alike related => Office.exec_alike alike (same B' bus') related errand
  · exact ⟨Errand.run_exec body (new.perform attempts dealings).working,
      fun L' g => Errand.readdress_run g body⟩

/-- Switchboards alike but for what was told, with `g l` in the place of a listener `l`. -/
structure Switchboard.Rewired {E : Type} (g : Listener → Listener) (s s' : Switchboard E) : Prop where
  listeners : s'.listeners = s.listeners.map fun entry => (entry.1, g entry.2)
  next : s'.next = s.next
  known : s'.known = s.known

/-- Which listeners fail has no bearing on what a switchboard answers but to publishing. -/
theorem Switchboard.alike (g : Listener → Listener) :
    EventBus.Alike g (Rewired g : Switchboard TxEvent → Switchboard TxEvent → Prop) where
  register listener s s' := by
    rintro ⟨listeners, next, known⟩
    refine ⟨congrArg Except.ok next, ?_, congrArg (· + 1) next, rfl⟩
    simp only [EventBus.register, EventBus.answer, Delivery.subscribe, listeners, next,
      List.map_append, List.map_singleton]
  deregister number s s' := by
    rintro ⟨listeners, next, known⟩
    simp only [EventBus.deregister, EventBus.answer, Delivery.unsubscribe, known]
    split
    · exact ⟨rfl, by simp only [listeners, List.filter_map]; rfl, next, rfl⟩
    · exact ⟨rfl, listeners, next, known⟩
  close s s' := by
    rintro ⟨listeners, next, known⟩
    exact ⟨rfl, rfl, next, rfl⟩
  publish event s s' := by
    rintro ⟨listeners, next, known⟩
    have heard : EventBus.hasListeners s' = EventBus.hasListeners s := by
      simp only [EventBus.hasListeners, Delivery.count, known, listeners, List.length_map]
    simp only [EventBus.publish, heard]
    split
    · exact ⟨listeners, next, known⟩
    · exact ⟨listeners, next, known⟩

/-- A listener that never fails. -/
def Listener.calmed (listener : Listener) : Listener := { listener with fault := none }

/-- Two listeners are registered, of which the first fails, and a transaction commits. -/
def unheeded : Errand Builtin World Listener Unit :=
  .deal (.subscribe { name := "first", fault := some (.busy (.named "desk")) }) fun _ =>
    .deal (.subscribe { name := "second" }) fun _ =>
      .deal (.begin "transfer") fun _ => .deal (.use 1 .commit) fun _ => .done ()

/-- One delivery is attempted, of which the second listener hears nothing; the transaction is committed and
counted, as it is where no listener fails. -/
theorem Office.accounted_unheeded :
    let start : Office Builtin World (Switchboard TxEvent) := { manager := { world := {}, bus := {} } }
    let o := start.perform (unheeded.dealings start)
    let notice : TxEvent := { tx := ⟨1, "transfer"⟩, outcome := .committed, roster := [] }
    Delivery.Attempts (Switchboard.attempted : Switchboard TxEvent → List TxEvent) ∧
      o.manager.bus.attempted = [notice] ∧ o.manager.bus.told = [("first", notice)] ∧
      o.manager.stats = { started := 1, committed := 1 } ∧ o.pending.size = 0 ∧
      (start.perform ((unheeded.dealings start).map (·.readdress Listener.calmed))).sight = o.sight ∧
      (unheeded.readdress Listener.calmed).dealings start =
        (unheeded.dealings start).map (·.readdress Listener.calmed) := by
  intro start o notice
  obtain ⟨dealings, errands, -⟩ :=
    accounted (P := Builtin) (α := Unit) Switchboard.attempts ({} : World) {} {}
  obtain ⟨accounts, -, other⟩ := dealings (unheeded.dealings start)
  have attempted : o.manager.bus.attempted = Release.notices (start.releases (unheeded.dealings start)) :=
    accounts.announced
  have noticed : Release.notices (start.releases (unheeded.dealings start)) = [notice] := by
    decide +kernel
  have calm := (errands unheeded).2 (Switchboard TxEvent) Listener {} Listener.calmed
    (Switchboard.Rewired Listener.calmed) (Switchboard.alike Listener.calmed) ⟨rfl, rfl, rfl⟩
  exact ⟨Switchboard.attempts, attempted.trans noticed, by decide +kernel, by decide +kernel,
    by decide +kernel, (other (Switchboard TxEvent) Listener {} Listener.calmed).1, calm.2⟩

end Transact
