/-
# Transact.Proofs.Unlinking -- what a committed removal leaves

Unlinking a path removes the entry that the path itself names: a link in last place is not followed.
A removal that is put off unlinks the path of the resource, where every link was followed, so it is
about another entry where the path names a link that leads somewhere.  And where the canonical search
finds the directory of a path but the location is too long for a call, nothing is unlinked.
`Files.Misses` is these two cases; in all others the resource is unlinked as the path would be
(`Filesystem.unlink_resource`), and a commit leaves what unlinking leaves (`FilingCall.run_remove`).
-/
import Transact.Proofs.Fulfilling

namespace Transact

set_option autoImplicit false

/-! ## Names and their entries -/

namespace Filesystem

variable {fs : Filesystem} {path : String} {directory at_ : Location} {name : String} {e : Entry}

/-- A place where a search through every link can end. -/
def Place.Unlinked : Place → Prop
  | .here _ => True
  | .entry _ _ found _ => ∀ target, found ≠ some (.link target)

theorem Walk.unlinked {onLink : Rest → Except Errno Place} {slash : Bool} {names : List String}
    {place : Place} (walk : Walk fs onLink slash directory names place)
    (behind : ∀ r, onLink r = .ok place → place.Unlinked) : place.Unlinked := by
  induction walk with
  | here => trivial
  | dot _ ih => exact ih behind
  | dots _ ih => exact ih behind
  | last _ _ unlinked => exact unlinked
  | lastLink _ _ onward => exact behind _ onward
  | down _ _ _ ih => exact ih behind
  | link _ _ onward => exact behind _ onward

theorem unlinked_of_follow (links : Nat) {r : Rest} {place : Place}
    (led : fs.follow .follow links r = .ok place) : place.Unlinked := by
  induction links generalizing r with
  | zero =>
      rw [follow_eq] at led
      exact (walk_of_followWith (Or.inl rfl) led).unlinked fun _ tooMany => by cases tooMany
  | succ links ih =>
      rw [follow_eq] at led
      exact (walk_of_followWith (Or.inl rfl) led).unlinked fun _ onward => ih onward

/-- Where a path names an entry itself, every search that does not go on from there ends there. -/
theorem follow_of_name (sound : fs.Sound) {ending : Ending}
    (resolved : fs.resolve .name path = .ok (.entry directory name (some e) false))
    (canonical : ending ≠ .canonical)
    (stays : ending.follows false = false ∨ ∀ target, e ≠ .link target) :
    fs.follow ending maxLinks (fs.restOf path) = .ok (.entry directory name (some e) false) := by
  obtain ⟨led, -⟩ := resolve_eq_restOf (by decide) resolved
  obtain ⟨⟨names, split, descent, dot, dots⟩, stands, slash⟩ := stopsAt_of_follow (by rfl) led
  have short := (sound.above (stands ▸ Option.some_ne_none e)).2.plain.2.2
  have last (onLink : Rest → Except Errno Place) :
      fs.followWith ending onLink false directory [name] = .ok (.entry directory name (some e) false) := by
    rw [followWith_last ⟨dot, dots, short⟩ (fun _ => rfl) (fun same => absurd same canonical), ← stands]
    rcases e with _ | inode | target
    · rfl
    · rfl
    · rcases stays with follows | unlinked
      · simp only [follows, Bool.false_eq_true, if_false]
      · exact absurd rfl (unlinked target)
  have lands := descent.lands sound (fun same => absurd same canonical) (sound.restOf path) last
  rw [← split] at lands
  rw [← lands, slash]

/-- What is named itself is found without following it. -/
theorem names_of_name (sound : fs.Sound) (nul : hasNul path = false)
    (resolved : fs.resolve .name path = .ok (.entry directory name (some e) false)) :
    fs.names path = true := by
  obtain ⟨-, ways⟩ := resolve_eq_restOf (by decide) resolved
  have stay : fs.resolve .stay path = .ok (.entry directory name (some e) false) :=
    (ways .stay).trans (follow_of_name sound resolved (by decide) (Or.inl rfl))
  rcases e with _ | inode | target <;>
    simp only [names, nul, find, stay, Bool.false_eq_true, if_false] <;> rfl

/-- The canonical location of what is no link is its own. -/
theorem canonical?_of_name (sound : fs.Sound)
    (resolved : fs.resolve .name path = .ok (.entry directory name (some e) false))
    (unlinked : ∀ target, e ≠ .link target) (canonical : fs.canonical? path = some at_) :
    at_ = directory ++ [name] := by
  obtain ⟨-, ways⟩ := resolve_eq_restOf (by decide) resolved
  have found : fs.find .follow path = .ok (directory ++ [name], e) := by
    rw [find, ways, follow_of_name sound resolved (by decide) (Or.inr unlinked)]
    rcases e with _ | inode | target
    · rfl
    · rfl
    · exact absurd rfl (unlinked target)
  exact (canonical?_unique canonical found).symm

/-- The canonical location of a link is elsewhere. -/
theorem canonical?_of_link (sound : fs.Sound) {target : String}
    (stands : fs.entry? at_ = some (.link target)) : fs.canonical? path ≠ some at_ := by
  intro canonical
  obtain ⟨-, e, place, found, followed, resolved⟩ := canonical?_eq_some canonical
  have there := stands_of_find sound (Or.inr rfl) found
  obtain rfl : e = .link target := Option.some.inj (there.symm.trans stands)
  have unlinked := unlinked_of_follow maxLinks (follow_canonical maxLinks followed)
  rw [find, resolved] at found
  rcases place with directory | ⟨directory, name, _ | ⟨_ | inode | target'⟩, slash⟩
  · cases found
  · cases found
  · cases found
  · cases slash <;> cases found
  · exact unlinked target' rfl

end Filesystem

/-- The removal put off for `path`, which names `e` at `own`, is not that of `e`: a link that leads
somewhere stands for what it leads to, and what the resource spells may be too long for a call. -/
def Files.Misses (fs : Filesystem) (path : String) (own : Location) (e : Entry) : Prop :=
  (∃ target, e = .link target) ∧ fs.canonical? path ≠ none ∨
    Files.resourcePath fs path = Path.ofNames own ∧ Filesystem.tooDeep own = true

namespace Filesystem

variable {fs left : Filesystem} {path : String}

/-- In a roomy tree only links that lead somewhere are missed. -/
theorem Roomy.misses_iff (roomy : fs.Roomy) (sound : fs.Sound) {own : Location} {e : Entry}
    (stands : fs.entry? own = some e) :
    Files.Misses fs path own e ↔ (∃ target, e = .link target) ∧ fs.canonical? path ≠ none := by
  have shallow := roomy.shallow (sound.placed own e stands)
  simp only [Files.Misses, shallow, Bool.false_eq_true, and_false, or_false]

variable {directory : Location} {name : String} {own : Location} {e : Entry}

/-- What is missed is there afterwards. -/
theorem entry?_of_misses (sound : fs.Sound) (stands : fs.entry? own = some e)
    (misses : Files.Misses fs path own e) {files : Filesystem}
    (done : fs.unlink (Files.resourcePath fs path) = .ok files) : files.entry? own = some e := by
  rcases misses with ⟨⟨target, rfl⟩, somewhere⟩ | ⟨kept, deep⟩
  · -- What the link leads to is gone, and the link is not.
    obtain ⟨there, canonical⟩ := Option.ne_none_iff_exists'.1 somewhere
    obtain ⟨-, e', -, found, -⟩ := canonical?_eq_some canonical
    have spot := sound.placed there e' (stands_of_find sound (Or.inr rfl) found)
    have resource : Files.resourcePath fs path = Path.ofNames there := by
      simp only [Files.resourcePath, canonical]
    rw [resource] at done
    obtain ⟨below, rfl⟩ := unlink_ofNames sound spot done
    have other : own ≠ there := by
      rintro rfl
      exact canonical?_of_link sound stands canonical
    rw [entry?_eraseEntry fs below, if_neg other, stands]
  · obtain ⟨-, d, n, e', resolved, -⟩ := unlink_ok done
    rw [tooDeep, decide_eq_true_iff] at deep
    rw [kept, resolve, if_neg (Path.ofNames_ne_empty _), if_pos ⟨by decide, deep⟩] at resolved
    cases resolved

/-- What is not missed is unlinked. -/
theorem unlink_of_meets (sound : fs.Sound) (unlinked : fs.unlink path = .ok left)
    (resolved : fs.resolve .name path = .ok (.entry directory name (some e) false))
    (file : e ≠ .directory) (same : left = fs.eraseEntry (directory ++ [name]))
    (meets : ¬Files.Misses fs path (directory ++ [name]) e) :
    fs.unlink (Files.resourcePath fs path) = .ok left := by
  obtain ⟨led, -⟩ := resolve_eq_restOf (by decide) resolved
  obtain ⟨ends, stands, -⟩ := stopsAt_of_follow (by rfl) led
  have spot := sound.placed _ e stands.symm
  simp only [Files.Misses, not_or, not_and, not_not, Bool.not_eq_true] at meets
  obtain ⟨nowhere, shallow⟩ := meets
  have own (resource : Files.resourcePath fs path = Path.ofNames (directory ++ [name])) :
      fs.unlink (Files.resourcePath fs path) = .ok left := by
    rw [resource, unlink_shallow sound (shallow resource) spot, ← stands, same]
    rcases e with _ | inode | target
    · exact absurd rfl file
    · rfl
    · rfl
  cases canonical : fs.canonical? path with
  | none =>
      rcases resourcePath_of_ends sound ends canonical with resource | kept
      · exact own resource
      · rw [kept]
        exact unlinked
  | some there =>
      have plain (target : String) : e ≠ .link target := by
        rintro rfl
        rw [nowhere ⟨target, rfl⟩] at canonical
        cases canonical
      obtain rfl := canonical?_of_name sound resolved plain canonical
      exact own (by simp only [Files.resourcePath, canonical])

/-- **Unlinking the resource of a path** is unlinking the path, unless it misses. -/
theorem unlink_resource (sound : fs.Sound) (unlinked : fs.unlink path = .ok left) :
    fs.names path = true ∧ ∃ own e, fs.find .name path = .ok (own, e) ∧ left = fs.eraseEntry own ∧
      fs.entry? own = some e ∧ e ≠ .directory ∧
      (Files.Misses fs path own e →
        ∀ files, fs.unlink (Files.resourcePath fs path) = .ok files → files.entry? own = some e) ∧
      (¬Files.Misses fs path own e → fs.unlink (Files.resourcePath fs path) = .ok left) := by
  obtain ⟨nul, directory, name, e, resolved, file, same⟩ := unlink_ok unlinked
  obtain ⟨led, -⟩ := resolve_eq_restOf (by decide) resolved
  obtain ⟨-, stands, -⟩ := stopsAt_of_follow (by rfl) led
  have found : fs.find .name path = .ok (directory ++ [name], e) := by
    rw [find, resolved]
    rcases e with _ | inode | target <;> rfl
  exact ⟨names_of_name sound nul resolved, directory ++ [name], e, found, same, stands.symm, file,
    fun misses _ done => entry?_of_misses sound stands.symm misses done,
    unlink_of_meets sound unlinked resolved file same⟩

end Filesystem

/-! ## A removal by itself -/

namespace Files

/-- The files of a transaction that did nothing but remove `path`. -/
def removing (fs : Filesystem) (v : VersionTable) (path : String) : Files :=
  { access := ({} : AccessSet).write v (resource fs path)
    log := ({} : DeferredLog FileEffect).append (.deferred (resource fs path) .remove)
    removed := [(resource fs path).key] }

theorem remove_fresh {path : String} {w : World} (named : w.files.names path = true) :
    ({} : Files).remove path w = (.ok (), removing w.files w.versions path, w) := by
  simp only [remove, checkNotRemoved, List.contains_nil, Bool.false_eq_true, if_false, named, if_true]
  rfl

theorem validate_removing (fs : Filesystem) (v : VersionTable) (path : String) :
    (removing fs v path).access.validate v = true := by
  have noted : (removing fs v path).access.observed.values =
      [(resource fs path, v.current (resource fs path))] := rfl
  rw [AccessSet.validate, noted, List.all_cons, List.all_nil, Bool.and_true, beq_self_eq_true]

/-- Applied, it unlinks the path of the resource. -/
theorem apply_removing (fs : Filesystem) (path : String) (held : HeldLocks) (w : World) :
    let r := ({ removing fs w.versions path with held } : Files).apply w
    match w.files.unlink (resourcePath fs path) with
    | .ok files => r.1 = .ok () ∧ r.2.2.files = files
    | .error e =>
        r.1 = .error (effectFailed (resource fs path) e.toError) ∧ r.2.2.files = w.files := by
  have one : (removing fs w.versions path).log.records =
      [.deferred (resource fs path) .remove] := rfl
  have performed : applyRecord {} (.deferred (resource fs path) .remove) w =
      match w.files.unlink (resourcePath fs path) with
      | .ok files => (.ok (), { w with files })
      | .error e => (.error (effectFailed (resource fs path) e.toError), w) := rfl
  simp only [Files.apply, DeferredLog.applyAll, one, DeferredLog.applyEach,
    show (removing fs w.versions path).handles = {} from rfl, performed]
  cases w.files.unlink (resourcePath fs path) with
  | ok files => exact ⟨rfl, rfl⟩
  | error e => exact ⟨rfl, rfl⟩

end Files

namespace FilingCall

/-- **A transaction that removes a path and commits**, by itself, unlinks the path of the resource. -/
theorem performAll_removing (config : TxId → Config) (who : TxId) {w : World} {path : String}
    (free : w.locks.Free) (named : w.files.names path = true) :
    let r := performAll [.work (.remove path), .commit] (newTransaction config who) w
    ∃ outcome, r.1 = [.worked (.ok .done), .ended (.ok outcome)] ∧
      match w.files.unlink (Files.resourcePath w.files path) with
      | .ok files => outcome = .committed ∧ r.2.2.files = files
      | .error e =>
          outcome = .aborted (.moduleError
            (Files.effectFailed (Files.resource w.files path) e.toError).code) ∧
          r.2.2.files = w.files := by
  have removed : (Filing.remove path).perform {} w =
      (.ok .done, Files.removing w.files w.versions path, w) := by
    simp only [Filing.perform, Files.remove_fresh named]
    rfl
  obtain ⟨t, done, working⟩ := (Transaction.Working.start config who).through
    (fun s w => (Filing.remove path).perform s w) w
  simp only [removed] at done working
  obtain ⟨held, locks, -, ended⟩ := working.commits rfl free
  rw [if_pos (Files.validate_removing ..)] at ended
  have applied := Files.apply_removing w.files path held { w with locks }
  dsimp only at applied
  simp only [performAll, callAll, perform, done, ended]
  refine ⟨_, rfl, ?_⟩
  revert applied
  cases w.files.unlink (Files.resourcePath w.files path) with
  | ok files => exact fun applied => ⟨congrArg Transaction.outcomeOf applied.1, applied.2⟩
  | error e => exact fun applied => ⟨congrArg Transaction.outcomeOf applied.1, applied.2⟩

/-- **What a committed removal leaves.**  A transaction by itself removes a path that could be unlinked,
and commits.  Unless the removal misses the entry that the path names, the commit is answered as such and
leaves the tree that unlinking leaves, which is the tree before without that entry.  If it misses, the
entry is there afterwards. -/
theorem run_remove (config : TxId → Config) (who : TxId) {w : World} {path : String}
    {left : Filesystem} (sound : w.files.Sound) (free : w.locks.Free)
    (unlinked : w.files.unlink path = .ok left) :
    let r := performAll [.work (.remove path), .commit] (newTransaction config who) w
    ∃ own e, w.files.find .name path = .ok (own, e) ∧ left = w.files.eraseEntry own ∧
      r.1.head? = some (.worked (.ok .done)) ∧
      (r.1.getLast? = some (.ended (.ok .committed)) ∧ r.2.2.files = left ↔
        ¬Files.Misses w.files path own e) ∧
      (Files.Misses w.files path own e → r.2.2.files.entry? own = some e) := by
  intro r
  obtain ⟨named, own, e, found, same, stands, file, missed, met⟩ :=
    Filesystem.unlink_resource sound unlinked
  have gone : left.entry? own = none := by
    rw [same, Filesystem.entry?_eraseEntry _ (Filesystem.below_of_stands stands file), if_pos rfl]
  obtain ⟨outcome, answers, done⟩ := performAll_removing config who free named
  have kept (misses : Files.Misses w.files path own e) : r.2.2.files.entry? own = some e := by
    cases resource : w.files.unlink (Files.resourcePath w.files path) with
    | ok files =>
        simp only [resource] at done
        rw [done.2]
        exact missed misses files resource
    | error fault =>
        simp only [resource] at done
        rw [done.2]
        exact stands
  refine ⟨own, e, found, same, congrArg List.head? answers, ⟨?_, fun meets => ?_⟩, kept⟩
  · rintro ⟨-, all⟩ misses
    have there := kept misses
    rw [all, gone] at there
    cases there
  · simp only [met meets] at done
    obtain ⟨rfl, files⟩ := done
    exact ⟨congrArg List.getLast? answers, files⟩

/-- A link that leads nowhere stands beside a file. -/
def goneAndOld : World :=
  { files := { Assembly.oneOld.files with entries := ⟨[(["old"], .file 0), (["gone"], .link "away")]⟩ } }

theorem sound_goneAndOld : goneAndOld.files.Sound where
  home := rfl
  placed at_ e stands := by
    unfold Filesystem.entry? at stands
    by_cases root : at_ = []
    · exact Or.inl root
    · rw [if_neg root] at stands
      have member := Table.mem_of_get? stands
      simp only [goneAndOld, List.mem_cons, Prod.mk.injEq, List.not_mem_nil, or_false] at member
      rcases member with ⟨rfl, -⟩ | ⟨rfl, -⟩
      · exact Or.inr ⟨[], "old", rfl, rfl,
          ⟨⟨by decide, by decide⟩, ⟨by decide, by decide, by decide⟩, by decide⟩⟩
      · exact Or.inr ⟨[], "gone", rfl, rfl,
          ⟨⟨by decide, by decide⟩, ⟨by decide, by decide, by decide⟩, by decide⟩⟩

/-- The link is removed under another spelling, and the file stays. -/
theorem run_remove_goneAndOld :
    let r := performAll [.work (.remove ".//gone"), .commit]
      (newTransaction (fun _ => {}) ⟨1, "first"⟩) goneAndOld
    r.1.getLast? = some (.ended (.ok .committed)) ∧ r.2.2.files.entry? ["gone"] = none ∧
      r.2.2.files.entry? ["old"] = some (.file 0) := by
  intro r
  obtain ⟨own, e, found, same, -, met, -⟩ :=
    run_remove (fun _ => {}) ⟨1, "first"⟩ sound_goneAndOld (fun _ => rfl)
      (show goneAndOld.files.unlink ".//gone" = .ok (goneAndOld.files.eraseEntry ["gone"]) by rfl)
  have there : goneAndOld.files.find .name ".//gone" = .ok (["gone"], .link "away") := by rfl
  cases there.symm.trans found
  have meets : ¬Files.Misses goneAndOld.files ".//gone" ["gone"] (.link "away") := by
    rintro (⟨-, somewhere⟩ | ⟨-, deep⟩)
    · exact somewhere (by decide +kernel)
    · exact absurd deep (by decide +kernel)
  obtain ⟨committed, files⟩ := met.2 meets
  exact ⟨committed, by rw [files]; decide +kernel, by rw [files]; decide +kernel⟩

/-- A link that leads to the file is still there, and the file is gone. -/
example :
    let w : World := { files := { Assembly.oneOld.files with
      entries := ⟨[(["old"], .file 0), (["link"], .link "old")]⟩ } }
    let r := performAll [.work (.remove "link"), .commit]
      (newTransaction (fun _ => {}) ⟨1, "first"⟩) w
    r.2.1.outcome = some .committed ∧ r.2.2.files.entry? ["link"] = some (.link "old") ∧
      r.2.2.files.entry? ["old"] = none := by
  decide +kernel

end FilingCall

end Transact
