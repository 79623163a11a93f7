/-
# Transact.Proofs.Existing -- paths that lead to a file

`fileAt?` is the regular file a path leads to.  Where a path leads depends on the tree alone and not on
what files hold or who has them open (`SameTree`).  `Walk` lists the ways in which the names of a path
are followed through every link; what is true of each of them is true of the path.

Where there is a file, opening creates nothing: the exclusive creation meets it
(`createNew_of_file`), so a descriptor on that file comes back, or a refusal that only the flags decide
(`openOrCreate_of_file`).  The resource of a path with a canonical location is that location, so two
such paths to one file go by one resource when no file has two names (`same_resource`).
-/
import Transact.Participant.Files

namespace Transact

set_option autoImplicit false

namespace Filesystem

/-- The regular file a path leads to. -/
def fileAt? (fs : Filesystem) (path : String) : Option Inode :=
  if hasNul path then none
  else
    match fs.find .follow path with
    | .ok (_, .file inode) => some inode
    | _ => none

theorem fileAt?_eq_some {fs : Filesystem} {path : String} {inode : Inode} :
    fs.fileAt? path = some inode ↔
      hasNul path = false ∧ ∃ at_, fs.find .follow path = .ok (at_, .file inode) := by
  unfold fileAt?
  cases nul : hasNul path with
  | true => simp
  | false =>
      rcases led : fs.find .follow path with e | ⟨at_, _ | i | target⟩ <;> simp

/-! ## The tree alone -/

/-- Both have one tree and one home. -/
structure SameTree (fs fs' : Filesystem) : Prop where
  entries : fs'.entries = fs.entries
  home : fs'.home = fs.home

namespace SameTree

variable {fs fs' fs'' : Filesystem}

theorem refl (fs : Filesystem) : SameTree fs fs := ⟨rfl, rfl⟩

theorem symm (same : SameTree fs fs') : SameTree fs' fs := ⟨same.entries.symm, same.home.symm⟩

theorem trans (first : SameTree fs fs') (second : SameTree fs' fs'') : SameTree fs fs'' :=
  ⟨second.entries.trans first.entries, second.home.trans first.home⟩

theorem entry? (same : SameTree fs fs') (at_ : Location) : fs'.entry? at_ = fs.entry? at_ := by
  simp only [Filesystem.entry?, same.entries]

theorem followWith (same : SameTree fs fs') (ending : Ending)
    (onLink : Rest → Except Errno Place) (slash : Bool) (directory : Location)
    (names : List String) :
    fs'.followWith ending onLink slash directory names =
      fs.followWith ending onLink slash directory names := by
  induction names generalizing directory with
  | nil => rfl
  | cons name rest ih =>
      unfold Filesystem.followWith
      simp only [same.entry?, ih]

theorem follow (same : SameTree fs fs') (ending : Ending) (links : Nat) (r : Rest) :
    fs'.follow ending links r = fs.follow ending links r := by
  induction links generalizing r with
  | zero => exact same.followWith ..
  | succ links ih =>
      have onward : fs'.follow ending links = fs.follow ending links := funext ih
      unfold Filesystem.follow
      rw [onward, same.followWith]

theorem resolve (same : SameTree fs fs') (ending : Ending) (path : String) :
    fs'.resolve ending path = fs.resolve ending path := by
  simp only [Filesystem.resolve, same.follow, same.home]

theorem find (same : SameTree fs fs') (ending : Ending) (path : String) :
    fs'.find ending path = fs.find ending path := by
  simp only [Filesystem.find, same.resolve]

theorem fileAt? (same : SameTree fs fs') (path : String) : fs'.fileAt? path = fs.fileAt? path := by
  simp only [Filesystem.fileAt?, same.find]

theorem resource (same : SameTree fs fs') (path : String) :
    Files.resource fs' path = Files.resource fs path := by
  have canonical (path : String) : fs'.canonical? path = fs.canonical? path := by
    simp only [Filesystem.canonical?, same.find]
  simp only [Files.resource, Files.resourcePath, canonical]

/-- With one tree, files of the same content are loaded alike. -/
theorem load (same : SameTree fs fs') (path : String)
    (contents : ∀ inode, fs'.content inode = fs.content inode) : fs'.load path = fs.load path := by
  simp only [Filesystem.load, same.find, contents]

end SameTree

/-! ## Walks -/

/-- A name that leads on to what stands there: neither one dot nor two, and short enough. -/
def Plain (name : String) : Prop := name ≠ "." ∧ name ≠ ".." ∧ tooLong name = false

/-- The ways in which names are followed to a place, every link on the way included. -/
inductive Walk (fs : Filesystem) (onLink : Rest → Except Errno Place) (slash : Bool) :
    Location → List String → Place → Prop where
  | here (directory : Location) : Walk fs onLink slash directory [] (.here directory)
  | dot {directory : Location} {rest : List String} {place : Place}
      (onward : Walk fs onLink slash directory rest place) :
      Walk fs onLink slash directory ("." :: rest) place
  | dots {directory : Location} {rest : List String} {place : Place}
      (onward : Walk fs onLink slash directory.dropLast rest place) :
      Walk fs onLink slash directory (".." :: rest) place
  | last {directory : Location} {name : String} {found : Option Entry} (plain : Plain name)
      (stands : fs.entry? (directory ++ [name]) = found)
      (unlinked : ∀ target, found ≠ some (.link target)) :
      Walk fs onLink slash directory [name] (.entry directory name found slash)
  | lastLink {directory : Location} {name target : String} {place : Place} (plain : Plain name)
      (stands : fs.entry? (directory ++ [name]) = some (.link target))
      (onward : onLink
        (followWith.linkRest directory target [] (slash || Path.endsInSlash target)) = .ok place) :
      Walk fs onLink slash directory [name] place
  | down {directory : Location} {name next : String} {rest : List String} {place : Place}
      (plain : Plain name) (stands : fs.entry? (directory ++ [name]) = some .directory)
      (onward : Walk fs onLink slash (directory ++ [name]) (next :: rest) place) :
      Walk fs onLink slash directory (name :: next :: rest) place
  | link {directory : Location} {name next target : String} {rest : List String} {place : Place}
      (plain : Plain name) (stands : fs.entry? (directory ++ [name]) = some (.link target))
      (onward : onLink (followWith.linkRest directory target (next :: rest) slash) = .ok place) :
      Walk fs onLink slash directory (name :: next :: rest) place

section Walks

variable {fs : Filesystem} {onLink onLink' : Rest → Except Errno Place} {slash : Bool}
  {directory : Location} {names : List String} {place : Place}

/-- What is followed through every link is walked; the search for the canonical location is no
other walk. -/
theorem walk_of_followWith {ending : Ending} (through : ending = .follow ∨ ending = .canonical)
    (led : fs.followWith ending onLink slash directory names = .ok place) :
    Walk fs onLink slash directory names place := by
  have follows : ending.follows slash = true := by
    rcases through with rfl | rfl <;> rfl
  have creates : ¬ending = .create := by
    rcases through with rfl | rfl <;> decide
  have stops : ¬ending = .name := by
    rcases through with rfl | rfl <;> decide
  induction names generalizing directory with
  | nil =>
      cases led
      exact .here directory
  | cons name rest ih =>
      unfold followWith at led
      by_cases dot : name = "."
      · subst dot
        simp only [if_true] at led
        exact .dot (ih led)
      by_cases dots : name = ".."
      · subst dots
        simp only [String.reduceEq, if_false, if_true] at led
        exact .dots (ih led)
      cases long : tooLong name with
      | true => simp [dot, dots, long, creates, stops] at led
      | false =>
          have plain : Plain name := ⟨dot, dots, long⟩
          simp only [dot, dots, long, creates, stops, if_false, decide_false, Bool.and_false,
            Bool.false_and, Bool.false_eq_true] at led
          by_cases deep : (decide (ending = .canonical) && tooDeep (directory ++ [name])) = true
          · rw [if_pos deep] at led
            cases led
          rw [if_neg deep] at led
          rcases found : fs.entry? (directory ++ [name]) with _ | ⟨_ | i | target⟩ <;>
            rcases rest with _ | ⟨next, more⟩ <;>
            simp only [found, follows, if_true, reduceCtorEq, Except.ok.injEq] at led
          · exact led ▸ .last plain found (by simp)
          · exact led ▸ .last plain found (by simp)
          · exact .down plain found (ih led)
          · exact led ▸ .last plain found (by simp)
          · exact .lastLink plain found led
          · exact .link plain found led

/-- A walk is followed, also where links are followed further. -/
theorem Walk.followWith (walk : Walk fs onLink slash directory names place)
    (onward : ∀ r place, onLink r = .ok place → onLink' r = .ok place) :
    fs.followWith .follow onLink' slash directory names = .ok place := by
  induction walk with
  | here => rfl
  | dot _ ih =>
      unfold Filesystem.followWith
      simp only [if_true]
      exact ih
  | dots _ ih =>
      unfold Filesystem.followWith
      simp only [String.reduceEq, if_false, if_true]
      exact ih
  | last plain stands unlinked =>
      obtain ⟨dot, dots, long⟩ := plain
      unfold Filesystem.followWith
      rcases found : fs.entry? _ with _ | ⟨_ | i | target⟩
      · simp [dot, dots, long, found, ← stands]
      · simp [dot, dots, long, found, ← stands]
      · simp [dot, dots, long, found, ← stands]
      · exact absurd (stands.symm.trans found) (unlinked target)
  | lastLink plain stands next =>
      obtain ⟨dot, dots, long⟩ := plain
      unfold Filesystem.followWith
      simp [dot, dots, long, stands, Ending.follows, onward _ _ next]
  | down plain stands _ ih =>
      obtain ⟨dot, dots, long⟩ := plain
      unfold Filesystem.followWith
      simp [dot, dots, long, stands, ih]
  | link plain stands next =>
      obtain ⟨dot, dots, long⟩ := plain
      unfold Filesystem.followWith
      simp [dot, dots, long, stands, onward _ _ next]

/-- What a place says stands there does. -/
def Place.Stands (fs : Filesystem) : Place → Prop
  | .here _ => True
  | .entry directory name found _ => fs.entry? (directory ++ [name]) = found

theorem Walk.stands (walk : Walk fs onLink slash directory names place)
    (onward : ∀ r place, onLink r = .ok place → place.Stands fs) : place.Stands fs := by
  induction walk with
  | here => trivial
  | dot _ ih => exact ih
  | dots _ ih => exact ih
  | last _ stands _ => exact stands
  | lastLink _ _ next => exact onward _ _ next
  | down _ _ _ ih => exact ih
  | link _ _ next => exact onward _ _ next

/-- Something stands at this place, under a name that a directory can hold. -/
def Place.Taken : Place → Prop
  | .here _ => True
  | .entry _ name found slash => slash = false ∧ tooLong name = false ∧ found.isSome

/-- Where a walk ends at a file, stopping at the last name finds something too.  A slash is never
lost on the way, so there was none. -/
theorem Walk.taken (walk : Walk fs onLink slash directory names place)
    (onward : ∀ r directory name inode,
      onLink r = .ok (.entry directory name (some (.file inode)) false) →
        r.slash = false ∧ ∃ place, onLink' r = .ok place ∧ place.Taken)
    {above : Location} {last : String} {inode : Inode}
    (file : place = .entry above last (some (.file inode)) false) :
    slash = false ∧
      ∃ place, fs.followWith .name onLink' slash directory names = .ok place ∧ place.Taken := by
  induction walk with
  | here => cases file
  | dot _ ih =>
      unfold Filesystem.followWith
      simp only [if_true]
      exact ih file
  | dots _ ih =>
      unfold Filesystem.followWith
      simp only [String.reduceEq, if_false, if_true]
      exact ih file
  | last plain stands _ =>
      obtain ⟨dot, dots, long⟩ := plain
      cases file
      unfold Filesystem.followWith
      simp [dot, dots, long, stands, Place.Taken]
  | lastLink plain stands next =>
      -- The only link that the two calls treat differently.
      obtain ⟨dot, dots, long⟩ := plain
      obtain ⟨slashed, -⟩ := onward _ _ _ _ (file ▸ next)
      obtain ⟨rfl, -⟩ := Bool.or_eq_false_iff.1 slashed
      unfold Filesystem.followWith
      simp [dot, dots, long, stands, Ending.follows, Place.Taken]
  | down plain stands _ ih =>
      obtain ⟨dot, dots, long⟩ := plain
      unfold Filesystem.followWith
      simp only [dot, dots, long, stands, if_false, List.isEmpty_cons, reduceCtorEq, decide_false,
        Bool.and_false, Bool.false_and, Bool.false_eq_true]
      exact ih file
  | link plain stands next =>
      obtain ⟨dot, dots, long⟩ := plain
      unfold Filesystem.followWith
      simp only [dot, dots, long, stands, if_false, List.isEmpty_cons, reduceCtorEq, decide_false,
        Bool.and_false, Bool.false_and, Bool.false_eq_true]
      exact onward _ _ _ _ (file ▸ next)

end Walks

/-! ### With every link -/

section Links

variable {fs : Filesystem} {r : Rest} {place : Place}

theorem follow_canonical (links : Nat) (led : fs.follow .canonical links r = .ok place) :
    fs.follow .follow links r = .ok place := by
  induction links generalizing r place with
  | zero =>
      unfold follow at led ⊢
      exact (walk_of_followWith (Or.inr rfl) led).followWith fun _ _ tooMany => by cases tooMany
  | succ links ih =>
      unfold follow at led ⊢
      exact (walk_of_followWith (Or.inr rfl) led).followWith fun _ _ onward => ih onward

theorem follow_stands (links : Nat) (led : fs.follow .follow links r = .ok place) :
    place.Stands fs := by
  induction links generalizing r place with
  | zero =>
      unfold follow at led
      exact (walk_of_followWith (Or.inl rfl) led).stands fun _ _ tooMany => by cases tooMany
  | succ links ih =>
      unfold follow at led
      exact (walk_of_followWith (Or.inl rfl) led).stands fun _ _ onward => ih onward

theorem follow_taken (links : Nat) {directory : Location} {last : String} {inode : Inode}
    (led : fs.follow .follow links r = .ok (.entry directory last (some (.file inode)) false)) :
    r.slash = false ∧ ∃ place, fs.follow .name links r = .ok place ∧ place.Taken := by
  induction links generalizing r directory last inode with
  | zero =>
      unfold follow at led ⊢
      exact (walk_of_followWith (Or.inl rfl) led).taken (fun _ _ _ _ tooMany => by cases tooMany) rfl
  | succ links ih =>
      unfold follow at led ⊢
      exact (walk_of_followWith (Or.inl rfl) led).taken (fun _ _ _ _ onward => ih onward) rfl

end Links

section Paths

variable {fs : Filesystem} {path : String} {at_ : Location} {e : Entry}

/-- What is left of a path before any of it is followed. -/
def restOf (fs : Filesystem) (path : String) : Rest where
  directory := if Path.isAbsolute path then [] else fs.home
  names := Path.pieces path
  slash := Path.endsInSlash path

/-- A path that is followed to a place is neither empty nor too long, so in every search its links are
followed. -/
theorem resolve_eq_restOf {ending : Ending} {place : Place} (other : ending ≠ .canonical)
    (resolved : fs.resolve ending path = .ok place) :
    fs.follow ending maxLinks (fs.restOf path) = .ok place ∧
      ∀ ending', fs.resolve ending' path = fs.follow ending' maxLinks (fs.restOf path) := by
  unfold resolve at resolved
  by_cases empty : path = ""
  · rw [if_pos empty] at resolved
    cases resolved
  by_cases long : maxPath ≤ path.utf8ByteSize
  · rw [if_neg empty, if_pos ⟨other, long⟩] at resolved
    cases resolved
  rw [if_neg empty, if_neg fun both => long both.2] at resolved
  refine ⟨resolved, fun ending' => ?_⟩
  rw [resolve, if_neg empty, if_neg fun both => long both.2]
  rfl

/-- A path with a canonical location leads there. -/
theorem canonical?_eq_some (led : fs.canonical? path = some at_) :
    hasNul path = false ∧ ∃ e place, fs.find .canonical path = .ok (at_, e) ∧
      fs.follow .canonical maxLinks (fs.restOf path) = .ok place ∧
      fs.resolve .canonical path = .ok place := by
  unfold canonical? at led
  cases nul : hasNul path with
  | true => simp [nul] at led
  | false =>
      rcases found : fs.find .canonical path with fault | ⟨there, e⟩
      · simp [nul, found] at led
      · simp only [nul, found, Bool.false_eq_true, if_false, Option.some.injEq] at led
        subst led
        rcases resolved : fs.resolve .canonical path with fault | place
        · simp [find, resolved] at found
        · refine ⟨rfl, e, place, rfl, ?_, rfl⟩
          unfold resolve at resolved
          split at resolved
          · cases resolved
          · rw [if_neg fun both => both.1 rfl] at resolved
            exact resolved

/-- A path with a canonical location leads nowhere else. -/
theorem canonical?_unique (canonical : fs.canonical? path = some at_) {there : Location}
    (found : fs.find .follow path = .ok (there, e)) : there = at_ := by
  obtain ⟨-, e', place, found', followed, resolved'⟩ := canonical?_eq_some canonical
  cases resolved : fs.resolve .follow path with
  | error fault => simp [find, resolved] at found
  | ok place' =>
      obtain ⟨led, -⟩ := resolve_eq_restOf (by decide) resolved
      obtain rfl : place' = place := Except.ok.inj (led.symm.trans (follow_canonical maxLinks followed))
      have same : fs.find .follow path = fs.find .canonical path := by
        rw [find, find, resolved, resolved']
      rw [same, found'] at found
      cases found
      rfl

end Paths

/-! ## What is there is not created -/

/-- A search that ends at a file ends at its name, with no slash after it. -/
theorem resolve_of_find {fs : Filesystem} {ending : Ending} {path : String} {at_ : Location}
    {inode : Inode} (led : fs.find ending path = .ok (at_, .file inode)) :
    ∃ directory name, at_ = directory ++ [name] ∧
      fs.resolve ending path = .ok (.entry directory name (some (.file inode)) false) := by
  unfold find at led
  rcases place : fs.resolve ending path with e | ⟨directory⟩ |
    ⟨directory, name, _ | ⟨_ | i | target⟩, _ | _⟩ <;>
    simp only [place, Bool.false_eq_true, if_false, if_true, reduceCtorEq, Except.ok.injEq,
      Prod.mk.injEq, Entry.file.injEq, and_false] at led
  obtain ⟨rfl, rfl⟩ := led
  exact ⟨directory, name, rfl, rfl⟩

/-- **A file that is there is never created.** -/
theorem createNew_of_file {fs : Filesystem} {path : String} {inode : Inode}
    (leads : fs.fileAt? path = some inode) (read : Bool) :
    fs.createNew path read = .error (.os .exists) := by
  obtain ⟨nul, at_, led⟩ := fileAt?_eq_some.1 leads
  obtain ⟨directory, last, -, resolved⟩ := resolve_of_find led
  have taken : ∃ place, fs.resolve .name path = .ok place ∧ place.Taken := by
    obtain ⟨followed, ways⟩ := resolve_eq_restOf (by decide) resolved
    rw [ways]
    exact (follow_taken _ followed).2
  obtain ⟨place, at_, there⟩ := taken
  cases place with
  | here directory => simp [createNew, nul, at_]
  | entry directory name found slash =>
      obtain ⟨rfl, long, stands⟩ := there
      simp [createNew, nul, at_, long, stands]

/-- Opening a file that is there gives a descriptor on it, or is refused for its flags. -/
theorem openOrCreate_of_file {fs : Filesystem} {path : String} {inode : Inode}
    (leads : fs.fileAt? path = some inode) (flags : OpenFlags) :
    Files.openOrCreate fs path flags =
      if flags.read || flags.writes then
        .ok (fs.nextDescriptor, false,
          (fs.addDescriptor
            (descriptorOn (some inode) { read := flags.read, write := flags.writes })).2)
      else .error .noAccess := by
  obtain ⟨nul, at_, led⟩ := fileAt?_eq_some.1 leads
  have existing : fs.openExisting path { read := flags.read, write := flags.writes } =
      if flags.read || flags.writes then
        .ok (fs.addDescriptor
          (descriptorOn (some inode) { read := flags.read, write := flags.writes }))
      else .error .noAccess := by
    unfold openExisting
    cases read : flags.read <;> cases writes : flags.writes <;> simp [nul, led, Access.writes]
  unfold Files.openOrCreate
  simp only [createNew_of_file leads, existing, ite_self]
  split <;> rfl

/-! ## One name, one resource -/

/-- A path that can be opened and has a canonical location leads there. -/
theorem find_of_canonical {fs : Filesystem} {path : String} {at_ : Location} {inode : Inode}
    (canonical : fs.canonical? path = some at_) (leads : fs.fileAt? path = some inode) :
    fs.find .follow path = .ok (at_, .file inode) := by
  obtain ⟨nul, there, led⟩ := fileAt?_eq_some.1 leads
  rw [← canonical?_unique canonical led]
  exact led

theorem entry?_of_find {fs : Filesystem} {path : String} {at_ : Location} {inode : Inode}
    (led : fs.find .follow path = .ok (at_, .file inode)) : fs.entry? at_ = some (.file inode) := by
  obtain ⟨directory, last, rfl, resolved⟩ := resolve_of_find led
  exact follow_stands _ (resolve_eq_restOf (by decide) resolved).1

/-- Every file has one name. -/
def OneName (fs : Filesystem) : Prop :=
  ∀ at_ other inode, fs.entry? at_ = some (.file inode) → fs.entry? other = some (.file inode) →
    at_ = other

/-- **Two spellings of one file are one resource**, where both have a canonical location. -/
theorem same_resource {fs : Filesystem} (oneName : fs.OneName) {path other : String}
    {inode : Inode} (leads : fs.fileAt? path = some inode) (leadsToo : fs.fileAt? other = some inode)
    (canonical : (fs.canonical? path).isSome) (canonicalToo : (fs.canonical? other).isSome) :
    Files.resource fs path = Files.resource fs other := by
  obtain ⟨at_, found⟩ := Option.isSome_iff_exists.1 canonical
  obtain ⟨there, foundToo⟩ := Option.isSome_iff_exists.1 canonicalToo
  have same : at_ = there := oneName at_ there inode
    (entry?_of_find (find_of_canonical found leads))
    (entry?_of_find (find_of_canonical foundToo leadsToo))
  simp only [Files.resource, Files.resourcePath, found, foundToo, same]

end Filesystem

end Transact
