/-
# Transact.Proofs.Places -- where names stand, and where paths lead to them

In a `Sound` tree every name stands in a directory and is one that a path can spell, so a location has
a path of its own that leads to it (`unlink_spot`, `fileAt?_spot`).

`Descent` is the search for the directory of a path's last name.  It does not see dots and does not
depend on what stands at the last name (`stopsAt_of_follow`, `Descent.reaches`, `Descent.lands`).  Where
the search for the canonical location finds what a path leads to, or the directory with room for it
(`Charted`), the resource of a path that is opened or created is the location of what is opened or
created (`Charted.resource_of_find`, `Charted.resource_of_vacancy`).  It finds them all where no location
is too long for it (`Roomy`); then the resource of a path that is removed is the location of something
too (`resource_of_names`).
-/
import Mathlib.Data.List.Induction
import Transact.Proofs.Existing
import Transact.Proofs.Spelling

namespace Transact

set_option autoImplicit false

namespace Filesystem

/-! ## Sound trees -/

/-- A name that a path can spell and a directory can hold. -/
structure Clean (name : String) : Prop where
  spells : Path.Spells name
  plain : Plain name
  pure : '\x00' ∉ name.toList

/-- A place for a name: the root, or a name in a directory. -/
def Spot (fs : Filesystem) (at_ : Location) : Prop :=
  at_ = [] ∨ ∃ directory name, at_ = directory ++ [name] ∧
    fs.entry? directory = some .directory ∧ Clean name

/-- Relative paths start from a directory, and whatever stands somewhere stands in a directory. -/
structure Sound (fs : Filesystem) : Prop where
  home : fs.entry? fs.home = some .directory
  placed : ∀ at_ e, fs.entry? at_ = some e → fs.Spot at_

/-- No name that fits into a directory is too deep for a path to spell. -/
def Roomy (fs : Filesystem) : Prop :=
  ∀ directory name, fs.entry? directory = some .directory → tooLong name = false →
    tooDeep (directory ++ [name]) = false

/-- A tree is roomy if after the path of each directory the longest name fits. -/
theorem roomy_of_shallow {fs : Filesystem}
    (shallow : ∀ directory, fs.entry? directory = some .directory →
      (Path.ofNames directory).utf8ByteSize + 1 + maxName < maxPath) : fs.Roomy := by
  intro directory name stands short
  have deep := Path.size_ofNames_snoc_le directory name
  have room := shallow directory stands
  simp only [tooLong, decide_eq_false_iff_not] at short
  simp only [tooDeep, decide_eq_false_iff_not]
  omega

section Sound

variable {fs : Filesystem} {at_ directory : Location} {name : String}

@[simp] theorem entry?_root (fs : Filesystem) : fs.entry? [] = some .directory := if_pos rfl

/-- What is no directory has a name. -/
theorem below_of_stands {e : Entry} (stands : fs.entry? at_ = some e) (file : e ≠ .directory) :
    at_ ≠ [] := by
  rintro rfl
  rw [entry?_root] at stands
  exact file (Option.some.inj stands).symm

/-- The target of a link is looked up from a directory. -/
theorem entry?_base (start : fs.entry? directory = some .directory) (target : String) :
    fs.entry? (if Path.isAbsolute target then [] else directory) = some .directory := by
  split
  · exact entry?_root fs
  · exact start

theorem Sound.above (sound : fs.Sound) (stands : fs.entry? (directory ++ [name]) ≠ none) :
    fs.entry? directory = some .directory ∧ Clean name := by
  obtain ⟨e, found⟩ := Option.ne_none_iff_exists'.1 stands
  rcases sound.placed _ e found with root | ⟨d, n, split, dir, clean⟩
  · simp at root
  · obtain ⟨rfl, last⟩ := List.append_inj' split rfl
    cases last
    exact ⟨dir, clean⟩

theorem Sound.dropLast (sound : fs.Sound) (stands : fs.entry? directory = some .directory) :
    fs.entry? directory.dropLast = some .directory := by
  induction directory using List.reverseRecOn with
  | nil => exact entry?_root fs
  | append_singleton above name =>
    rw [List.dropLast_concat]
    exact (sound.above (by rw [stands]; simp)).1

/-- On the way to a directory there are clean names only. -/
theorem Sound.clean (sound : fs.Sound) (stands : fs.entry? directory = some .directory) :
    ∀ name ∈ directory, Clean name := by
  induction directory using List.reverseRecOn with
  | nil => simp
  | append_singleton above last ih =>
      obtain ⟨dir, clean⟩ := sound.above (by rw [stands]; simp)
      intro name member
      rcases List.mem_append.1 member with before | here
      · exact ih dir name before
      · rw [List.mem_singleton.1 here]
        exact clean

theorem Spot.clean (sound : fs.Sound) (spot : fs.Spot at_) : ∀ name ∈ at_, Clean name := by
  rcases spot with rfl | ⟨directory, last, rfl, dir, clean⟩
  · simp
  · intro name member
    rcases List.mem_append.1 member with before | here
    · exact sound.clean dir name before
    · rw [List.mem_singleton.1 here]
      exact clean

/-- Two spots of one key are one. -/
theorem Spot.eq_of_key (sound : fs.Sound) {other : Location} (spot : fs.Spot at_)
    (spot' : fs.Spot other)
    (same : (ResourceId.path (Path.ofNames at_)).key = (ResourceId.path (Path.ofNames other)).key) :
    at_ = other :=
  Path.key_ofNames_inj (fun name member => (spot.clean sound name member).spells)
    (fun name member =>
      ⟨(spot.clean sound name member).plain.1, (spot.clean sound name member).plain.2.1⟩)
    (fun name member => (spot'.clean sound name member).spells)
    (fun name member =>
      ⟨(spot'.clean sound name member).plain.1, (spot'.clean sound name member).plain.2.1⟩) same

theorem hasNul_ofNames (clean : ∀ name ∈ at_, Clean name) : hasNul (Path.ofNames at_) = false := by
  have without : '\x00' ∉ (Path.ofNames at_).toList := by
    by_cases root : at_ = []
    · subst root
      decide
    · rw [Path.toList_ofNames root]
      intro member
      obtain ⟨name, there, here⟩ := List.mem_flatMap.1 member
      rcases List.mem_cons.1 here with same | inside
      · cases same
      · exact (clean name there).pure inside
  simpa [hasNul] using without

end Sound

/-! ## Steps of a search -/

section Steps

variable {fs : Filesystem} {ending : Ending} {onLink : Rest → Except Errno Place} {slash : Bool}
  {directory : Location} {name next : String} {rest : List String} {place : Place}

/-- How a search goes on behind a link when `links` more may follow. -/
def behindLink (fs : Filesystem) (ending : Ending) : Nat → Rest → Except Errno Place
  | 0 => fun _ => .error .tooManyLinks
  | links + 1 => fs.follow ending links

theorem follow_eq (fs : Filesystem) (ending : Ending) (links : Nat) (r : Rest) :
    fs.follow ending links r =
      fs.followWith ending (fs.behindLink ending links) r.slash r.directory r.names := by
  cases links <;> rfl

theorem followWith_dot (rest : List String) :
    fs.followWith ending onLink slash directory ("." :: rest) =
      fs.followWith ending onLink slash directory rest :=
  if_pos rfl

theorem followWith_dots (rest : List String) :
    fs.followWith ending onLink slash directory (".." :: rest) =
      fs.followWith ending onLink slash directory.dropLast rest :=
  (if_neg (by decide)).trans (if_pos rfl)

/-- A name on the way. -/
theorem followWith_next (plain : Plain name)
    (shallow : ending = .canonical → tooDeep (directory ++ [name]) = false) :
    fs.followWith ending onLink slash directory (name :: next :: rest) =
      match fs.entry? (directory ++ [name]) with
      | none => .error .noEntry
      | some .directory =>
          fs.followWith ending onLink slash (directory ++ [name]) (next :: rest)
      | some (.file _) => .error .notDirectory
      | some (.link target) => onLink (followWith.linkRest directory target (next :: rest) slash) := by
  obtain ⟨dot, dots, long⟩ := plain
  have deep : (decide (ending = .canonical) && tooDeep (directory ++ [name])) = false := by
    by_cases canonical : ending = .canonical
    · rw [shallow canonical, Bool.and_false]
    · simp [canonical]
  unfold followWith
  simp only [dot, dots, List.isEmpty_cons, Bool.false_and, Bool.false_eq_true, if_false, long, deep]
  rcases stands : fs.entry? (directory ++ [name]) with _ | ⟨_ | i | target⟩ <;> rfl

/-- The last name. -/
theorem followWith_last (plain : Plain name) (creates : ending = .create → slash = false)
    (shallow : ending = .canonical → tooDeep (directory ++ [name]) = false) :
    fs.followWith ending onLink slash directory [name] =
      match fs.entry? (directory ++ [name]) with
      | some (.link target) =>
          if ending.follows slash then
            onLink (followWith.linkRest directory target [] (slash || Path.endsInSlash target))
          else .ok (.entry directory name (some (.link target)) slash)
      | found => .ok (.entry directory name found slash) := by
  obtain ⟨dot, dots, long⟩ := plain
  have deep : (decide (ending = .canonical) && tooDeep (directory ++ [name])) = false := by
    by_cases canonical : ending = .canonical
    · rw [shallow canonical, Bool.and_false]
    · simp [canonical]
  have create : (slash && decide (ending = .create)) = false := by
    by_cases creating : ending = .create
    · rw [creates creating, Bool.false_and]
    · simp [creating]
  unfold followWith
  simp only [dot, dots, List.isEmpty_nil, Bool.true_and, create, long, Bool.false_and, deep,
    Bool.false_eq_true, if_false]
  rcases stands : fs.entry? (directory ++ [name]) with _ | ⟨_ | i | target⟩ <;> rfl

/-- Only a plain name is passed on the way. -/
theorem plain_of_next (dot : name ≠ ".") (dots : name ≠ "..")
    (led : fs.followWith ending onLink slash directory (name :: next :: rest) = .ok place) :
    Plain name := by
  refine ⟨dot, dots, ?_⟩
  cases long : tooLong name with
  | false => rfl
  | true =>
      unfold followWith at led
      simp [dot, dots, long] at led

end Steps

/-! ## Down to a directory -/

/-- From one directory to another, each name leading to a directory, through at most `links` links. -/
inductive Descent (fs : Filesystem) : Nat → Location → List String → Location → Prop where
  | here (links : Nat) (directory : Location) : Descent fs links directory [] directory
  | dot {links : Nat} {directory bottom : Location} {rest : List String}
      (onward : Descent fs links directory rest bottom) :
      Descent fs links directory ("." :: rest) bottom
  | dots {links : Nat} {directory bottom : Location} {rest : List String}
      (onward : Descent fs links directory.dropLast rest bottom) :
      Descent fs links directory (".." :: rest) bottom
  | down {links : Nat} {directory bottom : Location} {name : String} {rest : List String}
      (plain : Plain name) (stands : fs.entry? (directory ++ [name]) = some .directory)
      (onward : Descent fs links (directory ++ [name]) rest bottom) :
      Descent fs links directory (name :: rest) bottom
  | link {links : Nat} {directory bottom : Location} {name target : String} {rest : List String}
      (plain : Plain name) (stands : fs.entry? (directory ++ [name]) = some (.link target))
      (onward : Descent fs links (if Path.isAbsolute target then [] else directory)
        (Path.pieces target ++ rest) bottom) :
      Descent fs (links + 1) directory (name :: rest) bottom

section Descents

variable {fs : Filesystem} {ending : Ending} {links : Nat} {directory bottom : Location}
  {names : List String} {name : String}

/-- What is left of a path leads down to a directory, with one name after it. -/
def Ends (fs : Filesystem) (links : Nat) (r : Rest) (bottom : Location) (name : String) : Prop :=
  ∃ names, r.names = names ++ [name] ∧ fs.Descent links r.directory names bottom ∧
    name ≠ "." ∧ name ≠ ".."

/-- A search that ends at `place` stopped at a name in the directory it had come down to. -/
def StopsAt (fs : Filesystem) (links : Nat) (r : Rest) (bottom : Location) (name : String)
    (found : Option Entry) (slash : Bool) : Prop :=
  fs.Ends links r bottom name ∧ found = fs.entry? (bottom ++ [name]) ∧ slash = r.slash

theorem stopsAt_of_followWith {onLink : Rest → Except Errno Place} {slash slash' : Bool}
    {found : Option Entry}
    (behind : ∀ r, ending.follows r.slash = false →
      onLink r = .ok (.entry bottom name found slash') →
        ∃ fewer, links = fewer + 1 ∧ fs.StopsAt fewer r bottom name found slash')
    (stops : ending.follows slash = false)
    (led : fs.followWith ending onLink slash directory names =
      .ok (.entry bottom name found slash')) :
    fs.StopsAt links { directory, names, slash } bottom name found slash' := by
  have canonical : ending ≠ .canonical := by rintro rfl; cases stops
  have create : ending ≠ .create := by rintro rfl; cases stops
  induction names generalizing directory with
  | nil => cases led
  | cons first rest ih =>
      by_cases dot : first = "."
      · subst dot
        rw [followWith_dot] at led
        obtain ⟨⟨names, split, descent, plain⟩, last⟩ := ih led
        exact ⟨⟨"." :: names, congrArg ("." :: ·) split, .dot descent, plain⟩, last⟩
      by_cases dots : first = ".."
      · subst dots
        rw [followWith_dots] at led
        obtain ⟨⟨names, split, descent, plain⟩, last⟩ := ih led
        exact ⟨⟨".." :: names, congrArg (".." :: ·) split, .dots descent, plain⟩, last⟩
      cases rest with
      | nil =>
          have here : bottom = directory ∧ name = first ∧
              found = fs.entry? (directory ++ [first]) ∧ slash' = slash := by
            unfold followWith at led
            simp only [dot, dots, canonical, create, stops, decide_false, Bool.and_false, Bool.false_and,
              Bool.false_eq_true, if_false] at led
            rcases stands : fs.entry? (directory ++ [first]) with _ | ⟨_ | i | target⟩ <;>
              simp only [stands] at led <;>
              split at led <;> cases led <;> exact ⟨rfl, rfl, rfl, rfl⟩
          obtain ⟨rfl, rfl, same, slashed⟩ := here
          exact ⟨⟨[], rfl, .here _ _, dot, dots⟩, same, slashed⟩
      | cons next rest =>
          have plain := plain_of_next dot dots led
          rw [followWith_next plain fun same => absurd same canonical] at led
          rcases stands : fs.entry? (directory ++ [first]) with _ | ⟨_ | i | target⟩ <;>
            simp only [stands, reduceCtorEq] at led
          · obtain ⟨⟨names, split, descent, rest⟩, last⟩ := ih led
            exact ⟨⟨first :: names, congrArg (first :: ·) split, .down plain stands descent, rest⟩,
              last⟩
          · obtain ⟨fewer, rfl, ⟨⟨names, split, descent, other⟩, last⟩⟩ := behind _ stops led
            -- The name after the descent is the last of the path, not one of the link.
            have tail : next :: rest = (next :: rest).dropLast ++ [name] ∧
                names = Path.pieces target ++ (next :: rest).dropLast := by
              have ends := List.dropLast_concat_getLast (List.cons_ne_nil next rest)
              simp only [followWith.linkRest] at split
              rw [← ends, ← List.append_assoc] at split
              obtain ⟨same, final⟩ := List.append_inj' split rfl
              rw [← same]
              rw [List.cons.injEq] at final
              exact ⟨by rw [← final.1, ends], rfl⟩
            obtain ⟨split', rfl⟩ := tail
            exact ⟨⟨first :: (next :: rest).dropLast, congrArg (first :: ·) split',
              .link plain stands descent, other⟩, last⟩

/-- **A search that stops at a name went down to its directory.** -/
theorem stopsAt_of_follow {r : Rest} {found : Option Entry} {slash : Bool}
    (stops : ending.follows r.slash = false)
    (led : fs.follow ending links r = .ok (.entry bottom name found slash)) :
    fs.StopsAt links r bottom name found slash := by
  induction links generalizing r with
  | zero =>
      rw [follow_eq] at led
      exact stopsAt_of_followWith (fun _ _ tooMany => by cases tooMany) stops led
  | succ links ih =>
      rw [follow_eq] at led
      exact stopsAt_of_followWith (fun _ stops' onward => ⟨links, rfl, ih stops' onward⟩) stops led

theorem Descent.stands (sound : fs.Sound) (descent : fs.Descent links directory names bottom)
    (start : fs.entry? directory = some .directory) : fs.entry? bottom = some .directory := by
  induction descent with
  | here => exact start
  | dot _ ih => exact ih start
  | dots _ ih => exact ih (sound.dropLast start)
  | down _ stands _ ih => exact ih stands
  | link _ _ _ ih => exact ih (entry?_base start _)

/-! ### The search for the canonical location -/

/-- A place that is a directory. -/
def Place.IsDirectory (bottom : Location) : Place → Prop
  | .here directory => directory = bottom
  | .entry directory name found _ => found = some .directory ∧ directory ++ [name] = bottom

theorem followWith_skip {onLink : Rest → Except Errno Place} {slash : Bool} (dots : List String)
    (skipped : ∀ name ∈ dots, name = ".") (more : List String) :
    fs.followWith ending onLink slash directory (dots ++ more) =
      fs.followWith ending onLink slash directory more := by
  induction dots with
  | nil => rfl
  | cons first rest ih =>
      obtain ⟨rfl, others⟩ := List.forall_mem_cons.1 skipped
      rw [List.cons_append, followWith_dot, ih others]

/-- Spellings that differ in dots alone. -/
def SameButDots (names others : List String) : Prop :=
  others.filter (· ≠ ".") = names.filter (· ≠ ".")

theorem SameButDots.cons {others : List String} (dot : name ≠ ".")
    (same : SameButDots (name :: names) others) :
    ∃ dots rest, others = dots ++ name :: rest ∧ (∀ piece ∈ dots, piece = ".") ∧
      SameButDots names rest := by
  have kept : (name :: names).filter (· ≠ ".") = name :: names.filter (· ≠ ".") := by
    rw [List.filter_cons, if_pos (by simpa using dot)]
  rw [SameButDots, kept] at same
  obtain ⟨dots, rest, split, skipped, -, alike⟩ := List.filter_eq_cons_iff.1 same
  exact ⟨dots, rest, split, fun piece member => by simpa using skipped piece member, alike⟩

theorem SameButDots.append {others : List String} (same : SameButDots names others)
    (before : List String) : SameButDots (before ++ names) (before ++ others) := by
  rw [SameButDots, List.filter_append, List.filter_append, same]

/-- **Where a descent ends a search through every link finds a directory**, with or without the dots. -/
theorem Descent.reaches (sound : fs.Sound) (through : ending = .follow ∨ ending = .canonical)
    (deep : ending = .canonical → fs.Roomy) (descent : fs.Descent links directory names bottom)
    (start : fs.entry? directory = some .directory) {others : List String}
    (same : SameButDots names others) (slash : Bool) :
    ∃ place, fs.follow ending links { directory, names := others, slash } = .ok place ∧
      place.IsDirectory bottom := by
  have follows (slash : Bool) : ending.follows slash = true := by
    rcases through with rfl | rfl <;> rfl
  have creates : ending ≠ .create := by
    rcases through with rfl | rfl <;> decide
  simp only [follow_eq]
  induction descent generalizing others slash with
  | here links directory =>
      have skipped : ∀ piece ∈ others, piece = "." := by
        simpa [SameButDots] using same
      refine ⟨.here directory, ?_, rfl⟩
      rw [← List.append_nil others, followWith_skip others skipped, followWith]
  | dot _ ih =>
      refine ih start ?_ slash
      rw [SameButDots, same]
      rfl
  | dots _ ih =>
      obtain ⟨dots, rest, rfl, skipped, alike⟩ := same.cons (by decide)
      obtain ⟨place, led, there⟩ := ih (sound.dropLast start) alike slash
      refine ⟨place, ?_, there⟩
      rw [followWith_skip dots skipped, followWith_dots]
      exact led
  | @down links directory bottom name _ plain stands _ ih =>
      obtain ⟨dots, rest, rfl, skipped, alike⟩ := same.cons plain.1
      have shallow canonical := deep canonical directory name start plain.2.2
      obtain ⟨place, led, there⟩ := ih stands alike slash
      rw [followWith_skip dots skipped]
      cases rest with
      | nil =>
          rw [followWith_last plain (fun creating => absurd creating creates) shallow]
          simp only [stands]
          refine ⟨_, rfl, rfl, ?_⟩
          rw [followWith, Except.ok.injEq] at led
          rw [← led] at there
          exact there
      | cons next rest =>
          rw [followWith_next plain shallow]
          simp only [stands]
          exact ⟨place, led, there⟩
  | @link links directory bottom name target _ plain stands _ ih =>
      obtain ⟨dots, rest, rfl, skipped, alike⟩ := same.cons plain.1
      have shallow canonical := deep canonical directory name start plain.2.2
      have start' := entry?_base start target
      rw [followWith_skip dots skipped]
      cases rest with
      | nil =>
          rw [followWith_last plain (fun creating => absurd creating creates) shallow]
          simp only [stands, follows, if_true, behindLink, follow_eq, followWith.linkRest]
          exact ih start' (alike.append _) _
      | cons next rest =>
          rw [followWith_next plain shallow]
          simp only [stands, behindLink, follow_eq, followWith.linkRest]
          exact ih start' (alike.append _) _

/-- **Behind a descent a search goes on at the last name.** -/
theorem Descent.lands (sound : fs.Sound) (deep : ending = .canonical → fs.Roomy)
    (descent : fs.Descent links directory names bottom)
    (start : fs.entry? directory = some .directory) {slash : Bool} {place : Place}
    (last : ∀ onLink, fs.followWith ending onLink slash bottom [name] = .ok place) :
    fs.follow ending links { directory, names := names ++ [name], slash } = .ok place := by
  simp only [follow_eq]
  induction descent with
  | here => exact last _
  | dot _ ih =>
      rw [List.cons_append, followWith_dot]
      exact ih start last
  | dots _ ih =>
      rw [List.cons_append, followWith_dots]
      exact ih (sound.dropLast start) last
  | @down links directory bottom first rest above stands _ ih =>
      have shallow canonical := deep canonical directory first start above.2.2
      obtain ⟨next, more, split⟩ := List.exists_cons_of_ne_nil (show rest ++ [name] ≠ [] by simp)
      rw [List.cons_append, split, followWith_next above shallow]
      simp only [stands]
      rw [← split]
      exact ih stands last
  | @link links directory bottom first target rest above stands _ ih =>
      have shallow canonical := deep canonical directory first start above.2.2
      have start' := entry?_base start target
      obtain ⟨next, more, split⟩ := List.exists_cons_of_ne_nil (show rest ++ [name] ≠ [] by simp)
      rw [List.cons_append, split, followWith_next above shallow]
      simp only [stands, behindLink, follow_eq, followWith.linkRest]
      rw [← split, ← List.append_assoc]
      exact ih start' last

end Descents

/-! ## Paths and their resources -/

section Resources

variable {fs fs' : Filesystem} {path : String} {at_ : Location} {e : Entry}

/-- What is walked through every link is found by the canonical search too, if no name is too deep. -/
theorem Walk.canonical {onLink onLink' : Rest → Except Errno Place} {slash : Bool}
    {directory : Location} {names : List String} {place : Place} (sound : fs.Sound)
    (roomy : fs.Roomy) (start : fs.entry? directory = some .directory)
    (walk : Walk fs onLink slash directory names place)
    (behind : ∀ r, fs.entry? r.directory = some .directory → onLink r = .ok place →
      onLink' r = .ok place) :
    fs.followWith .canonical onLink' slash directory names = .ok place := by
  induction walk with
  | here => rfl
  | dot _ ih =>
      rw [followWith_dot]
      exact ih start behind
  | dots _ ih =>
      rw [followWith_dots]
      exact ih (sound.dropLast start) behind
  | last plain stands unlinked =>
      rw [followWith_last plain (fun creating => by cases creating)
        fun _ => roomy _ _ start plain.2.2, stands]
      split
      · next target => exact absurd rfl (unlinked target)
      · rfl
  | lastLink plain stands onward =>
      rw [followWith_last plain (fun creating => by cases creating)
        fun _ => roomy _ _ start plain.2.2, stands]
      exact behind _ (entry?_base start _) onward
  | down plain stands _ ih =>
      rw [followWith_next plain fun _ => roomy _ _ start plain.2.2, stands]
      exact ih stands behind
  | link plain stands onward =>
      rw [followWith_next plain fun _ => roomy _ _ start plain.2.2, stands]
      exact behind _ (entry?_base start _) onward

theorem follow_canonical_of_roomy (sound : fs.Sound) (roomy : fs.Roomy) (links : Nat) {r : Rest}
    {place : Place} (start : fs.entry? r.directory = some .directory)
    (led : fs.follow .follow links r = .ok place) : fs.follow .canonical links r = .ok place := by
  induction links generalizing r with
  | zero =>
      rw [follow_eq] at led ⊢
      exact (walk_of_followWith (Or.inl rfl) led).canonical sound roomy start
        fun _ _ tooMany => by cases tooMany
  | succ links ih =>
      rw [follow_eq] at led ⊢
      exact (walk_of_followWith (Or.inl rfl) led).canonical sound roomy start
        fun _ start' onward => ih start' onward

/-- What a search made of that stops only at a link without a slash after it. -/
theorem followWith_of_stay {onLink onLink' : Rest → Except Errno Place} {slash : Bool}
    {directory : Location} {names : List String} {place : Place}
    (led : fs.followWith .stay onLink slash directory names = .ok place)
    (onward : slash = true ∨ ∀ d n target s, place ≠ .entry d n (some (.link target)) s)
    (behind : ∀ r, (r.slash = true ∨ ∀ d n target s, place ≠ .entry d n (some (.link target)) s) →
      onLink r = .ok place → onLink' r = .ok place) :
    fs.followWith .follow onLink' slash directory names = .ok place := by
  induction names generalizing directory with
  | nil => exact led
  | cons first rest ih =>
      by_cases dot : first = "."
      · subst dot
        rw [followWith_dot] at led ⊢
        exact ih led
      by_cases dots : first = ".."
      · subst dots
        rw [followWith_dots] at led ⊢
        exact ih led
      cases rest with
      | nil =>
          have plain : Plain first := by
            refine ⟨dot, dots, ?_⟩
            cases long : tooLong first with
            | false => rfl
            | true =>
                unfold followWith at led
                simp [dot, dots, long] at led
          rw [followWith_last plain (fun creating => by cases creating)
            fun canonical => by cases canonical] at led ⊢
          rcases stands : fs.entry? (directory ++ [first]) with _ | ⟨_ | i | target⟩ <;>
            simp only [stands] at led ⊢
          · exact led
          · exact led
          · exact led
          · cases slash with
            | true => exact behind _ (Or.inl rfl) led
            | false =>
                rcases onward with slashed | unlinked
                · cases slashed
                · cases led
                  exact absurd rfl (unlinked _ _ _ _)
      | cons next rest =>
          have plain := plain_of_next dot dots led
          rw [followWith_next plain fun canonical => by cases canonical] at led ⊢
          rcases stands : fs.entry? (directory ++ [first]) with _ | ⟨_ | i | target⟩ <;>
            simp only [stands, reduceCtorEq] at led ⊢
          · exact ih led
          · exact behind _ onward led

theorem follow_of_stay (links : Nat) {r : Rest} {place : Place}
    (led : fs.follow .stay links r = .ok place)
    (onward : r.slash = true ∨ ∀ d n target s, place ≠ .entry d n (some (.link target)) s) :
    fs.follow .follow links r = .ok place := by
  induction links generalizing r with
  | zero =>
      rw [follow_eq] at led ⊢
      exact followWith_of_stay led onward fun _ _ tooMany => by cases tooMany
  | succ links ih =>
      rw [follow_eq] at led ⊢
      exact followWith_of_stay led onward fun _ onward' next => ih next onward'

theorem Sound.restOf (sound : fs.Sound) (path : String) :
    fs.entry? (fs.restOf path).directory = some .directory := by
  simp only [Filesystem.restOf]
  split
  · exact entry?_root fs
  · exact sound.home

/-- **Where a path leads is its resource.** -/
theorem canonical?_of_find (sound : fs.Sound) (roomy : fs.Roomy) (nul : hasNul path = false)
    (found : fs.find .follow path = .ok (at_, e)) : fs.canonical? path = some at_ := by
  have same : fs.resolve .canonical path = fs.resolve .follow path := by
    cases resolved : fs.resolve .follow path with
    | error fault => simp [find, resolved] at found
    | ok place =>
        obtain ⟨led, ways⟩ := resolve_eq_restOf (by decide) resolved
        rw [ways, follow_canonical_of_roomy sound roomy _ (sound.restOf path) led]
  have led : fs.find .canonical path = .ok (at_, e) := by
    rw [← found, find, find, same]
  simp only [canonical?, nul, led, Bool.false_eq_true, if_false]

/-- The directory of the last name is where the path without that name leads, if the canonical search
finds it, as it does in a roomy tree. -/
theorem Ends.directory (sound : fs.Sound) {bottom : Location} {name : String}
    (ends : fs.Ends maxLinks (fs.restOf path) bottom name) :
    Path.fileName? path = some name ∧ ∃ text, Path.directoryText path = some text ∧
      (∀ there, fs.canonical? text = some there → there = bottom) ∧
      (fs.Roomy → hasNul path = false → fs.canonical? text = some bottom) := by
  obtain ⟨names, split, descent, dot, dots⟩ := ends
  obtain ⟨last, text, directory, filled, absolute, same, within⟩ :=
    Path.parent_of_snoc split dot dots
  have start := sound.restOf path
  have rest : fs.restOf text =
      { directory := (fs.restOf path).directory, names := Path.pieces text,
        slash := Path.endsInSlash text } := by
    simp only [Filesystem.restOf, absolute]
  refine ⟨last, text, directory, fun there led => ?_, fun roomy nul => ?_⟩
  · obtain ⟨-, e, place, found, followed, resolved⟩ := canonical?_eq_some led
    obtain ⟨place', reached, isDirectory⟩ := descent.reaches sound (Or.inl rfl)
      (fun canonical => by cases canonical) start same (Path.endsInSlash text)
    obtain rfl : place' = place :=
      Except.ok.inj (reached.symm.trans (rest ▸ follow_canonical maxLinks followed))
    rw [find, resolved] at found
    rcases place' with directory | ⟨directory, name, found', slash⟩
    · cases found
      exact isDirectory
    · obtain ⟨rfl, rfl⟩ := isDirectory
      cases found
      rfl
  · have free : hasNul text = false := by
      have without : '\x00' ∉ path.toList := by simpa [hasNul] using nul
      have free : '\x00' ∉ text.toList := by
        intro member
        rcases within _ member with inside | slash | period
        · exact without inside
        · cases slash
        · cases period
      simpa [hasNul] using free
    obtain ⟨place, led, there⟩ := descent.reaches sound (Or.inr rfl) (fun _ => roomy) start same
      (Path.endsInSlash text)
    have resolved : fs.resolve .canonical text = .ok place := by
      rw [resolve, if_neg filled, if_neg fun both => both.1 rfl]
      exact (congrArg (fs.follow .canonical maxLinks) rest).trans led
    have found : fs.find .canonical text = .ok (bottom, .directory) := by
      rw [find, resolved]
      rcases place with directory | ⟨directory, name, found, slash⟩
      · rw [← show directory = bottom from there]
      · obtain ⟨rfl, rfl⟩ := there
        rfl
    simp only [canonical?, free, found, Bool.false_eq_true, if_false]

/-- **What stands for a path without a canonical location**: its last name in the directory before it,
or, if that has no canonical location either, the path as it is. -/
theorem resourcePath_of_ends (sound : fs.Sound) {bottom : Location} {name : String}
    (ends : fs.Ends maxLinks (fs.restOf path) bottom name) (nowhere : fs.canonical? path = none) :
    Files.resourcePath fs path = Path.ofNames (bottom ++ [name]) ∨
      Files.resourcePath fs path = path := by
  obtain ⟨last, text, directory, leads, -⟩ := ends.directory sound
  obtain ⟨parent, above, rfl⟩ := Option.map_eq_some_iff.1 directory
  simp only [Files.resourcePath, nowhere, above, last]
  cases canonical : fs.canonical? (if parent = "" then "." else parent) with
  | some there =>
      obtain rfl := leads there canonical
      exact Or.inl rfl
  | none => exact Or.inr rfl

/-- The directory of the last name has a canonical location. -/
theorem resourcePath_of_directory (sound : fs.Sound) {bottom : Location} {name text : String}
    (ends : fs.Ends maxLinks (fs.restOf path) bottom name) (nowhere : fs.canonical? path = none)
    (directory : Path.directoryText path = some text) (canonical : fs.canonical? text ≠ none) :
    Files.resourcePath fs path = Path.ofNames (bottom ++ [name]) := by
  obtain ⟨last, text', same, leads, -⟩ := ends.directory sound
  obtain rfl : text' = text := Option.some.inj (same.symm.trans directory)
  obtain ⟨there, led⟩ := Option.ne_none_iff_exists'.1 canonical
  obtain rfl := leads there led
  obtain ⟨parent, above, rfl⟩ := Option.map_eq_some_iff.1 directory
  simp only [Files.resourcePath, nowhere, above, last, led]

theorem resourcePath_of_stopsAt (sound : fs.Sound) (roomy : fs.Roomy) (nul : hasNul path = false)
    {bottom : Location} {name : String} (ends : fs.Ends maxLinks (fs.restOf path) bottom name)
    (nowhere : fs.canonical? path = none) :
    Files.resourcePath fs path = Path.ofNames (bottom ++ [name]) := by
  obtain ⟨-, text, above, -, canonical⟩ := ends.directory sound
  refine resourcePath_of_directory sound ends nowhere above ?_
  rw [canonical roomy nul]
  exact Option.some_ne_none _

/-- Where a path has room for a file it leads nowhere. -/
theorem canonical?_of_vacancy (sound : fs.Sound) {bottom : Location} {name : String} {slash : Bool}
    (short : tooLong name = false)
    (resolved : fs.resolve .name path = .ok (.entry bottom name none slash)) :
    fs.canonical? path = none := by
  obtain ⟨led, -⟩ := resolve_eq_restOf (by decide) resolved
  obtain ⟨⟨names, split, descent, dot, dots⟩, free, -⟩ := stopsAt_of_follow (by rfl) led
  refine Option.eq_none_iff_forall_ne_some.2 fun there canonical => ?_
  obtain ⟨-, e, place, found, followed, resolved'⟩ := canonical?_eq_some canonical
  have landed : fs.follow .follow maxLinks (fs.restOf path) =
      .ok (.entry bottom name none (fs.restOf path).slash) := by
    have lands : fs.follow .follow maxLinks
        { directory := (fs.restOf path).directory, names := names ++ [name],
          slash := (fs.restOf path).slash } = .ok (.entry bottom name none (fs.restOf path).slash) :=
      descent.lands sound (fun canonical => by cases canonical) (sound.restOf path) fun onLink => by
        rw [followWith_last ⟨dot, dots, short⟩ (fun creating => by cases creating)
          (fun canonical => by cases canonical), ← free]
    rw [← split] at lands
    exact lands
  obtain rfl : place = _ := Except.ok.inj ((follow_canonical maxLinks followed).symm.trans landed)
  simp [find, resolved'] at found

/-- The canonical search finds the directory of the last name of `path`. -/
def ChartedAbove (fs : Filesystem) (path : String) : Prop :=
  ∃ text, Path.directoryText path = some text ∧ fs.canonical? text ≠ none

/-- The canonical search finds what `path` leads to, or it finds the directory of the last name and that
is the name of what `path` leads to, or of nothing. -/
structure Charted (fs : Filesystem) (path : String) : Prop where
  found : ∀ at_ e, fs.find .follow path = .ok (at_, e) → fs.canonical? path ≠ none ∨
    fs.ChartedAbove path ∧ ∃ bottom name slash,
      fs.resolve .name path = .ok (.entry bottom name (some e) slash) ∧ at_ = bottom ++ [name]
  vacant : ∀ bottom name slash, fs.resolve .name path = .ok (.entry bottom name none slash) →
    fs.ChartedAbove path

/-- In a roomy tree every path is charted. -/
theorem Roomy.charted (roomy : fs.Roomy) (sound : fs.Sound) (nul : hasNul path = false) :
    fs.Charted path where
  found at_ e led := by
    rw [canonical?_of_find sound roomy nul led]
    exact Or.inl (Option.some_ne_none at_)
  vacant bottom name slash resolved := by
    obtain ⟨led, -⟩ := resolve_eq_restOf (by decide) resolved
    obtain ⟨ends, -, -⟩ := stopsAt_of_follow (by rfl) led
    obtain ⟨-, text, directory, -, canonical⟩ := ends.directory sound
    refine ⟨text, directory, ?_⟩
    rw [canonical roomy nul]
    exact Option.some_ne_none bottom

/-- **Where a charted path leads is its resource.** -/
theorem Charted.resource_of_find (charted : fs.Charted path) (sound : fs.Sound)
    (found : fs.find .follow path = .ok (at_, e)) :
    Files.resource fs path = .path (Path.ofNames at_) := by
  cases canonical : fs.canonical? path with
  | some there =>
      obtain rfl := canonical?_unique canonical found
      simp only [Files.resource, Files.resourcePath, canonical]
  | none =>
      rcases charted.found at_ e found with somewhere |
        ⟨⟨text, directory, above⟩, bottom, name, slash, resolved, rfl⟩
      · exact absurd canonical somewhere
      · obtain ⟨led, -⟩ := resolve_eq_restOf (by decide) resolved
        obtain ⟨ends, -, -⟩ := stopsAt_of_follow (by rfl) led
        rw [Files.resource, resourcePath_of_directory sound ends canonical directory above]

/-- Where a path has room for a file is a free place in a directory. -/
theorem spot_of_vacancy (sound : fs.Sound) (nul : hasNul path = false) {bottom : Location}
    {name : String} {slash : Bool} (short : tooLong name = false)
    (resolved : fs.resolve .name path = .ok (.entry bottom name none slash)) :
    fs.entry? (bottom ++ [name]) = none ∧ fs.Spot (bottom ++ [name]) := by
  obtain ⟨led, -⟩ := resolve_eq_restOf (by decide) resolved
  obtain ⟨⟨names, split, descent, dot, dots⟩, free, -⟩ := stopsAt_of_follow (by rfl) led
  have piece : name ∈ Path.pieces path := by
    have cut : Path.pieces path = names ++ [name] := split
    rw [cut]
    exact List.mem_append_right _ (List.mem_singleton_self name)
  obtain ⟨spells, within⟩ := Path.mem_pieces piece
  have without : '\x00' ∉ path.toList := by simpa [hasNul] using nul
  exact ⟨free.symm, Or.inr ⟨bottom, name, rfl, descent.stands sound (sound.restOf path), spells,
    ⟨dot, dots, short⟩, fun member => without (within _ member)⟩⟩

/-- **Where a charted path has room for a file is its resource.** -/
theorem Charted.resource_of_vacancy (charted : fs.Charted path) (sound : fs.Sound)
    {bottom : Location} {name : String} {slash : Bool} (short : tooLong name = false)
    (resolved : fs.resolve .name path = .ok (.entry bottom name none slash)) :
    Files.resource fs path = .path (Path.ofNames (bottom ++ [name])) := by
  have nowhere := canonical?_of_vacancy sound short resolved
  obtain ⟨text, directory, canonical⟩ := charted.vacant bottom name slash resolved
  obtain ⟨led, -⟩ := resolve_eq_restOf (by decide) resolved
  obtain ⟨ends, -, -⟩ := stopsAt_of_follow (by rfl) led
  rw [Files.resource, resourcePath_of_directory sound ends nowhere directory canonical]

/-- In a roomy tree every path is known by where it leads. -/
theorem resource_of_find (sound : fs.Sound) (roomy : fs.Roomy) (nul : hasNul path = false)
    (found : fs.find .follow path = .ok (at_, e)) :
    Files.resource fs path = .path (Path.ofNames at_) :=
  (roomy.charted sound nul).resource_of_find sound found

/-- A place that is what it is said to be. -/
def Place.Real (fs : Filesystem) : Place → Prop
  | .here directory => fs.entry? directory = some .directory
  | .entry directory name found _ => fs.entry? (directory ++ [name]) = found

theorem Walk.real {onLink : Rest → Except Errno Place} {slash : Bool} {directory : Location}
    {names : List String} {place : Place} (sound : fs.Sound)
    (start : fs.entry? directory = some .directory)
    (walk : Walk fs onLink slash directory names place)
    (behind : ∀ r, fs.entry? r.directory = some .directory → onLink r = .ok place →
      place.Real fs) : place.Real fs := by
  induction walk with
  | here => exact start
  | dot _ ih => exact ih start behind
  | dots _ ih => exact ih (sound.dropLast start) behind
  | last _ stands _ => exact stands
  | lastLink _ _ onward => exact behind _ (entry?_base start _) onward
  | down _ stands _ ih => exact ih stands behind
  | link _ _ onward => exact behind _ (entry?_base start _) onward

theorem real_of_follow (sound : fs.Sound) (links : Nat) {r : Rest} {place : Place}
    (start : fs.entry? r.directory = some .directory)
    (led : fs.follow .follow links r = .ok place) : place.Real fs := by
  induction links generalizing r with
  | zero =>
      rw [follow_eq] at led
      exact (walk_of_followWith (Or.inl rfl) led).real sound start
        fun _ _ tooMany => by cases tooMany
  | succ links ih =>
      rw [follow_eq] at led
      exact (walk_of_followWith (Or.inl rfl) led).real sound start fun _ start' next => ih start' next

/-- What a search finds is there. -/
theorem stands_of_find (sound : fs.Sound) {ending : Ending}
    (through : ending = .follow ∨ ending = .canonical)
    (found : fs.find ending path = .ok (at_, e)) : fs.entry? at_ = some e := by
  cases resolved : fs.resolve ending path with
  | error fault => simp [find, resolved] at found
  | ok place =>
      have followed : fs.follow .follow maxLinks (fs.restOf path) = .ok place := by
        rcases through with rfl | rfl
        · exact (resolve_eq_restOf (by decide) resolved).1
        · unfold resolve at resolved
          split at resolved
          · cases resolved
          · rw [if_neg fun both => both.1 rfl] at resolved
            exact follow_canonical _ resolved
      have real := real_of_follow sound _ (sound.restOf path) followed
      rw [find, resolved] at found
      rcases place with directory | ⟨directory, name, _ | ⟨_ | i | target⟩, _ | _⟩ <;>
        simp only [Bool.false_eq_true, if_true, if_false, reduceCtorEq, Except.ok.injEq,
          Prod.mk.injEq] at found <;>
        obtain ⟨rfl, rfl⟩ := found <;> exact real

/-- **What a path names is its resource**, be it a link that leads nowhere. -/
theorem resource_of_names (sound : fs.Sound) (roomy : fs.Roomy) (named : fs.names path = true) :
    ∃ at_ e, fs.entry? at_ = some e ∧ Files.resource fs path = .path (Path.ofNames at_) := by
  obtain ⟨clean, isOk⟩ := Bool.and_eq_true_iff.1 named
  have nul : hasNul path = false := by simpa using clean
  cases canonical : fs.canonical? path with
  | some at_ =>
      obtain ⟨-, e, -, found, -⟩ := canonical?_eq_some canonical
      refine ⟨at_, e, stands_of_find sound (Or.inr rfl) found, ?_⟩
      simp only [Files.resource, Files.resourcePath, canonical]
  | none =>
      cases resolved : fs.resolve .stay path with
      | error fault => simp [find, resolved, Except.isOk, Except.toBool] at isOk
      | ok place =>
          obtain ⟨led, ways⟩ := resolve_eq_restOf (by decide) resolved
          by_cases onward : (fs.restOf path).slash = true ∨
              ∀ d n target s, place ≠ .entry d n (some (.link target)) s
          · have same : fs.find .follow path = fs.find .stay path := by
              rw [find, find, resolved, ways, follow_of_stay _ led onward]
            rcases found : fs.find .stay path with fault | ⟨at_, e⟩
            · simp [found, Except.isOk, Except.toBool] at isOk
            · rw [canonical?_of_find sound roomy nul (same.trans found)] at canonical
              cases canonical
          · -- The search stopped at a link that leads nowhere: the path names the link itself.
            simp only [not_or, not_forall, Bool.not_eq_true, not_not] at onward
            obtain ⟨plain, bottom, name, target, slash, rfl⟩ := onward
            obtain ⟨ends, stands, -⟩ := stopsAt_of_follow (by exact plain) led
            refine ⟨bottom ++ [name], .link target, stands.symm, ?_⟩
            rw [Files.resource, resourcePath_of_stopsAt sound roomy nul ends canonical]

/-! ### The path of a location -/

/-- What is above a location is no deeper. -/
theorem shallow_above {name : String} (shallow : tooDeep (at_ ++ [name]) = false) :
    tooDeep at_ = false := by
  have slash : "/".utf8ByteSize = 1 := rfl
  simp only [tooDeep, decide_eq_false_iff_not, Path.ofNames_snoc, String.utf8ByteSize_append] at shallow ⊢
  by_cases root : at_ = []
  · subst root
    decide
  · rw [if_neg root] at shallow
    omega

/-- The path of what stands in a directory leads into that directory. -/
theorem followWith_into {ending : Ending} {onLink : Rest → Except Errno Place} {slash : Bool}
    (sound : fs.Sound) {directory : Location} (shallow : tooDeep directory = false)
    (stands : fs.entry? directory = some .directory) (name : String) (rest : List String) :
    fs.followWith ending onLink slash [] (directory ++ name :: rest) =
      fs.followWith ending onLink slash directory (name :: rest) := by
  induction directory using List.reverseRecOn generalizing name rest with
  | nil => rfl
  | append_singleton above last ih =>
      obtain ⟨dir, clean⟩ := sound.above (by rw [stands]; simp)
      rw [List.append_assoc, List.singleton_append, ih (shallow_above shallow) dir,
        followWith_next clean.plain fun _ => shallow, stands]

theorem resolve_spot {ending : Ending} (sound : fs.Sound) {directory : Location} {name : String}
    (shallow : tooDeep (directory ++ [name]) = false)
    (dir : fs.entry? directory = some .directory) (clean : Clean name)
    (stays : ending = .name ∨ ∀ target, fs.entry? (directory ++ [name]) ≠ some (.link target)) :
    fs.resolve ending (Path.ofNames (directory ++ [name])) =
      .ok (.entry directory name (fs.entry? (directory ++ [name])) false) := by
  have spot : fs.Spot (directory ++ [name]) := Or.inr ⟨directory, name, rfl, dir, clean⟩
  have absolute := Path.isAbsolute_ofNames (directory ++ [name])
  have filled := Path.ofNames_ne_empty (directory ++ [name])
  have short : ¬(ending ≠ .canonical ∧
      maxPath ≤ (Path.ofNames (directory ++ [name])).utf8ByteSize) := by
    rw [tooDeep, decide_eq_false_iff_not] at shallow
    exact fun both => shallow both.2
  rw [resolve, if_neg filled, if_neg short, absolute, if_pos rfl,
    Path.pieces_ofNames fun n member => (spot.clean sound n member).spells,
    Path.endsInSlash_ofNames_snoc _ clean.spells, follow_eq,
    followWith_into sound (shallow_above shallow) dir,
    followWith_last clean.plain (fun _ => rfl) fun _ => shallow]
  rcases stands : fs.entry? (directory ++ [name]) with _ | ⟨_ | i | target⟩
  · rfl
  · rfl
  · rfl
  · rcases stays with rfl | unlinked
    · rfl
    · exact absurd stands (unlinked target)

/-- In a roomy tree the path of every spot can be spelled. -/
theorem Roomy.shallow (roomy : fs.Roomy) (spot : fs.Spot at_) :
    tooDeep at_ = false := by
  rcases spot with rfl | ⟨directory, name, rfl, dir, clean⟩
  · decide
  · exact roomy directory name dir clean.plain.2.2

/-- The path of a file's location leads to the file. -/
theorem fileAt?_spot (sound : fs.Sound) (roomy : fs.Roomy) {inode : Inode}
    (stands : fs.entry? at_ = some (.file inode)) :
    fs.fileAt? (Path.ofNames at_) = some inode := by
  have spot := sound.placed at_ _ stands
  rw [fileAt?_eq_some]
  refine ⟨hasNul_ofNames (spot.clean sound), at_, ?_⟩
  rcases spot with rfl | ⟨directory, name, rfl, dir, clean⟩
  · rw [entry?_root] at stands
    cases stands
  · have unlinked : ∀ target, fs.entry? (directory ++ [name]) ≠ some (.link target) := by
      intro target same
      rw [stands] at same
      cases same
    rw [find, resolve_spot sound (roomy directory name dir clean.plain.2.2) dir clean (Or.inr unlinked),
      stands]
    rfl

/-- **Unlinking the path of a location removes what stands there**, unless it is a directory. -/
theorem unlink_shallow (sound : fs.Sound) (shallow : tooDeep at_ = false) (spot : fs.Spot at_) :
    fs.unlink (Path.ofNames at_) =
      match fs.entry? at_ with
      | none => .error (.os .noEntry)
      | some .directory => .error (.os .isDirectory)
      | some _ => .ok (fs.eraseEntry at_) := by
  have nul := hasNul_ofNames (spot.clean sound)
  rcases spot with rfl | ⟨directory, name, rfl, dir, clean⟩
  · have root : fs.resolve .name (Path.ofNames []) = .ok (.here []) := by
      rw [show Path.ofNames [] = "/" by decide, resolve, if_neg (by decide), if_neg (by decide)]
      rfl
    simp only [unlink, nul, Bool.false_eq_true, if_false, root, entry?_root]
  · have resolved : fs.resolve .name _ = _ := resolve_spot sound shallow dir clean (Or.inl rfl)
    have short := clean.plain.2.2
    simp only [unlink, nul, Bool.false_eq_true, if_false, resolved]
    rcases fs.entry? (directory ++ [name]) with _ | ⟨_ | i | target⟩
    · simp only [short, Bool.false_eq_true, if_false]
    · rfl
    · rfl
    · rfl

theorem unlink_spot (sound : fs.Sound) (roomy : fs.Roomy) (spot : fs.Spot at_) :
    fs.unlink (Path.ofNames at_) =
      match fs.entry? at_ with
      | none => .error (.os .noEntry)
      | some .directory => .error (.os .isDirectory)
      | some _ => .ok (fs.eraseEntry at_) :=
  unlink_shallow sound (roomy.shallow spot) spot

/-- What is unlinked is what the path names itself. -/
theorem unlink_ok (done : fs.unlink path = .ok fs') :
    hasNul path = false ∧ ∃ directory name e,
      fs.resolve .name path = .ok (.entry directory name (some e) false) ∧ e ≠ .directory ∧
      fs' = fs.eraseEntry (directory ++ [name]) := by
  unfold unlink at done
  split at done
  · cases done
  next pure =>
    rcases resolved : fs.resolve .name path with fault | directory | ⟨directory, name, found, slash⟩ <;>
      rw [resolved] at done
    · cases done
    · cases done
    · rcases found with _ | ⟨_ | inode | target⟩
      · cases done
      · cases done
      · cases slash <;> cases done
        exact ⟨by simpa using pure, directory, name, _, rfl, by simp, rfl⟩
      · cases slash <;> cases done
        exact ⟨by simpa using pure, directory, name, _, rfl, by simp, rfl⟩

/-- The path of a location unlinks what stands there, if anything. -/
theorem unlink_ofNames (sound : fs.Sound) (spot : fs.Spot at_)
    (done : fs.unlink (Path.ofNames at_) = .ok fs') : at_ ≠ [] ∧ fs' = fs.eraseEntry at_ := by
  cases shallow : tooDeep at_ with
  | false =>
      rw [unlink_shallow sound shallow spot] at done
      rcases stands : fs.entry? at_ with _ | ⟨_ | inode | target⟩ <;> rw [stands] at done <;> cases done
      · exact ⟨below_of_stands stands (by simp), rfl⟩
      · exact ⟨below_of_stands stands (by simp), rfl⟩
  | true =>
      obtain ⟨-, directory, name, e, resolved, -⟩ := unlink_ok done
      rw [tooDeep, decide_eq_true_iff] at shallow
      rw [resolve, if_neg (Path.ofNames_ne_empty at_), if_pos ⟨by decide, shallow⟩] at resolved
      cases resolved

end Resources

end Filesystem

end Transact
