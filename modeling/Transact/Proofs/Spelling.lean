/-
# Transact.Proofs.Spelling -- paths and the names they are spelled with

A path is read by cutting it at its slashes.  Names without a slash come back from every spelling they
are joined to (`pieces_joined`, `pieces_ofNames`), and the path of a list of names is the only one of
its key among such paths (`key_ofNames_inj`).

The parent of a path that ends in a name is spelled with the names before it, but for dots
(`parent_of_snoc`).
-/
import Transact.Resource.Id

namespace Transact

set_option autoImplicit false

namespace Path

/-- A name that can stand between two slashes. -/
structure Spells (name : String) : Prop where
  filled : name ≠ ""
  whole : '/' ∉ name.toList

/-- Names with a slash before each. -/
def slashed (names : List String) : List Char := names.flatMap fun name => '/' :: name.toList

/-! ## Joining -/

theorem toList_joined (name : String) (rest : List String) :
    (String.intercalate "/" (name :: rest)).toList = name.toList ++ slashed rest := by
  induction rest generalizing name with
  | nil => simp [slashed]
  | cons next rest ih =>
      rw [String.intercalate_cons_cons, String.toList_append, String.toList_append, ih]
      simp [slashed]

theorem toList_ofNames {names : List String} (nonempty : names ≠ []) :
    (ofNames names).toList = slashed names := by
  obtain ⟨name, rest, rfl⟩ := List.exists_cons_of_ne_nil nonempty
  rw [ofNames, String.toList_append, toList_joined]
  simp [slashed]

/-- The path of a name below a location. -/
theorem ofNames_snoc (names : List String) (name : String) :
    ofNames (names ++ [name]) = (if names = [] then "" else ofNames names) ++ "/" ++ name := by
  refine String.toList_inj.1 ?_
  rw [toList_ofNames (by simp)]
  by_cases root : names = []
  · simp [root, slashed]
  · simp [root, slashed, toList_ofNames root]

theorem isAbsolute_ofNames (names : List String) : isAbsolute (ofNames names) = true := by
  simp [isAbsolute, ofNames]

theorem endsInSlash_ofNames_snoc (names : List String) {name : String} (spells : Spells name) :
    endsInSlash (ofNames (names ++ [name])) = false := by
  have last : (ofNames (names ++ [name])).toList.getLast? = name.toList.getLast? := by
    have filled : name.toList ≠ [] := by simpa using spells.filled
    rw [ofNames_snoc, String.toList_append, List.getLast?_append,
      List.getLast?_eq_some_getLast filled]
    rfl
  rw [endsInSlash, last, beq_eq_false_iff_ne]
  intro slash
  exact spells.whole (List.mem_of_getLast? slash)

/-- A name adds itself and a slash at most. -/
theorem size_ofNames_snoc_le (names : List String) (name : String) :
    (ofNames (names ++ [name])).utf8ByteSize ≤
      (ofNames names).utf8ByteSize + 1 + name.utf8ByteSize := by
  have slash : "/".utf8ByteSize = 1 := rfl
  rw [ofNames_snoc]
  by_cases root : names = []
  · simp only [root, if_true, String.utf8ByteSize_append, String.utf8ByteSize_empty]
    omega
  · simp only [root, if_false, String.utf8ByteSize_append]
    omega

/-! ## Cutting -/

theorem splitSlashes_ne_nil (text : List Char) : splitSlashes text ≠ [] := by
  induction text with
  | nil => simp [splitSlashes]
  | cons c rest ih =>
      obtain ⟨piece, more, split⟩ := List.exists_cons_of_ne_nil ih
      rw [splitSlashes, split]
      simp only
      split <;> simp

theorem splitSlashes_slash (text : List Char) :
    splitSlashes ('/' :: text) = [] :: splitSlashes text := by
  obtain ⟨piece, more, split⟩ := List.exists_cons_of_ne_nil (splitSlashes_ne_nil text)
  rw [splitSlashes, split]
  simp

/-- What has no slash is one piece, and what comes after begins with a slash. -/
theorem splitSlashes_slashed (names : List String) (whole : ∀ name ∈ names, '/' ∉ name.toList)
    {first : List Char} (free : '/' ∉ first) :
    splitSlashes (first ++ slashed names) = first :: names.map String.toList := by
  induction first with
  | nil =>
      cases names with
      | nil => rfl
      | cons name rest =>
          obtain ⟨here, there⟩ := List.forall_mem_cons.1 whole
          have next := splitSlashes_slashed rest there here
          simp only [slashed, List.flatMap_cons, List.nil_append, List.cons_append, List.map_cons]
            at next ⊢
          rw [splitSlashes_slash, next]
  | cons c first ih =>
      rw [List.mem_cons, not_or] at free
      rw [List.cons_append, splitSlashes, ih free.2]
      simp only [if_neg (Ne.symm free.1)]
termination_by (names.length, first.length)

/-- Every piece is made of characters of the path other than slashes. -/
theorem mem_splitSlashes {text piece : List Char} (member : piece ∈ splitSlashes text) :
    '/' ∉ piece ∧ ∀ c ∈ piece, c ∈ text := by
  induction text generalizing piece with
  | nil =>
      simp only [splitSlashes, List.mem_singleton] at member
      simp [member]
  | cons c rest ih =>
      obtain ⟨first, more, split⟩ := List.exists_cons_of_ne_nil (splitSlashes_ne_nil rest)
      rw [splitSlashes, split] at member
      rw [split] at ih
      have later {p : List Char} (there : p ∈ first :: more) :
          '/' ∉ p ∧ ∀ d ∈ p, d ∈ c :: rest :=
        ⟨(ih there).1, fun d inside => List.mem_cons_of_mem _ ((ih there).2 d inside)⟩
      simp only at member
      split at member
      · rcases List.mem_cons.1 member with rfl | there
        · simp
        · exact later there
      · next other =>
        rcases List.mem_cons.1 member with rfl | there
        · obtain ⟨free, within⟩ := ih List.mem_cons_self
          refine ⟨?_, ?_⟩
          · rw [List.mem_cons, not_or]
            exact ⟨Ne.symm other, free⟩
          · intro d inside
            rcases List.mem_cons.1 inside with rfl | deeper
            · exact List.mem_cons_self
            · exact List.mem_cons_of_mem _ (within d deeper)
        · exact later (List.mem_cons_of_mem _ there)

theorem mem_pieces {path name : String} (member : name ∈ pieces path) :
    Spells name ∧ ∀ c ∈ name.toList, c ∈ path.toList := by
  obtain ⟨piece, kept, rfl⟩ := List.mem_map.1 member
  obtain ⟨there, filled⟩ := List.mem_filter.1 kept
  obtain ⟨whole, within⟩ := mem_splitSlashes there
  refine ⟨⟨?_, ?_⟩, ?_⟩
  · simpa using filled
  · simpa using whole
  · simpa using within

/-- Names come back from a path they are joined to. -/
theorem pieces_slashed {path : String} {first : List Char} {names : List String}
    (spelled : path.toList = first ++ slashed names) (free : '/' ∉ first)
    (spell : ∀ name ∈ names, Spells name) :
    pieces path = (if first = [] then [] else [String.ofList first]) ++ names := by
  have kept : (names.map String.toList).filter (· ≠ []) = names.map String.toList := by
    rw [List.filter_eq_self]
    intro piece member
    obtain ⟨name, there, rfl⟩ := List.mem_map.1 member
    simpa using (spell name there).filled
  rw [pieces, spelled, splitSlashes_slashed names (fun name member => (spell name member).whole) free,
    List.filter_cons, kept]
  by_cases root : first = []
  · simp [root]
  · simp [root]

theorem pieces_ofNames {names : List String} (spell : ∀ name ∈ names, Spells name) :
    pieces (ofNames names) = names := by
  by_cases root : names = []
  · subst root
    decide
  · rw [pieces_slashed (toList_ofNames root : _ = [] ++ slashed names) List.not_mem_nil spell,
      if_pos rfl, List.nil_append]

theorem pieces_joined {names : List String} (spell : ∀ name ∈ names, Spells name) :
    pieces (String.intercalate "/" names) = names := by
  cases names with
  | nil => decide
  | cons name rest =>
      obtain ⟨here, there⟩ := List.forall_mem_cons.1 spell
      have filled : name.toList ≠ [] := by simpa using here.filled
      rw [pieces_slashed (toList_joined name rest) here.whole there, if_neg filled,
        String.ofList_toList, List.singleton_append]

/-! ## Components -/

@[simp] theorem text_component (piece : String) : (component piece).text = piece := by
  unfold component
  split
  · next dot => exact dot.symm
  · split
    · next dots => exact dots.symm
    · rfl

theorem component_ne_root (piece : String) : component piece ≠ .root := by
  unfold component
  split
  · decide
  · split
    · decide
    · exact fun same => by cases same

theorem component_eq_current {piece : String} : component piece = .current ↔ piece = "." := by
  unfold component
  split
  · simp [*]
  · split <;> simp [*]

theorem component_name {name : String} (dot : name ≠ ".") (dots : name ≠ "..") :
    component name = .name name := by
  rw [component, if_neg dot, if_neg dots]

/-- Leaving out the dots among the components is leaving out the dots among the names. -/
theorem filter_component (names : List String) :
    (names.map component).filter (· ≠ .current) = (names.filter (· ≠ ".")).map component := by
  rw [List.filter_map]
  congr 1
  refine List.filter_congr fun name _ => ?_
  simp [component_eq_current]

/-- The components of the path of a location, none of whose names is a dot or two. -/
theorem components_ofNames {names : List String} (spell : ∀ name ∈ names, Spells name)
    (plain : ∀ name ∈ names, name ≠ "." ∧ name ≠ "..") :
    components (ofNames names) = .root :: names.map .name := by
  have all : names.filter (· ≠ ".") = names := by
    rw [List.filter_eq_self]
    intro name member
    simpa using (plain name member).1
  rw [components, isAbsolute_ofNames, if_pos rfl, pieces_ofNames spell, filter_component, all]
  congr 1
  refine List.map_congr_left fun name member => ?_
  exact component_name (plain name member).1 (plain name member).2

/-- **A location is told by the key of its path.** -/
theorem key_ofNames_inj {names others : List String} (spell : ∀ name ∈ names, Spells name)
    (plain : ∀ name ∈ names, name ≠ "." ∧ name ≠ "..") (spell' : ∀ name ∈ others, Spells name)
    (plain' : ∀ name ∈ others, name ≠ "." ∧ name ≠ "..")
    (same : (ResourceId.path (ofNames names)).key = (ResourceId.path (ofNames others)).key) :
    names = others := by
  simp only [ResourceId.key, components_ofNames spell plain, components_ofNames spell' plain',
    List.map_cons, List.map_map, ResourceKey.mk.injEq, List.cons.injEq, true_and] at same
  refine (List.map_inj_right ?_).1 same
  intro name other alike
  simpa [Component.rank] using alike

/-! ## The parent of a name -/

/-- What names the directory of a path: the parent, or the place where relative paths start. -/
def directoryText (path : String) : Option String :=
  (parent? path).map fun parent => if parent = "" then "." else parent

/-- The components of a path that ends in a plain name, and how the others are spelled. -/
theorem components_of_snoc {path : String} {names : List String} {name : String}
    (cut : pieces path = names ++ [name]) (dot : name ≠ ".") (dots : name ≠ "..") :
    ∃ kept : List String, kept.filter (· ≠ ".") = names.filter (· ≠ ".") ∧
      (∀ piece ∈ kept, piece ∈ names) ∧
      components path =
        (if isAbsolute path then [.root] else []) ++ kept.map component ++ [.name name] := by
  have last : component name = .name name := component_name dot dots
  have bare : ∀ pieces : List String,
      ((pieces ++ [name]).map component).filter (· ≠ .current) =
        (pieces.filter (· ≠ ".")).map component ++ [.name name] := by
    intro pieces
    rw [filter_component, List.filter_append, List.map_append]
    simp [dot, last]
  have within (pieces : List String) : ∀ piece ∈ pieces.filter (· ≠ "."), piece ∈ pieces :=
    fun piece member => (List.mem_filter.1 member).1
  cases absolute : isAbsolute path with
  | true =>
      refine ⟨names.filter (· ≠ "."), by simp, within names, ?_⟩
      rw [components, absolute, if_pos rfl, cut, bare]
      simp
  | false =>
      simp only [components, absolute, Bool.false_eq_true, if_false, cut, List.nil_append]
      by_cases leading : ∃ rest, names = "." :: rest
      · obtain ⟨rest, rfl⟩ := leading
        refine ⟨"." :: rest.filter (· ≠ "."), by simp, ?_, ?_⟩
        · intro piece member
          rcases List.mem_cons.1 member with rfl | there
          · exact List.mem_cons_self
          · exact List.mem_cons_of_mem _ (within rest piece there)
        · have current : component "." = .current := by decide
          simp only [List.cons_append, List.map_cons, current, bare]
      · refine ⟨names.filter (· ≠ "."), by simp, within names, ?_⟩
        have other : ∀ more, (names ++ [name]).map component ≠ .current :: more := by
          intro more same
          cases names with
          | nil =>
              simp only [List.nil_append, List.map_cons, last, List.cons.injEq, reduceCtorEq,
                false_and] at same
          | cons first rest =>
              simp only [List.cons_append, List.map_cons, List.cons.injEq] at same
              exact leading ⟨rest, by rw [component_eq_current.1 same.1]⟩
        split
        · next same => exact absurd same (other _)
        · exact bare names

theorem ofComponents_relative (names : List String) :
    ofComponents (names.map component) = String.intercalate "/" names := by
  have texts : (names.map component).map Component.text = names := by simp [Function.comp_def]
  cases names with
  | nil => rfl
  | cons name rest =>
      have here := component_ne_root name
      rw [List.map_cons] at texts ⊢
      unfold ofComponents
      split
      · next same =>
        rw [List.cons.injEq] at same
        exact absurd same.1 here
      · rw [texts]

/-- What is left of a path without its last name. -/
theorem parent?_of_components {path : String} {kept : List String} {name : String}
    (split : components path =
      (if isAbsolute path then [.root] else []) ++ kept.map component ++ [.name name]) :
    parent? path =
      some (if isAbsolute path then ofNames kept else String.intercalate "/" kept) := by
  cases absolute : isAbsolute path with
  | true =>
      have texts : (kept.map component).map Component.text = kept := by simp [Function.comp_def]
      simp only [parent?, split, absolute, if_true, List.reverse_append, List.reverse_cons,
        List.reverse_nil, List.nil_append, List.reverse_reverse, List.cons_append, ofComponents,
        texts, ofNames]
  | false =>
      simp only [parent?, split, absolute, Bool.false_eq_true, if_false, List.nil_append,
        List.reverse_append, List.reverse_cons, List.reverse_nil, List.singleton_append,
        List.reverse_reverse, ofComponents_relative]

theorem ofNames_ne_empty (names : List String) : ofNames names ≠ "" := by
  intro empty
  have start := isAbsolute_ofNames names
  rw [empty] at start
  cases start

/-- Names that are joined start with the first of them. -/
theorem joined_relative {first : String} (spell : Spells first) (rest : List String) :
    String.intercalate "/" (first :: rest) ≠ "" ∧
      isAbsolute (String.intercalate "/" (first :: rest)) = false := by
  have spelled := toList_joined first rest
  obtain ⟨c, more, begins⟩ : ∃ c more, first.toList = c :: more :=
    List.exists_cons_of_ne_nil (by simpa using spell.filled)
  rw [begins] at spelled
  refine ⟨fun empty => ?_, ?_⟩
  · rw [empty] at spelled
    simp at spelled
  · have slash : c ≠ '/' := by
      rintro rfl
      exact spell.whole (begins ▸ List.mem_cons_self)
    rw [isAbsolute, spelled]
    simpa using slash

/-- **The directory of a name is spelled with the names before it**, but for dots that lead nowhere. -/
theorem parent_of_snoc {path : String} {names : List String} {name : String}
    (cut : pieces path = names ++ [name]) (dot : name ≠ ".") (dots : name ≠ "..") :
    fileName? path = some name ∧ ∃ text, directoryText path = some text ∧ text ≠ "" ∧
      isAbsolute text = isAbsolute path ∧
      (pieces text).filter (· ≠ ".") = names.filter (· ≠ ".") ∧
      ∀ c ∈ text.toList, c ∈ path.toList ∨ c = '/' ∨ c = '.' := by
  obtain ⟨kept, same, within, split⟩ := components_of_snoc cut dot dots
  have parent := parent?_of_components split
  have spell : ∀ piece ∈ kept, Spells piece ∧ ∀ c ∈ piece.toList, c ∈ path.toList := by
    intro piece member
    refine mem_pieces ?_
    rw [cut]
    exact List.mem_append_left _ (within piece member)
  have inside : ∀ c ∈ slashed kept, c ∈ path.toList ∨ c = '/' ∨ c = '.' := by
    intro c member
    obtain ⟨piece, there, here⟩ := List.mem_flatMap.1 member
    rcases List.mem_cons.1 here with slash | deeper
    · exact Or.inr (Or.inl slash)
    · exact Or.inl ((spell piece there).2 c deeper)
  refine ⟨by simp [fileName?, split], ?_⟩
  cases absolute : isAbsolute path with
  | true =>
      rw [absolute, if_pos rfl] at parent
      have filled := ofNames_ne_empty kept
      refine ⟨ofNames kept, by simp [directoryText, parent, filled], filled,
        isAbsolute_ofNames kept, ?_, ?_⟩
      · rw [pieces_ofNames fun piece member => (spell piece member).1, same]
      · intro c member
        by_cases root : kept = []
        · subst root
          exact Or.inr (Or.inl (by simpa [ofNames] using member))
        · exact inside c (toList_ofNames root ▸ member)
  | false =>
      rw [absolute, if_neg (by decide)] at parent
      cases kept with
      | nil =>
          refine ⟨".", by simp [directoryText, parent], by decide, by decide, ?_, by simp⟩
          rw [← same]
          decide
      | cons first rest =>
          obtain ⟨here, -⟩ := List.forall_mem_cons.1 spell
          obtain ⟨filled, relative⟩ := joined_relative here.1 rest
          refine ⟨_, by simp [directoryText, parent, filled], filled, relative, ?_, ?_⟩
          · rw [pieces_joined fun piece member => (spell piece member).1, same]
          · intro d member
            rw [toList_joined first rest] at member
            rcases List.mem_append.1 member with early | late
            · exact Or.inl (here.2 d early)
            · refine inside d ?_
              rw [slashed, List.flatMap_cons]
              exact List.mem_append_right _ late

end Path

end Transact
