/-
# Transact.Path -- file names by their components

Two spellings of a path are equal when they have the same components: repeated slashes, a slash at
the end and a dot that is not at the start do not count, while two dots are kept as they are.
`order` puts the root before a leading dot, that before two dots, and those before plain names,
which go by code point.
-/

namespace Transact

set_option autoImplicit false

/-- What a path is made of, between its slashes. -/
inductive Component where
  | root
  | current
  | parent
  | name (text : String)
  deriving DecidableEq

namespace Component

/-- The text between the slashes; the root has none. -/
def text : Component → String
  | .root => ""
  | .current => "."
  | .parent => ".."
  | .name t => t

/-- Components go by kind first, names among themselves by their text. -/
def rank : Component → Nat × String
  | .root => (0, "")
  | .current => (1, "")
  | .parent => (2, "")
  | .name t => (3, t)

end Component

namespace Path

/-! ## Splitting -/

/-- The pieces between slashes, empty ones included. -/
def splitSlashes : List Char → List (List Char)
  | [] => [[]]
  | c :: rest =>
      match splitSlashes rest with
      | [] => [[c]]
      | piece :: pieces => if c = '/' then [] :: piece :: pieces else (c :: piece) :: pieces

/-- The non-empty pieces between slashes. -/
def pieces (path : String) : List String :=
  ((splitSlashes path.toList).filter (· ≠ [])).map String.ofList

def isAbsolute (path : String) : Bool := path.toList.head? == some '/'

def endsInSlash (path : String) : Bool := path.toList.getLast? == some '/'

def component (piece : String) : Component :=
  if piece = "." then .current else if piece = ".." then .parent else .name piece

/-- The components of `path`; a dot counts only at the start of a relative path. -/
def components (path : String) : List Component :=
  let rest := ((pieces path).map component)
  if isAbsolute path then .root :: rest.filter (· ≠ .current)
  else
    match rest with
    | .current :: more => .current :: more.filter (· ≠ .current)
    | more => more.filter (· ≠ .current)

/-! ## Joining -/

/-- The plainest spelling of a list of components. -/
def ofComponents : List Component → String
  | .root :: rest => "/" ++ String.intercalate "/" (rest.map Component.text)
  | parts => String.intercalate "/" (parts.map Component.text)

/-- The absolute path of a list of names from the root. -/
def ofNames (names : List String) : String := "/" ++ String.intercalate "/" names

/-- The path without its last component; the root and the empty path have no parent. -/
def parent? (path : String) : Option String :=
  match (components path).reverse with
  | [] | .root :: _ => none
  | _ :: rest => some (ofComponents rest.reverse)

/-- The last component if it is a plain name. -/
def fileName? (path : String) : Option String :=
  match (components path).getLast? with
  | some (.name text) => some text
  | _ => none

end Path

end Transact
