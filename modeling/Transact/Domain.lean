/-
# Transact.Domain -- the sorts of participants and their order

Each participant of a transaction speaks for one domain of resources.  `order` is the order in
which participants are locked at commit: files, pipes, threads, the scheduler, then what an
application adds, by number.
-/

namespace Transact

set_option autoImplicit false

/-- A domain of resources. -/
inductive Domain where
  | file
  | pipe
  | thread
  | scheduler
  | custom (number : Nat)
  deriving DecidableEq

namespace Domain

/-- Built-in domains come first, custom ones by their number. -/
def rank : Domain → Nat × Nat
  | .file => (0, 0)
  | .pipe => (1, 0)
  | .thread => (2, 0)
  | .scheduler => (3, 0)
  | .custom number => (4, number)

def order (a b : Domain) : Ordering :=
  (compare a.rank.1 b.rank.1).then (compare a.rank.2 b.rank.2)

def render : Domain → String
  | .file => "file"
  | .pipe => "pipe"
  | .thread => "thread"
  | .scheduler => "sched"
  | .custom number => "custom-" ++ toString number

/-- The name of the domain as a term. -/
def term : Domain → String
  | .file => "File"
  | .pipe => "Pipe"
  | .thread => "Thread"
  | .scheduler => "Sched"
  | .custom number => "Custom(" ++ toString number ++ ")"

/-- Put `d` in its place, after those that are not greater. -/
def insertAfter (d : Domain) : List Domain → List Domain
  | [] => [d]
  | other :: rest => if d.order other = .lt then d :: other :: rest else other :: insertAfter d rest

def sorted (ds : List Domain) : List Domain := ds.foldl (fun acc d => insertAfter d acc) []

end Domain

end Transact
