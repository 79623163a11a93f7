/-
# Transact.Participant -- what a transaction asks of those who take part

A participant speaks for one domain of resources.  It keeps a private state `P` and acts on a world
`W`; nothing else is known about either, so a participant may answer in any way, and differently
each time.  The coordinator calls, on the way to a commit,

    lock, validate, apply, finish, unlock, release

and on the way to an abort `undo` in place of `apply`.  `unlock` is called for those whose `lock`
succeeded.  A lock that fails must have given back what it took.
-/
import Transact.Config
import Transact.Domain
import Transact.Resource.Lock

namespace Transact

set_option autoImplicit false

/-- What a transaction hands to its participants. -/
structure Context where
  tx : TxId
  config : Config
  deriving DecidableEq

/-- When a validation happens. -/
inductive Validation where
  /-- In the middle of the body, without locks. -/
  | early
  /-- At the end, under the locks. -/
  | final
  deriving DecidableEq

class Participant (P : Type) (W : outParam Type) where
  domain : P → Domain
  lock : Context → P → W → Except Error Unit × P × W
  unlock : Context → P → W → P × W
  /-- Whether what was seen still holds.  A validation changes no participant. -/
  validate : Context → Validation → P → W → Bool × W
  apply : Context → P → W → Except Error Unit × P × W
  undo : Context → P → W → Except Error Unit × P × W
  finish : Context → P → W → P × W
  release : P → W → P × W
  /-- What is written down and not yet performed or reverted. -/
  journal : P → W → List String

/-- A sort of participant within `P`: how to make one, and how to find one again. -/
structure Facet (P M : Type) where
  domain : Domain
  fresh : M
  wrap : M → P
  view : P → Option M

end Transact
