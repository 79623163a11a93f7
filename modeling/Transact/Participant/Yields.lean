/-
# Transact.Participant.Yields -- yielding the processor in a transaction

A yield leaves nothing to perform or revert; yields are counted for the journal.
-/
import Transact.Log.Journal
import Transact.Participant
import Transact.World

namespace Transact

set_option autoImplicit false

/-- The yields of one transaction. -/
structure Yields where
  count : Nat := 0
  deriving DecidableEq

namespace Yields

def yieldOnce (s : Yields) : Yields := ⟨s.count + 1⟩

/-- The line of one yield. -/
def line : String := (JournalLine.of .scheduler "yield" (.named "scheduler") []).render

def journal (s : Yields) : List String := List.replicate s.count line

instance : Participant Yields World where
  domain _ := .scheduler
  lock _ s w := (.ok (), s, w)
  unlock _ s w := (s, w)
  validate _ _ _ w := (true, w)
  apply _ s w := (.ok (), s, w)
  undo _ s w := (.ok (), s, w)
  finish _ s w := (s, w)
  release _ w := ({}, w)
  journal s _ := s.journal

end Yields

end Transact
