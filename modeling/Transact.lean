import Transact.Table
import Transact.Bytes
import Transact.Duration
import Transact.Error
import Transact.Error.SystemText
import Transact.Path
import Transact.Domain
import Transact.Phase
import Transact.Outcome
import Transact.Config
import Transact.EventBus
import Transact.Switchboard
import Transact.Stats
import Transact.Text.Unprintable
import Transact.Text.Quoted
import Transact.Text.Base64
import Transact.Resource.Id
import Transact.Resource.Version
import Transact.Resource.Lock
import Transact.Log
import Transact.Log.Journal
import Transact.Filesystem.Content
import Transact.Filesystem.Tree
import Transact.Filesystem.Resolve
import Transact.Filesystem.Calls
import Transact.Pipe
import Transact.Thread
import Transact.World
import Transact.Participant
import Transact.Participant.Files
import Transact.Participant.Pipes
import Transact.Participant.Threads
import Transact.Participant.Yields
import Transact.Participant.Builtin
import Transact.Transaction
import Transact.Manager
import Transact.Rehearsal.Report
import Transact.Rehearsal.Stage
import Transact.Rehearsal.Players
import Transact.Rehearsal.Step
import Transact.Rehearsal.Scene
import Transact.Rehearsal.Play
import Transact.Rehearsal.LogDrill
import Transact.Rehearsal.VersionDrill
import Transact.Rehearsal.LockDrill
import Transact.Rehearsal.BusDrill
import Transact.Rehearsal.ConfigDrill
import Transact.Rehearsal.Question
import Transact.Proofs.Recording
import Transact.Proofs.Use
import Transact.Proofs.Ending
import Transact.Proofs.Lifecycle
import Transact.Proofs.Verdict
import Transact.Proofs.Access
import Transact.Proofs.Contention
import Transact.Proofs.FirstCommitter
import Transact.Proofs.Existing
import Transact.Proofs.Descriptors
import Transact.Proofs.FileCalls
import Transact.Proofs.FileView
import Transact.Proofs.FileEnding
import Transact.Proofs.Serializable
import Transact.Proofs.PipeFlow
import Transact.Proofs.PipeCalls
import Transact.Proofs.PipeEnding
import Transact.Proofs.PipeStream
import Transact.Proofs.PipeBuffer
import Transact.Proofs.Spelling
import Transact.Proofs.Places
import Transact.Proofs.Parties
import Transact.Proofs.Seats
import Transact.Proofs.Conduct
import Transact.Proofs.Filings
import Transact.Proofs.NameVersions
import Transact.Proofs.Undoing
import Transact.Proofs.FilesInPlace
import Transact.Proofs.Creations
import Transact.Proofs.Restoring
import Transact.Proofs.Unlocking
import Transact.Proofs.Withholding
import Transact.Proofs.Workshop
import Transact.Proofs.Traceless
import Transact.Proofs.Procedure
import Transact.Proofs.Starting
import Transact.Proofs.Stepwise
import Transact.Proofs.Proceedings
import Transact.Proofs.Ranking
import Transact.Proofs.Requests
import Transact.Proofs.Holdings
import Transact.Proofs.Readiness
import Transact.Proofs.Sparing
import Transact.Proofs.Custody
import Transact.Proofs.Crowd
import Transact.Proofs.Exclusion
import Transact.Proofs.Marking
import Transact.Proofs.Tally
import Transact.Proofs.Accounting
import Transact.Proofs.Attempts
import Transact.Proofs.Retrying
import Transact.Proofs.Faults
import Transact.Proofs.Unopposed
import Transact.Proofs.Performing
import Transact.Proofs.UntouchedPipes
import Transact.Proofs.Alone
import Transact.Proofs.Turns
import Transact.Proofs.Lent
import Transact.Proofs.Lending
import Transact.Proofs.Encoding
import Transact.Proofs.Reaching
import Transact.Proofs.JournalText
import Transact.Proofs.LineForms
import Transact.Proofs.LogVisits
import Transact.Proofs.Compensating
import Transact.Proofs.EarlyValidation
import Transact.Proofs.ManagerPrograms
import Transact.Proofs.Announcing
import Transact.Proofs.Granting
import Transact.Proofs.OwnWrites
import Transact.Proofs.Absence
import Transact.Proofs.RunSafety
import Transact.Proofs.Deposits
import Transact.Proofs.Fulfilling
import Transact.Proofs.LogicalEnd
import Transact.Proofs.Unlinking
import Transact.Proofs.Identity
import Transact.Proofs.Fruitless
import Transact.Proofs.Delays
import Transact.Proofs.Canonical
import Transact.Proofs.Snapshots
import Transact.Proofs.Limits
import Transact.Proofs.Offsets
