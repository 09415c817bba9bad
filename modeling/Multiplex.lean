import Multiplex.Completion
import Multiplex.Config
import Multiplex.Idle
import Multiplex.Loop
import Multiplex.Loop.Termination
import Multiplex.Proofs.Live
import Multiplex.Request
import Multiplex.Response
import Multiplex.Scenario.Connection
import Multiplex.Scenario.Exchange
import Multiplex.Scenario.Register
import Multiplex.Scenario.Rounds
import Multiplex.TimeFormat
import Multiplex.Url
import Multiplex.Verdict
import Multiplex.Wire.Transport
import Multiplex.Proofs.Coupling
import Multiplex.Proofs.Move
import Multiplex.Proofs.Account
import Multiplex.Proofs.Admission
import Multiplex.Proofs.Receipts
import Multiplex.Proofs.Change
import Multiplex.Proofs.Activity
import Multiplex.Proofs.Frames
import Multiplex.Proofs.Discipline
import Multiplex.Proofs.Answers
import Multiplex.Proofs.Freeze
import Multiplex.Proofs.Closing
import Multiplex.Proofs.IoSteps
import Multiplex.Proofs.Revival
import Multiplex.Proofs.Output
import Multiplex.Proofs.Lockstep
import Multiplex.Proofs.Batching
import Multiplex.Proofs.Calls
import Multiplex.Proofs.Rounds
import Multiplex.Proofs.Ledger
import Multiplex.Proofs.Telling
import Multiplex.Proofs.Delivery
import Multiplex.Proofs.Places
import Multiplex.Proofs.Roundtrip
import Multiplex.Proofs.Bookkeeping
import Multiplex.Proofs.Lifecycle
import Multiplex.Proofs.Field
import Multiplex.Proofs.Intake
import Multiplex.Proofs.Origin
import Multiplex.Proofs.Limit
import Multiplex.Proofs.Abort
import Multiplex.Proofs.Proceedings
import Multiplex.Proofs.Head
import Multiplex.Proofs.IdTable
import Multiplex.Proofs.Word
import Multiplex.Proofs.Options
import Multiplex.Proofs.Sinks
import Multiplex.Proofs.Setup
import Multiplex.Proofs.Comparison
import Multiplex.Proofs.Concurrency
import Multiplex.Proofs.Consistency
import Multiplex.Proofs.Numbering
import Multiplex.Proofs.Teardown
import Multiplex.Proofs.Projection
import Multiplex.Proofs.Lives
import Multiplex.Proofs.Departures
import Multiplex.Proofs.Blame
import Multiplex.Proofs.Isolation
import Multiplex.Proofs.Resumption
import Multiplex.Proofs.Expiry
import Multiplex.Proofs.Parting
import Multiplex.Proofs.Wakeup
