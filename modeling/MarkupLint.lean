import MarkupLint.Main
import MarkupLint.Linting.Session
import MarkupLint.Proofs.Conduct
import MarkupLint.Proofs.Linting.Follow
import MarkupLint.Proofs.Linting.Pending
import MarkupLint.Proofs.Linting.Story
import MarkupLint.Proofs.Linting.Chronicle
import MarkupLint.Proofs.Linting.Attendance
import MarkupLint.Proofs.Linting.Delivery
import MarkupLint.Proofs.Schedule.Projection
import MarkupLint.Proofs.Schedule.Entries
import MarkupLint.Proofs.Linting.Orderly
import MarkupLint.Proofs.Linting.Solo
import MarkupLint.Proofs.Linting.Showing
import MarkupLint.Proofs.Linting.Beginning
import MarkupLint.Proofs.Linting.Lockstep
import MarkupLint.Proofs.Linting.Invocation
import MarkupLint.Proofs.Performance
import MarkupLint.Proofs.Linting.Configured
import MarkupLint.Proofs.Linting.Isolation
import MarkupLint.Proofs.Linting.Prospect
import MarkupLint.Proofs.Linting.Acting
import MarkupLint.Proofs.Linting.Patience
import MarkupLint.Proofs.Linting.Expectation
import MarkupLint.Proofs.Linting.Fulfilment
import MarkupLint.Proofs.Linting.Retiming
import MarkupLint.Proofs.Linting.Exhaustion
import MarkupLint.Proofs.Linting.Collecting
import MarkupLint.Proofs.Linting.Outcome
import MarkupLint.Proofs.Linting.Account
import MarkupLint.Proofs.Linting.Hosting
import MarkupLint.Proofs.Linting.Completion
import MarkupLint.Proofs.Batch.Follow
import MarkupLint.Proofs.Batch.Stage
import MarkupLint.Proofs.Batch.Course
import MarkupLint.Proofs.Batch.Opening
import MarkupLint.Proofs.Batch.Aggregate
import MarkupLint.Proofs.Linting.Timeline
import MarkupLint.Proofs.Schedule.Passing
import MarkupLint.Proofs.Linting.Lapse
import MarkupLint.Proofs.Linting.Deadline
import MarkupLint.Proofs.Linting.Haste
import MarkupLint.Proofs.Linting.Repose
import MarkupLint.Proofs.Linting.Idleness
import MarkupLint.Proofs.Files.Finding
import MarkupLint.Proofs.Linting.Immediate
import MarkupLint.Proofs.Linting.Alone
import MarkupLint.Proofs.Rule.Builtin
import MarkupLint.Proofs.Batch.Order
import MarkupLint.Proofs.Batch.Reading
import MarkupLint.Proofs.Batch.Together
import MarkupLint.Proofs.Toml.Data
import MarkupLint.Proofs.Config.Data
import MarkupLint.Proofs.Config.Loading
import MarkupLint.Proofs.Report.Block
import MarkupLint.Proofs.Report.Streaming
import MarkupLint.Proofs.CommandLine.Exit
import MarkupLint.Proofs.Linting.Allotment
import MarkupLint.Proofs.Linting.Guard
import MarkupLint.Proofs.Linting.Deadlock
import MarkupLint.Proofs.Linting.Unobserved
import MarkupLint.Proofs.Linting.Shadow
import MarkupLint.Proofs.Linting.Noninterference
import MarkupLint.Proofs.Linting.Surfacing
import MarkupLint.Proofs.Linting.Mishap
import MarkupLint.Proofs.Linting.Blame
import MarkupLint.Proofs.Linting.Remarks
import MarkupLint.Proofs.Linting.Standing
import MarkupLint.Proofs.Linting.Lateness
import MarkupLint.Proofs.Selector.Selection
import MarkupLint.Proofs.Selector.Counting
import MarkupLint.Proofs.Selector.Inside
import MarkupLint.Proofs.Selector.Refusing
import MarkupLint.Proofs.Number.Binary64
import MarkupLint.Proofs.Text.Quoted
import MarkupLint.Proofs.Config.Validation
import MarkupLint.Proofs.Rule.Attributes
import MarkupLint.Proofs.Rule.Elements
import MarkupLint.Proofs.Reporter
import MarkupLint.Proofs.Document.Tree
import MarkupLint.Proofs.Files.Naming
import MarkupLint.Proofs.Files.Walking
import MarkupLint.Proofs.Files.Resolving
import MarkupLint.Proofs.Files.Reading
import MarkupLint.Proofs.Files.Scanning
import MarkupLint.Proofs.Files.Expanding
import MarkupLint.Proofs.Files.Collecting
import MarkupLint.Proofs.Files.Containment
import MarkupLint.Proofs.Files.Discovery
import MarkupLint.Proofs.Files.Enclosing
import MarkupLint.Proofs.Files.Inner
import MarkupLint.Proofs.Files.Relocation
import MarkupLint.Proofs.Collection
import MarkupLint.Proofs.Config.Planning
import MarkupLint.Proofs.Report.Colour
import MarkupLint.Proofs.CommandLine.Limit
import MarkupLint.Proofs.Json
import MarkupLint.Proofs.Report.Decoding
import MarkupLint.Proofs.Config.Searching
