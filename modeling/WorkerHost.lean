import WorkerHost.Channel.Handler
import WorkerHost.CommandLine.Execute
import WorkerHost.Config.Settings
import WorkerHost.Environment.Script
import WorkerHost.Environment.Workers
import WorkerHost.Hooks.Script
import WorkerHost.Lifecycle.Local
import WorkerHost.Main
import WorkerHost.Storage.Store
import WorkerHost.Stream.Stdio
import WorkerHost.Terminal.Session
import WorkerHost.Value.Literal
import WorkerHost.Proofs.Task
import WorkerHost.Proofs.Text.Utf8
import WorkerHost.Proofs.Value.Dict
import WorkerHost.Proofs.Value.Isomorphism
import WorkerHost.Proofs.Wire.Numbering
import WorkerHost.Proofs.Wire.RoundTrip
import WorkerHost.Proofs.Counter
import WorkerHost.Proofs.Channel.Flow
import WorkerHost.Proofs.Channel.Trace
import WorkerHost.Proofs.Channel.Pair
import WorkerHost.Proofs.Channel.Balance
import WorkerHost.Proofs.Channel.Arguments
import WorkerHost.Proofs.Channel.Agreement
import WorkerHost.Proofs.Channel.Handlers
import WorkerHost.Proofs.Terminal.Reads
import WorkerHost.Proofs.Json.Reader
import WorkerHost.Proofs.Json.String
import WorkerHost.Proofs.Json.Number
import WorkerHost.Proofs.Json.Document
import WorkerHost.Proofs.Json.Decoder
import WorkerHost.Proofs.Wire.Quiet
import WorkerHost.Proofs.Wire.Text
import WorkerHost.Proofs.Storage.Record
import WorkerHost.Proofs.Storage.Mirror
import WorkerHost.Proofs.Storage.Refinement
import WorkerHost.Proofs.Channel.Opened
import WorkerHost.Proofs.Channel.Network
import WorkerHost.Proofs.Wire.Invariance
import WorkerHost.Proofs.Wire.Preorder
import WorkerHost.Proofs.Wire.NormalForm
import WorkerHost.Proofs.Value.Display
import WorkerHost.Proofs.Value.Edits
import WorkerHost.Proofs.Wire.Edits
import WorkerHost.Proofs.Wire.Acceptance
import WorkerHost.Proofs.Wire.Discovery
import WorkerHost.Proofs.Wire.Rejection
import WorkerHost.Proofs.Value.Rendering
import WorkerHost.Proofs.Value.Sharing
import WorkerHost.Proofs.Storage.Snapshot
import WorkerHost.Proofs.Json.Held
import WorkerHost.Proofs.Channel.MessageText
import WorkerHost.Proofs.Hooks.Contents
import WorkerHost.Proofs.Hooks.Shipping
import WorkerHost.Proofs.Formats
import WorkerHost.Proofs.Shell.Lockstep
import WorkerHost.Proofs.Shell.Conversation
import WorkerHost.Proofs.Stream.Sinks
import WorkerHost.Proofs.Lifecycle.Trace
import WorkerHost.Proofs.Lifecycle.Lockstep
import WorkerHost.Proofs.Lifecycle.Local
import WorkerHost.Proofs.Terminal.Output
import WorkerHost.Proofs.Waiting
import WorkerHost.Proofs.Environment.Interpreter
import WorkerHost.Proofs.Environment.Delivery
import WorkerHost.Proofs.Lifecycle.Notices
import WorkerHost.Proofs.Environment.Reports
import WorkerHost.Proofs.Channel.Peer
import WorkerHost.Proofs.Channel.Stack
import WorkerHost.Proofs.Channel.Repeats
import WorkerHost.Proofs.Channel.Caller
import WorkerHost.Proofs.Channel.Pending
import WorkerHost.Proofs.Wire.Placement
import WorkerHost.Proofs.Channel.Replies
import WorkerHost.Proofs.Channel.Closing
import WorkerHost.Proofs.Channel.Unsent
import WorkerHost.Proofs.Channel.Withdrawal
import WorkerHost.Proofs.Channel.Hangup
import WorkerHost.Proofs.Channel.Teardown
import WorkerHost.Proofs.Channel.Answers
import WorkerHost.Proofs.Channel.WorkerAnswers
import WorkerHost.Proofs.Channel.HostAnswers
import WorkerHost.Proofs.Protocol
import WorkerHost.Proofs.Lifecycle.Run
import WorkerHost.Proofs.Lifecycle.Asking
import WorkerHost.Proofs.Lifecycle.Sharing
import WorkerHost.Proofs.Lifecycle.Gate
import WorkerHost.Proofs.Lifecycle.Table
import WorkerHost.Proofs.Lifecycle.Transcript
import WorkerHost.Proofs.Lifecycle.Counterpart
import WorkerHost.Proofs.Lifecycle.Replay
import WorkerHost.Proofs.Environment.Contexts
import WorkerHost.Proofs.Environment.Steady
import WorkerHost.Proofs.Environment.Across
import WorkerHost.Proofs.Terminal.Newlines
import WorkerHost.Proofs.Text.Lines
import WorkerHost.Proofs.Hooks.Dedent
import WorkerHost.Proofs.Shell.Numbering
import WorkerHost.Proofs.Shell.Composition
import WorkerHost.Proofs.Shell.Sequence
import WorkerHost.Proofs.Lifecycle.History
import WorkerHost.Proofs.Lifecycle.Snapshots
import WorkerHost.Proofs.Text.Words
import WorkerHost.Proofs.Text.Lossy
import WorkerHost.Proofs.Text.Whole
import WorkerHost.Proofs.Config.Permission
import WorkerHost.Proofs.Stream.Malformed
import WorkerHost.Proofs.Stream.Delivery
import WorkerHost.Proofs.Channel.Nested
import WorkerHost.Proofs.Environment.Exclusion
import WorkerHost.Proofs.Channel.Unchanged
import WorkerHost.Proofs.Environment.Roster
import WorkerHost.Proofs.Environment.Terminals
import WorkerHost.Proofs.Environment.Preparation
import WorkerHost.Proofs.Environment.History
import WorkerHost.Proofs.Environment.OneTerminal
import WorkerHost.Proofs.Channel.WorkerClose
import WorkerHost.Proofs.Environment.Configurations
import WorkerHost.Proofs.Shell.Expansion
import WorkerHost.Proofs.Channel.HostHandles
import WorkerHost.Proofs.Value.FromJson
import WorkerHost.Proofs.Environment.Startup
import WorkerHost.Proofs.Terminal.Invariant
import WorkerHost.Proofs.Wire.Worklist
