import MooCore.Text.Blank
import MooCore.Text.Integer
import MooCore.Text.Quoted
import MooCore.Text.Source
import MooCore.Binary64.Reader
import MooCore.Binary64.Shortest
import MooCore.ErrorCode
import MooCore.Value.Equality
import MooCore.Value.Literal
import MooCore.Value.Encoding
import MooCore.Heap.Build
import MooCore.Value.Decoding
import MooCore.Finalization
import MooCore.Workspace
import MooCore.Sessions
import MooCore.Background.Host
import MooCore.Checkpoint.Coordinator
import MooCore.Checkpoint.File
import MooCore.Database
import MooCore.Script.Request
import MooCore.Script.Task
import MooCore.Arguments
import MooCore.Command
import MooCore.Builtin.Task
import MooCore.Scheduler.Client
import MooCore.Scheduler.Shutdown
import MooCore.Scheduler.Conversation
import MooCore.Main
import MooCore.Proofs.Value.Faithful
import MooCore.Proofs.Finalization.Once
import MooCore.Proofs.Finalization.Repetition
import MooCore.Proofs.Background.Fate
import MooCore.Proofs.Background.Cleanups
import MooCore.Proofs.Sessions.Guards
import MooCore.Proofs.Checkpoint.RoundTrip
import MooCore.Proofs.Scheduler.Whereabouts
import MooCore.Proofs.Heap.References
import MooCore.Proofs.Checkpoint.Desk
import MooCore.Proofs.Checkpoint.Waiting
import MooCore.Proofs.Scheduler.FreshIds
import MooCore.Proofs.Scheduler.Courses
import MooCore.Proofs.Scheduler.Docket
import MooCore.Proofs.Scheduler.Closing
import MooCore.Proofs.Scheduler.Drain
import MooCore.Proofs.Scheduler.Completeness
import MooCore.Proofs.Scheduler.Killing
import MooCore.Proofs.Scheduler.Privilege
import MooCore.Proofs.Heap.Reachability
import MooCore.Proofs.Checkpoint.Requests
import MooCore.Proofs.Background.Collisions
import MooCore.Proofs.Scheduler.Results
import MooCore.Proofs.Scheduler.Answers
import MooCore.Proofs.Scheduler.Newcomers
import MooCore.Proofs.Scheduler.LastCheckpoint
import MooCore.Proofs.Scheduler.Returns
import MooCore.Proofs.Scheduler.Modes
import MooCore.Proofs.Background.Admission
import MooCore.Proofs.Finalization.PassOrder
import MooCore.Proofs.Finalization.Emptying
import MooCore.Proofs.Finalization.Gathering
import MooCore.Proofs.Finalization.Reading
import MooCore.Proofs.Value.Framing
import MooCore.Proofs.Finalization.Announced
import MooCore.Proofs.Checkpoint.Failures
import MooCore.Proofs.Scheduler.Room
import MooCore.Proofs.Commands
import MooCore.Proofs.Scheduler.Replies
import MooCore.Proofs.Value.Maps
import MooCore.Proofs.Value.Copies
import MooCore.Proofs.Scheduler.CommandLines
