import MatrixDispatcher.App
import MatrixDispatcher.Commands
import MatrixDispatcher.Config
import MatrixDispatcher.Coro.Basic
import MatrixDispatcher.Coro.Contract
import MatrixDispatcher.Coro.Detour
import MatrixDispatcher.Coro.Effort
import MatrixDispatcher.Coro.Fair
import MatrixDispatcher.Coro.Interference
import MatrixDispatcher.Coro.Log
import MatrixDispatcher.Coro.Machine
import MatrixDispatcher.Coro.Monitor
import MatrixDispatcher.Coro.Mutex
import MatrixDispatcher.Coro.Progress
import MatrixDispatcher.Coro.Refinement
import MatrixDispatcher.Data.Directory
import MatrixDispatcher.Data.Pieces
import MatrixDispatcher.Db
import MatrixDispatcher.Db.EventMap
import MatrixDispatcher.Discipline.Alone
import MatrixDispatcher.Discipline.Circuits
import MatrixDispatcher.Discipline.Deeds
import MatrixDispatcher.Discipline.Detours
import MatrixDispatcher.Discipline.Footprint
import MatrixDispatcher.Discipline.Gates
import MatrixDispatcher.Discipline.HandlerWalk
import MatrixDispatcher.Discipline.Handling
import MatrixDispatcher.Discipline.Identities
import MatrixDispatcher.Discipline.Ledger
import MatrixDispatcher.Discipline.Limits
import MatrixDispatcher.Discipline.Links
import MatrixDispatcher.Discipline.Lives
import MatrixDispatcher.Discipline.Logs
import MatrixDispatcher.Discipline.PassEffect
import MatrixDispatcher.Discipline.PassWalk
import MatrixDispatcher.Discipline.Passes
import MatrixDispatcher.Discipline.Plain
import MatrixDispatcher.Discipline.PollEffect
import MatrixDispatcher.Discipline.PollWalk
import MatrixDispatcher.Discipline.Polls
import MatrixDispatcher.Discipline.Replies
import MatrixDispatcher.Discipline.Rules
import MatrixDispatcher.Discipline.Sessions
import MatrixDispatcher.Discipline.Speech
import MatrixDispatcher.Discipline.Supervise
import MatrixDispatcher.Discipline.Sweep
import MatrixDispatcher.Discipline.TurnEffect
import MatrixDispatcher.Discipline.TurnWalk
import MatrixDispatcher.Discipline.Turns
import MatrixDispatcher.Dispatcher
import MatrixDispatcher.Hitl
import MatrixDispatcher.Json
import MatrixDispatcher.Matrixio
import MatrixDispatcher.Registry
import MatrixDispatcher.RegistryInit
import MatrixDispatcher.Runner
import MatrixDispatcher.Runtime.Bare
import MatrixDispatcher.Runtime.Effect
import MatrixDispatcher.Runtime.Frame
import MatrixDispatcher.Runtime.World
import MatrixDispatcher.Safety.Argv
import MatrixDispatcher.Safety.Authority
import MatrixDispatcher.Safety.Batches
import MatrixDispatcher.Safety.Belonging
import MatrixDispatcher.Safety.Cancel
import MatrixDispatcher.Safety.Chunking
import MatrixDispatcher.Safety.Cleanup
import MatrixDispatcher.Safety.Conversation
import MatrixDispatcher.Safety.Correlation
import MatrixDispatcher.Safety.Deadlock
import MatrixDispatcher.Safety.Durability
import MatrixDispatcher.Safety.Expiry
import MatrixDispatcher.Safety.FailOpen
import MatrixDispatcher.Safety.Fairness
import MatrixDispatcher.Safety.Followup
import MatrixDispatcher.Safety.Gating
import MatrixDispatcher.Safety.Linking
import MatrixDispatcher.Safety.Liveness
import MatrixDispatcher.Safety.Locks
import MatrixDispatcher.Safety.Mirroring
import MatrixDispatcher.Safety.Mirrors
import MatrixDispatcher.Safety.Nudge
import MatrixDispatcher.Safety.Order
import MatrixDispatcher.Safety.Outcomes
import MatrixDispatcher.Safety.Overlap
import MatrixDispatcher.Safety.Posting
import MatrixDispatcher.Safety.Prompts
import MatrixDispatcher.Safety.Provenance
import MatrixDispatcher.Safety.Queue
import MatrixDispatcher.Safety.RateLimit
import MatrixDispatcher.Safety.Readers
import MatrixDispatcher.Safety.Reconcile
import MatrixDispatcher.Safety.Recording
import MatrixDispatcher.Safety.Registrations
import MatrixDispatcher.Safety.Relations
import MatrixDispatcher.Safety.Replay
import MatrixDispatcher.Safety.Resume
import MatrixDispatcher.Safety.Retention
import MatrixDispatcher.Safety.RoomLock
import MatrixDispatcher.Safety.Routing
import MatrixDispatcher.Safety.Serial
import MatrixDispatcher.Safety.SessionLock
import MatrixDispatcher.Safety.Shutdown
import MatrixDispatcher.Safety.SingleInit
import MatrixDispatcher.Sql.Table
import MatrixDispatcher.Store
import MatrixDispatcher.Text
import MatrixDispatcher.Transcripts
