import V8AgentOs.Lib.Transition
import V8AgentOs.Lib.Incremental
import V8AgentOs.ModelText.Chunking
import V8AgentOs.ProviderCircuit.Fencing
import V8AgentOs.Firmware.Actuation
import V8AgentOs.Firmware.Timer
import V8AgentOs.Firmware.Receipts
import V8AgentOs.Executors.Settled
import V8AgentOs.Executors.Frames
import V8AgentOs.Executors.Envelope
import V8AgentOs.SessionRealtime.Continuity
import V8AgentOs.SessionRealtime.Latest
import V8AgentOs.SessionRealtime.Coalesce
import V8AgentOs.ClientIdentity.Family
import V8AgentOs.Neighbor.Inbox
import V8AgentOs.Neighbor.Terminal
import V8AgentOs.Assignment.Narrow
import V8AgentOs.Automation.EffectOnce
import V8AgentOs.Runs.ScheduleOnce
import V8AgentOs.Approvals.Resumes
import V8AgentOs.Approvals.Decisions
import V8AgentOs.Lib.UndoLog
import V8AgentOs.Canvas.Undo
import V8AgentOs.Canvas.Lifecycle
import V8AgentOs.Canvas.Intents
import V8AgentOs.Canvas.Projection
import V8AgentOs.Canvas.DeliveredOnce
import V8AgentOs.Conversation.Undone
import V8AgentOs.Conversation.Copies
import V8AgentOs.CompatWire.Faithful
import V8AgentOs.SessionLane.Agreement
import V8AgentOs.Relay.Accounted
import V8AgentOs.Relay.Received
import V8AgentOs.Neighbor.HandedOnce
import V8AgentOs.UserQueue.HandedOut
import V8AgentOs.Transcript.Mutations
import V8AgentOs.Transcript.Normalized
import V8AgentOs.Conversation.TurnIndex
import V8AgentOs.CompatWire.Chunked
import V8AgentOs.Delegation.Retries
import V8AgentOs.Delegation.Cycles
import V8AgentOs.Delegation.Progress
import V8AgentOs.Composer.Deletion
import V8AgentOs.MessageSegments.Faithful
import V8AgentOs.Canvas.Planned
import V8AgentOs.RuntimeEpisodes.Additions
import V8AgentOs.RuntimeEpisodes.References
import V8AgentOs.SubagentReturn.Hidden
import V8AgentOs.ExternalTools.Calls
import V8AgentOs.ExternalTools.Ordering
import V8AgentOs.ModelEvents.Lossless
import V8AgentOs.ChatStream.Reasoning
import V8AgentOs.ChatStream.Shown
