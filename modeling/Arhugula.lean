import Arhugula.Reentrant.Logic
import Arhugula.Spec.Contracts
import Arhugula.Spec.Plane
import Arhugula.Reentrant.Keeps
import Arhugula.Proof.PlaneCalm
import Arhugula.Proof.PlaneOnce
import Arhugula.Proof.PlaneAuth
import Arhugula.Proof.PlaneStages
import Arhugula.Proof.PlaneDispatch
import Arhugula.Proof.PlaneMethods
import Arhugula.Proof.PlaneSafety
import Arhugula.Spec.Router
import Arhugula.Proof.RouterCalm
import Arhugula.Proof.RouterPreview
import Arhugula.Proof.RouterHandle
import Arhugula.Proof.RouterSafety
import Arhugula.Spec.Providers
import Arhugula.Spec.Gateway
import Arhugula.Proof.GatewaySteps
import Arhugula.Proof.GatewayLife
import Arhugula.Proof.GatewayCalls
import Arhugula.Proof.GatewayAttempt
import Arhugula.Proof.GatewayFinish
import Arhugula.Proof.GatewayMethods
import Arhugula.Proof.GatewayTrace
import Arhugula.Proof.GatewaySafety
import Arhugula.Proof.ConfigurationLedger
import Arhugula.Proof.ConfigurationSafety
import Arhugula.Proof.SessionSafety
import Arhugula.Proof.SpeechSafety
import Arhugula.Spec.Conversation
import Arhugula.Proof.ConversationState
import Arhugula.Proof.ConversationSteps
import Arhugula.Proof.ConversationMethods
import Arhugula.Proof.ConversationCalls
import Arhugula.Proof.ConversationSafety
import Arhugula.Spec.Tts
import Arhugula.Proof.TtsState
import Arhugula.Proof.TtsSafety
import Arhugula.Durable.Slot
import Arhugula.Proof.RecordsSafety
import Arhugula.Spec.Communication
import Arhugula.Proof.CommunicationState
import Arhugula.Proof.CommunicationComments
import Arhugula.Proof.CommunicationDelivery
import Arhugula.Proof.CommunicationSafety
import Arhugula.Concurrent.Processes
import Arhugula.Spec.Strings
import Arhugula.Spec.FootHelper
import Arhugula.Proof.FootHelperState
import Arhugula.Proof.FootHelperSafety
import Arhugula.Graph.Closure
import Arhugula.Spec.Ownership
import Arhugula.Spec.Lit
import Arhugula.Spec.LoopRecords
import Arhugula.Durable.Lease
import Arhugula.Spec.Loop
import Arhugula.Spec.LoopMethods
import Arhugula.Durable.Transactions
import Arhugula.Proof.LoopState
import Arhugula.Proof.LoopRules
import Arhugula.Proof.LoopOperations
import Arhugula.Proof.LoopReservations
import Arhugula.Proof.LoopEpochs
import Arhugula.Proof.LoopHold
import Arhugula.Proof.LoopReviews
import Arhugula.Graph.Forest
import Arhugula.Spec.Backlog
import Arhugula.Proof.BacklogSafety
import Arhugula.Proof.RoutingSafety
import Arhugula.Spec.Capture
import Arhugula.Proof.CaptureState
import Arhugula.Proof.CaptureSafety
import Arhugula.Spec.Dictation
import Arhugula.Proof.DictationState
import Arhugula.Proof.DictationSafety
import Arhugula.Spec.Codec
import Arhugula.Proof.CodecSafety
import Arhugula.Spec.Catalog
import Arhugula.Proof.CatalogSafety
import Arhugula.Durable.Calls
import Arhugula.Durable.Log
import Arhugula.Spec.Journal
import Arhugula.Proof.JournalSafety
import Arhugula.Concurrent.Lock
import Arhugula.Spec.Control
import Arhugula.Proof.ControlSafety
import Arhugula.Spec.Admission
import Arhugula.Proof.AdmissionSafety
import Arhugula.Spec.Transcript
import Arhugula.Spec.Watch
import Arhugula.Proof.TranscriptSafety
import Arhugula.Proof.WatchState
import Arhugula.Proof.WatchSafety
import Arhugula.Concurrent.Shared
import Arhugula.Spec.Process
import Arhugula.Spec.Transcription
import Arhugula.Proof.TranscriptionSafety
import Arhugula.Proof.TtsProgress
import Arhugula.Proof.GatewayClock
import Arhugula.Proof.GatewayDeadline
import Arhugula.Proof.GatewayTimely
import Arhugula.Proof.OwnershipSafety
import Arhugula.Proof.PacketSafety
import Arhugula.Sequence.Bisect
import Arhugula.Sequence.Window
import Arhugula.Spec.Artifacts
import Arhugula.Proof.FindingSafety
import Arhugula.Proof.ReceiptSafety
import Arhugula.Proof.BacklogSelection
import Arhugula.Spec.Ceiling
import Arhugula.Proof.CeilingSafety
import Arhugula.Sequence.Table
import Arhugula.Spec.GoalLineage
import Arhugula.Proof.LedgerSafety
import Arhugula.Sequence.Sweep
import Arhugula.Spec.WorkflowMetrics
import Arhugula.Proof.MetricsSafety
import Arhugula.Proof.ReleaseSafety
import Arhugula.Spec.SelectionFacts
import Arhugula.Spec.Observability
import Arhugula.Proof.ObservabilitySafety
import Arhugula.Reentrant.Returns
import Arhugula.Proof.ConversationReport
import Arhugula.Reentrant.Script
import Arhugula.Proof.RouterCapacity
import Arhugula.Proof.LatchSafety
import Arhugula.Sequence.Fields
import Arhugula.Proof.DirtySafety
import Arhugula.Proof.LitScope
import Arhugula.Proof.LoopQuarantine
import Arhugula.Sequence.Traverse
import Arhugula.Proof.WireSafety
import Arhugula.Proof.WireReplies
import Arhugula.Durable.Outbox
import Arhugula.Reentrant.Alone
import Arhugula.Spec.Continuation
import Arhugula.Proof.WatchLog
import Arhugula.Proof.ContinuationState
import Arhugula.Proof.ContinuationSafety
import Arhugula.Proof.ContinuationLog
import Arhugula.Proof.ContinuationHistory
import Arhugula.Sequence.Blocks
import Arhugula.Spec.Pcm
import Arhugula.Spec.Coordinator
import Arhugula.Proof.CoordinatorState
import Arhugula.Proof.CoordinatorSteps
import Arhugula.Proof.CoordinatorTurns
import Arhugula.Proof.CoordinatorSafety
import Arhugula.Spec.Device
import Arhugula.Proof.DeviceStream
