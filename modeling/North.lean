import North.Lib.Text
import North.Lib.Machine
import North.Lib.Table
import North.Lib.Prog
import North.Lib.Watermark
import North.Lib.Numbered
import North.Lib.Keyed
import North.Lib.Steps
import North.Lib.Suffix
import North.Lib.InsertionMap
import North.Lib.Json
import North.Lib.JsonSize
import North.Lib.JsonValue
import North.Lib.JsonFormat
import North.Lib.Ranked
import North.Lib.Paging
import North.Lib.Shared
import North.Lib.Digits
import North.Lib.Hex
import North.Lib.Framing
import North.Lib.Ip
import North.Lib.TokenBucket
import North.Domain
import North.RequirementRuns
import North.Protocol
import North.AssessmentHandoff
import North.JournalState
import North.JournalOps
import North.JournalMoves
import North.JournalStages
import North.JournalRuns
import North.JournalAcks
import North.JournalOrder
import North.JournalEvents
import North.Coordination
import North.JournalEmits
import North.JournalResults
import North.JournalLoops
import North.JournalReleases
import North.StoreState
import North.StoreCommands
import North.ClarificationOps
import North.EventIngestion
import North.EventCalls
import North.StoreChanges
import North.StoreRuns
import North.EventFrames
import North.CommandSteps
import North.CommandLedger
import North.CommandOutbox
import North.CommandRetry
import North.EventLedger
import North.EventLog
import North.RunInvariant
import North.RetryAuthority
import North.ClarificationSlot
import North.StartLedger
import North.ClarificationStart
import North.EventHandler
import North.EventDelivery
import North.Scheduler
import North.SchedulerSteps
import North.SchedulerRuns
import North.StartLoop
import North.LoopCustody
import North.CancelArrival
import North.RequirementOps
import North.RequirementWrites
import North.RequirementHistory
import North.ReviewBinding
import North.ReadinessRead
import North.EventCursors
import North.ReconcileJoin
import North.EventIdentity
import North.EmailAuth
import North.EmailAuthRuns
import North.SocketLoop
import North.ConnectionLease
import North.CommandDispatch
import North.DaemonChannels
import North.ConversationExcerpt
import North.JournalDisk
import North.JournalIntake
import North.DaemonRegistry
import North.DaemonRegistryRuns
import North.ConversationPagination
import North.WorkspaceState
import North.WorkspaceRuns
import North.RuntimeContext
import North.RuntimeCleanup
import North.RequirementRequests
import North.RepositoryMetadata
import North.WireCodec
import North.StartContext
import North.StartSizes
import North.WorkspaceStream
import North.WorkspaceConvergence
import North.ActivityRetention
import North.PagedReads
import North.CleanupGate
import North.IpCidr
import North.ClientIdentity
import North.GitLocations
import North.EvidenceBudget
import North.CommandIdentity
import North.ClientRateLimiter
import North.WireFrames
import North.PathNames
import North.OtpMessage
import North.CancellationSemantics
import North.Lib.Backed
import North.RecoveryMoves
import North.RecoveryReach
import North.RecoverySweep
import North.RecoveryAgreement
import North.RecoveryAccounts
import North.JournalKeeps
import North.CommandAcks
import North.CommandDelivery
import North.StartupCleanup
import North.AccessRuns
import North.InspectionRuns
import North.EvidenceReview
import North.ReviewRefinement
import North.WireLink
