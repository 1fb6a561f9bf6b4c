import Imagin4.Verified.Machine
import Imagin4.Verified.Outcome
import Imagin4.Verified.Table
import Imagin4.Ports.Python
import Imagin4.Ports.Retry
import Imagin4.Ports.Settings
import Imagin4.Ports.WorkflowRegistry
import Imagin4.Ports.JobQueue
import Imagin4.Ports.MemoryQueue
import Imagin4.Ports.PostgresQueue
import Imagin4.Ports.Scheduler
import Imagin4.Ports.Reconciler
import Imagin4.Ports.JobSystem
import Imagin4.Ports.TerminalStates
import Imagin4.Ports.JobLives
import Imagin4.Ports.AttemptBudget
import Imagin4.Ports.DispatchGuard
import Imagin4.Ports.AttemptPrompts
import Imagin4.Ports.MemoryPrompts
import Imagin4.Ports.ActiveJobs
import Imagin4.Ports.LaneCeiling
import Imagin4.Ports.ClaimTransactions
import Imagin4.Ports.ComfyLive
import Imagin4.Ports.LeaseRenewal
import Imagin4.Ports.ImageClients
import Imagin4.Ports.CompositeClient
import Imagin4.Ports.PollOutcome
import Imagin4.Ports.QueueTransactions
import Imagin4.Ports.JobRecords
import Imagin4.Ports.JobLedger
import Imagin4.Ports.JobHistories
import Imagin4.Ports.CanonicalJson
import Imagin4.Ports.Dicts
import Imagin4.Verified.Clients
import Imagin4.Ports.ComfyOverrides
import Imagin4.Ports.Admission
import Imagin4.Ports.MemoryAdmission
import Imagin4.Ports.AdmissionRaces
import Imagin4.Ports.AdmissionRetries
import Imagin4.Ports.ChatRouting
import Imagin4.Ports.ChatRouter
import Imagin4.Ports.AdmissionQueues
import Imagin4.Ports.SmartMessages
import Imagin4.Ports.PendingActions
import Imagin4.Ports.ActionConfirmations
import Imagin4.Ports.ActionRetries
import Imagin4.Ports.ClaimOrder
import Imagin4.Ports.LeaseFields
import Imagin4.Ports.JsonLoads
import Imagin4.Ports.MessageAppends
import Imagin4.Ports.SchedulerTick
import Imagin4.Ports.StateMachine
import Imagin4.Verified.Base64
import Imagin4.Ports.Cursors
import Imagin4.Verified.Keyset
import Imagin4.Ports.MessagePages
import Imagin4.Ports.AuthSessions
import Imagin4.Ports.AdmissionGate
import Imagin4.Ports.NestedClients
import Imagin4.Ports.PromptGraph
import Imagin4.Ports.AdmittedPayloads
import Imagin4.Ports.TwoProcesses
import Imagin4.Ports.OverrideRules
import Imagin4.Ports.AdmittedOverrides
import Imagin4.Ports.GraphTemplates
import Imagin4.Ports.StoredOverrides
import Imagin4.Ports.Previews
import Imagin4.Ports.GreedyClaims
import Imagin4.Verified.Ranks
import Imagin4.Ports.QueueRanks
import Imagin4.Ports.AgingOrder
import Imagin4.Ports.ReconcilerPass
import Imagin4.Ports.CursorAnswers
import Imagin4.Ports.RoundRobinOrder
import Imagin4.Ports.RateLimits
import Imagin4.Ports.Heartbeats
import Imagin4.Ports.StoredImages
import Imagin4.Ports.RouteSchemas
import Imagin4.Ports.Backoff
import Imagin4.Ports.CanonicalHashes
import Imagin4.Ports.CodePoints
import Imagin4.Verified.Servers
import Imagin4.Verified.Matched
import Imagin4.Ports.ClaimEffects
import Imagin4.Ports.TwinQueues
import Imagin4.Verified.Scripts
import Imagin4.Ports.AgentThreads
import Imagin4.Verified.Writes
import Imagin4.Ports.FetchedImages
import Imagin4.Ports.JobResults
import Imagin4.Ports.JobAssets
import Imagin4.Verified.Charges
import Imagin4.Ports.BoundedWaiting
import Imagin4.Verified.Noninterference
import Imagin4.Ports.ConversationApi
import Imagin4.Verified.Rounds
import Imagin4.Ports.QueueDrains
import Imagin4.Ports.Accounts
