import DeerFlow.Semantic.ActionClaims
import DeerFlow.Semantic.ActionInterleaving
import DeerFlow.Semantic.ActionCompensation
import DeerFlow.Semantic.ActionOutcome
import DeerFlow.Gateway.ThreadPinning
import DeerFlow.Semantic.SqlTables
import DeerFlow.Semantic.SqlFields
import DeerFlow.Runtime.RunExclusion
import DeerFlow.Runtime.RunOrphans
import DeerFlow.Runtime.EventRecovery
import DeerFlow.Runtime.JournalDelivery
import DeerFlow.Scheduler.TaskLeases
import DeerFlow.Scheduler.TaskOverlap
import DeerFlow.Runtime.RunRestored
import DeerFlow.Runtime.StreamDelivery
import DeerFlow.Memory.FileCoherence
import DeerFlow.Memory.MemoryForgetting
import DeerFlow.Memory.QueueDelivery
import DeerFlow.Scheduler.TaskPause
import DeerFlow.Scheduler.TaskRuns
import DeerFlow.Subagents.TaskIsolation
import DeerFlow.Mcp.SessionSharing
import DeerFlow.Middlewares.GateSafety
import DeerFlow.Middlewares.CircuitProbes
import DeerFlow.Middlewares.ToolStagnation
import DeerFlow.Middlewares.ReminderInjection
import DeerFlow.Middlewares.BudgetBound
import DeerFlow.Sandbox.AioLeaks
import DeerFlow.Sandbox.AioInUse
import DeerFlow.Gateway.ScopeBinding
import DeerFlow.Persistence.StoreAgreement
import DeerFlow.Runtime.TokenConservation
import DeerFlow.Runtime.RunListing
import DeerFlow.Runtime.EventLog
import DeerFlow.Persistence.ConnectionRevocation
import DeerFlow.Persistence.OAuthSingleUse
import DeerFlow.Semantic.ActionIdempotence
import DeerFlow.Gateway.UploadRollback
import DeerFlow.Channels.ThreadPerConversation
import DeerFlow.Middlewares.BudgetPrescan
import DeerFlow.Middlewares.FrequencyStops
import DeerFlow.Middlewares.ResultAttachment
import DeerFlow.Sandbox.SecretMasking
import DeerFlow.Runtime.GoalContinuations
import DeerFlow.Sandbox.ToolPathContainment
import DeerFlow.Sandbox.PathSegments
import DeerFlow.Middlewares.LedgerLaws
import DeerFlow.Workspace.ChangeCounts
import DeerFlow.Subagents.StepDelivery
import DeerFlow.Middlewares.UserBoundary
import DeerFlow.Middlewares.DurableBounds
import DeerFlow.Middlewares.TodoAccounting
import DeerFlow.Persistence.TypedEquality
import DeerFlow.Memory.FactUpdates
import DeerFlow.Middlewares.ShellComposition
import DeerFlow.Channels.UserBuckets
import DeerFlow.Channels.StreamText
import DeerFlow.Channels.TurnExtractors
import DeerFlow.Chat.MessageGroups
import DeerFlow.Runtime.ScopeEncoding
import DeerFlow.Channels.ChannelStore
import DeerFlow.Channels.InboundDedupe
import DeerFlow.Chat.MergedView
import DeerFlow.Sandbox.OutputTruncation
import DeerFlow.Semantic.OntologyResolve
import DeerFlow.Semantic.QueryAuthorization
import DeerFlow.Skills.ExtractionSafety
import DeerFlow.Chat.UploadListing
