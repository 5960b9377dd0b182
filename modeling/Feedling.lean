import Feedling.KeyedTable
import Feedling.Runs
import Feedling.Store
import Feedling.Reviews
import Feedling.JobQueue
import Feedling.JobRecovery
import Feedling.ChatLog
import Feedling.JobStatements
import Feedling.QueueTxn
import Feedling.JobOwnership
import Feedling.ReplySink
import Feedling.EffectOutbox
import Feedling.EffectApply
import Feedling.EffectRounds
import Feedling.OutboxOrder
import Feedling.ReplyPublication
import Feedling.ReplyMarks
import Feedling.ChatLane
import Feedling.ChatTransactions
import Feedling.OrderedTurns
import Feedling.OrderedLane
import Feedling.OrderedReplies
import Feedling.RecoveryBarrier
import Feedling.Redelivery
import Feedling.SinkClaims
import Feedling.Workspace
import Feedling.WorkspaceBatch
import Feedling.TurnReplay
import Feedling.WorkspaceHistory
import Feedling.TrajectoryReviews
import Feedling.TrajectoryStreams
import Feedling.ReviewOwnership
import Feedling.FailureDebts
import Feedling.EnclaveBroker
import Feedling.ScheduledWakeRuns
import Feedling.WakeCircuit
import Feedling.WakeContext
import Feedling.HeartbeatTurns
import Feedling.NestedCover
import Feedling.SummaryCover
import Feedling.SummaryRollups
import Feedling.CaptureFailure
import Feedling.CaptureValve
import Feedling.RepeatingWakes
import Feedling.WorkspaceWaves
import Feedling.Replication
import Feedling.ReplicationCursor
import Feedling.RequeueLane
import Feedling.RequeueMarkers
import Feedling.ShadowOutbox
import Feedling.ShadowRuns
import Feedling.MemoryChains
import Feedling.MemoryDeliveries
import Feedling.ChatChanges
import Feedling.HotCache
import Feedling.HotCacheReplay
import Feedling.HotCacheRuns
import Feedling.Regroup
import Feedling.ReplyTail
import Feedling.SummaryRebalance
import Feedling.BackendAgreement
import Feedling.Base64
import Feedling.GardenList
import Feedling.GardenPages
import Feedling.PromptPlan
import Feedling.ProviderRound
import Feedling.SelfWakes
import Feedling.ExpiredAttempts
import Feedling.ExpiryRuns
import Feedling.FilteredIndex
import Feedling.TemporalTail
import Feedling.JobFences
