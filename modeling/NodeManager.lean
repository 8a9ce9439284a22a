import NodeManager.BlockedRebinding
import NodeManager.Coalescing
import NodeManager.CoreRefinement
import NodeManager.CredentialUniqueness
import NodeManager.DeletionTrace
import NodeManager.DenyIndependence
import NodeManager.DiskAgreement
import NodeManager.EnforcementSync
import NodeManager.ExitRuns
import NodeManager.IdempotencyRuns
import NodeManager.MeterRuns
import NodeManager.NameOwnership
import NodeManager.OperationRuns
import NodeManager.OriginMerging
import NodeManager.ProxyIndex
import NodeManager.QueueAccounting
import NodeManager.QuotaGossip
import NodeManager.ReloadAtomicity
import NodeManager.ReloadRouting
import NodeManager.ResetEpochs
import NodeManager.RetiredSources
import NodeManager.RevisionOutcome
import NodeManager.RevisionRollback
import NodeManager.SampledAccounting
import NodeManager.SnapshotCache
import NodeManager.SocksAuthentication
import NodeManager.TaskReceipts
import NodeManager.TrustedSource
import NodeManager.UpdatePreview
import NodeManager.UsageArchive
import NodeManager.UserFingerprints
import NodeManager.UserFrameTasks
import NodeManager.UserVersions
