import PlatformGo.Proofs.InboxRows
import PlatformGo.Proofs.ConsumerDisposition
import PlatformGo.Proofs.IdemReplay
import PlatformGo.Proofs.IdemFence
import PlatformGo.Proofs.InterceptorAgree
import PlatformGo.Proofs.OutboxDelivery
import PlatformGo.Proofs.OutboxClaim
import PlatformGo.Proofs.ConfigCache
import PlatformGo.Proofs.AuthChain
import PlatformGo.Proofs.DiscoveryCache
import PlatformGo.Proofs.DiscoverySnapshots
import PlatformGo.Proofs.DistlockLease
import PlatformGo.Proofs.RegistrantExit
import PlatformGo.Proofs.ProviderSession
import PlatformGo.Proofs.PolicySnapshot
import PlatformGo.Proofs.TreeForest
import PlatformGo.Proofs.IdemIsolation
import PlatformGo.Proofs.Fingerprint
import PlatformGo.Proofs.DeadLetters
import PlatformGo.Proofs.DistlockPanic
import PlatformGo.Proofs.InterceptorSettles
import PlatformGo.Ref.IdemLease
import PlatformGo.Proofs.ConfigRefresh
import PlatformGo.Proofs.PolicyEvaluate
import PlatformGo.Proofs.PolicyRefs
import PlatformGo.Proofs.ScopeSeparation
import PlatformGo.Proofs.SecurityMetadata
import PlatformGo.Proofs.RetentionDrain
import PlatformGo.Proofs.AppDecisions
import PlatformGo.Proofs.PermissionKeys
import PlatformGo.Proofs.RoundRobin
import PlatformGo.Proofs.JitterBounds
import PlatformGo.Proofs.ProviderRetry
import PlatformGo.Proofs.RetentionFailures
import PlatformGo.Proofs.DispatchAccount
import PlatformGo.Proofs.DispatchRefine
import PlatformGo.Proofs.ProviderCatalog
import PlatformGo.Proofs.Truncation
import PlatformGo.Proofs.RetryDelay
import PlatformGo.Proofs.MethodNames
import PlatformGo.Proofs.RouteFit
import PlatformGo.Proofs.PipelineDelivery
import PlatformGo.Proofs.CacheRuns
import PlatformGo.Proofs.SnapshotAtomic
import PlatformGo.Proofs.TreeRound
