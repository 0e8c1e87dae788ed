import LeanCd.Calm
import LeanCd.Cluster
import LeanCd.Commands
import LeanCd.Config
import LeanCd.Controller
import LeanCd.Drift
import LeanCd.GitLoops
import LeanCd.GitSync
import LeanCd.Health
import LeanCd.HookRun
import LeanCd.Hooks
import LeanCd.KubeUtil
import LeanCd.Lib.Act
import LeanCd.Lib.Duration
import LeanCd.Lib.Glob
import LeanCd.Lib.Grouping
import LeanCd.Lib.History
import LeanCd.Lib.Log
import LeanCd.Lib.Metered
import LeanCd.Lib.Reflector
import LeanCd.Lib.Rounds
import LeanCd.Lib.Series
import LeanCd.Lib.StableSort
import LeanCd.Lib.Stretch
import LeanCd.Lib.Text
import LeanCd.Lib.Transition
import LeanCd.Lib.Utf8
import LeanCd.Lock
import LeanCd.Manifest
import LeanCd.Metrics
import LeanCd.Processes
import LeanCd.Proofs.Actions
import LeanCd.Proofs.Backoff
import LeanCd.Proofs.BusySkip
import LeanCd.Proofs.Bystanders
import LeanCd.Proofs.CacheAgrees
import LeanCd.Proofs.CacheCoherence
import LeanCd.Proofs.Calls
import LeanCd.Proofs.CheckoutPlan
import LeanCd.Proofs.Classification
import LeanCd.Proofs.ConditionOrder
import LeanCd.Proofs.Contention
import LeanCd.Proofs.Convergence
import LeanCd.Proofs.Credentials
import LeanCd.Proofs.DeclaredHooks
import LeanCd.Proofs.Deepening
import LeanCd.Proofs.DiffForecast
import LeanCd.Proofs.Documents
import LeanCd.Proofs.DriftIdentity
import LeanCd.Proofs.DriftReads
import LeanCd.Proofs.DriftSteady
import LeanCd.Proofs.DryRun
import LeanCd.Proofs.Expansion
import LeanCd.Proofs.FailedPass
import LeanCd.Proofs.FirstPass
import LeanCd.Proofs.GitTool
import LeanCd.Proofs.HealthAggregate
import LeanCd.Proofs.HealthMatch
import LeanCd.Proofs.HolderNames
import LeanCd.Proofs.HookFresh
import LeanCd.Proofs.HookSimulation
import LeanCd.Proofs.IdentityBytes
import LeanCd.Proofs.InPlace
import LeanCd.Proofs.Instances
import LeanCd.Proofs.Interactions
import LeanCd.Proofs.Isolation
import LeanCd.Proofs.JobReadings
import LeanCd.Proofs.LeaseHeld
import LeanCd.Proofs.LeaseLifetime
import LeanCd.Proofs.ListExpansion
import LeanCd.Proofs.LostUpdate
import LeanCd.Proofs.ManagedLabel
import LeanCd.Proofs.MetricsAgree
import LeanCd.Proofs.NestedRoots
import LeanCd.Proofs.Orphans
import LeanCd.Proofs.Overlay
import LeanCd.Proofs.PassFrames
import LeanCd.Proofs.PassPrune
import LeanCd.Proofs.PassRuns
import LeanCd.Proofs.PassStart
import LeanCd.Proofs.PhaseRun
import LeanCd.Proofs.Phases
import LeanCd.Proofs.PlainCrates
import LeanCd.Proofs.ProbeStaleness
import LeanCd.Proofs.ProcessRun
import LeanCd.Proofs.PruneExact
import LeanCd.Proofs.PruneSafety
import LeanCd.Proofs.PruneSpec
import LeanCd.Proofs.PruneTurns
import LeanCd.Proofs.Quiescence
import LeanCd.Proofs.ReadOnly
import LeanCd.Proofs.Reclaim
import LeanCd.Proofs.Recovery
import LeanCd.Proofs.RenewalGap
import LeanCd.Proofs.Rollback
import LeanCd.Proofs.Scan
import LeanCd.Proofs.SelfHealing
import LeanCd.Proofs.ServerChanges
import LeanCd.Proofs.Settled
import LeanCd.Proofs.Shutdown
import LeanCd.Proofs.StateRuns
import LeanCd.Proofs.StoreRefinement
import LeanCd.Proofs.StuckContainer
import LeanCd.Proofs.Sweep
import LeanCd.Proofs.Totality
import LeanCd.Proofs.TypoEdit
import LeanCd.Proofs.UpdateStrategy
import LeanCd.Proofs.Upgrades
import LeanCd.Proofs.Waits
import LeanCd.Proofs.WakeUp
import LeanCd.Proofs.WatchBookkeeping
import LeanCd.Proofs.WatchedKinds
import LeanCd.Proofs.WholePass
import LeanCd.Proofs.Withheld
import LeanCd.Proofs.YamlFiles
import LeanCd.Prune
import LeanCd.Reconcile
import LeanCd.Reports
import LeanCd.ResourceHealth
import LeanCd.RunLoop
import LeanCd.State
import LeanCd.Value
import LeanCd.Watch
import LeanCd.World
