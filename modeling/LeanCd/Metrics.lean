import LeanCd.Lib.Metered
import LeanCd.Reconcile
import Mathlib.Data.List.AList

/-!
# `LeanCd.Metrics`: what a process reports of its passes

`metrics.rs`, and the places in `reconcile.rs` that call it. The instruments are a meter beside
the world: `Metered` is a pass that keeps them, and each function below is the one of `Reconcile`
with its records.

A counter is the total it has reported. The gauges hold what they report when they are
collected.

`publish` sets the gauges from what a pass has found, before the state is written. The counters
are bumped where the source bumps them: one for a pass, one for its failure, and for each phase of
hooks those that passed and those that failed.
-/

set_option autoImplicit false

namespace LeanCd

/-- `metrics::Metrics`, with `MetricsState`. The attributes of a hook count are the phase and the
result. -/
structure Metrics where
  syncTotal : Nat
  syncErrors : Nat
  hooksTotal : AList fun _ : String × String => Nat
  applyFailures : Nat
  lastSuccessEpoch : Int64
  managedResources : Int64
  driftPerGvk : AList fun _ : GvkKey => Int64
  healthPerStatus : AList fun _ : String => Int64

namespace Metrics

/-- `Metrics::new`. -/
def new : Metrics := ⟨0, 0, ∅, 0, 0, 0, ∅, ∅⟩

/-- `set_last_success_epoch`. -/
def setLastSuccessEpoch (v : Int64) (m : Metrics) : Metrics := { m with lastSuccessEpoch := v }

/-- `set_managed_resources`. -/
def setManagedResources (v : Int64) (m : Metrics) : Metrics := { m with managedResources := v }

/-- Add to one series of the hook counter. -/
def addHooks (phase result : String) (n : Nat) (m : Metrics) : Metrics :=
  let total := (m.hooksTotal.lookup (phase, result)).getD 0 + n
  { m with hooksTotal := m.hooksTotal.insert (phase, result) total }

/-- `record_hooks`: a series without hooks is not reported. -/
def recordHooks (phase : String) (succeeded failed : Nat) (m : Metrics) : Metrics :=
  let m := if 0 < succeeded then m.addHooks phase "succeeded" succeeded else m
  if 0 < failed then m.addHooks phase "failed" failed else m

/-- `reset_drift`. -/
def resetDrift (m : Metrics) : Metrics := { m with driftPerGvk := ∅ }

/-- `set_drift`. -/
def setDrift (g : GvkKey) (n : Int64) (m : Metrics) : Metrics :=
  { m with driftPerGvk := m.driftPerGvk.insert g n }

/-- `reset_health`. -/
def resetHealth (m : Metrics) : Metrics := { m with healthPerStatus := ∅ }

/-- `set_health`. -/
def setHealth (status : String) (n : Int64) (m : Metrics) : Metrics :=
  { m with healthPerStatus := m.healthPerStatus.insert status n }

end Metrics

/-- A pass that keeps the instruments. -/
abbrev Metered (sc : Scopes) := EStateM Error (World sc × Metrics)

namespace Metered

open Act Reconcile

variable {sc : Scopes} (env : Env sc)

/-- A `usize` or a `u64` as an `i64`. -/
def asI64 (n : UInt64) : Int64 := n.toInt64

/-- `hook_phase`. -/
def hookPhase (cfg : Config) (guard : LeaseGuard) (hooks : List HookInfo) (label : String) :
    Metered sc Hooks.PhaseOutcome := do
  let outcome ← unmetered (Hooks.runPhase env cfg hooks guard)
  record (Metrics.recordHooks label outcome.succeeded outcome.failures.length)
  return outcome

/-- A hook phase whose failure ends the pass. -/
def preHooks (cfg : Config) (guard : LeaseGuard) (label name : String) (hooks : List HookInfo) :
    Metered sc Unit := do
  match (← hookPhase env cfg guard hooks label).failures with
  | [] => return ()
  | (_, reason) :: _ => throw (.hook (name ++ " hook failed: " ++ reason))

/-- A hook phase whose failure is recorded. -/
def postHooks (cfg : Config) (guard : LeaseGuard) (label name : String) (hooks : List HookInfo) :
    Metered sc (Option String) := do
  match (← hookPhase env cfg guard hooks label).failures with
  | [] => return none
  | (_, reason) :: _ => return some (name ++ " hook failed: " ++ reason)

/-- The teardown branch. -/
def teardownBranch (cfg : Config) (guard : LeaseGuard) (c : Classified)
    (applied : List ResourceKey) : Metered sc BranchOutcome := do
  preHooks env cfg guard "predelete" "pre-delete" c.preDelete
  let _ ← unmetered (Prune.prune env cfg applied (ResourceKey.keysOf c.main))
  let postError ← postHooks env cfg guard "postdelete" "post-delete" c.postDelete
  return { drifts := [], applyFailures := [], postError, healthLive := [] }

/-- The full-apply branch. -/
def fullApplyBranch (cfg : Config) (guard : LeaseGuard) (c : Classified) :
    Metered sc BranchOutcome := do
  preHooks env cfg guard "presync" "pre-sync" c.pre
  let applyFailures ← unmetered (applyAll env cfg false c.main [])
  let healthLive ← unmetered (collectForHealth env cfg c.main)
  let postError ← postHooks env cfg guard "postsync" "post-sync" c.post
  return { drifts := [], applyFailures, postError, healthLive }

/-- The drift-check branch. -/
def driftBranch (cfg : Config) (guard : LeaseGuard) (c : Classified) :
    Metered sc BranchOutcome := do
  let (drifts, healthLive) ← unmetered (detectDrift env cfg c.main)
  if drifts.isEmpty then
    return { drifts, applyFailures := [], postError := none, healthLive }
  else
    preHooks env cfg guard "presync" "pre-sync" c.pre
    let applyFailures ← unmetered (applyAll env cfg false c.main [])
    let postError ← postHooks env cfg guard "postsync" "post-sync" c.post
    return { drifts, applyFailures, postError, healthLive }

/-- The branch of a pass that is not a teardown. -/
def syncBranch (cfg : Config) (guard : LeaseGuard) (prev : Option State) (sync : SyncOutcome)
    (c : Classified) : Metered sc BranchOutcome :=
  if shouldFullApply prev.isSome sync.changed then fullApplyBranch env cfg guard c
  else driftBranch env cfg guard c

/-- The branch of a pass, and the prune that follows it unless it was a teardown. -/
def branch (cfg : Config) (guard : LeaseGuard) (prev : Option State) (sync : SyncOutcome)
    (c : Classified) : Metered sc BranchOutcome := do
  if isTeardown c (prevApplied prev) then teardownBranch env cfg guard c (prevApplied prev)
  else
    let outcome ← syncBranch env cfg guard prev sync c
    let _ ← unmetered (Prune.prune env cfg (prevApplied prev) (ResourceKey.keysOf c.main))
    return outcome

/-- The drifts of every kind, in a map. -/
def driftByGvk (drifts : List DriftItem) : AList fun _ : GvkKey => Int64 :=
  drifts.foldl (fun counts d =>
    counts.insert d.key.gvk ((counts.lookup d.key.gvk).getD 0 + 1)) ∅

/-- The counts of a health summary, in the order in which they are set. -/
def healthCounts (h : HealthSummary) : List (String × UInt64) :=
  [("Healthy", h.healthy), ("Progressing", h.progressing), ("Degraded", h.degraded),
    ("Suspended", h.suspended), ("Missing", h.missing), ("Unknown", h.unknown)]

/-- What a pass publishes once its state is written. -/
def publish (main : List RawManifest) (b : BranchOutcome) (health : HealthSummary)
    (m : Metrics) : Metrics :=
  let m := m.setManagedResources (asI64 (count main))
  let m := if b.applyFailures = [] then m
    else { m with applyFailures := m.applyFailures + b.applyFailures.length }
  -- The keys of the map are distinct, so the order of the hash map does not matter.
  let m := (driftByGvk b.drifts).entries.foldl (fun m e => m.setDrift e.1 e.2) m.resetDrift
  (healthCounts health).foldl (fun m e => m.setHealth e.1 (asI64 e.2)) m.resetHealth

/-- The part of a pass that changes the cluster and the state. -/
def execute (cfg : Config) (guard : LeaseGuard) (prev : Option State) (sync : SyncOutcome)
    (c : Classified) : Metered sc Unit := do
  let outcome ← branch env cfg guard prev sync c
  let state ← unmetered (nextState env cfg guard prev sync c outcome)
  unmetered (State.write env state)
  record (publish c.main outcome state.health)
  unmetered (modify fun w => { w with lastGvks := (c.main.map RawManifest.gvk).dedup })

/-- The pass from its checkout on. -/
def converge (r : Reconciler) (guard : LeaseGuard) (prev : Option State) (sync : SyncOutcome) :
    Metered sc Unit := do
  let c ← Act.ofExcept (desired env sync.sha r.cfg (prevApplied prev))
  if r.cfg.dryRun then
    let _ ← unmetered (applyAll env r.cfg true c.main [])
  else execute env r.cfg guard prev sync c

/-- `reconcile_inner`. -/
def reconcileInner (r : Reconciler) (guard : LeaseGuard) : Metered sc Unit := do
  let prev ← unmetered (State.read env)
  let sync ← unmetered (checkoutOf env r prev)
  unmetered (touchLease env r.cfg guard)
  converge env r guard prev sync

/-- `reconcile`. -/
def reconcile (r : Reconciler) : Metered sc Unit := do
  match ← unmetered (Lock.acquire env r.cfg r.holder) with
  | .busy => return ()
  | .err e => throw e
  | .acquired guard =>
      let result ← attempt (reconcileInner env r guard)
      let _ ← attempt (δ := Error) (unmetered (Lock.release env))
      Act.ofExcept result

/-- `run_once`. -/
def runOnce (r : Reconciler) : Metered sc Unit := do
  record fun m => { m with syncTotal := m.syncTotal + 1 }
  match ← attempt (reconcile env r) with
  | .ok _ =>
      let now ← unmetered (timestampNow env)
      record (Metrics.setLastSuccessEpoch (asI64 (UInt64.ofNat (now / second))))
      unmetered (modify fun w => { w with lastSuccess := some (now / second) })
  | .error e =>
      record fun m => { m with syncErrors := m.syncErrors + 1 }
      let _ ← attempt (δ := Error) (unmetered (recordError env e))
      throw e

end Metered

end LeanCd
