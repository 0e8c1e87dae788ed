import LeanCd.GitSync
import LeanCd.Hooks
import LeanCd.Lib.Duration
import LeanCd.ResourceHealth

/-!
# `LeanCd.Reconcile`: one reconciliation pass

`reconcile.rs`, up to the polling loop. A pass reads the state, checks the
repository out, parses the manifests, takes one of three branches (teardown, full
apply, drift check), prunes, and writes the new state.

The order of the steps is that of `reconcile_inner`: the state, the checkout, a renewal of the
Lease, the manifests, the branch, the health assessment between two more renewals, and at last the
state. `branch` is one of three, by the mode of the pass, and ends in a `prune` except in a dry
run. `runOnce` is `run_once`: the Lease around the pass, and the record of its error.

`modeOf` and `shouldFullApply` are the decisions, as functions of the prior state, the checkout
and the manifests. Most theorems about a pass start from them.
-/

set_option autoImplicit false

namespace LeanCd

/-- `reconcile::Reconciler`, what stays fixed over a run. -/
structure Reconciler where
  cfg : Config
  secrets : Secrets
  forceTarget : Option CheckoutTarget
  holder : String

namespace Reconcile

/-! ### The decisions of a pass -/

/-- The applied set of the prior state. -/
def prevApplied (prev : Option State) : List ResourceKey := (prev.map (·.applied)).getD []

/-- The last commit of the prior state, as `checkout` is told. A forced target ignores it. -/
def prevShaRef (forceTarget : Option CheckoutTarget) (prev : Option State) : Option String :=
  if forceTarget.isSome then none else (prev.bind (·.lastSha)).filter (· ≠ "")

/-- `should_full_apply`. -/
def shouldFullApply (hasPrev changed : Bool) : Bool := !hasPrev || changed

/-- Every main resource has left Git while the applied set is not empty. -/
def isTeardown (c : Classified) (applied : List ResourceKey) : Bool :=
  c.main.isEmpty && !applied.isEmpty

/-- The number of elements, as a `usize`. -/
def count {α : Type} (l : List α) : UInt64 := UInt64.ofNat l.length

variable {sc : Scopes} (env : Env sc)

/-- The directories of a pass at a commit. With a non-empty applied set, a configuration
error of the expansion counts as no directory at all. -/
def rootsOf (sha : String) (cfg : Config) (applied : List ResourceKey) :
    Except Error (List Path) :=
  match Manifest.expandRoots env.unprintable (env.tree sha) cfg.effectiveWorkDir cfg.path with
  | .ok roots => .ok roots
  -- The arm does not ask which finding the error is about.
  | .error (.config text) => if applied ≠ [] then .ok [] else .error (.config text)
  | .error e => .error e

/-- The classified manifests of a pass at a commit. -/
def desired (sha : String) (cfg : Config) (applied : List ResourceKey) :
    Except Error Classified :=
  match rootsOf env sha cfg applied with
  | .error e => .error e
  | .ok roots => (Manifest.parsePaths env.yaml (env.tree sha) roots).map Hooks.classify

section
variable {env : Env sc} {sha : String} {cfg : Config} {applied : List ResourceKey}

/-- The directories of a pass are the expanded ones, or none in place of a configuration
error. -/
theorem rootsOf_ok {roots : List Path} (h : rootsOf env sha cfg applied = .ok roots) :
    Manifest.expandRoots env.unprintable (env.tree sha) cfg.effectiveWorkDir cfg.path =
        .ok roots ∨
      roots = [] ∧ ∃ text, Manifest.expandRoots env.unprintable (env.tree sha)
        cfg.effectiveWorkDir cfg.path = .error (.config text) := by
  unfold rootsOf at h
  split at h
  next hexpand =>
    cases h
    exact .inl hexpand
  next text hexpand =>
    split at h
    · cases h
      exact .inr ⟨rfl, text, hexpand⟩
    · cases h
  next => cases h

/-- The manifests of a pass are those parsed from its directories. -/
theorem desired_ok {c : Classified} (h : desired env sha cfg applied = .ok c) :
    ∃ roots ms, rootsOf env sha cfg applied = .ok roots ∧
      Manifest.parsePaths env.yaml (env.tree sha) roots = .ok ms ∧ Hooks.classify ms = c := by
  unfold desired at h
  split at h
  · cases h
  next roots hroots =>
    cases hparsed : Manifest.parsePaths env.yaml (env.tree sha) roots with
    | error e =>
        rw [hparsed] at h
        cases h
    | ok ms =>
        rw [hparsed] at h
        exact ⟨roots, ms, hroots, hparsed, Except.ok.inj h⟩

end

/-! ### The steps of a pass -/

/-- `touch_lease`. -/
def touchLease (cfg : Config) (guard : LeaseGuard) : Pass sc Unit :=
  Hooks.renewBestEffort env cfg guard

/-- `apply_all`: the keys that failed. A manifest that no longer parses stops the pass. -/
def applyAll (cfg : Config) (dryRun : Bool) :
    List RawManifest → KubeUtil.DiscoveryCache → Pass sc (List ResourceKey)
  | [], _ => return []
  | m :: rest, cache => do
      match ← Act.attempt (δ := Error) (KubeUtil.getOrResolve env cache m.gvk) with
      | .error _ =>
          let failed ← applyAll cfg dryRun rest cache
          return .fromManifest m :: failed
      | .ok cache =>
          match Hooks.labelledValue env cfg m with
          | .error e => throw (.manifest ("failed to parse manifest: " ++ e))
          | .ok value =>
              note (.applyStarted (.fromManifest m))
              match ← Act.attempt (δ := Error)
                  (KubeUtil.apply env cfg.namespace m.gvk value dryRun) with
              | .ok _ => applyAll cfg dryRun rest cache
              | .error _ =>
                  let failed ← applyAll cfg dryRun rest cache
                  return .fromManifest m :: failed

/-- A hook phase whose failure ends the pass. -/
def preHooks (cfg : Config) (guard : LeaseGuard) (label : String) (hooks : List HookInfo) :
    Pass sc Unit := do
  match (← Hooks.runPhase env cfg hooks guard).failures with
  | [] => return ()
  | (_, reason) :: _ => throw (.hook (label ++ " hook failed: " ++ reason))

/-- A hook phase whose failure is recorded. -/
def postHooks (cfg : Config) (guard : LeaseGuard) (label : String) (hooks : List HookInfo) :
    Pass sc (Option String) := do
  match (← Hooks.runPhase env cfg hooks guard).failures with
  | [] => return none
  | (_, reason) :: _ => return some (label ++ " hook failed: " ++ reason)

/-- What a branch leaves for the rest of the pass. -/
structure BranchOutcome where
  drifts : List DriftItem
  applyFailures : List ResourceKey
  postError : Option String
  healthLive : List DynamicObject

/-- The teardown branch: delete hooks around the prune. -/
def teardownBranch (cfg : Config) (guard : LeaseGuard) (c : Classified)
    (applied : List ResourceKey) : Pass sc BranchOutcome := do
  preHooks env cfg guard "pre-delete" c.preDelete
  let _ ← Prune.prune env cfg applied (ResourceKey.keysOf c.main)
  let postError ← postHooks env cfg guard "post-delete" c.postDelete
  return { drifts := [], applyFailures := [], postError, healthLive := [] }

/-- `collect_live`, or nothing when it fails. -/
def collectLiveOrNone (cfg : Config) (main : List RawManifest) :
    Pass sc (List DynamicObject) := do
  match ← Act.attempt (δ := Error) (Drift.collectLive env cfg main) with
  | .ok live => return live
  | .error _ => return []

/-- The live objects for the health of a full apply, when health is assessed. -/
def collectForHealth (cfg : Config) (main : List RawManifest) :
    Pass sc (List DynamicObject) :=
  if cfg.healthEnabled then collectLiveOrNone env cfg main else return []

/-- The full-apply branch: sync hooks around the apply. -/
def fullApplyBranch (cfg : Config) (guard : LeaseGuard) (c : Classified) :
    Pass sc BranchOutcome := do
  preHooks env cfg guard "pre-sync" c.pre
  let applyFailures ← applyAll env cfg false c.main []
  let healthLive ← collectForHealth env cfg c.main
  let postError ← postHooks env cfg guard "post-sync" c.post
  return { drifts := [], applyFailures, postError, healthLive }

/-- The detection of the configured watch mode. -/
def detectDrift (cfg : Config) (main : List RawManifest) :
    Pass sc (List DriftItem × List DynamicObject) := do
  if cfg.watchMode = .cache then
    Drift.detectFromLw env cfg main (env.cacheStores (← tick env))
  else Drift.detect env cfg main

/-- The drift-check branch: sync hooks around an apply, when there is a drift. -/
def driftBranch (cfg : Config) (guard : LeaseGuard) (c : Classified) :
    Pass sc BranchOutcome := do
  let (drifts, healthLive) ← detectDrift env cfg c.main
  if drifts.isEmpty then
    return { drifts, applyFailures := [], postError := none, healthLive }
  else
    preHooks env cfg guard "pre-sync" c.pre
    let applyFailures ← applyAll env cfg false c.main []
    let postError ← postHooks env cfg guard "post-sync" c.post
    return { drifts, applyFailures, postError, healthLive }

/-- The branch of a pass that is not a teardown. -/
def syncBranch (cfg : Config) (guard : LeaseGuard) (prev : Option State) (sync : SyncOutcome)
    (c : Classified) : Pass sc BranchOutcome :=
  if shouldFullApply prev.isSome sync.changed then fullApplyBranch env cfg guard c
  else driftBranch env cfg guard c

/-- The branch of a pass, and the prune that follows it unless it was a teardown. -/
def branch (cfg : Config) (guard : LeaseGuard) (prev : Option State) (sync : SyncOutcome)
    (c : Classified) : Pass sc BranchOutcome := do
  if isTeardown c (prevApplied prev) then teardownBranch env cfg guard c (prevApplied prev)
  else
    let outcome ← syncBranch env cfg guard prev sync c
    let _ ← Prune.prune env cfg (prevApplied prev) (ResourceKey.keysOf c.main)
    return outcome

/-- The live objects for the health assessment: a list when the branch left none. -/
def liveOrCollect (cfg : Config) (main : List RawManifest) (live : List DynamicObject) :
    Pass sc (List DynamicObject) :=
  if live.isEmpty then collectLiveOrNone env cfg main else return live

/-- The health of the main resources. -/
def healthOf (cfg : Config) (main : List RawManifest) (live : List DynamicObject) :
    Pass sc HealthSummary := do
  if cfg.healthEnabled then
    let live ← liveOrCollect env cfg main live
    return ResourceHealth.assess main live
  else return .default

/-- The state a pass writes. -/
def newState (prev : Option State) (sync : SyncOutcome) (c : Classified) (b : BranchOutcome)
    (health : HealthSummary) (epoch : UInt64) : State :=
  let base := prev.getD .default
  { lastSha := some sync.sha
    lastSyncEpoch := some epoch
    syncCount := saturatingSucc base.syncCount
    lastError := b.postError
    driftCount := count b.drifts
    managedCount := count c.main
    applied := ResourceKey.keysOf c.main
    applyFailures := b.applyFailures
    health := health }

/-- The state that records an error. -/
def errorState (e : Error) (prev : Option State) : State :=
  let base := prev.getD .default
  { base with lastError := some e.toString, syncCount := saturatingSucc base.syncCount }

/-- `now_epoch`: whole seconds. -/
def nowEpoch : Pass sc UInt64 := return UInt64.ofNat ((← timestampNow env) / second)

/-- Assess the health and put the new state together. -/
def nextState (cfg : Config) (guard : LeaseGuard) (prev : Option State) (sync : SyncOutcome)
    (c : Classified) (outcome : BranchOutcome) : Pass sc State := do
  touchLease env cfg guard
  let health ← healthOf env cfg c.main outcome.healthLive
  let epoch ← nowEpoch env
  touchLease env cfg guard
  return newState prev sync c outcome health epoch

/-- The part of a pass that changes the cluster and the state. -/
def execute (cfg : Config) (guard : LeaseGuard) (prev : Option State) (sync : SyncOutcome)
    (c : Classified) : Pass sc Unit := do
  let outcome ← branch env cfg guard prev sync c
  State.write env (← nextState env cfg guard prev sync c outcome)
  modify fun w => { w with lastGvks := (c.main.map RawManifest.gvk).dedup }

/-- The pass from its checkout on: parse the manifests, then apply or only try. -/
def converge (r : Reconciler) (guard : LeaseGuard) (prev : Option State) (sync : SyncOutcome) :
    Pass sc Unit := do
  let c ← Act.ofExcept (desired env sync.sha r.cfg (prevApplied prev))
  if r.cfg.dryRun then
    -- A dry run has the server validate every manifest, and does nothing else.
    let _ ← applyAll env r.cfg true c.main []
  else execute env r.cfg guard prev sync c

/-- The checkout of a pass: the forced target, or the branch. -/
def checkoutOf (r : Reconciler) (prev : Option State) : Pass sc SyncOutcome :=
  GitSync.checkout env r.cfg r.secrets (prevShaRef r.forceTarget prev)
    (r.forceTarget.getD .branch)

/-- `reconcile_inner`. -/
def reconcileInner (r : Reconciler) (guard : LeaseGuard) : Pass sc Unit := do
  let prev ← State.read env
  let sync ← checkoutOf env r prev
  touchLease env r.cfg guard
  converge env r guard prev sync

/-- `reconcile`: hold the Lease for the length of the pass. A busy Lease skips it. -/
def reconcile (r : Reconciler) : Pass sc Unit := do
  match ← Lock.acquire env r.cfg r.holder with
  | .busy => return ()
  | .err e => throw e
  | .acquired guard =>
      let result ← Act.attempt (reconcileInner env r guard)
      -- The Lease is released after a failed pass too, and before the error is recorded.
      let _ ← Act.attempt (δ := Error) (Lock.release env)
      Act.ofExcept result

/-- Whether a pass stores the state that it has put together: the server stores one for it before
there is an error to record. No function of the program asks. -/
def storesState (r : Reconciler) (w : World sc) : Bool :=
  decide (w.writes.length < (Act.state (reconcile env r w)).writes.length)

/-- `record_error`. -/
def recordError (e : Error) : Pass sc Unit := do
  State.write env (errorState e (← State.read env))

/-- `run_once`. -/
def runOnce (r : Reconciler) : Pass sc Unit := do
  match ← Act.attempt (reconcile env r) with
  | .ok _ =>
      let now ← timestampNow env
      modify fun w => { w with lastSuccess := some (now / second) }
  | .error e =>
      -- The error of the pass is returned, whether or not it could be recorded.
      let _ ← Act.attempt (δ := Error) (recordError env e)
      throw e

/-- `dry_run`. -/
def dryRun (r : Reconciler) : Pass sc Unit := reconcile env r

/-! ### The delay between passes -/

/-- The longest `Duration`. -/
def maxDuration : Nat := 2 ^ 64 * second - 1

/-- `backoff_delay`: a product that overflows is the cap. -/
def backoffDelay (base cap failures : Nat) : Nat :=
  if failures = 0 then 0
  else
    let product := base * 2 ^ min (failures - 1) 31
    min (if product ≤ maxDuration then product else cap) cap

/-- `backoff_delay` on machine words. There is no result where an operation would panic. -/
def Words.backoffDelay (base cap : Duration) (consecutiveFailures : UInt32) : Option Duration :=
  if consecutiveFailures = 0 then some .zero
  else
    let exp := min (Word.saturatingSub32 consecutiveFailures 1) 31
    (Word.checkedShl exp).map fun factor => .min ((base.checkedMul factor).getD cap) cap

/-- `next_delay`. -/
def nextDelay (failures base cap poll : Nat) : Nat :=
  if failures = 0 then poll else backoffDelay base cap failures

end Reconcile

end LeanCd
