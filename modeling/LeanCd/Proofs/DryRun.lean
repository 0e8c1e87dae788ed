import LeanCd.Commands
import LeanCd.Proofs.BusySkip
import LeanCd.Proofs.Totality

/-!
# `LeanCd.Proofs.DryRun`: which subcommands `--dry-run` affects

`sync` calls `dry_run`, which has no error to record. It keeps the promise of the flag in every
environment: it leaves the cluster and the state alone, and it goes the same against an API
server that forbids every change (`reconcile_readOnly`).

The controller and a rollback call `run_once`, but the flag is tested deep inside the pass
they share with `sync`. A pass that gets to its manifests validates them and returns `Ok`.
`flagPromise_iff`: those two subcommands do what they do without the flag exactly when it is
not set. `runOnce_live_of_unread` says where the flag first matters within a pass.

The comparison is between two runs: of the same code with the flag and without it, or against two
API servers of which one refuses every change. The `_congr` lemmas say which parts do not read the
flag, and the `_readOnly` lemmas which parts send nothing that would be refused.
-/

set_option autoImplicit false

namespace LeanCd

open Act

variable {sc : Scopes} {env : Env sc} {cfg : Config}

/-! ### What neither the faults nor the flag matter to

The same environment with other faults, and the same configuration with another flag. -/

section
variable (fault : Nat → Request sc → Fault) (dryRun : Bool)

/-- The wait for the Lease does not depend on the flag, when one attempt does not. -/
theorem acquireLoop_congr {holder : String}
    (htry : Lock.tryAcquire { env with fault } { cfg with dryRun } holder =
      Lock.tryAcquire env cfg holder) (deadline fuel : Nat) :
    Lock.acquireLoop { env with fault } { cfg with dryRun } holder deadline fuel =
      Lock.acquireLoop env cfg holder deadline fuel := by
  induction fuel with
  | zero => rfl
  | succ fuel ih =>
      rw [Lock.acquireLoop, Lock.acquireLoop, htry, ih]
      rfl

/-- `acquire` is the same when each of its attempts is. -/
theorem acquire_congr {holder : String}
    (htry : Lock.tryAcquire { env with fault } { cfg with dryRun } holder =
      Lock.tryAcquire env cfg holder) :
    Lock.acquire { env with fault } { cfg with dryRun } holder = Lock.acquire env cfg holder := by
  unfold Lock.acquire
  simp only [acquireLoop_congr fault dryRun htry]
  rfl

/-- The search for a commit runs the same git commands with and without the flag. -/
theorem ensureShaReachable_congr (url sha : String) (rounds : Nat) :
    GitSync.ensureShaReachable { env with fault } { cfg with dryRun } url sha rounds =
      GitSync.ensureShaReachable env cfg url sha rounds := by
  induction rounds with
  | zero => rfl
  | succ rounds ih =>
      rw [GitSync.ensureShaReachable, GitSync.ensureShaReachable, ih]
      rfl

/-- So does the search for a depth. -/
theorem ensureDepth_congr (url : String) (depth rounds : Nat) :
    GitSync.ensureDepth { env with fault } { cfg with dryRun } url depth rounds =
      GitSync.ensureDepth env cfg url depth rounds := by
  induction rounds with
  | zero => rfl
  | succ rounds ih =>
      rw [GitSync.ensureDepth, GitSync.ensureDepth, ih]
      rfl

/-- So does the checkout of the target. -/
theorem pointAt_congr (url : String) (target : CheckoutTarget) :
    GitSync.pointAt { env with fault } { cfg with dryRun } url target =
      GitSync.pointAt env cfg url target := by
  cases target with
  | branch => rfl
  | sha sha =>
      rw [GitSync.pointAt, GitSync.pointAt, ensureShaReachable_congr]
      rfl
  | parent n =>
      rw [GitSync.pointAt, GitSync.pointAt, ensureDepth_congr]
      rfl

/-- So the whole checkout is the same. -/
theorem checkout_congr (secrets : Secrets) (prevSha : Option String)
    (target : CheckoutTarget) :
    GitSync.checkout { env with fault } { cfg with dryRun } secrets prevSha target =
      GitSync.checkout env cfg secrets prevSha target := by
  unfold GitSync.checkout GitSync.checkoutAt
  simp only [pointAt_congr]
  rfl

end

/-! ### A dry run issues no call that changes the cluster -/

/-- The request asks the server for a change, of anything but the Lease. -/
def Request.mutates : Request sc → Bool
  | .patch _ _ dryRun => !dryRun
  | .delete _ _ | .statePatch => true
  | .discover _ | .list _ | .get _ _ | .stateGet => false
  | .leaseGet | .leaseCreate | .leaseReplace | .leaseDelete => false

/-- The same environment, with an API server that forbids every change. -/
def Env.readOnly (env : Env sc) : Env sc :=
  { env with
    fault := fun n req =>
      if req.mutates then .refused ⟨some 403, "forbidden"⟩ else env.fault n req }

/-- Discovery only reads, so it is the same when every write of the cluster is refused. -/
theorem getOrResolve_readOnly (cache : KubeUtil.DiscoveryCache) (g : GvkKey) :
    KubeUtil.getOrResolve env.readOnly cache g = KubeUtil.getOrResolve env cache g := rfl

/-- A server-side dry run is no write: it is served also where writes are refused. -/
theorem apply_readOnly (defaultNs : String) (g : GvkKey) (manifest : Value) :
    KubeUtil.apply env.readOnly defaultNs g manifest true =
      KubeUtil.apply env defaultNs g manifest true := rfl

namespace Reconcile

/-- Hence a whole dry run of the applies is the same where every write is refused. -/
theorem applyAll_readOnly (ms : List RawManifest) (cache : KubeUtil.DiscoveryCache) :
    applyAll env.readOnly cfg true ms cache = applyAll env cfg true ms cache := by
  induction ms generalizing cache with
  | nil => rfl
  | cons m rest ih =>
      rw [applyAll_cons, applyAll_cons]
      unfold attemptApply
      simp only [getOrResolve_readOnly, apply_readOnly, ih]
      rfl

/-- A dry run goes the same when the API server forbids every change. -/
theorem reconcile_readOnly {r : Reconciler} (hdry : r.cfg.dryRun = true) :
    reconcile env.readOnly r = reconcile env r := by
  -- Each part of a dry pass sends the same calls in both environments. They differ in the patches
  -- only, and those are dry.
  have hconverge : ∀ guard prev sync,
      converge env.readOnly r guard prev sync = converge env r guard prev sync := by
    intro guard prev sync
    unfold converge
    simp only [hdry, applyAll_readOnly]
    rfl
  have hacquire : Lock.acquire env.readOnly r.cfg r.holder = Lock.acquire env r.cfg r.holder :=
    acquire_congr env.readOnly.fault r.cfg.dryRun rfl
  have hcheckout : ∀ prev, checkoutOf env.readOnly r prev = checkoutOf env r prev := fun prev =>
    checkout_congr env.readOnly.fault r.cfg.dryRun r.secrets _ _
  have hinner : ∀ guard, reconcileInner env.readOnly r guard = reconcileInner env r guard := by
    intro guard
    unfold reconcileInner
    simp only [hcheckout, hconverge]
    rfl
  unfold reconcile
  simp only [hacquire, hinner]
  rfl

end Reconcile

/-! ### What a dry run leaves alone -/

/-- The process has changed the cluster and the state in the same way. -/
def SameEffects (s t : World sc) : Prop := s.effects = t.effects ∧ s.stateCm = t.stateCm

/-- Nothing was changed. -/
def effectless (sc : Scopes) : Frame (World sc) := .fixed fun w => (w.effects, w.stateCm)

/-- The interactions of a pass have no effect on the cluster themselves. -/
theorem benign_effectless : Benign env (effectless sc) :=
  ⟨⟨fun _ => rfl, fun _ _ => rfl⟩, fun _ _ => rfl, fun _ _ _ => rfl⟩

namespace Reconcile

/-- A pass with `dry_run` has no effects: the branch that it takes only asks the server for dry
runs. -/
theorem keeps_reconcile_dry {r : Reconciler} (hdry : r.cfg.dryRun = true) :
    Keeps (effectless sc) (reconcile env r) := by
  refine benign_effectless.reconcile (benign_effectless.convergeDry hdry ?_)
  intro ms
  constructor
  · exact fun _ _ _ => rfl
  · exact fun _ _ _ _ _ _ => rfl

/-- A pass only adds to the history. -/
theorem keeps_reconcile_adds {r : Reconciler} (hdry : r.cfg.dryRun = false) :
    Keeps (adds fun _ => True) (reconcile env r) := by
  have hb := @benign_adds _ env fun _ => True
  refine hb.reconcile (Benign.converge hdry ?_)
  intro guard prev sync c _
  refine hb.execute ?_ (fun _ _ => adds_of_untouched rfl) (keeps_branch_adds _ _ _ _ _)
  exact fun _ _ _ => hb.stateWrite fun w => ⟨[_], rfl, by simp⟩

end Reconcile

/-! ### The flag is read once -/

/-- The configuration without the flag. -/
def Config.live (cfg : Config) : Config := { cfg with dryRun := false }

namespace Reconcile

/-- The pass without the flag. -/
def live (r : Reconciler) : Reconciler := { r with cfg := r.cfg.live }

/-- A pass that does not get to its manifests does not notice the flag. -/
theorem runOnce_live_of_unread {r : Reconciler} {w : World sc}
    (hunread : ∀ (x : Started env r w) c,
      desired env x.sync.sha r.cfg (prevApplied x.prev) ≠ .ok c) :
    runOnce env (live r) w = runOnce env r w := by
  have hreconcile : reconcile env (live r) w = reconcile env r w := by
    have hacquire : Lock.acquire env (live r).cfg (live r).holder =
        Lock.acquire env r.cfg r.holder := acquire_congr env.fault false rfl
    unfold reconcile
    rw [hacquire]
    refine bind_congr_state fun outcome held acquired => ?_
    -- The two passes hold the same Lease in the same world, so the rest is compared there.
    cases outcome with
    | busy => rfl
    | err e => rfl
    | acquired guard =>
        refine bind_congr_left ?_
        rw [attempt_run, attempt_run]
        have hinner : reconcileInner env (live r) guard held = reconcileInner env r guard held := by
          unfold reconcileInner
          refine bind_congr_state fun prev entered read => ?_
          have hcheckout : checkoutOf env (live r) prev = checkoutOf env r prev :=
            checkout_congr env.fault false r.secrets _ _
          rw [hcheckout]
          refine bind_congr_state fun sync fetched checkedOut => ?_
          refine bind_congr_state fun _ start touched => ?_
          have hnone := hunread { guard, held, acquired, prev, entered, read, sync, fetched,
                                  checkedOut, start, touched }
          -- The set is not to be had, so the pass ends before the flag is read.
          have hsame : desired env sync.sha (live r).cfg (prevApplied prev) =
              desired env sync.sha r.cfg (prevApplied prev) := rfl
          unfold converge
          rw [hsame]
          cases hdesired : desired env sync.sha r.cfg (prevApplied prev) with
          | error e => rfl
          | ok c => exact absurd hdesired (hnone c)
        rw [hinner]
  unfold runOnce
  refine bind_congr_left ?_
  rw [attempt_run, attempt_run, hreconcile]

/-! ### What the flag takes away -/

/-- Without the flag, a pass that takes the Lease writes a state: its own, or the one that
records its error. -/
theorem after_runOnce_writes (hs : StateServed env) {r : Reconciler}
    (hdry : r.cfg.dryRun = false) {w held : World sc} {guard : LeaseGuard}
    (hacquired : Lock.acquire env r.cfg r.holder w = .ok (.acquired guard) held) :
    After (runOnce env r) w fun _ t => WroteState w t := by
  have hb := @benign_adds _ env fun _ => True
  have hok := after_runOnce_wrote hdry hacquired
  -- A pass that returns has written its state. One that fails records its error instead.
  cases hrun : reconcile env r w with
  | ok _ t =>
      rw [runOnce, after_bind, after_attempt, after_of_ok hrun] at hok ⊢
      exact hok rfl
  -- The trace of the failed pass is kept, as the error is recorded after it.
  | error e t =>
      have hadds : (adds fun _ => True).rel w t :=
        ((keeps_reconcile_adds hdry).after w).of_run hrun
      rw [runOnce, after_bind, after_attempt, after_of_error hrun]
      dsimp only
      rw [after_bind, after_attempt, recordError, after_bind]
      refine ((hb.stateRead.after t).and (after_stateRead_served hs t)).mono ?_
      rintro _ u ⟨hu, rfl⟩
      have hwrote := @after_stateWrite_wrote _ env
        (errorState e (t.stateCm.map State.fromData)) _ _ ((adds _).trans hadds hu)
      refine (hwrote.and (after_stateWrite_served hs _ u)).mono ?_
      rintro _ v ⟨hv, rfl⟩
      exact hv rfl

/-- A state that was written is an effect. -/
theorem WroteState.effects_ne {w t : World sc} (h : WroteState w t) : t.effects ≠ w.effects := by
  obtain ⟨new, s, htrace, hmem, -⟩ := h
  have hnew : Event.stateWritten s.toData ∈ new.filter Event.mutates :=
    List.mem_filter.mpr ⟨hmem, rfl⟩
  intro heq
  unfold World.effects at heq
  rw [htrace, List.filter_append, List.append_left_eq_self] at heq
  rw [heq] at hnew
  cases hnew

/-- With the flag, a pass that returns `Ok` changes nothing. -/
theorem after_runOnce_dry {r : Reconciler} (hdry : r.cfg.dryRun = true) (w : World sc)
    (hok : After (reconcile env r) w fun res _ => res = .ok ()) :
    After (runOnce env r) w fun _ t => (effectless sc).rel w t := by
  refine after_runOnce_of ((((keeps_reconcile_dry hdry).after w).and hok).mono ?_)
  rintro _ t ⟨ht, rfl⟩
  exact ⟨fun _ => ht, by simp⟩

/-- With the flag, a pass without manifests returns `Ok` once it can check its target out. -/
theorem after_reconcile_dry (hs : StateServed env) {r : Reconciler} (hdry : r.cfg.dryRun = true)
    {w held : World sc} {guard : LeaseGuard}
    (hacquired : Lock.acquire env r.cfg r.holder w = .ok (.acquired guard) held)
    (hcheckout : ∀ prev, Total (checkoutOf env r prev))
    (hdesired : ∀ sha, desired env sha r.cfg (prevApplied (w.stateCm.map State.fromData)) =
      .ok (Hooks.classify [])) :
    After (reconcile env r) w fun res _ => res = .ok () := by
  have hcm : held.stateCm = w.stateCm :=
    (Prod.mk.inj ((benign_untouched.acquire r.holder).of_ok hacquired)).2
  have htouch : Total (touchLease env r.cfg guard) := Hooks.total_renewBestEffort guard
  have hinner : After (reconcileInner env r guard) held fun res _ => res = .ok () := by
    -- The state is read, the Lease renewed after the checkout, and then the flag ends the pass.
    rw [reconcileInner, after_bind]
    refine (after_stateRead_served hs held).mono ?_
    rintro _ u rfl
    dsimp only
    refine (hcheckout _).bind_after fun sync v => htouch.bind_after fun _ t => ?_
    rw [converge, hcm, hdesired, hdry]
    rfl
  rw [reconcile, after_bind, after_of_ok hacquired]
  simp only [after_bind, after_attempt, after_ofExcept]
  refine hinner.mono ?_
  rintro _ t rfl
  exact .of_forall fun _ _ => rfl

end Reconcile

/-! ### A repository that was emptied -/

/-- The repository has no file left, and every call is served. -/
def emptied (sc : Scopes) : Env sc :=
  .calm sc (.table [] [])
    (fun _ cmd => .exited true (if cmd = .revListCount then "2" else "") "") fun _ => .bare

/-- The one resource that was applied from it. -/
def leftKey : ResourceKey := .fromManifest (settings (some "default"))

/-- The state that the pass before left. -/
def leftState : State := { State.default with applied := [leftKey] }

/-- The world before the next pass. -/
def emptiedWorld (sc : Scopes) : World sc := .fresh ∅ (some leftState.toData)

/-- Without credentials. -/
def noSecrets : Secrets := ⟨none, none, none⟩

/-- In the example the calls about the state are served. -/
theorem stateServed_emptied : StateServed (emptied sc) := fun _ => ⟨rfl, rfl⟩

/-- In the example the Lease is free, and the pass acquires it. -/
theorem acquire_emptied (cfg : Config) (holder : String) :
    ∃ held, Lock.acquire (emptied sc) cfg holder (emptiedWorld sc) =
      .ok (.acquired ⟨holder⟩) held := ⟨_, rfl⟩

/-- Every target that a subcommand asks for can be checked out. -/
theorem total_checkout_emptied (prevSha : Option String) (cmd : Command) (holder : String) :
    Total (GitSync.checkout (emptied sc) cfg noSecrets prevSha
      ((cmd.reconciler cfg noSecrets holder).forceTarget.getD .branch)) := by
  have hurl : Config.authedUrl (emptied sc).url cfg noSecrets = .ok cfg.repoUrl := by
    unfold Config.authedUrl
    split
    · rfl
    · rfl
  unfold GitSync.checkout
  rw [hurl]
  refine (Total.pure cfg.repoUrl).bind fun url => ?_
  cases cmd with
  | controller => exact fun _ => ⟨_, _, rfl⟩
  | sync => exact fun _ => ⟨_, _, rfl⟩
  | rollback target =>
      cases target with
      | some sha => exact fun _ => ⟨_, _, rfl⟩
      | none => exact fun _ => ⟨_, _, rfl⟩

/-- There is nothing to apply. The applied set is not empty, so that is no error. -/
theorem desired_emptied (sha : String) :
    Reconcile.desired (emptied sc) sha cfg
        (Reconcile.prevApplied ((emptiedWorld sc).stateCm.map State.fromData)) =
      .ok (Hooks.classify []) := by
  have hexpand : ∀ patterns, Manifest.expandPatterns (emptied sc).unprintable
      ((emptied sc).tree sha) cfg.effectiveWorkDir patterns = .ok [] := by
    intro patterns
    induction patterns with
    | nil => rfl
    | cons pat rest ih =>
        rw [Manifest.expandPatterns, ih]
        rfl
  have hprev : (emptiedWorld sc).stateCm.map State.fromData = some leftState :=
    congrArg some (State.fromData_toData leftState)
  rw [hprev]
  unfold Reconcile.desired Reconcile.rootsOf Manifest.expandRoots
  rw [hexpand]
  rfl

/-! ### Which subcommands the flag affects -/

namespace Command

/-- The promise of the flag for a subcommand: with it `sync` changes nothing and issues no call
that would, and the others do what they do without it. -/
def FlagPromise (sc : Scopes) (cmd : Command) (cfg : Config) : Prop :=
  ∀ (secrets : Secrets) (holder : String) (env : Env sc) (w : World sc),
    match cmd with
    | .sync => cfg.dryRun = true →
        cmd.pass env cfg secrets holder w = cmd.pass env.readOnly cfg secrets holder w ∧
          SameEffects w (state (cmd.pass env cfg secrets holder w))
    | .controller | .rollback _ =>
        SameEffects (state (cmd.pass env cfg secrets holder w))
          (state (cmd.pass env cfg.live secrets holder w))

/-- For `sync` the promise holds under every configuration: it is the one subcommand that is meant
to honour the flag. -/
theorem flagPromise_sync : FlagPromise sc .sync cfg := by
  intro secrets holder env w hdry
  have hpass : ∀ env : Env sc, sync.pass env cfg secrets holder =
      Reconcile.reconcile env (sync.reconciler cfg secrets holder) := by
    intro env
    unfold pass Reconcile.dryRun
    rw [hdry]
    rfl
  have hflag : (sync.reconciler cfg secrets holder).cfg.dryRun = true := hdry
  constructor
  · rw [hpass, hpass, Reconcile.reconcile_readOnly hflag]
  · rw [hpass]
    have hkept := @Reconcile.keeps_reconcile_dry _ env _ hflag w
    exact ⟨(Prod.mk.inj hkept).1.symm, (Prod.mk.inj hkept).2.symm⟩

/-- The promise for the controller and a rollback. -/
theorem flagPromise_runOnce {cmd : Command} (hcmd : cmd ≠ .sync) :
    FlagPromise sc cmd cfg ↔ ∀ secrets holder (env : Env sc) (w : World sc),
      SameEffects (state (Reconcile.runOnce env (cmd.reconciler cfg secrets holder) w))
        (state (Reconcile.runOnce env (cmd.reconciler cfg.live secrets holder) w)) := by
  cases cmd with
  | controller | rollback => rfl
  | sync => exact absurd rfl hcmd

/-- Over the emptied repository, a pass without the flag removes what was applied or records
why it could not. With the flag it does nothing, and returns `Ok`. -/
theorem not_sameEffects_emptied (hdry : cfg.dryRun = true) (cmd : Command) (holder : String) :
    ¬SameEffects
      (state (Reconcile.runOnce (emptied sc) (cmd.reconciler cfg noSecrets holder)
        (emptiedWorld sc)))
      (state (Reconcile.runOnce (emptied sc) (cmd.reconciler cfg.live noSecrets holder)
        (emptiedWorld sc))) := by
  have hflag : (cmd.reconciler cfg noSecrets holder).cfg.dryRun = true := hdry
  obtain ⟨tried, htried⟩ := @acquire_emptied sc cfg holder
  have hok := Reconcile.after_reconcile_dry stateServed_emptied hflag htried
    (fun _ => total_checkout_emptied _ cmd holder) desired_emptied
  have hkept : (effectless sc).rel (emptiedWorld sc) (state (Reconcile.runOnce (emptied sc)
      (cmd.reconciler cfg noSecrets holder) (emptiedWorld sc))) :=
    Reconcile.after_runOnce_dry hflag _ hok
  obtain ⟨held, hacquired⟩ := @acquire_emptied sc cfg.live holder
  have hwrote := Reconcile.after_runOnce_writes stateServed_emptied
    (r := cmd.reconciler cfg.live noSecrets holder) rfl hacquired
  intro hsame
  exact Reconcile.WroteState.effects_ne hwrote (hsame.1.symm.trans (Prod.mk.inj hkept).1)

/-- The flag keeps its promise for `sync`. For the controller and a rollback it is kept
by the configurations without it, and by no other. -/
theorem flagPromise_iff (sc : Scopes) (cmd : Command) (cfg : Config) :
    FlagPromise sc cmd cfg ↔ cmd = .sync ∨ cfg.dryRun = false := by
  by_cases hcmd : cmd = .sync
  · subst hcmd
    exact ⟨fun _ => .inl rfl, fun _ => flagPromise_sync⟩
  · rw [flagPromise_runOnce hcmd]
    -- The environment without any object tells a dry pass from the other one.
    constructor
    · intro h
      by_contra hnot
      have hdry : cfg.dryRun = true := by simpa [hcmd] using hnot
      exact not_sameEffects_emptied hdry cmd "pod:1" (h noSecrets "pod:1" (emptied sc) _)
    · rintro (hsync | hdry) secrets holder env w
      · exact absurd hsync hcmd
      -- Without the flag the configuration is its own `live` one.
      · have hlive : cfg.live = cfg := by
          unfold Config.live
          rw [← hdry]
        rw [hlive]
        exact ⟨rfl, rfl⟩

end Command

/-- A pass of the controller, over a repository with one document in a fresh cluster. -/
def firstPass (dryRun : Bool) : EStateM.Result Error (World .namespacedOnly) Unit :=
  Command.controller.pass syncedEnv { settingsCfg with dryRun := dryRun } noSecrets "pod:1"
    (.fresh ∅ none)

/-- Without the flag it applies the document and writes the state. With the flag it does
neither, and reports a success. -/
theorem controller_validates_only :
    ((state (firstPass false)).effects.length = 2 ∧ (state (firstPass false)).stateCm ≠ none) ∧
      ((state (firstPass true)).effects = [] ∧ (state (firstPass true)).stateCm = none ∧
        (value (firstPass true)).isOk ∧ (state (firstPass true)).lastSuccess = some 0) ∧
      ¬Command.FlagPromise .namespacedOnly .controller { settingsCfg with dryRun := true } := by
  have hlive : (state (firstPass false)).effects.length = 2 ∧
      (state (firstPass false)).stateCm ≠ none := by decide +kernel
  have hflagged : (state (firstPass true)).effects = [] ∧
      (state (firstPass true)).stateCm = none ∧ (value (firstPass true)).isOk ∧
      (state (firstPass true)).lastSuccess = some 0 := by decide +kernel
  refine ⟨hlive, hflagged, ?_⟩
  intro hpromise
  have hsame : SameEffects (state (firstPass true)) (state (firstPass false)) :=
    hpromise noSecrets "pod:1" syncedEnv (.fresh ∅ none)
  exact hlive.2 (hsame.2.symm.trans hflagged.2.1)

end LeanCd
