import LeanCd.Reconcile
import LeanCd.Proofs.PruneSpec

/-!
# `LeanCd.Proofs.PassFrames`: what each part of a pass can change

A `Benign` frame is one that interactions, sleeping and the Lease respect. Every part
of a pass that only reads the cluster respects every benign frame. A part that writes
respects it where its own writes do: the hypotheses name them, the object each patch
sends and the object each delete names.

`attemptApply` is one round of `apply_all`, so that a result about the apply is one about a
round and an induction along `applyAll_cons`.

A fact of the form "no pass ever does this" is proved by naming a frame: what may change, as a
relation between worlds. `Interacts`, `Benign` and `Blind` are three levels of frames, by how much
of a pass cannot break them: interactions alone, everything but writes to the cluster and the
state, and these writes too. Each lemma below is one function of the source, and follows its text.
-/

set_option autoImplicit false

namespace LeanCd

open Act

variable {sc : Scopes} {env : Env sc} {cfg : Config} {α : Type}

/-- A frame that the parts of a pass respect which neither apply nor delete nor store. -/
structure Benign (env : Env sc) (F : Frame (World sc)) : Prop extends Interacts env F where
  sleep : ∀ d, Keeps F (sleep d)
  lease : ∀ (w : World sc) lease rv, F.rel w { w with lease := lease, nextRv := rv }

/-- No interaction touches the process's own trace and state. -/
theorem benign_untouched : Benign env untouched :=
  ⟨⟨fun _ => rfl, fun _ _ => rfl⟩, fun _ _ => rfl, fun _ _ _ => rfl⟩

/-- No interaction adds an event, whatever events are allowed. -/
theorem benign_adds {P : Event sc → Prop} : Benign env (adds P) where
  toInteracts := interacts_adds
  sleep _ _ := adds_of_untouched rfl
  lease _ _ _ := adds_of_untouched rfl

/-- A property of the cluster that the other clients preserve. -/
theorem benign_preserves {I : Cluster sc → Prop} (h : ∀ n c, I c → I (env.others n c)) :
    Benign env (.preserves fun w => I w.cluster) where
  tick _ hw := h _ _ hw
  transmit _ _ hw := hw
  sleep _ _ hw := hw
  lease _ _ _ hw := hw

/-- Applying the manifest sends this object, under this identity. -/
def Sends (env : Env sc) (cfg : Config) (m : RawManifest) (o : DynamicObject)
    (id : ObjId sc) : Prop :=
  ∃ value name, Hooks.labelledValue env cfg m = .ok value ∧ env.kube.fromValue value = .ok o ∧
    o.metadata.name = some name ∧ id = apiFor sc m.gvk o.metadata.ns cfg.namespace name

/-- The frame allows what applying these manifests writes. -/
structure AllowsApply (env : Env sc) (cfg : Config) (F : Frame (World sc)) (dryRun : Bool)
    (ms : List RawManifest) : Prop where
  start : ∀ m ∈ ms, Keeps F (note (.applyStarted (.fromManifest m)))
  patch : ∀ m ∈ ms, ∀ o id, Sends env cfg m o id → Keeps F (KubeUtil.servePatch env id o dryRun)

/-- The frame allows what running these hooks writes. -/
structure AllowsHooks (env : Env sc) (cfg : Config) (F : Frame (World sc))
    (hooks : List HookInfo) : Prop where
  start : ∀ i ∈ hooks, Keeps F (note (.hookStarted i.key))
  patch : ∀ i ∈ hooks, ∀ o id, Sends env cfg i.manifest o id →
    Keeps F (KubeUtil.servePatch env id o false)
  delete : ∀ i ∈ hooks, Keeps F (KubeUtil.serveDelete env (i.key.denotes sc cfg.namespace))

/-- A frame that does not look at the cluster, and of the history at the writes of the state at
most. -/
def Blind (F : Frame (World sc)) : Prop :=
  ∀ (w : World sc) cluster (e : Event sc), (∀ v, e ≠ .stateWritten v) →
    F.rel w { w with cluster := cluster, trace := e :: w.trace }

/-- Only a write of the state counts as one. -/
theorem writes_cons {w : World sc} (cluster : Cluster sc) {e : Event sc}
    (he : ∀ v, e ≠ .stateWritten v) :
    ({ w with cluster := cluster, trace := e :: w.trace } : World sc).writes = w.writes := by
  cases e with
  | stateWritten v => exact absurd rfl (he v)
  | patched | deleted | applyStarted | hookStarted => rfl

namespace Blind

variable {F : Frame (World sc)} (h : Blind F)
include h

/-- A frame that does not see the cluster keeps a delete. -/
theorem serveDelete (id : ObjId sc) : Keeps F (KubeUtil.serveDelete env id) := by
  intro w
  unfold KubeUtil.serveDelete
  cases w.cluster.lookup id with
  | none => exact F.refl w
  | some live => exact h w _ _ nofun

/-- It keeps a patch. -/
theorem servePatch (id : ObjId sc) (o : DynamicObject) (dryRun : Bool) :
    Keeps F (KubeUtil.servePatch env id o dryRun) := by
  intro w
  cases dryRun with
  | true => exact F.refl w
  | false => exact h w _ _ nofun

/-- So it allows every apply. -/
theorem allowsApply (dryRun : Bool) (ms : List RawManifest) : AllowsApply env cfg F dryRun ms where
  start _ _ w := h w w.cluster _ nofun
  patch _ _ o id _ := h.servePatch id o dryRun

/-- And every hook. -/
theorem allowsHooks (hooks : List HookInfo) : AllowsHooks env cfg F hooks where
  start _ _ w := h w w.cluster _ nofun
  patch _ _ o id _ := h.servePatch id o false
  delete _ _ := h.serveDelete _

end Blind

namespace Reconcile

/-- One round of `apply_all`: whether it failed, and the cache. -/
def attemptApply (env : Env sc) (cfg : Config) (dryRun : Bool) (m : RawManifest)
    (cache : KubeUtil.DiscoveryCache) : Pass sc (Bool × KubeUtil.DiscoveryCache) := do
  match ← Act.attempt (δ := Error) (KubeUtil.getOrResolve env cache m.gvk) with
  | .error _ => return (true, cache)
  | .ok cache =>
      match Hooks.labelledValue env cfg m with
      | .error e => throw (.manifest ("failed to parse manifest: " ++ e))
      | .ok value =>
          note (.applyStarted (.fromManifest m))
          match ← Act.attempt (δ := Error)
              (KubeUtil.apply env cfg.namespace m.gvk value dryRun) with
          | .ok _ => return (false, cache)
          | .error _ => return (true, cache)

/-- `apply_all` is one round after the other. -/
theorem applyAll_cons (dryRun : Bool) (m : RawManifest) (rest : List RawManifest)
    (cache : KubeUtil.DiscoveryCache) :
    applyAll env cfg dryRun (m :: rest) cache = (do
      let r ← attemptApply env cfg dryRun m cache
      let failed ← applyAll env cfg dryRun rest r.2
      return if r.1 then .fromManifest m :: failed else failed) := by
  rw [applyAll, attemptApply, bind_assoc]
  congr 1
  funext resolved
  -- The kind is not resolved, the manifest cannot be labelled, or the patch fails: all three
  -- count as a failed attempt.
  cases resolved with
  | error e => rfl
  | ok cache =>
      dsimp only
      cases Hooks.labelledValue env cfg m with
      | error e => rfl
      | ok value =>
          simp only [bind_assoc]
          congr 1
          funext _
          congr 1
          funext applied
          cases applied with
          | error e => rfl
          | ok o => simp

end Reconcile

namespace Benign

variable {F : Frame (World sc)} (h : Benign env F)
include h

/-! ### The Lease -/

omit h in
/-- To serve a GET of the Lease changes nothing. -/
theorem leaseServeGet : Keeps F (Lock.serveGet : Pass sc Lease) := by
  intro w
  unfold Lock.serveGet
  cases w.lease <;> exact F.refl w

/-- A CREATE that is served writes the Lease, if anything. -/
theorem leaseServeCreate (l : Nat → Lease) : Keeps F (Lock.serveCreate l : Pass sc Unit) := by
  intro w
  unfold Lock.serveCreate
  cases w.lease with
  | none => exact h.lease w _ _
  | some cur => exact F.refl w

/-- So does a REPLACE. -/
theorem leaseServeReplace (rv : Nat) (l : Nat → Lease) :
    Keeps F (Lock.serveReplace rv l : Pass sc Unit) := by
  intro w
  unfold Lock.serveReplace
  cases w.lease with
  | none => exact F.refl w
  | some cur =>
      dsimp only
      split
      · exact h.lease w _ _
      · exact F.refl w

/-- A DELETE takes the Lease away. -/
theorem leaseServeDelete : Keeps F (Lock.serveDelete : Pass sc Unit) := by
  intro w
  unfold Lock.serveDelete
  cases w.lease with
  | none => exact F.refl w
  | some cur => exact h.lease w none w.nextRv

/-- The wall clock is read with one tick. -/
theorem timestampNow : Keeps F (LeanCd.timestampNow env) := h.tick.bind fun _ => Keeps.pure _

/-- The monotonic clock is read with one tick. -/
theorem instantNow : Keeps F (LeanCd.instantNow env) :=
  h.tick.bind fun _ => Keeps.get.bind fun _ => Keeps.pure _

/-- Whether to stop is asked with one tick. -/
theorem stopRequested : Keeps F (LeanCd.stopRequested env) := h.tick.bind fun _ => Keeps.pure _

/-- An attempt to acquire consists of ticks, calls about the Lease, and nothing else. -/
theorem tryAcquire (holder : String) : Keeps F (Lock.tryAcquire env cfg holder) := by
  refine h.timestampNow.bind ?_
  intro now
  refine (keeps_call h.toInteracts leaseServeGet).attempt.bind ?_
  intro r
  split
  · split
    · refine Keeps.bind ?_ fun _ => Keeps.pure _
      exact (keeps_call h.toInteracts (h.leaseServeReplace _ _)).attempt
    · exact Keeps.pure _
  · split
    · refine Keeps.bind ?_ fun _ => Keeps.pure _
      exact (keeps_call h.toInteracts (h.leaseServeCreate _)).attempt
    · exact Keeps.pure _
  · exact Keeps.pure _

/-- The loop of attempts, by induction on its fuel. -/
theorem acquireLoop (holder : String) (deadline fuel : Nat) :
    Keeps F (Lock.acquireLoop env cfg holder deadline fuel) := by
  induction fuel with
  | zero => exact Keeps.pure _
  | succ fuel ih =>
      -- Each turn of the loop may stop for the signal, for the outcome or for the deadline.
      refine h.stopRequested.bind ?_
      intro stopped
      split
      · exact Keeps.pure _
      refine (h.tryAcquire holder).bind ?_
      intro outcome
      split
      · exact Keeps.pure _
      · exact Keeps.pure _
      refine h.instantNow.bind ?_
      intro now
      split
      · exact Keeps.pure _
      refine h.instantNow.bind fun now' => h.stopRequested.bind ?_
      intro stopped
      split
      · exact Keeps.pure _
      · exact (h.sleep _).bind fun _ => ih

/-- To acquire the Lease is such a loop. -/
theorem acquire (holder : String) : Keeps F (Lock.acquire env cfg holder) :=
  h.instantNow.bind fun _ => h.acquireLoop holder _ _

/-- A renewal is a GET and a REPLACE. -/
theorem renew (guard : LeaseGuard) : Keeps F (Lock.renew env cfg guard) := by
  refine (keeps_call h.toInteracts leaseServeGet).attempt.bind ?_
  intro r
  -- Three answers of the read: an error, no Lease, and the Lease with its holder.
  split
  · split
    · exact Keeps.pure _
    · exact Keeps.throw _
  · exact Keeps.throw _
  · split
    -- The Lease is still this client's, so it is written with a new time.
    · exact Keeps.pure _
    refine h.timestampNow.bind ?_
    intro now
    refine (keeps_call h.toInteracts (h.leaseServeReplace _ _)).attempt.bind ?_
    intro r
    split
    · exact Keeps.pure _
    · split
      · exact Keeps.pure _
      · exact Keeps.throw _
    · exact Keeps.throw _

/-- A release is a DELETE. -/
theorem release : Keeps F (Lock.release env) := by
  refine (keeps_call h.toInteracts h.leaseServeDelete).attempt.bind ?_
  intro r
  split
  · exact Keeps.pure _
  · split
    · exact Keeps.pure _
    · exact Keeps.throw _
  · exact Keeps.throw _

/-- A renewal within a hook, whose failure is only logged. -/
theorem renewBestEffort (guard : LeaseGuard) : Keeps F (Hooks.renewBestEffort env cfg guard) :=
  (h.renew guard).attempt.bind fun _ => Keeps.pure _

/-- A renewal within a pass, whose failure is only logged too. -/
theorem touchLease (guard : LeaseGuard) : Keeps F (Reconcile.touchLease env cfg guard) :=
  h.renewBestEffort guard

/-! ### Git -/

section
variable {secrets : Secrets}

/-- A git command is one interaction, and leaves an entry in the traffic. -/
theorem runGit (url : String) (cmd : GitCommand) : Keeps F (GitSync.runGit env cfg url cmd) := by
  refine (h.transmit _).bind fun _ => h.tick.bind ?_
  intro n
  split
  · exact Keeps.throw _
  · exact Keeps.pure _
  · exact Keeps.throw _

/-- `head_sha` is a git command. -/
theorem headSha (url : String) : Keeps F (GitSync.headSha env cfg url) :=
  (h.runGit url _).bind fun _ => Keeps.pure _

/-- The search for a commit consists of git commands, by induction on its rounds. -/
theorem ensureShaReachable (url sha : String) (rounds : Nat) :
    Keeps F (GitSync.ensureShaReachable env cfg url sha rounds) := by
  induction rounds with
  | zero => exact Keeps.throw _
  | succ rounds ih =>
      refine (h.runGit url _).attempt.bind ?_
      intro r
      split
      · exact Keeps.pure _
      · exact (h.runGit url _).bind fun _ => ih

/-- The search for a depth does so too. -/
theorem ensureDepth (url : String) (depth rounds : Nat) :
    Keeps F (GitSync.ensureDepth env cfg url depth rounds) := by
  induction rounds with
  | zero => exact Keeps.throw _
  | succ rounds ih =>
      refine (h.runGit url _).bind ?_
      intro count
      split
      · exact Keeps.pure _
      · exact (h.runGit url _).bind fun _ => ih

/-- A checkout of a reference consists of git commands. -/
theorem checkoutRef (url ref : String) : Keeps F (GitSync.checkoutRef env cfg url ref) :=
  (h.runGit url _).bind fun _ => (h.runGit url _).bind fun _ => Keeps.pure _

/-- The work directory is outside the world. -/
theorem clearWorkDir : Keeps F (GitSync.clearWorkDir env) := by
  refine h.tick.bind ?_
  intro n
  split
  · refine h.tick.bind ?_
    intro n
    split
    · exact Keeps.pure _
    · exact Keeps.throw _
  · exact Keeps.pure _

/-- An update of a checkout consists of git commands. -/
theorem updateCheckout (url : String) (target : CheckoutTarget) :
    Keeps F (GitSync.updateCheckout env cfg url target) := by
  refine (h.runGit url _).bind fun _ => ?_
  split
  · exact (h.runGit url _).bind fun _ => Keeps.pure _
  · exact Keeps.pure _

/-- A fetch or a clone does. -/
theorem fetchOrClone (url : String) (target : CheckoutTarget) :
    Keeps F (GitSync.fetchOrClone env cfg url target) := by
  refine h.tick.bind ?_
  intro n
  split
  · exact h.updateCheckout url target
  · exact h.clearWorkDir.bind fun _ => (h.runGit url _).bind fun _ => Keeps.pure _

/-- The checkout is pointed at its target by git commands. -/
theorem pointAt (url : String) (target : CheckoutTarget) :
    Keeps F (GitSync.pointAt env cfg url target) := by
  cases target with
  | branch => exact h.headSha url
  | sha sha =>
      exact (h.ensureShaReachable url sha _).bind fun _ =>
        (h.checkoutRef url sha).bind fun _ => Keeps.pure _
  | parent n =>
      exact (h.ensureDepth url _ _).bind fun _ =>
        (h.checkoutRef url _).bind fun _ => h.headSha url

/-- The key file is written with one interaction. -/
theorem prepareSshKey : Keeps F (GitSync.prepareSshKey env secrets) := by
  unfold GitSync.prepareSshKey
  split
  · exact Keeps.pure _
  · refine h.tick.bind ?_
    intro n
    split
    · exact Keeps.pure _
    · exact Keeps.throw _

/-- Hence a whole checkout consists of interactions. -/
theorem checkout (prevSha : Option String) (target : CheckoutTarget) :
    Keeps F (GitSync.checkout env cfg secrets prevSha target) := by
  refine (Keeps.ofExcept _).bind ?_
  intro url
  refine h.prepareSshKey.bind fun _ => (h.fetchOrClone url target).bind fun _ => ?_
  exact (h.pointAt url target).bind fun _ => Keeps.pure _

end

/-! ### Drift and health -/

/-- A kind is listed with two reads. -/
theorem listKind (g : GvkKey) : Keeps F (Drift.listKind env cfg g) := by
  refine (keeps_resolve h.toInteracts g).attempt.bind ?_
  intro r
  split
  · exact Keeps.pure _
  · refine (keeps_listAll h.toInteracts g _).attempt.bind ?_
    intro r
    split
    · exact Keeps.pure _
    · exact Keeps.pure _

/-- Kinds are listed one after the other. -/
theorem listKinds (gvks : List GvkKey) : Keeps F (Drift.listKinds env cfg gvks) := by
  induction gvks with
  | nil => exact Keeps.pure _
  | cons g rest ih => exact (h.listKind g).bind fun _ => ih.bind fun _ => Keeps.pure _

/-- A drift check from lists reads, and compares. -/
theorem detect (manifests : List RawManifest) : Keeps F (Drift.detect env cfg manifests) :=
  (keeps_hashGvks h.toInteracts _).bind fun _ => (h.listKinds _).bind fun _ =>
    (keeps_hashGvks h.toInteracts _).bind fun _ => Keeps.pure _

/-- The live objects for the health check are read in the same way. -/
theorem collectLive (manifests : List RawManifest) :
    Keeps F (Drift.collectLive env cfg manifests) :=
  (keeps_hashGvks h.toInteracts _).bind fun _ => (h.listKinds _).bind fun _ => Keeps.pure _

/-- The fallback for large objects reads them. -/
theorem largeFallback (items : List (GvkKey × List RawManifest))
    (cache : KubeUtil.DiscoveryCache) : Keeps F (Drift.largeFallback env cfg items cache) := by
  induction items generalizing cache with
  | nil => exact Keeps.pure _
  | cons item rest ih =>
      refine (keeps_getOrResolve h.toInteracts cache item.1).attempt.bind ?_
      intro r
      split
      · exact ih cache
      · refine (keeps_listAll h.toInteracts item.1 _).attempt.bind ?_
        intro r
        split
        · exact ih _
        · exact (ih _).bind fun _ => Keeps.pure _

/-- A drift check from stores reads the stores, and the large objects from the server. -/
theorem detectFromLw (manifests : List RawManifest) (stores : CacheStores) :
    Keeps F (Drift.detectFromLw env cfg manifests stores) := by
  refine (keeps_hashGvks h.toInteracts _).bind ?_
  intro gvks
  dsimp only
  split
  · exact Keeps.pure _
  · refine (keeps_hashGvks h.toInteracts _).bind fun _ => ?_
    exact (h.largeFallback _ _).bind fun _ => Keeps.pure _

/-- The drift check of a pass is one of the two, by the watch mode. -/
theorem detectDrift (main : List RawManifest) : Keeps F (Reconcile.detectDrift env cfg main) := by
  unfold Reconcile.detectDrift
  split
  · exact h.tick.bind fun _ => h.detectFromLw _ _
  · exact h.detect _

/-- A listing whose failure counts as no objects. -/
theorem collectLiveOrNone (main : List RawManifest) :
    Keeps F (Reconcile.collectLiveOrNone env cfg main) := by
  refine (h.collectLive main).attempt.bind ?_
  intro r
  split
  · exact Keeps.pure _
  · exact Keeps.pure _

/-- What the health check looks at is read from the stores or by a list. -/
theorem collectForHealth (main : List RawManifest) :
    Keeps F (Reconcile.collectForHealth env cfg main) := by
  unfold Reconcile.collectForHealth
  split
  · exact h.collectLiveOrNone main
  · exact Keeps.pure _

/-- It is read again only where nothing was found. -/
theorem liveOrCollect (main : List RawManifest) (live : List DynamicObject) :
    Keeps F (Reconcile.liveOrCollect env cfg main live) := by
  unfold Reconcile.liveOrCollect
  split
  · exact h.collectLiveOrNone main
  · exact Keeps.pure _

/-- The health check reads and then computes. -/
theorem healthOf (main : List RawManifest) (live : List DynamicObject) :
    Keeps F (Reconcile.healthOf env cfg main live) := by
  unfold Reconcile.healthOf
  split
  · exact (h.liveOrCollect main live).bind fun _ => Keeps.pure _
  · exact Keeps.pure _

/-- The epoch is read off the wall clock. -/
theorem nowEpoch : Keeps F (Reconcile.nowEpoch env) := h.timestampNow.bind fun _ => Keeps.pure _

/-- The new state is computed from what was read. The Lease is renewed around the health check. -/
theorem nextState (guard : LeaseGuard) (prev : Option State) (sync : SyncOutcome)
    (c : Classified) (outcome : Reconcile.BranchOutcome) :
    Keeps F (Reconcile.nextState env cfg guard prev sync c outcome) :=
  (h.touchLease guard).bind fun _ => (h.healthOf _ _).bind fun _ => h.nowEpoch.bind fun _ =>
    (h.touchLease guard).bind fun _ => Keeps.pure _

omit h in
/-- The new state, up to the health and the time. -/
theorem returns_nextState (guard : LeaseGuard) (prev : Option State) (sync : SyncOutcome)
    (c : Classified) (outcome : Reconcile.BranchOutcome) :
    Returns (Reconcile.nextState env cfg guard prev sync c outcome) fun s =>
      ∃ health epoch, s = Reconcile.newState prev sync c outcome health epoch :=
  (Returns.any _).bind fun _ _ => (Returns.any _).bind fun health _ =>
    (Returns.any _).bind fun epoch _ => (Returns.any _).bind fun _ _ =>
      .pure ⟨health, epoch, rfl⟩

/-! ### The state -/

omit h in
/-- To serve a GET of the state changes nothing. -/
theorem stateServeGet : Keeps F (State.serveGet : Pass sc Value) := by
  intro w
  unfold State.serveGet
  cases w.stateCm <;> exact F.refl w

/-- To read the state is one call. -/
theorem stateRead : Keeps F (State.read env) := by
  refine (keeps_call h.toInteracts stateServeGet).attempt.bind ?_
  intro r
  split
  · exact Keeps.pure _
  · split
    · exact Keeps.pure _
    · exact Keeps.throw _
  · exact Keeps.throw _

/-- A write of the state is one call. What it keeps is the caller's to say, as it is the one thing
here that writes. -/
theorem stateWrite {s : State} (hwrite : Keeps F (State.servePatch s.toData : Pass sc Unit)) :
    Keeps F (State.write env s) := keeps_call h.toInteracts hwrite

omit h in
/-- A successful write stores the state. -/
theorem after_stateWrite (s : State) (w : World sc) :
    After (State.write env s) w fun r t => (adds (· = .stateWritten s.toData)).rel w t ∧
      (r = .ok () → t.stateCm = some s.toData) := by
  refine After.and (benign_adds.stateWrite (fun w => ⟨[_], rfl, by simp⟩) w) ?_
  rw [State.write, after_call]
  cases env.fault w.step .statePatch with
  | none => exact fun _ => rfl
  | refused e => exact nofun
  | lost e => exact nofun

end Benign

/-- The API server serves every call for the state. -/
def StateServed (env : Env sc) : Prop :=
  ∀ n, env.fault n .stateGet = .none ∧ env.fault n .statePatch = .none

/-- Where the calls about the state are served, what is read is what is stored. -/
theorem after_stateRead_served (hs : StateServed env) (w : World sc) :
    After (State.read env) w fun res _ => res = .ok (w.stateCm.map State.fromData) := by
  have hsame : (w.called env .stateGet).stateCm = w.stateCm := rfl
  unfold State.read
  rw [after_bind, after_attempt, after_call, (hs _).1]
  unfold State.serveGet After
  dsimp only
  rw [hsame]
  cases w.stateCm with
  | none => rfl
  | some v => rfl

/-- Where they are served, a write of the state succeeds. -/
theorem after_stateWrite_served (hs : StateServed env) (s : State) (w : World sc) :
    After (State.write env s) w fun res _ => res = .ok () := by
  rw [State.write, after_call, (hs _).2]
  rfl

namespace Benign

variable {F : Frame (World sc)} (h : Benign env F)
include h

/-! ### Apply and hooks -/

/-- An apply keeps a frame that the PATCH of its one object keeps. -/
theorem apply {m : RawManifest} {value : Value} {dryRun : Bool}
    (hvalue : Hooks.labelledValue env cfg m = .ok value)
    (hpatch : ∀ o id, Sends env cfg m o id → Keeps F (KubeUtil.servePatch env id o dryRun)) :
    Keeps F (KubeUtil.apply env cfg.namespace m.gvk value dryRun) := by
  unfold KubeUtil.apply
  split
  · exact Keeps.throw _
  · rename_i o ho
    split
    · exact Keeps.throw _
    · rename_i name hname
      exact keeps_call h.toInteracts (hpatch o _ ⟨value, name, hvalue, ho, hname, rfl⟩)

/-- An attempt to apply does so too, and its failures are values. -/
theorem attemptApply {dryRun : Bool} {m : RawManifest}
    (ha : AllowsApply env cfg F dryRun [m]) (cache : KubeUtil.DiscoveryCache) :
    Keeps F (Reconcile.attemptApply env cfg dryRun m cache) := by
  refine (keeps_getOrResolve h.toInteracts cache m.gvk).attempt.bind ?_
  intro r
  split
  · exact Keeps.pure _
  · split
    · exact Keeps.throw _
    · rename_i value hvalue
      refine (ha.start m List.mem_cons_self).bind fun _ => ?_
      refine (h.apply hvalue (ha.patch m List.mem_cons_self)).attempt.bind ?_
      intro r
      split
      · exact Keeps.pure _
      · exact Keeps.pure _

/-- Many applies do so, each of a manifest of the list. -/
theorem applyAll {dryRun : Bool} {ms : List RawManifest} (ha : AllowsApply env cfg F dryRun ms)
    (cache : KubeUtil.DiscoveryCache) :
    Keeps F (Reconcile.applyAll env cfg dryRun ms cache) := by
  induction ms generalizing cache with
  | nil => exact Keeps.pure _
  | cons m rest ih =>
      have hone : AllowsApply env cfg F dryRun [m] :=
        ⟨by simpa using ha.start m List.mem_cons_self,
          by simpa using ha.patch m List.mem_cons_self⟩
      have hrest : AllowsApply env cfg F dryRun rest :=
        ⟨fun m' hm => ha.start m' (List.mem_cons_of_mem m hm),
          fun m' hm => ha.patch m' (List.mem_cons_of_mem m hm)⟩
      rw [Reconcile.applyAll_cons]
      exact (h.attemptApply hone cache).bind fun r => (ih hrest r.2).bind fun _ => Keeps.pure _

/-- A deletion that the policy of a hook asks for keeps a frame that the DELETE keeps. -/
theorem deleteHookIf {m : RawManifest} (asked : Bool)
    (hdelete : Keeps F (KubeUtil.serveDelete env
      ((ResourceKey.fromManifest m).denotes sc cfg.namespace))) :
    Keeps F (Hooks.deleteHookIf env cfg asked m) := by
  unfold Hooks.deleteHookIf
  split
  · exact (keeps_call h.toInteracts hdelete).attempt.bind fun _ => Keeps.pure _
  · exact Keeps.pure _

/-- The wait for a hook consists of reads, sleeps and renewals. By induction on its fuel. -/
theorem waitLoop (m : RawManifest) (guard : LeaseGuard) (deadline fuel : Nat) :
    Keeps F (Hooks.waitLoop env cfg m guard deadline fuel) := by
  induction fuel with
  | zero => exact Keeps.pure _
  | succ fuel ih =>
      refine (h.renewBestEffort guard).bind fun _ => ?_
      refine (keeps_getObject h.toInteracts _ _ _ _).attempt.bind ?_
      intro polled
      dsimp only
      split
      · exact Keeps.pure _
      · exact Keeps.pure _
      · refine h.instantNow.bind ?_
        intro now
        split
        · exact Keeps.pure _
        · exact (h.sleep _).bind fun _ => ih

/-- A hook that cannot be waited for is taken for done. -/
theorem completionOf (m : RawManifest) (guard : LeaseGuard) :
    Keeps F (Hooks.completionOf env cfg m guard) := by
  unfold Hooks.completionOf
  split
  · exact h.instantNow.bind fun _ => h.waitLoop m guard _ _
  · exact Keeps.pure _

/-- A hook keeps a frame that its PATCH and its DELETE keep. -/
theorem runOne {info : HookInfo}
    (hpatch : ∀ o id, Sends env cfg info.manifest o id →
      Keeps F (KubeUtil.servePatch env id o false))
    (hdelete : Keeps F (KubeUtil.serveDelete env (info.key.denotes sc cfg.namespace)))
    (guard : LeaseGuard) : Keeps F (Hooks.runOne env cfg info guard) := by
  refine (keeps_resolve h.toInteracts info.manifest.gvk).attempt.bind ?_
  intro r
  split
  · exact Keeps.pure _
  refine (h.deleteHookIf _ hdelete).bind fun _ => ?_
  unfold Hooks.applyHook
  split
  · exact Keeps.pure _
  rename_i value hvalue
  refine (h.apply hvalue hpatch).attempt.bind ?_
  intro r
  split
  · exact Keeps.pure _
  · exact (h.completionOf _ guard).bind fun _ => (h.deleteHookIf _ hdelete).bind fun _ =>
      Keeps.pure _

/-- A list of hooks does so, each of the list. -/
theorem runHooks {hooks : List HookInfo} (ha : AllowsHooks env cfg F hooks)
    (guard : LeaseGuard) : Keeps F (Hooks.runHooks env cfg guard hooks) := by
  induction hooks with
  | nil => exact Keeps.pure _
  | cons info rest ih =>
      -- What the frame allows of the phase it allows of the first hook and of the rest.
      have hone := h.runOne (ha.patch info List.mem_cons_self)
        (ha.delete info List.mem_cons_self) guard
      have hrest : AllowsHooks env cfg F rest :=
        ⟨fun i hi => ha.start i (List.mem_cons_of_mem info hi),
          fun i hi => ha.patch i (List.mem_cons_of_mem info hi),
          fun i hi => ha.delete i (List.mem_cons_of_mem info hi)⟩
      refine (ha.start info List.mem_cons_self).bind fun _ => ?_
      refine hone.bind ?_
      intro r
      split
      · exact Keeps.pure _
      · exact (ih hrest).bind fun _ => Keeps.pure _

/-- A phase sorts its hooks and runs them. -/
theorem runPhase {hooks : List HookInfo} (ha : AllowsHooks env cfg F hooks)
    (guard : LeaseGuard) : Keeps F (Hooks.runPhase env cfg hooks guard) := by
  -- The hooks run in another order than they were declared, but they are the same hooks.
  have hmem : ∀ i, i ∈ Hooks.sortByWeight hooks ↔ i ∈ hooks := fun i =>
    (List.perm_insertionSort _ hooks).mem_iff
  exact h.runHooks ⟨fun i hi => ha.start i ((hmem i).mp hi),
    fun i hi => ha.patch i ((hmem i).mp hi), fun i hi => ha.delete i ((hmem i).mp hi)⟩ guard

/-- The hooks before an apply are such a phase. -/
theorem preHooks {hooks : List HookInfo} (ha : AllowsHooks env cfg F hooks)
    (guard : LeaseGuard) (label : String) :
    Keeps F (Reconcile.preHooks env cfg guard label hooks) := by
  refine (h.runPhase ha guard).bind ?_
  intro outcome
  split
  · exact Keeps.pure _
  · exact Keeps.throw _

/-- So are those after it. -/
theorem postHooks {hooks : List HookInfo} (ha : AllowsHooks env cfg F hooks)
    (guard : LeaseGuard) (label : String) :
    Keeps F (Reconcile.postHooks env cfg guard label hooks) := by
  refine (h.runPhase ha guard).bind ?_
  intro outcome
  split
  · exact Keeps.pure _
  · exact Keeps.pure _

end Benign

end LeanCd
