import LeanCd.Proofs.Documents
import LeanCd.Proofs.PassStart

/-!
# `LeanCd.Proofs.WholePass`: a pass from its start to its end

`Benign.branch` puts the frames of the parts together: what the writes of the main
manifests, of the hooks and of `prune` respect, the branches of a pass respect.
`Benign.execute` and `Benign.after_execute_ok` add what follows the branch: the health and
the write of the new state.

`after_pass` is the shape of a pass that completes. Either it did only what every
benign frame allows (it found the Lease busy), or it ran `execute` on the manifests of
the commit it checked out, between two stretches that every benign frame allows.

The pass is composed of its parts once here, and later modules use the composition. A property
that is kept by the parts goes through `Benign.branch` and `Benign.execute`. A property that comes
about within the pass goes through `after_pass`.
-/

set_option autoImplicit false

namespace LeanCd

open Act

variable {sc : Scopes} {env : Env sc} {cfg : Config} {F : Frame (World sc)}

/-- What a frame allows of some hooks it allows of fewer. -/
theorem AllowsHooks.sub {hooks hooks' : List HookInfo} (h : AllowsHooks env cfg F hooks)
    (hsub : ∀ i ∈ hooks', i ∈ hooks) : AllowsHooks env cfg F hooks' :=
  ⟨fun i hi => h.start i (hsub i hi), fun i hi => h.patch i (hsub i hi),
    fun i hi => h.delete i (hsub i hi)⟩

/-! ### The events of a pass -/

section
variable {P : Event sc → Prop}

/-- A delete adds the event of its object. -/
theorem keeps_serveDelete_adds (hdelete : ∀ id, P (.deleted id)) (id : ObjId sc) :
    Keeps (adds P) (KubeUtil.serveDelete env id) := by
  intro w
  have h : After (KubeUtil.serveDelete env id) w fun _ t => (adds P).rel w t := by
    rw [Prune.after_serveDelete]
    cases w.cluster.lookup id with
    | none => exact (adds P).refl w
    | some live => exact adds_cons rfl (hdelete id)
  exact h

/-- An apply adds its start and, where it is sent, the patch of its object. -/
theorem allowsApply_adds {ms : List RawManifest}
    (hstart : ∀ m ∈ ms, P (.applyStarted (.fromManifest m)))
    (hpatch : ∀ m ∈ ms, ∀ o id, Sends env cfg m o id → P (.patched id o)) :
    AllowsApply env cfg (adds P) false ms where
  start m hm _ := adds_cons rfl (hstart m hm)
  patch m hm o id hsends _ := adds_cons rfl (hpatch m hm o id hsends)

/-- A hook adds its start, its patch, and at most a deletion. -/
theorem allowsHooks_adds {hooks : List HookInfo} (hstart : ∀ k, P (.hookStarted k))
    (hpatch : ∀ i ∈ hooks, ∀ o id, Sends env cfg i.manifest o id → P (.patched id o))
    (hdelete : ∀ id, P (.deleted id)) : AllowsHooks env cfg (adds P) hooks where
  start i _ _ := adds_cons rfl (hstart i.key)
  patch i hi o id hsends _ := adds_cons rfl (hpatch i hi o id hsends)
  delete _ _ := keeps_serveDelete_adds hdelete _

end

namespace Benign

section
variable (h : Benign env F) {c : Classified} (hmain : AllowsApply env cfg F false c.main)
  (hhooks : AllowsHooks env cfg F c.hooks)
  (hdelete : ∀ id, Keeps F (KubeUtil.serveDelete env id))
include h hhooks

/-- The branch of a teardown keeps a frame that hooks and deletes keep. -/
theorem teardownBranch (guard : LeaseGuard) (applied : List ResourceKey)
    (hdelete : ∀ id, Keeps F (KubeUtil.serveDelete env id)) :
    Keeps F (Reconcile.teardownBranch env cfg guard c applied) := by
  have hpre := hhooks.sub fun i hi => Classified.mem_hooks.mpr (.inr (.inr (.inl hi)))
  have hpost := hhooks.sub fun i hi => Classified.mem_hooks.mpr (.inr (.inr (.inr hi)))
  refine (h.preHooks hpre guard _).bind fun _ => ?_
  refine (Prune.keeps_prune h.toInteracts hdelete _ _).bind fun _ => ?_
  exact (h.postHooks hpost guard _).bind fun _ => Keeps.pure _

include hmain

/-- A full apply keeps a frame that applies and hooks keep. -/
theorem fullApplyBranch (guard : LeaseGuard) :
    Keeps F (Reconcile.fullApplyBranch env cfg guard c) := by
  have hpre := hhooks.sub fun i hi => Classified.mem_hooks.mpr (.inl hi)
  have hpost := hhooks.sub fun i hi => Classified.mem_hooks.mpr (.inr (.inl hi))
  refine (h.preHooks hpre guard _).bind fun _ => ?_
  refine (h.applyAll hmain []).bind fun _ => ?_
  refine (h.collectForHealth c.main).bind fun _ => ?_
  exact (h.postHooks hpost guard _).bind fun _ => Keeps.pure _

/-- A branch with a drift check does so too, since it applies or does nothing. -/
theorem driftBranch (guard : LeaseGuard) : Keeps F (Reconcile.driftBranch env cfg guard c) := by
  have hpre := hhooks.sub fun i hi => Classified.mem_hooks.mpr (.inl hi)
  have hpost := hhooks.sub fun i hi => Classified.mem_hooks.mpr (.inr (.inl hi))
  refine (h.detectDrift c.main).bind ?_
  intro r
  dsimp only
  split
  · exact Keeps.pure _
  · refine (h.preHooks hpre guard _).bind fun _ => ?_
    refine (h.applyAll hmain []).bind fun _ => ?_
    exact (h.postHooks hpost guard _).bind fun _ => Keeps.pure _

/-- So does a branch that is followed by a prune. -/
theorem syncBranch (guard : LeaseGuard) (prev : Option State) (sync : SyncOutcome) :
    Keeps F (Reconcile.syncBranch env cfg guard prev sync c) := by
  unfold Reconcile.syncBranch
  split
  · exact h.fullApplyBranch hmain hhooks guard
  · exact h.driftBranch hmain hhooks guard

include hdelete

/-- The branch of a pass and its prune. -/
theorem branch (guard : LeaseGuard) (prev : Option State) (sync : SyncOutcome) :
    Keeps F (Reconcile.branch env cfg guard prev sync c) := by
  unfold Reconcile.branch
  split
  · exact h.teardownBranch hhooks guard _ hdelete
  · refine (h.syncBranch hmain hhooks guard prev sync).bind fun _ => ?_
    exact (Prune.keeps_prune h.toInteracts hdelete _ _).bind fun _ => Keeps.pure _

end

section
variable (h : Benign env F) {prev : Option State} {sync : SyncOutcome} {c : Classified}
  (hwrite : ∀ outcome health epoch,
    Keeps F (State.write env (Reconcile.newState prev sync c outcome health epoch)))
  (hgvks : ∀ (w : World sc) gvks, F.rel w { w with lastGvks := gvks })
include h hwrite hgvks

/-- The branch, and the write of the new state. -/
theorem execute {guard : LeaseGuard}
    (hbranch : Keeps F (Reconcile.branch env cfg guard prev sync c)) :
    Keeps F (Reconcile.execute env cfg guard prev sync c) := by
  refine hbranch.bind ?_
  intro outcome
  refine (h.nextState guard prev sync c outcome).bind_returns
    (Benign.returns_nextState guard prev sync c outcome) ?_
  rintro _ ⟨health, epoch, rfl⟩
  exact (hwrite outcome health epoch).bind fun _ w => hgvks w _

/-- What follows the branch in a pass that completes: the new state is stored, and the rest
keeps the frame. -/
theorem after_execute_ok {guard : LeaseGuard} {w : World sc} {Q : World sc → Prop}
    (hbranch : After (Reconcile.branch env cfg guard prev sync c) w fun res t =>
      ∀ outcome, res = .ok outcome → ∀ u health epoch, F.rel t u →
        u.stateCm = some (Reconcile.newState prev sync c outcome health epoch).toData → Q u) :
    After (Reconcile.execute env cfg guard prev sync c) w fun res t => res = .ok () → Q t := by
  rw [Reconcile.execute]
  refine After.bind_ok (by simp) (hbranch.mono fun res t ht outcome hok => ?_)
  refine After.bind_ok (by simp) ?_
  refine (((h.nextState guard prev sync c outcome).after t).and
    ((Benign.returns_nextState guard prev sync c outcome).after t)).mono ?_
  rintro _ u ⟨hu, hstate⟩ _ rfl
  obtain ⟨health, epoch, rfl⟩ := hstate _ rfl
  refine After.bind_ok (by simp) ?_
  refine (((hwrite outcome health epoch).after u).and (Benign.after_stateWrite _ u)).mono ?_
  rintro _ v ⟨hv, -, hwritten⟩ _ rfl _
  exact ht outcome hok { v with lastGvks := _ } health epoch
    (F.trans hu (F.trans hv (hgvks v _))) (hwritten rfl)

end

/-- The pass from its checkout on, for a frame that its writes respect. -/
theorem converge {r : Reconciler} (hdry : r.cfg.dryRun = false)
    (hexecute : ∀ guard prev sync c,
      Reconcile.desired env sync.sha r.cfg (Reconcile.prevApplied prev) = .ok c →
        Keeps F (Reconcile.execute env r.cfg guard prev sync c))
    (guard : LeaseGuard) (prev : Option State) (sync : SyncOutcome) :
    Keeps F (Reconcile.converge env r guard prev sync) := by
  unfold Reconcile.converge
  cases hdesired : Reconcile.desired env sync.sha r.cfg (Reconcile.prevApplied prev) with
  | error e => exact Keeps.throw e
  | ok c =>
      refine (Keeps.pure c).bind_returns (P := fun c' => c' = c) (.pure rfl) ?_
      rintro _ rfl
      rw [hdry, if_neg (by decide)]
      exact hexecute guard prev sync _ hdesired

/-- A dry run from its checkout on, for a frame that the validation respects. -/
theorem convergeDry {r : Reconciler} (h : Benign env F) (hdry : r.cfg.dryRun = true)
    (happly : ∀ ms, AllowsApply env r.cfg F true ms) (guard : LeaseGuard) (prev : Option State)
    (sync : SyncOutcome) : Keeps F (Reconcile.converge env r guard prev sync) := by
  unfold Reconcile.converge
  refine (Keeps.ofExcept _).bind ?_
  intro c
  rw [hdry, if_pos rfl]
  exact (h.applyAll (happly _) []).bind fun _ => Keeps.pure _

/-- The pass under its Lease, for a frame that the part from the checkout on respects. -/
theorem reconcile {r : Reconciler} (h : Benign env F)
    (hconverge : ∀ guard prev sync, Keeps F (Reconcile.converge env r guard prev sync)) :
    Keeps F (Reconcile.reconcile env r) := by
  have hinner : ∀ guard, Keeps F (Reconcile.reconcileInner env r guard) := fun guard =>
    h.stateRead.bind fun prev => (h.checkout _ _).bind fun sync =>
      (h.touchLease guard).bind fun _ => hconverge guard prev sync
  refine (h.acquire r.holder).bind ?_
  intro outcome
  cases outcome with
  | busy => exact Keeps.pure _
  | err e => exact Keeps.throw e
  | acquired guard =>
      exact (hinner guard).attempt.bind fun result => h.release.attempt.bind fun _ =>
        Keeps.ofExcept result

/-- A whole pass, whatever it ends with, for a frame that its writes respect. -/
theorem runOnce {r : Reconciler} (h : Benign env F) (hdry : r.cfg.dryRun = false)
    (hexecute : ∀ guard prev sync c,
      Reconcile.desired env sync.sha r.cfg (Reconcile.prevApplied prev) = .ok c →
        Keeps F (Reconcile.execute env r.cfg guard prev sync c))
    (hrecord : ∀ e, Keeps F (Reconcile.recordError env e))
    (hsuccess : ∀ (w : World sc) now, F.rel w { w with lastSuccess := now }) :
    Keeps F (Reconcile.runOnce env r) := by
  refine (h.reconcile (converge hdry hexecute)).attempt.bind ?_
  intro result
  cases result with
  | ok _ => exact h.timestampNow.bind fun now w => hsuccess w _
  | error e => exact (hrecord e).attempt.bind fun _ => Keeps.throw e

end Benign

namespace Reconcile

/-- A stretch of a run in which nothing happened but what every benign frame allows. -/
def Uneventful (env : Env sc) (w t : World sc) : Prop :=
  ∀ F : Frame (World sc), Benign env F → F.rel w t

/-- An uneventful stretch leaves the state alone. -/
theorem Uneventful.stateCm {w t : World sc} (h : Uneventful env w t) : t.stateCm = w.stateCm :=
  (Prod.mk.inj (h untouched benign_untouched)).2

/-- It adds no event. -/
theorem Uneventful.trace {w t : World sc} (h : Uneventful env w t) : t.trace = w.trace :=
  (Prod.mk.inj (h untouched benign_untouched)).1

/-- A release of the Lease is uneventful. -/
theorem uneventful_release (t : World sc) :
    After (Lock.release env) t fun _ u => Uneventful env t u := fun _ hF => hF.release t

/-- The time of the last success is all that `run_once` adds to a pass that completes. -/
theorem after_runOnce_ok {r : Reconciler} {w : World sc} {Q : World sc → Prop}
    (hQ : ∀ t now, Q t → Q { t.ticked env with lastSuccess := now })
    (h : After (reconcile env r) w fun res t => res = .ok () → Q t) :
    After (runOnce env r) w fun res t => res = .ok () → Q t := by
  refine after_runOnce_of (h.mono fun res t ht => ⟨?_, ?_⟩)
  · exact fun hres _ => hQ t _ (ht hres)
  · exact fun e _ => .of_forall (by simp)

/-- A pass that completes once it got as far as its checkout ran `execute` on the manifests
of its commit, and the rest was uneventful. -/
theorem Started.after_runOnce_ok {r : Reconciler} (hdry : r.cfg.dryRun = false) {w : World sc}
    (x : Started env r w) {Q : World sc → Prop}
    (hQ : ∀ t now, Q t → Q { t.ticked env with lastSuccess := now })
    (hrun : ∀ c, desired env x.sync.sha r.cfg (prevApplied x.prev) = .ok c →
      After (execute env r.cfg x.guard x.prev x.sync c) x.start fun res t =>
        res = .ok () → ∀ u, Uneventful env t u → Q u) :
    After (runOnce env r) w fun res t => res = .ok () → Q t := by
  refine Reconcile.after_runOnce_ok hQ ?_
  rw [x.toEntered.after_reconcile, x.after_inner, converge, after_bind, after_ofExcept]
  cases hdesired : desired env x.sync.sha r.cfg (prevApplied x.prev) with
  | error e => exact .of_forall fun _ _ => nofun
  | ok c =>
      dsimp only
      rw [hdry, after_ite, if_neg (by decide)]
      refine (hrun c hdesired).mono ?_
      intro res t ht
      exact (uneventful_release t).mono fun _ u hu hok => ht hok u hu

/-- How a pass that completes goes: it was uneventful, or it ran `execute` on the manifests
of its commit, and the rest was uneventful. -/
theorem after_pass {r : Reconciler} (hdry : r.cfg.dryRun = false) {w : World sc}
    {Q : World sc → Prop} (hQ : ∀ t now, Q t → Q { t.ticked env with lastSuccess := now })
    (hskip : ∀ t, Uneventful env w t → Q t)
    (hrun : ∀ (x : Started env r w) (c : Classified), Uneventful env w x.start →
      desired env x.sync.sha r.cfg (prevApplied x.prev) = .ok c →
      After (execute env r.cfg x.guard x.prev x.sync c) x.start fun res t =>
        res = .ok () → ∀ u, Uneventful env t u → Q u) :
    After (runOnce env r) w fun res t => res = .ok () → Q t := by
  rcases started_or_benign env r w with ⟨⟨x⟩⟩ | hbenign
  · exact x.after_runOnce_ok hdry hQ fun c => hrun x c fun F hF => x.rel hF
  · have hall : After (reconcile env r) w fun _ t => Uneventful env w t := hbenign
    exact after_runOnce_ok hQ (hall.mono fun _ t ht _ => hskip t ht)

end Reconcile

end LeanCd
