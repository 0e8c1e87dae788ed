import LeanCd.Proofs.PassFrames

/-!
# `LeanCd.Proofs.PassStart`: how far a pass got

A pass that reached a point of its program is described by what it read on the way
there. `Entered` is a pass that holds the Lease and has read the prior state;
`Started` is one that has checked the repository out as well, and now looks at the
files. From there on the pass is a computation of its own, and the theorems about the
whole pass follow from theorems about that computation.

The structures are given by data (the guard, the prior state, the checkout, the worlds in between)
and by the equations of the calls that returned them. So a theorem that takes a `Started` is about
every pass that got so far, whatever it met on the way, and none that did not is left to be
considered.
-/

set_option autoImplicit false

namespace LeanCd.Reconcile

open Act

variable {sc : Scopes} {env : Env sc} {r : Reconciler} {w : World sc}

/-- A pass from the world `w` takes the Lease and reads the prior state. -/
structure Entered (env : Env sc) (cfg : Config) (holder : String) (w : World sc) where
  guard : LeaseGuard
  held : World sc
  acquired : Lock.acquire env cfg holder w = .ok (.acquired guard) held
  prev : Option State
  entered : World sc
  read : State.read env held = .ok prev entered

/-- A pass from the world `w` gets as far as its checkout. -/
structure Started (env : Env sc) (r : Reconciler) (w : World sc) extends
    Entered env r.cfg r.holder w where
  sync : SyncOutcome
  fetched : World sc
  checkedOut : checkoutOf env r prev entered = .ok sync fetched
  start : World sc
  touched : touchLease env r.cfg guard fetched = .ok () start

/-- Run the pass up to its prior state. -/
def Entered.run (env : Env sc) (cfg : Config) (holder : String) (w : World sc) :
    Option (Entered env cfg holder w) :=
  match acquired : Lock.acquire env cfg holder w with
  | .ok (.acquired guard) held =>
      match read : State.read env held with
      | .ok prev entered => some { guard, held, acquired, prev, entered, read }
      | .error _ _ => none
  | _ => none

/-- Run the pass up to its checkout. -/
def Started.run (env : Env sc) (r : Reconciler) (w : World sc) : Option (Started env r w) :=
  (Entered.run env r.cfg r.holder w).bind fun x =>
    match checkedOut : checkoutOf env r x.prev x.entered with
    | .ok sync fetched =>
        match touched : touchLease env r.cfg x.guard fetched with
        | .ok _ start => some { toEntered := x, sync, fetched, checkedOut, start, touched }
        | .error _ _ => none
    | .error _ _ => none

/-- What `run_once` adds to a pass: the time of a success, or the record of an error. -/
theorem after_runOnce_of {Q : Except Error Unit → World sc → Prop}
    (h : After (reconcile env r) w fun res t =>
      (res = .ok () → Q (.ok ())
        { t.ticked env with lastSuccess := some (env.wallClock t.step / second) }) ∧
      ∀ e, res = .error e → After (recordError env e) t fun _ u => Q (.error e) u) :
    After (runOnce env r) w Q := by
  rw [runOnce, after_bind, after_attempt]
  refine h.mono ?_
  rintro res t ⟨hok, herror⟩
  cases res with
  | ok _ =>
      simp only [timestampNow, after_bind, after_tick, after_pure, after_modify]
      exact hok rfl
  | error e =>
      -- The error is returned even when recording it fails.
      dsimp only
      rw [after_bind, after_attempt]
      exact (herror e rfl).mono fun _ _ hu => hu

/-- A pass that took the Lease returns what its inner part returned, and releases the
Lease. -/
theorem Entered.after_reconcile (x : Entered env r.cfg r.holder w)
    {Q : Except Error Unit → World sc → Prop} :
    After (reconcile env r) w Q ↔ After (reconcileInner env r x.guard) x.held fun res t =>
      After (Lock.release env) t fun _ u => Q res u := by
  rw [reconcile, after_bind, after_of_ok x.acquired]
  simp only [after_bind, after_attempt, after_ofExcept]

/-- A pass that read the prior state goes on to its checkout. -/
theorem Entered.after_inner (x : Entered env r.cfg r.holder w)
    {Q : Except Error Unit → World sc → Prop} :
    After (reconcileInner env r x.guard) x.held Q ↔
      After (do
        let sync ← checkoutOf env r x.prev
        touchLease env r.cfg x.guard
        converge env r x.guard x.prev sync) x.entered Q := by
  rw [reconcileInner, after_bind, after_of_ok x.read]

/-- The inner part of a pass that got as far as its checkout is the rest of it. -/
theorem Started.after_inner (x : Started env r w) {Q : Except Error Unit → World sc → Prop} :
    After (reconcileInner env r x.guard) x.held Q ↔
      After (converge env r x.guard x.prev x.sync) x.start Q := by
  rw [x.toEntered.after_inner, after_bind, after_of_ok x.checkedOut]
  dsimp only
  rw [after_bind, after_of_ok x.touched]

/-- A frame that the reads of a pass respect relates the world before it to the world
in which it looks at the files. -/
theorem Started.rel (x : Started env r w) {F : Frame (World sc)} (h : Benign env F) :
    F.rel w x.start := by
  -- Lease, state, checkout and the refresh of the Lease, one frame step for each.
  have hheld := (h.acquire r.holder).of_ok x.acquired
  have hread := h.stateRead.of_ok x.read
  have hfetched := (h.checkout _ _).of_ok x.checkedOut
  exact F.trans (F.trans (F.trans hheld hread) hfetched) ((h.touchLease x.guard).of_ok x.touched)

/-- After a pass that got as far as its checkout, what holds after the rest of it and
survives the release of the Lease. -/
theorem Started.after_reconcile (x : Started env r w) {Q : Except Error Unit → World sc → Prop}
    (h : After (converge env r x.guard x.prev x.sync) x.start Q)
    (hrelease : ∀ res t u, untouched.rel t u → Q res t → Q res u) :
    After (reconcile env r) w Q := by
  rw [x.toEntered.after_reconcile, x.after_inner]
  refine h.mono ?_
  intro res t ht
  exact (benign_untouched.release.after t).mono fun _ u hu => hrelease res t u hu ht

/-- A pass gets as far as its checkout, or it did only what every benign frame allows. -/
theorem started_or_benign (env : Env sc) (r : Reconciler) (w : World sc) :
    Nonempty (Started env r w) ∨
      ∀ F : Frame (World sc), Benign env F → After (reconcile env r) w fun _ t => F.rel w t := by
  cases acquired : Lock.acquire env r.cfg r.holder w with
  | error e t =>
      refine .inr ?_
      intro F hF
      rw [reconcile, after_bind, after_of_error acquired]
      exact (Keeps.after (hF.acquire r.holder) w).of_run acquired
  | ok outcome held =>
      have hheld : ∀ F : Frame (World sc), Benign env F → F.rel w held := fun F hF =>
        (hF.acquire r.holder).of_ok acquired
      cases outcome with
      | busy =>
          refine .inr ?_
          intro F hF
          rw [reconcile, after_bind, after_of_ok acquired]
          exact hheld F hF
      | err e =>
          refine .inr ?_
          intro F hF
          rw [reconcile, after_bind, after_of_ok acquired]
          exact hheld F hF
      | acquired guard =>
          -- From here on the Lease is held, and every way out goes through its release.
          have hinner : (∀ F : Frame (World sc), Benign env F →
              After (reconcileInner env r guard) held fun _ t => F.rel held t) →
              ∀ F : Frame (World sc), Benign env F →
                After (reconcile env r) w fun _ t => F.rel w t := by
            intro hbenign F hF
            rw [reconcile, after_bind, after_of_ok acquired]
            simp only [after_bind, after_attempt, after_ofExcept]
            refine (hbenign F hF).mono ?_
            intro _ t ht
            exact (hF.release.after t).mono fun _ u hu => F.trans (hheld F hF) (F.trans ht hu)
          cases read : State.read env held with
          | error e t =>
              refine .inr (hinner fun F hF => ?_)
              rw [reconcileInner, after_bind, after_of_error read]
              exact (hF.stateRead.after held).of_run read
          | ok prev entered =>
              cases checkedOut : checkoutOf env r prev entered with
              | error e t =>
                  refine .inr (hinner fun F hF => ?_)
                  rw [reconcileInner, after_bind, after_of_ok read]
                  dsimp only
                  rw [after_bind, after_of_error checkedOut]
                  exact F.trans (hF.stateRead.of_ok read)
                    (((hF.checkout _ _).after entered).of_run checkedOut)
              | ok sync fetched =>
                  cases touched : touchLease env r.cfg guard fetched with
                  -- `touch_lease` is best effort, so it cannot fail.
                  | error e t => cases touched
                  | ok _ start =>
                      exact .inl ⟨{ guard, held, acquired, prev, entered, read, sync, fetched,
                                    checkedOut, start, touched }⟩

/-- A checkout reports a change unless the commit is the one it was told. -/
theorem returns_checkout {cfg : Config} {secrets : Secrets} {prevSha : Option String}
    {target : CheckoutTarget} :
    Returns (GitSync.checkout env cfg secrets prevSha target) fun sync =>
      sync.changed = decide (prevSha ≠ some sync.sha) := by
  refine (Returns.any _).bind ?_
  intro url _
  refine (Returns.any _).bind fun _ _ => (Returns.any _).bind fun _ _ => ?_
  exact (Returns.any _).bind fun sha _ => .pure rfl

/-- What the checkout of a pass reports. -/
theorem Started.changed_eq (x : Started env r w) :
    x.sync.changed = decide (prevShaRef r.forceTarget x.prev ≠ some x.sync.sha) :=
  (returns_checkout.after x.entered).of_run x.checkedOut x.sync rfl

/-- A pass that is told nothing changed is at the commit of the prior state. -/
theorem Started.lastSha_of_unchanged (x : Started env r w) (h : x.sync.changed = false) :
    x.prev.bind (·.lastSha) = some x.sync.sha := by
  rw [x.changed_eq, decide_eq_false_iff_not, not_not] at h
  unfold prevShaRef at h
  split at h
  · cases h
  · exact (Option.filter_eq_some_iff.mp h).1

/-! ### The mode of a pass -/

/-- What a pass that may change the cluster does. -/
inductive Mode where
  | teardown
  | fullApply
  | driftCheck
deriving DecidableEq

/-- The mode that a pass chooses from what it has read. -/
def modeOf (prev : Option State) (sync : SyncOutcome) (c : Classified) : Mode :=
  if isTeardown c (prevApplied prev) then .teardown
  else if shouldFullApply prev.isSome sync.changed then .fullApply
  else .driftCheck

/-- The branch of a mode, with the prune that belongs to it. -/
def branchOf (env : Env sc) (cfg : Config) (guard : LeaseGuard) (prev : Option State)
    (c : Classified) : Mode → Pass sc BranchOutcome
  | .teardown => teardownBranch env cfg guard c (prevApplied prev)
  | .fullApply => do
      let outcome ← fullApplyBranch env cfg guard c
      let _ ← Prune.prune env cfg (prevApplied prev) (ResourceKey.keysOf c.main)
      return outcome
  | .driftCheck => do
      let outcome ← driftBranch env cfg guard c
      let _ ← Prune.prune env cfg (prevApplied prev) (ResourceKey.keysOf c.main)
      return outcome

/-- A pass takes the branch of its mode. -/
theorem branch_eq_branchOf (cfg : Config) (guard : LeaseGuard) (prev : Option State)
    (sync : SyncOutcome) (c : Classified) :
    branch env cfg guard prev sync c = branchOf env cfg guard prev c (modeOf prev sync c) := by
  unfold branch syncBranch modeOf
  split
  · rfl
  · split <;> rfl

/-- A pass of the branch is a full apply exactly at a commit other than the persisted one. That
there is no prior state adds nothing. -/
theorem Started.modeOf_eq (x : Started env r w) (h : r.forceTarget = none) (c : Classified) :
    modeOf x.prev x.sync c =
      if isTeardown c (prevApplied x.prev) then .teardown
      else if prevShaRef none x.prev ≠ some x.sync.sha then .fullApply
      else .driftCheck := by
  have hfull : shouldFullApply x.prev.isSome x.sync.changed =
      decide (prevShaRef none x.prev ≠ some x.sync.sha) := by
    rw [x.changed_eq, h]
    cases x.prev with
    | none => simp [shouldFullApply, prevShaRef]
    | some s => simp [shouldFullApply]
  simp only [modeOf, hfull, decide_eq_true_eq]

end LeanCd.Reconcile
