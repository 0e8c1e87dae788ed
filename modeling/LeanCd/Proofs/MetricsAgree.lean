import LeanCd.Lib.Series
import LeanCd.Metrics
import LeanCd.Proofs.FailedPass
import LeanCd.Proofs.PassRuns
import LeanCd.Proofs.PhaseRun

/-!
# `LeanCd.Proofs.MetricsAgree`: the instruments agree with the passes

A pass keeps its instruments next to what it does. `erases_runOnce` says that without them it is
the pass of the other modules, so their results hold of it too.

The parts of a pass fall into three. Most leave the instruments and the stored state alone, up to
the hooks, of which as many are counted as are started (`Kept`). The write of the state and the
gauges belong together (`Tells`). The record of an error changes nothing that the gauges report
(`Retells`).

What the gauges ought to report depends on whether a pass of the process has stored its state.
Before that they are as they were at the start, even where an earlier process has left a state.
Afterwards they report the stored one, up to the error that is recorded in it. `Told` has this
flag, `storesState` says of a pass whether it stores, and `Pass` is how `processRuns` enters it.

The results:

* `erases_runOnce`: a pass with instruments is the pass without them.
* `Books.after_runOnce`: a pass enters itself in the books of its process.
* `instruments_agree`: the books are right after every run.

A write that reports an error must not have stored the state (`Env.StateApi`). The gauges would
report the state before it.
-/

set_option autoImplicit false

namespace LeanCd.Metrics

/-! ### The records of the instruments -/

/-- The instruments other than the hook counter. -/
def quiet (m : Metrics) : Metrics := { m with hooksTotal := ∅ }

/-- A phase is counted with its hooks, those that succeeded and those that failed. -/
theorem total_recordHooks (phase : String) (succeeded failed : Nat) (m : Metrics) :
    Series.total (m.recordHooks phase succeeded failed).hooksTotal =
      Series.total m.hooksTotal + succeeded + failed := by
  have hadd : ∀ (m : Metrics) (result : String) (n : Nat),
      Series.total (m.addHooks phase result n).hooksTotal = Series.total m.hooksTotal + n :=
    fun m result n => Series.total_insert_add _ _ n
  unfold recordHooks
  dsimp only
  split
  next hs =>
    split
    next hf => rw [hadd, hadd]
    next hf => rw [hadd]; omega
  next hs =>
    split
    next hf => rw [hadd]; omega
    next hf => omega

/-- The counters of the passes, and the time of the last success. -/
def counters (m : Metrics) : Nat × Nat × Int64 := (m.syncTotal, m.syncErrors, m.lastSuccessEpoch)

/-- What a pass publishes of its state. -/
def gauges (m : Metrics) :
    Int64 × (AList fun _ : GvkKey => Int64) × AList fun _ : String => Int64 :=
  (m.managedResources, m.driftPerGvk, m.healthPerStatus)

/-- A record of hooks touches the counters of hooks alone. -/
theorem quiet_recordHooks (phase : String) (succeeded failed : Nat) (m : Metrics) :
    quiet (m.recordHooks phase succeeded failed) = quiet m := by
  unfold recordHooks
  dsimp only
  split
  next => split <;> rfl
  next => split <;> rfl

end LeanCd.Metrics

namespace LeanCd.Metered

open Act Reconcile Transition

variable {sc : Scopes} {env : Env sc} {cfg : Config}

/-! ### The pass without its instruments -/

/-- The phase of hooks runs as it does without instruments: the record comes after it. -/
theorem erases_hookPhase (guard : LeaseGuard) (hooks : List HookInfo) (label : String) :
    Erases (hookPhase env cfg guard hooks label) (Hooks.runPhase env cfg hooks guard) :=
  (Erases.unmetered (Hooks.runPhase env cfg hooks guard)).bind_record _

/-- The hooks before an apply, which are not run at all when there are none. -/
theorem erases_preHooks (guard : LeaseGuard) (label name : String) (hooks : List HookInfo) :
    Erases (preHooks env cfg guard label name hooks)
      (Reconcile.preHooks env cfg guard name hooks) := by
  refine (erases_hookPhase guard hooks label).bind ?_
  intro outcome
  cases outcome.failures with
  | nil => exact .pure ()
  | cons failure rest => exact .throw _

/-- The hooks after an apply, whose failure is a value. -/
theorem erases_postHooks (guard : LeaseGuard) (label name : String) (hooks : List HookInfo) :
    Erases (postHooks env cfg guard label name hooks)
      (Reconcile.postHooks env cfg guard name hooks) := by
  refine (erases_hookPhase guard hooks label).bind ?_
  intro outcome
  cases outcome.failures with
  | nil => exact .pure none
  | cons failure rest => exact .pure _

/-- A teardown runs as it does without instruments. -/
theorem erases_teardownBranch (guard : LeaseGuard) (c : Classified) (applied : List ResourceKey) :
    Erases (teardownBranch env cfg guard c applied)
      (Reconcile.teardownBranch env cfg guard c applied) :=
  (erases_preHooks guard _ _ _).bind fun _ => (Erases.unmetered _).bind fun _ =>
    (erases_postHooks guard _ _ _).bind fun _ => .pure _

/-- A full apply does so too. -/
theorem erases_fullApplyBranch (guard : LeaseGuard) (c : Classified) :
    Erases (fullApplyBranch env cfg guard c) (Reconcile.fullApplyBranch env cfg guard c) :=
  (erases_preHooks guard _ _ _).bind fun _ => (Erases.unmetered _).bind fun _ =>
    (Erases.unmetered _).bind fun _ => (erases_postHooks guard _ _ _).bind fun _ => .pure _

/-- And the branch with a drift check. -/
theorem erases_driftBranch (guard : LeaseGuard) (c : Classified) :
    Erases (driftBranch env cfg guard c) (Reconcile.driftBranch env cfg guard c) := by
  refine (Erases.unmetered _).bind fun found => .ite (.pure _) ?_
  refine (erases_preHooks guard _ _ _).bind fun _ => (Erases.unmetered _).bind fun _ => ?_
  exact (erases_postHooks guard _ _ _).bind fun _ => .pure _

/-- So every branch erases to itself, by the mode of the pass. -/
theorem erases_branch (guard : LeaseGuard) (prev : Option State) (sync : SyncOutcome)
    (c : Classified) :
    Erases (branch env cfg guard prev sync c) (Reconcile.branch env cfg guard prev sync c) := by
  refine .ite (erases_teardownBranch guard c _) ?_
  refine Erases.bind (.ite (erases_fullApplyBranch guard c) (erases_driftBranch guard c)) ?_
  exact fun _ => (Erases.unmetered _).bind fun _ => .pure _

/-- The execution of a pass: a branch, and then the state with the gauges set in between. -/
theorem erases_execute (guard : LeaseGuard) (prev : Option State) (sync : SyncOutcome)
    (c : Classified) :
    Erases (execute env cfg guard prev sync c) (Reconcile.execute env cfg guard prev sync c) :=
  (erases_branch guard prev sync c).bind fun outcome => (Erases.unmetered _).bind fun s =>
    (Erases.unmetered _).bind fun _ => .record_bind (publish c.main outcome s.health) (.unmetered _)

/-- The inside of a pass, up to its execution. -/
theorem erases_reconcileInner (r : Reconciler) (guard : LeaseGuard) :
    Erases (reconcileInner env r guard) (Reconcile.reconcileInner env r guard) := by
  refine (Erases.unmetered _).bind fun prev => (Erases.unmetered _).bind fun sync => ?_
  refine (Erases.unmetered _).bind fun _ => (Erases.ofExcept _).bind fun c => ?_
  exact .ite ((Erases.unmetered _).bind fun _ => .pure _) (erases_execute guard prev sync c)

/-- A whole pass with the Lease around it. -/
theorem erases_reconcile (r : Reconciler) :
    Erases (reconcile env r) (Reconcile.reconcile env r) := by
  refine (Erases.unmetered _).bind fun outcome => ?_
  cases outcome with
  | busy => exact .pure ()
  | err e => exact .throw e
  | acquired guard =>
      refine (erases_reconcileInner r guard).attempt.bind fun result => ?_
      exact (Erases.unmetered _).attempt.bind fun _ => .ofExcept result

/-- Without its instruments, a pass is the one that the other results are about. -/
theorem erases_runOnce (r : Reconciler) : Erases (runOnce env r) (Reconcile.runOnce env r) := by
  refine .record_bind _ ((erases_reconcile r).attempt.bind fun result => ?_)
  cases result with
  | ok _ =>
      exact (Erases.unmetered _).bind fun now => .record_bind _ (.unmetered _)
  | error e =>
      exact .record_bind _ ((Erases.unmetered _).attempt.bind fun _ => .throw e)

/-! ### What the parts of a pass leave alone -/

/-- The stored state and the instruments are left alone, up to the hooks: as many are counted as
are started. -/
structure Kept (p q : World sc × Metrics) : Prop where
  stateCm : q.1.stateCm = p.1.stateCm
  writes : q.1.writes = p.1.writes
  lastSuccess : q.1.lastSuccess = p.1.lastSuccess
  others : q.2.quiet = p.2.quiet
  hooks : Series.total q.2.hooksTotal + p.1.hooksStarted.length =
    Series.total p.2.hooksTotal + q.1.hooksStarted.length

def kept (sc : Scopes) : Frame (World sc × Metrics) where
  rel := Kept
  refl _ := ⟨rfl, rfl, rfl, rfl, rfl⟩
  trans h₁ h₂ := by
    refine ⟨h₂.stateCm.trans h₁.stateCm, h₂.writes.trans h₁.writes,
      h₂.lastSuccess.trans h₁.lastSuccess, h₂.others.trans h₁.others, ?_⟩
    have hfirst := h₁.hooks
    have hsecond := h₂.hooks
    omega

/-- What a part without instruments has to leave alone. -/
def unseen (sc : Scopes) : Frame (World sc) :=
  .fixed fun w => (w.stateCm, w.writes, w.lastSuccess, w.hooksStarted)

/-- Interactions with the outside are not seen by the meter. -/
theorem benign_unseen : Benign env (unseen sc) :=
  ⟨⟨fun _ => rfl, fun _ _ => rfl⟩, fun _ _ => rfl, fun _ _ _ => rfl⟩

/-- A delete is not seen by it. -/
theorem serveDelete_unseen (id : ObjId sc) : Keeps (unseen sc) (KubeUtil.serveDelete env id) := by
  intro w
  unfold KubeUtil.serveDelete
  cases w.cluster.lookup id with
  | none => rfl
  | some live => rfl

/-- The applies of a pass are not seen by it. -/
theorem allowsApply_unseen (dryRun : Bool) (ms : List RawManifest) :
    AllowsApply env cfg (unseen sc) dryRun ms where
  start _ _ _ := rfl
  patch _ _ o id _ w := by
    cases dryRun with
    | true => rfl
    | false => rfl

/-- What is not seen leaves the instruments where they are. -/
theorem kept_of_unseen {α : Type} {m : Pass sc α} (hm : Keeps (unseen sc) m) :
    Keeps (kept sc) (unmetered m : Metered sc α) := by
  refine hm.unmetered ?_
  intro s t n h
  obtain ⟨hstate, hrest⟩ := Prod.mk.inj h
  obtain ⟨hwrites, hrest⟩ := Prod.mk.inj hrest
  obtain ⟨hsuccess, hhooks⟩ := Prod.mk.inj hrest
  exact ⟨hstate, hwrites, hsuccess, rfl, by rw [hhooks]⟩

/-- The applies leave the instruments alone. -/
theorem kept_applyAll (dryRun : Bool) (ms : List RawManifest) :
    Keeps (kept sc) (unmetered (applyAll env cfg dryRun ms []) : Metered sc _) :=
  kept_of_unseen (benign_unseen.applyAll (allowsApply_unseen dryRun ms) [])

/-- A prune leaves them alone. -/
theorem kept_prune (prev current : List ResourceKey) :
    Keeps (kept sc) (unmetered (Prune.prune env cfg prev current) : Metered sc _) :=
  kept_of_unseen (Prune.keeps_prune benign_unseen.toInteracts serveDelete_unseen prev current)

/-! ### The hooks -/

/-- A phase counts every hook that it starts. -/
theorem kept_hookPhase (guard : LeaseGuard) (hooks : List HookInfo) (label : String) :
    Keeps (kept sc) (hookPhase env cfg guard hooks label) := by
  intro p
  -- The run of the hooks leaves everything fixed but the trace, which is why its two lists of
  -- hooks may be compared.
  have hblind : Blind (.fixed fun w : World sc => (w.stateCm, w.writes, w.lastSuccess)) :=
    fun _ c _ he => Prod.ext rfl (Prod.ext (writes_cons c he) rfl)
  have hbenign : Benign env (.fixed fun w : World sc => (w.stateCm, w.writes, w.lastSuccess)) :=
    ⟨⟨fun _ => rfl, fun _ _ => rfl⟩, fun _ _ => rfl, fun _ _ _ => rfl⟩
  have hphase : Keeps _ (Hooks.runPhase env cfg hooks guard) :=
    hbenign.runPhase (hblind.allowsHooks hooks) guard
  have hfixed := hphase.after p.1
  obtain ⟨ordered, runs, outcome, t, -, hrun, hran, -⟩ :=
    Hooks.runPhase_ran env cfg guard hooks p.1
  rw [after_of_ok hrun] at hfixed
  have hall : After (hookPhase env cfg guard hooks label) p fun _ q => Kept p q := by
    rw [hookPhase, after_bind, after_unmetered, after_of_ok hrun]
    dsimp only
    rw [after_bind, after_record]
    obtain ⟨hstate, hrest⟩ := Prod.mk.inj hfixed
    obtain ⟨hwrites, hsuccess⟩ := Prod.mk.inj hrest
    refine ⟨hstate, hwrites, hsuccess, Metrics.quiet_recordHooks _ _ _ _, ?_⟩
    -- The counter moves by the hooks that were started, and those are what the trace gains.
    have hstarted : t.hooksStarted.length = outcome.attempted + p.1.hooksStarted.length := by
      rw [hran.started, hran.attempted]
      simp
    have hbounded := hran.bounded
    show Series.total (p.2.recordHooks label outcome.succeeded outcome.failures.length).hooksTotal
      + p.1.hooksStarted.length = Series.total p.2.hooksTotal + t.hooksStarted.length
    rw [Metrics.total_recordHooks, hstarted]
    unfold Hooks.PhaseOutcome.succeeded
    omega
  exact hall

/-- The hooks before an apply enter themselves in their counter. -/
theorem kept_preHooks (guard : LeaseGuard) (label name : String) (hooks : List HookInfo) :
    Keeps (kept sc) (preHooks env cfg guard label name hooks) := by
  refine (kept_hookPhase guard hooks label).bind ?_
  intro outcome
  cases outcome.failures with
  | nil => exact .pure ()
  | cons failure rest => exact .throw _

/-- So do the hooks after it. -/
theorem kept_postHooks (guard : LeaseGuard) (label name : String) (hooks : List HookInfo) :
    Keeps (kept sc) (postHooks env cfg guard label name hooks) := by
  refine (kept_hookPhase guard hooks label).bind ?_
  intro outcome
  cases outcome.failures with
  | nil => exact .pure none
  | cons failure rest => exact .pure _

/-- A branch touches the counters of hooks only, one phase after the other. -/
theorem kept_branch (guard : LeaseGuard) (prev : Option State) (sync : SyncOutcome)
    (c : Classified) : Keeps (kept sc) (branch env cfg guard prev sync c) := by
  -- A full apply and a drift check meet in `syncBranch`, and a teardown has its own hooks.
  have hfull : Keeps (kept sc) (fullApplyBranch env cfg guard c) := by
    refine (kept_preHooks guard _ _ _).bind fun _ => (kept_applyAll false _).bind fun _ => ?_
    refine (kept_of_unseen (benign_unseen.collectForHealth _)).bind fun _ => ?_
    exact (kept_postHooks guard _ _ _).bind fun _ => .pure _
  have hdrift : Keeps (kept sc) (driftBranch env cfg guard c) := by
    -- The detection only reads.
    refine (kept_of_unseen (benign_unseen.detectDrift _)).bind fun found => ?_
    dsimp only
    split
    next => exact .pure _
    next =>
      refine (kept_preHooks guard _ _ _).bind fun _ => (kept_applyAll false _).bind fun _ => ?_
      exact (kept_postHooks guard _ _ _).bind fun _ => .pure _
  unfold branch syncBranch
  split
  next =>
    refine (kept_preHooks guard _ _ _).bind fun _ => (kept_prune _ _).bind fun _ => ?_
    exact (kept_postHooks guard _ _ _).bind fun _ => .pure _
  next =>
    refine Keeps.bind ?_ fun _ => (kept_prune _ _).bind fun _ => .pure _
    split
    next => exact hfull
    next => exact hdrift

/-! ### The gauges -/

/-- The gauges report this state: its resources, how many there are of each health, and how many
of its drifts are of each kind. -/
structure Mirrors (s : State) (m : Metrics) : Prop where
  managed : m.managedResources = asI64 s.managedCount
  drift : ∃ kinds : List GvkKey, s.driftCount = count kinds ∧ ∀ g,
    m.driftPerGvk.lookup g = if g ∈ kinds then some (Int64.ofNat (kinds.count g)) else none
  health : ∀ status, m.healthPerStatus.lookup status =
    ((healthCounts s.health).find? fun e => e.1 = status).map fun e => asI64 e.2

/-- The counts of a list of drifts, on top of other counts. -/
theorem lookup_countDrifts (drifts : List DriftItem) (base : AList fun _ : GvkKey => Int64)
    (g : GvkKey) :
    (drifts.foldl (fun counts d =>
        counts.insert d.key.gvk ((counts.lookup d.key.gvk).getD 0 + 1)) base).lookup g =
      if g ∈ drifts.map (·.key.gvk) then
        some ((base.lookup g).getD 0 + Int64.ofNat ((drifts.map (·.key.gvk)).count g))
      else base.lookup g := by
  induction drifts generalizing base with
  | nil => simp
  | cons d rest ih =>
      rw [List.foldl_cons, ih, List.map_cons]
      by_cases hd : d.key.gvk = g
      -- The kind that is counted was drifted before in this list, or it is new.
      · subst hd
        rw [AList.lookup_insert, List.count_cons_self, Int64.ofNat_add, if_pos List.mem_cons_self]
        split
        next =>
          simp only [Option.getD_some]
          congr 1
          rw [Int64.add_assoc, Int64.add_comm (Int64.ofNat _)]
          rfl
        next hrest =>
          rw [List.count_eq_zero.mpr hrest]
          rfl
      · have hne : g ≠ d.key.gvk := Ne.symm hd
        rw [AList.lookup_insert_ne hne, List.count_cons_of_ne hd]
        simp [hne]

/-- The drifts of a kind are counted under that kind. -/
theorem lookup_driftByGvk (drifts : List DriftItem) (g : GvkKey) :
    (driftByGvk drifts).lookup g = if g ∈ drifts.map (·.key.gvk) then
      some (Int64.ofNat ((drifts.map (·.key.gvk)).count g)) else none := by
  rw [driftByGvk, lookup_countDrifts]
  simp

/-- To set one gauge after the other is to set them all. -/
theorem foldl_setDrift (es : List (Sigma fun _ : GvkKey => Int64)) (m : Metrics) :
    es.foldl (fun m e => m.setDrift e.1 e.2) m =
      { m with driftPerGvk := es.foldl (fun t e => t.insert e.1 e.2) m.driftPerGvk } := by
  induction es generalizing m with
  | nil => rfl
  | cons e rest ih => exact ih _

/-- The same of the gauges of the health statuses. -/
theorem foldl_setHealth (es : List (String × UInt64)) (m : Metrics) :
    es.foldl (fun m e => m.setHealth e.1 (asI64 e.2)) m =
      { m with healthPerStatus :=
          es.foldl (fun t e => t.insert e.1 (asI64 e.2)) m.healthPerStatus } := by
  induction es generalizing m with
  | nil => rfl
  | cons e rest ih => exact ih _

/-- What is published, gauge by gauge. -/
theorem publish_eq (main : List RawManifest) (b : BranchOutcome) (health : HealthSummary)
    (m : Metrics) :
    publish main b health m = { m with
      managedResources := asI64 (count main)
      applyFailures := m.applyFailures + b.applyFailures.length
      driftPerGvk := (driftByGvk b.drifts).entries.foldl (fun t e => t.insert e.1 e.2) ∅
      healthPerStatus := (healthCounts health).foldl (fun t e => t.insert e.1 (asI64 e.2)) ∅ } := by
  unfold publish
  dsimp only
  rw [foldl_setDrift, foldl_setHealth]
  split
  next hnone =>
    rw [hnone]
    rfl
  next => rfl

/-- What is published of a pass are gauges, so the counters stay. -/
theorem counters_publish (main : List RawManifest) (b : BranchOutcome) (health : HealthSummary)
    (m : Metrics) : (publish main b health m).counters = m.counters := by
  rw [publish_eq]
  rfl

/-- The counter of hooks stays too. -/
theorem hooksTotal_publish (main : List RawManifest) (b : BranchOutcome)
    (health : HealthSummary) (m : Metrics) :
    (publish main b health m).hooksTotal = m.hooksTotal := by
  rw [publish_eq]

/-- A pass publishes the state that it has written. -/
theorem mirrors_publish (prev : Option State) (sync : SyncOutcome) (c : Classified)
    (b : BranchOutcome) (health : HealthSummary) (epoch : UInt64) (m : Metrics) :
    Mirrors (newState prev sync c b health epoch) (publish c.main b health m) := by
  rw [publish_eq]
  refine ⟨rfl, ⟨b.drifts.map (·.key.gvk), ?_, ?_⟩, ?_⟩
  · simp [newState, count]
  · intro g
    dsimp only
    rw [Series.lookup_rebuild, lookup_driftByGvk]
  · intro status
    have hnodup : ((healthCounts health).map Prod.fst).Nodup := by
      simp [healthCounts]
    dsimp only
    rw [Series.lookup_insertAll hnodup, AList.lookup_empty, Option.or_none]
    rfl

/-- Only the gauges matter. -/
theorem Mirrors.of_gauges {s : State} {m m' : Metrics} (h : Mirrors s m)
    (hm : m'.gauges = m.gauges) : Mirrors s m' := by
  obtain ⟨hmanaged, hrest⟩ := Prod.mk.inj hm
  obtain ⟨hdrift, hhealth⟩ := Prod.mk.inj hrest
  refine ⟨hmanaged.trans h.managed, ?_, ?_⟩
  · rw [hdrift]
    exact h.drift
  · rw [hhealth]
    exact h.health

/-- An error that is recorded changes nothing that is published. -/
theorem Mirrors.errorState {s : State} {m : Metrics} (h : Mirrors s m) (e : Error) :
    Mirrors (Reconcile.errorState e (some s)) m := ⟨h.managed, h.drift, h.health⟩

/-- What the gauges report: the stored state, once a pass has stored one. Before that they are as
they were when the process started. -/
def Told (stored : Bool) (p : World sc × Metrics) : Prop :=
  if stored then ∃ s, p.1.stored = some s ∧ Mirrors s p.2
  else p.2.gauges = Metrics.new.gauges

/-- What the gauges tell does not change when neither they nor the state do. -/
theorem Told.kept {stored : Bool} {p q : World sc × Metrics} (h : Told stored p)
    (hstate : q.1.stateCm = p.1.stateCm) (hgauges : q.2.gauges = p.2.gauges) : Told stored q := by
  cases stored with
  | false => exact hgauges.trans h
  | true =>
      obtain ⟨s, hs, hm⟩ := h
      refine ⟨s, ?_, hm.of_gauges hgauges⟩
      unfold World.stored at hs ⊢
      rwa [hstate]

/-- So it does not change in a part that keeps both. -/
theorem Told.of_kept {stored : Bool} {p q : World sc × Metrics} (h : Told stored p)
    (hq : Kept p q) : Told stored q := by
  have hgauges : q.2.quiet.gauges = p.2.quiet.gauges := congrArg _ hq.others
  exact h.kept hq.stateCm hgauges

/-- Between the two worlds the server stored a state for the process. -/
def Stored (w t : World sc) : Bool := decide (w.writes.length < t.writes.length)

/-- No write, nothing stored. -/
theorem Stored.of_eq {w t : World sc} (h : t.writes = w.writes) : Stored w t = false := by
  simp [Stored, h]

/-- A part of a pass: the counters of the passes stand still, the hooks are counted, and the
gauges go on reporting what they should. Where the part stores the state, they report it. -/
structure Tells (p q : World sc × Metrics) : Prop where
  counters : q.2.counters = p.2.counters
  lastSuccess : q.1.lastSuccess = p.1.lastSuccess
  hooks : Series.total q.2.hooksTotal + p.1.hooksStarted.length =
    Series.total p.2.hooksTotal + q.1.hooksStarted.length
  grows : p.1.writes.length ≤ q.1.writes.length
  told : ∀ stored, Told stored p → Told (stored || Stored p.1 q.1) q

def tells (sc : Scopes) : Frame (World sc × Metrics) where
  rel := Tells
  refl p := ⟨rfl, rfl, rfl, le_rfl, fun stored h => by rwa [Stored.of_eq rfl, Bool.or_false]⟩
  trans {p q r} h₁ h₂ := by
    have hgrows := h₁.grows
    have hgrows' := h₂.grows
    refine ⟨h₂.counters.trans h₁.counters, h₂.lastSuccess.trans h₁.lastSuccess, ?_,
      hgrows.trans hgrows', fun stored h => ?_⟩
    · have hfirst := h₁.hooks
      have hsecond := h₂.hooks
      omega
    · -- The whole stores the state when one of the two parts does.
      have heither : Stored p.1 r.1 = (Stored p.1 q.1 || Stored q.1 r.1) := by
        rw [Bool.eq_iff_iff]
        simp only [Stored, Bool.or_eq_true, decide_eq_true_eq]
        omega
      rw [heither, ← Bool.or_assoc]
      exact h₂.told _ (h₁.told _ h)

/-- A part that keeps gauges and state tells nothing new. -/
theorem Kept.tells {p q : World sc × Metrics} (h : Kept p q) : Tells p q where
  counters := by
    have hcounters : q.2.quiet.counters = p.2.quiet.counters := congrArg _ h.others
    exact hcounters
  lastSuccess := h.lastSuccess
  hooks := h.hooks
  grows := (congrArg List.length h.writes).ge
  told stored htold := by
    rw [Stored.of_eq h.writes, Bool.or_false]
    exact htold.of_kept h

/-- The same of a computation. -/
theorem tells_of_kept {α : Type} {m : Metered sc α} (h : Keeps (kept sc) m) :
    Keeps (tells sc) m := h.weaken fun _ _ => Kept.tells

/-- The same of a computation that the meter does not see. -/
theorem tells_of_unseen {α : Type} {m : Pass sc α} (hm : Keeps (unseen sc) m) :
    Keeps (tells sc) (unmetered m : Metered sc α) := tells_of_kept (kept_of_unseen hm)

/-! ### The passes -/

/-- What a write of the state leaves alone: no hook starts, and no pass succeeds. -/
def besideState (sc : Scopes) : Frame (World sc) :=
  .fixed fun w => (w.lastSuccess, w.hooksStarted)

/-- Interactions with the outside do not concern the state. -/
theorem benign_besideState : Benign env (besideState sc) :=
  ⟨⟨fun _ => rfl, fun _ _ => rfl⟩, fun _ _ => rfl, fun _ _ _ => rfl⟩

/-- A write of the state concerns nothing else. -/
theorem stateWrite_besideState (s : State) : Keeps (besideState sc) (State.write env s) :=
  benign_besideState.stateWrite fun _ => rfl

/-- A pass writes its state, and then publishes it. -/
theorem tells_execute (hs : env.StateApi) (guard : LeaseGuard) (prev : Option State)
    (sync : SyncOutcome) (c : Classified) :
    Keeps (tells sc) (execute env cfg guard prev sync c) := by
  refine (tells_of_kept (kept_branch guard prev sync c)).bind fun outcome => ?_
  refine (tells_of_unseen (benign_unseen.nextState guard prev sync c outcome)).bind_returns
    (Benign.returns_nextState guard prev sync c outcome).unmetered ?_
  rintro _ ⟨health, epoch, rfl⟩ p
  have hall : After (do
      unmetered (State.write env (newState prev sync c outcome health epoch))
      record (publish c.main outcome health)
      unmetered (modify fun w => { w with lastGvks := (c.main.map RawManifest.gvk).dedup }) :
        Metered sc Unit) p fun _ q => Tells p q := by
    rw [after_bind, after_unmetered]
    refine (((after_stateWrite_error hs _ p.1).and (after_stateWrite_writes hs _ p.1)).and
      ((stateWrite_besideState _).after p.1)).mono ?_
    rintro res t ⟨⟨hstate, hwrites⟩, hunseen⟩
    obtain ⟨hsuccess, hhooks⟩ := Prod.mk.inj hunseen
    -- A write that failed has stored nothing, so the books stay as they were.
    cases res with
    | error e =>
        exact Kept.tells ⟨hstate.2 (by simp), hwrites.2 (by simp), hsuccess, rfl, by rw [hhooks]⟩
    -- The state is stored, and the gauges are set from the very state at once.
    | ok _ =>
        have hone : t.writes.length = p.1.writes.length + 1 := congrArg List.length (hwrites.1 rfl)
        dsimp only
        rw [after_bind, after_record]
        refine ⟨counters_publish _ _ _ _, hsuccess, ?_, ?_, fun stored _ => ?_⟩
        · show Series.total (publish c.main outcome health p.2).hooksTotal + _ = _ +
            t.hooksStarted.length
          rw [hooksTotal_publish, hhooks]
        · show p.1.writes.length ≤ t.writes.length
          omega
        · have hstores : Stored p.1 t = true := by
            simp [Stored, hone]
          show Told (stored || Stored p.1 t) _
          rw [hstores, Bool.or_true]
          exact ⟨newState prev sync c outcome health epoch, World.stored_of_stateCm (hstate.1 rfl),
            mirrors_publish prev sync c outcome health epoch p.2⟩
  exact hall

/-- A whole pass tells what it should. It stores its state at most once, after the gauges were set.
-/
theorem tells_reconcile (hs : env.StateApi) (r : Reconciler) :
    Keeps (tells sc) (reconcile env r) := by
  have hb := @benign_unseen sc env
  refine (tells_of_unseen (hb.acquire r.holder)).bind fun outcome => ?_
  cases outcome with
  -- A busy Lease ends the pass with no error and nothing done.
  | busy => exact .pure ()
  | err e => exact .throw e
  | acquired guard =>
      have hinner : Keeps (tells sc) (reconcileInner env r guard) := by
        refine (tells_of_unseen hb.stateRead).bind fun prev => ?_
        refine (tells_of_unseen (hb.checkout _ _)).bind fun sync => ?_
        refine (tells_of_unseen (hb.touchLease guard)).bind fun _ => ?_
        refine (Keeps.ofExcept _).bind fun c => ?_
        -- A dry run applies and stops before the state.
        split
        next => exact (tells_of_kept (kept_applyAll true c.main)).bind fun _ => .pure _
        next => exact tells_execute hs guard prev sync c
      -- The release comes last and counts for nothing.
      refine hinner.attempt.bind fun result => ?_
      exact (tells_of_unseen hb.release).attempt.bind fun _ => .ofExcept result

/-- The record of an error. It stores no state that the gauges would have to report. -/
structure Retells (p q : World sc × Metrics) : Prop where
  counters : q.2.counters = p.2.counters
  lastSuccess : q.1.lastSuccess = p.1.lastSuccess
  hooks : Series.total q.2.hooksTotal + p.1.hooksStarted.length =
    Series.total p.2.hooksTotal + q.1.hooksStarted.length
  told : ∀ stored, Told stored p → Told stored q

/-- A part that keeps gauges and state leaves the story as it was. -/
theorem Kept.retells {p q : World sc × Metrics} (h : Kept p q) : Retells p q where
  counters := h.tells.counters
  lastSuccess := h.lastSuccess
  hooks := h.hooks
  told _ htold := htold.of_kept h

/-- An error that is recorded is recorded in the state that the gauges report. -/
theorem after_recordError_retells (hs : env.StateApi) (e : Error) (p : World sc × Metrics) :
    After (unmetered (recordError env e) : Metered sc Unit) p fun _ q => Retells p q := by
  have hfixed : Keeps (besideState sc) (recordError env e) :=
    benign_besideState.stateRead.bind fun _ => stateWrite_besideState _
  rw [after_unmetered]
  refine ((after_recordError_stored hs e p.1).and (hfixed.after p.1)).mono ?_
  rintro res t ⟨hstate, hunseen⟩
  obtain ⟨hsuccess, hhooks⟩ := Prod.mk.inj hunseen
  refine ⟨rfl, hsuccess, by dsimp only; rw [hhooks], fun stored h => ?_⟩
  by_cases hres : res = .ok ()
  · cases stored with
    | false => exact h
    | true =>
        obtain ⟨s, hstored, hm⟩ := h
        rw [hstored] at hstate
        exact ⟨_, hstate.1 hres, hm.errorState e⟩
  · exact h.kept (hstate.2 hres) rfl

/-! ### The runs of a process -/

/-- What a gauge of the last success reports: the time of the last pass that succeeded, once one
has. -/
def Timed (succeeded : Bool) (p : World sc × Metrics) : Prop :=
  if succeeded then
    ∃ now, p.1.lastSuccess = some now ∧ p.2.lastSuccessEpoch = Int64.ofNat now
  else p.2.lastSuccessEpoch = 0

/-- The instruments of a process that started in `w₀`, after so many passes of which these results
are entered, newest first, and of which one has stored its state or none has. -/
structure Books (w₀ : World sc) (passes : Nat) (results : List (Except Error Unit))
    (stored : Bool) (p : World sc × Metrics) : Prop where
  passes : p.2.syncTotal = passes
  errors : p.2.syncErrors = results.countP fun r => !r.isOk
  success : Timed (results.any Except.isOk) p
  hooks : Series.total p.2.hooksTotal + w₀.hooksStarted.length = p.1.hooksStarted.length
  told : Told stored p

namespace Books

variable {w₀ : World sc} {passes : Nat} {results : List (Except Error Unit)} {stored : Bool}
  {p q : World sc × Metrics}

/-- The books of a process that was just started. -/
theorem new (w₀ : World sc) : Books w₀ 0 [] false (w₀, .new) :=
  ⟨rfl, rfl, rfl, Nat.zero_add _, rfl⟩

/-- A part that leaves the counters alone enters nothing. -/
theorem parted {stored' : Bool} (h : Books w₀ passes results stored p)
    (hcounters : q.2.counters = p.2.counters) (hsuccess : q.1.lastSuccess = p.1.lastSuccess)
    (hhooks : Series.total q.2.hooksTotal + p.1.hooksStarted.length =
      Series.total p.2.hooksTotal + q.1.hooksStarted.length)
    (htold : Told stored' q) : Books w₀ passes results stored' q := by
  obtain ⟨hpasses, hrest⟩ := Prod.mk.inj hcounters
  obtain ⟨herrors, hepoch⟩ := Prod.mk.inj hrest
  refine ⟨hpasses.trans h.passes, herrors.trans h.errors, ?_, ?_, htold⟩
  · unfold Timed
    rw [hepoch, hsuccess]
    exact h.success
  · have hbefore := h.hooks
    omega

/-- A part of a pass is entered under what it stored. -/
theorem tells (h : Books w₀ passes results stored p) (hq : Tells p q) :
    Books w₀ passes results (stored || Stored p.1 q.1) q :=
  h.parted hq.counters hq.lastSuccess hq.hooks (hq.told _ h.told)

/-- A part outside a pass enters nothing. -/
theorem retells (h : Books w₀ passes results stored p) (hq : Retells p q) :
    Books w₀ passes results stored q :=
  h.parted hq.counters hq.lastSuccess hq.hooks (hq.told _ h.told)

/-- A pass is counted when it starts. -/
theorem start (h : Books w₀ passes results stored p) :
    Books w₀ (passes + 1) results stored (p.1, { p.2 with syncTotal := p.2.syncTotal + 1 }) :=
  ⟨congrArg (· + 1) h.passes, h.errors, h.success, h.hooks, h.told.kept rfl rfl⟩

/-- A pass that succeeded is entered with its time. -/
theorem succeeded (h : Books w₀ passes results stored p) (now : Nat) :
    Books w₀ passes (.ok () :: results) stored
      ({ p.1 with lastSuccess := some now },
        p.2.setLastSuccessEpoch (asI64 (UInt64.ofNat now))) := by
  refine ⟨h.passes, ?_, ⟨now, rfl, rfl⟩, h.hooks, h.told.kept rfl rfl⟩
  rw [List.countP_cons_of_neg (fun hok => by cases hok)]
  exact h.errors

/-- A pass that failed is entered. -/
theorem failed (h : Books w₀ passes results stored p) (e : Error) :
    Books w₀ passes (.error e :: results) stored
      (p.1, { p.2 with syncErrors := p.2.syncErrors + 1 }) := by
  refine ⟨h.passes, ?_, h.success, h.hooks, h.told.kept rfl rfl⟩
  rw [List.countP_cons_of_pos rfl]
  exact congrArg (· + 1) h.errors

/-- A pass is counted, its result is entered, and so is whether it stored its state. -/
theorem after_runOnce (hs : env.StateApi) (r : Reconciler) (h : Books w₀ passes results stored p) :
    After (runOnce env r) p fun res q =>
      Books w₀ (passes + 1) (res :: results) (stored || storesState env r p.1) q := by
  rw [runOnce, after_bind, after_record]
  dsimp only
  rw [after_bind, after_attempt]
  refine (((tells_reconcile hs r).after _).and ((erases_reconcile r).after _)).mono ?_
  rintro res q ⟨hq, -, hworld⟩
  -- The flag says whether this pass has stored its state, which the write log shows.
  have hpass : Books w₀ (passes + 1) results (stored || storesState env r p.1) q := by
    have hstores : storesState env r p.1 = Stored p.1 q.1 := by rw [hworld]; rfl
    rw [hstores]
    exact h.start.tells hq
  cases res with
  -- A success sets the time of the last one, and no other instrument.
  | ok _ =>
      have htime : Keeps (kept sc) (unmetered (timestampNow env) : Metered sc Nat) :=
        kept_of_unseen benign_unseen.timestampNow
      have htotal : Total (unmetered (timestampNow env) : Metered sc Nat) := fun _ => ⟨_, _, rfl⟩
      dsimp only
      rw [after_bind]
      refine ((htime.after q).and (htotal.after q)).mono ?_
      rintro _ t ⟨ht, now, rfl⟩
      exact (hpass.retells ht.retells).succeeded (now / second)
  | error e =>
      dsimp only
      rw [after_bind, after_record]
      dsimp only
      rw [after_bind, after_attempt]
      -- The error goes to the state as well, and to no further instrument.
      refine (after_recordError_retells hs e _).mono ?_
      intro _ t ht
      exact (hpass.failed e).retells ht

end Books

/-- A pass as a process has it on record: its result, and whether it stored its state. -/
structure PassRecord where
  result : Except Error Unit
  stored : Bool

/-- The runs of a process that starts in `w₀` with new instruments, with its passes on record,
newest first. A dry run of `sync` is no pass. -/
def processRuns (E : Env sc → Config → Prop) (w₀ : World sc) :
    System ((World sc × Metrics) × List PassRecord) where
  init s := s = ((w₀, .new), [])
  step s t := ∃ env cfg, E env cfg ∧ ∃ (cmd : Command) (secrets : Secrets) (holder : String),
    (cmd = .sync → cfg.dryRun = false) ∧
      t = (Act.state (runOnce env (cmd.reconciler cfg secrets holder) s.1),
        ⟨Act.value (runOnce env (cmd.reconciler cfg secrets holder) s.1),
          storesState env (cmd.reconciler cfg secrets holder) s.1.1⟩ :: s.2)

end LeanCd.Metered
