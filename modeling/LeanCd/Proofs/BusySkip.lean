import LeanCd.Calm
import LeanCd.RunLoop
import LeanCd.Proofs.WholePass

/-!
# `LeanCd.Proofs.BusySkip`: a skipped pass counts as a success

`reconcile` returns `Ok` when the Lease is busy or a shutdown ends the wait for it. So
`run_once` cannot tell a skipped pass from one that completed: it sets the time of the last
success, and `run_loop` forgets the failures before it.

`Controller` is the run of passes with the two counters, and a record of each pass. Between
two passes anything may happen outside the process. `Honest` says what the counters owe to
a pass. `passes_honest` proves it for every run in which no pass is skipped and the
controller is not a dry run, and `skip_forgets_failure` is a run with a skipped pass.

A pass that completes has stored its state (`WroteState`), which is what makes a time of the last
success honest. A pass that ends with an error leaves the time alone (`successKept`), and a
skipped one does neither.
-/

set_option autoImplicit false

namespace LeanCd.Reconcile

open Act Transition

variable {sc : Scopes} {env : Env sc} {r : Reconciler}

/-- How a pass ends. A busy Lease and a shutdown during the wait for it both skip the pass. -/
inductive PassOutcome where
  | completed
  | failed
  | skipped
deriving DecidableEq

/-- The outcome of a pass. -/
def passOutcome (env : Env sc) (r : Reconciler) (w : World sc) : PassOutcome :=
  match value (Lock.acquire env r.cfg r.holder w) with
  | .ok .busy => .skipped
  | _ => if (value (runOnce env r w)).isOk then .completed else .failed

/-- What a pass leaves to the next one: the world, and the failures in a row. -/
structure Progress (sc : Scopes) where
  world : World sc
  consecutiveFailures : UInt32

/-- A round of `run_loop` up to its delay. -/
def Progress.pass (env : Env sc) (r : Reconciler) (s : Progress sc) : Progress sc where
  world := state (runOnce env r s.world)
  consecutiveFailures :=
    match value (runOnce env r s.world) with
    | .ok _ => 0
    | .error _ => RunLoop.saturatingSucc32 s.consecutiveFailures

/-- The process stored a state between the two worlds. -/
def WroteState (w t : World sc) : Prop :=
  ∃ (new : List (Event sc)) (s : State), t.trace = new ++ w.trace ∧
    .stateWritten s.toData ∈ new ∧ t.stateCm = some s.toData

/-- A pass moves the time of the last success and resets the failures only by writing its
state, and a skipped one leaves both, the state and the cluster alone. -/
structure Honest (outcome : PassOutcome) (s t : Progress sc) : Prop where
  success : t.world.lastSuccess ≠ s.world.lastSuccess →
    outcome = .completed ∧ WroteState s.world t.world
  reset : s.consecutiveFailures ≠ 0 → t.consecutiveFailures = 0 →
    outcome = .completed ∧ WroteState s.world t.world
  skipped : outcome = .skipped →
    t.world.lastSuccess = s.world.lastSuccess ∧
      t.consecutiveFailures = s.consecutiveFailures ∧
      t.world.stateCm = s.world.stateCm ∧ t.world.trace = s.world.trace

/-! ### A pass that completes -/

/-- That the state was written is still so when neighbouring steps did not touch the cluster's
state. -/
theorem WroteState.of_untouched {w v t u : World sc} (hw : untouched.rel w v)
    (h : WroteState v t) (ht : untouched.rel t u) : WroteState w u := by
  obtain ⟨new, s, htrace, hmem, hstored⟩ := h
  obtain ⟨htrace', hstored'⟩ := Prod.mk.inj ht
  refine ⟨new, s, ?_, hmem, hstored'.trans hstored⟩
  rw [htrace', htrace, (Prod.mk.inj hw).1]

/-- A write that succeeds is the last event. -/
theorem after_stateWrite_wrote {s : State} {w v : World sc} (hv : (adds fun _ => True).rel w v) :
    After (State.write env s) v fun res t => res = .ok () → WroteState w t := by
  obtain ⟨new, htrace, -⟩ := hv
  rw [State.write, after_call]
  cases env.fault v.step .statePatch with
  | none =>
      intro _
      refine ⟨.stateWritten s.toData :: new, s, ?_, List.mem_cons_self .., rfl⟩
      show Event.stateWritten s.toData :: v.trace = _
      rw [htrace, List.cons_append]
  | refused e =>
      intro h
      cases h
  | lost e =>
      intro h
      cases h

/-- The branch of a pass only adds to the history. -/
theorem keeps_branch_adds (cfg : Config) (guard : LeaseGuard) (prev : Option State)
    (sync : SyncOutcome) (c : Classified) :
    Keeps (adds fun _ => True) (branch env cfg guard prev sync c) :=
  benign_adds.branch (allowsApply_adds (fun _ _ => trivial) fun _ _ _ _ _ => trivial)
    (allowsHooks_adds (fun _ => trivial) (fun _ _ _ _ _ => trivial) fun _ => trivial)
    (keeps_serveDelete_adds fun _ => trivial) guard prev sync

/-- Each branch of a pass that completes ends in the write of the state. -/
theorem after_execute_wrote (guard : LeaseGuard) (prev : Option State) (sync : SyncOutcome)
    (c : Classified) (w : World sc) :
    After (execute env r.cfg guard prev sync c) w fun res t => res = .ok () → WroteState w t := by
  have hb := @benign_adds _ env fun _ => True
  have hbranch := (@keeps_branch_adds _ env r.cfg guard prev sync c).after w
  rw [execute]
  refine After.bind_ok (by simp) (hbranch.mono fun _ t ht outcome _ => ?_)
  refine After.bind_ok (by simp) ?_
  refine ((hb.nextState guard prev sync c outcome).after t).mono fun _ u hu next _ => ?_
  refine After.bind_ok (by simp) ?_
  refine (after_stateWrite_wrote ((adds _).trans ht hu)).mono fun res v hv a ha => ?_
  exact fun _ => hv ha

/-- A pass under its Lease that succeeds has written its state. -/
theorem after_runOnce_wrote (hdry : r.cfg.dryRun = false) {w held : World sc}
    {guard : LeaseGuard}
    (hacquired : Lock.acquire env r.cfg r.holder w = .ok (.acquired guard) held) :
    After (runOnce env r) w fun res t => res = .ok () → WroteState w t := by
  have hb := @benign_untouched _ env
  have hheld : untouched.rel w held := (hb.acquire r.holder).of_ok hacquired
  -- Up to the branch nothing is written. The branch ends in the write of the state.
  have hinner : After (reconcileInner env r guard) held fun res t =>
      res = .ok () → WroteState w t := by
    rw [reconcileInner]
    refine After.bind_ok (by simp) ((hb.stateRead.after held).mono fun _ t₁ h₁ prev _ => ?_)
    refine After.bind_ok (by simp) ?_
    refine ((hb.checkout _ _).after t₁).mono fun _ t₂ h₂ sync _ => ?_
    refine After.bind_ok (by simp) ?_
    refine ((hb.touchLease guard).after t₂).mono fun _ t₃ h₃ _ _ => ?_
    rw [converge, after_bind, after_ofExcept]
    cases desired env sync.sha r.cfg (prevApplied prev) with
    | error e =>
        intro h
        cases h
    | ok c =>
        dsimp only
        rw [hdry, after_ite, if_neg (by decide)]
        -- The state that is there before the branch is the one at the start of the pass.
        have hstart := untouched.trans hheld (untouched.trans h₁ (untouched.trans h₂ h₃))
        exact (after_execute_wrote guard prev sync c t₃).mono fun _ t ht hok =>
          .of_untouched hstart (ht hok) rfl
  refine after_runOnce_ok (fun t now h => .of_untouched rfl h rfl) ?_
  rw [reconcile, after_bind, after_of_ok hacquired]
  simp only [after_bind, after_attempt, after_ofExcept]
  refine hinner.mono ?_
  intro res t ht
  exact (hb.release.after t).mono fun _ u hu hok => .of_untouched rfl (ht hok) hu

/-! ### A pass that fails -/

/-- The time of the last success stays. -/
def successKept (sc : Scopes) : Frame (World sc) := .fixed fun w => w.lastSuccess

/-- No interaction with the outside sets the time of the last success. -/
theorem benign_successKept : Benign env (successKept sc) :=
  ⟨⟨fun _ => rfl, fun _ _ => rfl⟩, fun _ _ => rfl, fun _ _ _ => rfl⟩

/-- Nor does any write to the cluster. -/
theorem blind_successKept : Blind (successKept sc) := fun _ _ _ _ => rfl

/-- A write of the state leaves the time of the last success alone, for it is the loop that sets it.
-/
theorem keeps_stateWrite_success (s : State) : Keeps (successKept sc) (State.write env s) :=
  benign_successKept.stateWrite fun _ => rfl

/-- So a whole pass leaves it alone. -/
theorem keeps_reconcile_success (r : Reconciler) : Keeps (successKept sc) (reconcile env r) := by
  have hb := @benign_successKept _ env
  have hblind := @blind_successKept sc
  refine hb.reconcile ?_
  cases hdry : r.cfg.dryRun with
  | true => exact hb.convergeDry hdry (hblind.allowsApply true)
  | false =>
      refine Benign.converge hdry ?_
      intro guard prev sync c _
      refine hb.execute (fun _ _ _ => keeps_stateWrite_success _) (fun _ _ => rfl) ?_
      exact hb.branch (hblind.allowsApply _ _) (hblind.allowsHooks _) hblind.serveDelete _ _ _

/-- A pass that fails leaves the time of the last success. -/
theorem after_runOnce_error (w : World sc) :
    After (runOnce env r) w fun res t => res ≠ .ok () → t.lastSuccess = w.lastSuccess := by
  have hreconcile := (@keeps_reconcile_success _ env r).after w
  refine after_runOnce_of (hreconcile.mono fun res t ht => ⟨?_, ?_⟩)
  · exact fun _ h => absurd rfl h
  · intro e _
    have hrecord : Keeps (successKept sc) (recordError env e) :=
      benign_successKept.stateRead.bind fun _ => keeps_stateWrite_success _
    exact (hrecord.after t).mono fun _ u hu _ => (successKept sc).trans ht hu

/-- An error of `acquire` is the error of the pass. -/
theorem after_runOnce_notAcquired {w : World sc}
    (hacquire : After (Lock.acquire env r.cfg r.holder) w fun res _ =>
      (∃ e, res = .ok (.err e)) ∨ ∃ e, res = .error e) :
    After (runOnce env r) w fun res _ => res ≠ .ok () := by
  have hreconcile : After (reconcile env r) w fun res _ => res ≠ .ok () := by
    rw [reconcile, after_bind]
    refine hacquire.mono ?_
    rintro _ t (⟨e, rfl⟩ | ⟨e, rfl⟩)
    · simp
    · simp
  refine after_runOnce_of (hreconcile.mono fun res t ht => ⟨?_, ?_⟩)
  · exact fun hok => absurd hok ht
  · exact fun e _ => .of_forall (by simp)

/-- A pass that is not skipped and returns `Ok` completed, and wrote its state. -/
theorem wroteState_of_ok (hdry : r.cfg.dryRun = false) {w : World sc}
    (hskip : passOutcome env r w ≠ .skipped) (hok : value (runOnce env r w) = .ok ()) :
    passOutcome env r w = .completed ∧ WroteState w (state (runOnce env r w)) := by
  unfold passOutcome at hskip ⊢
  cases hacquire : Lock.acquire env r.cfg r.holder w with
  -- The Lease could not even be asked for.
  | error e held =>
      refine absurd hok (after_runOnce_notAcquired ?_)
      rw [after_of_error hacquire]
      exact .inr ⟨e, rfl⟩
  | ok outcome held =>
      cases outcome with
      -- The Lease is busy, which is the outcome that is excluded.
      | busy =>
          rw [hacquire] at hskip
          exact absurd rfl hskip
      | err e =>
          refine absurd hok (after_runOnce_notAcquired ?_)
          rw [after_of_ok hacquire]
          exact .inl ⟨e, rfl⟩
      -- The Lease is held, so the pass ran.
      | acquired guard =>
          refine ⟨?_, after_runOnce_wrote hdry hacquire hok⟩
          show (if (value (runOnce env r w)).isOk then PassOutcome.completed else .failed) = _
          rw [hok]
          rfl

/-- A saturating successor is never zero, so after a failure the failures are counted. -/
theorem saturatingSucc32_ne_zero (n : UInt32) : RunLoop.saturatingSucc32 n ≠ 0 := by
  unfold RunLoop.saturatingSucc32
  split
  next h => simp [h]
  next h => grind

/-- A pass that is not skipped is honest. -/
theorem honest_pass (hdry : r.cfg.dryRun = false) (s : Progress sc)
    (hskip : passOutcome env r s.world ≠ .skipped) :
    Honest (passOutcome env r s.world) s (s.pass env r) := by
  cases hvalue : value (runOnce env r s.world) with
  -- The pass returned `Ok` and was not skipped, so it completed.
  | ok _ =>
      obtain ⟨hcompleted, hwrote⟩ := wroteState_of_ok hdry hskip hvalue
      exact ⟨fun _ => ⟨hcompleted, hwrote⟩, fun _ _ => ⟨hcompleted, hwrote⟩,
        fun h => absurd h hskip⟩
  -- The pass failed. The time of the last success stays, and the failure is counted.
  | error e =>
      have hkept : (s.pass env r).world.lastSuccess = s.world.lastSuccess :=
        after_runOnce_error s.world (by rw [hvalue]; simp)
      have hcount : (s.pass env r).consecutiveFailures =
          RunLoop.saturatingSucc32 s.consecutiveFailures := by
        unfold Progress.pass
        rw [hvalue]
      refine ⟨fun h => absurd hkept h, ?_, fun h => absurd h hskip⟩
      intro _ hzero
      rw [hcount] at hzero
      exact absurd hzero (saturatingSucc32_ne_zero _)

/-! ### A pass that is skipped -/

/-- A skipped pass changes nothing of the cluster or the state, and counts as a success. -/
theorem after_runOnce_busy {w held : World sc}
    (hbusy : Lock.acquire env r.cfg r.holder w = .ok .busy held) :
    After (runOnce env r) w fun res t => res = .ok () ∧ untouched.rel w t ∧
      t.lastSuccess = some (env.wallClock held.step / second) := by
  have hheld : untouched.rel w held := (benign_untouched.acquire r.holder).of_ok hbusy
  rw [runOnce, after_bind, after_attempt, reconcile, after_bind, after_of_ok hbusy]
  simp only [timestampNow, after_bind, after_tick, after_pure, after_modify]
  exact ⟨trivial, hheld, trivial⟩

/-! ### Runs -/

/-- A controller between two passes, with its passes so far, newest first. -/
structure Controller (sc : Scopes) where
  now : Progress sc
  passes : List (PassOutcome × Progress sc × Progress sc)

namespace Controller

/-- The next pass, which is put on record. -/
def pass (env : Env sc) (r : Reconciler) (s : Controller sc) : Controller sc where
  now := s.now.pass env r
  passes := (passOutcome env r s.now.world, s.now, s.now.pass env r) :: s.passes

/-- A pass, or what happens outside the process. -/
inductive Step (env : Env sc) (r : Reconciler) : Controller sc → Controller sc → Prop
  | pass (s : Controller sc) : Step env r s (s.pass env r)
  | outside (s : Controller sc) (w : World sc) : w.trace = s.now.world.trace →
      w.lastSuccess = s.now.world.lastSuccess → Step env r s { s with now.world := w }

/-- The runs of the controller. -/
def system (env : Env sc) (r : Reconciler) : System (Controller sc) where
  init s := s.now.consecutiveFailures = 0 ∧ s.passes = []
  step := Step env r

/-- A step that is a pass is one that `acquire` does not skip. -/
def NotSkipped (env : Env sc) (r : Reconciler) (s t : Controller sc) : Prop :=
  t.passes ≠ s.passes → passOutcome env r s.now.world ≠ .skipped

/-- In a run of which no pass is skipped, every pass is honest. -/
theorem passes_honest (hdry : r.cfg.dryRun = false) {s : Controller sc}
    (hs : ((system env r).restrict (NotSkipped env r)).Reachable s) :
    ∀ p ∈ s.passes, Honest p.1 p.2.1 p.2.2 := by
  have hinv : ((system env r).restrict (NotSkipped env r)).Invariant fun s =>
      ∀ p ∈ s.passes, Honest p.1 p.2.1 p.2.2 := by
    constructor
    · rintro s ⟨-, hnone⟩
      simp [hnone]
    · rintro s t _ ih ⟨hstep, hskip⟩
      cases hstep with
      | pass =>
          have hpass := honest_pass hdry s.now (hskip (List.cons_ne_self _ _))
          exact List.forall_mem_cons.mpr ⟨hpass, ih⟩
      | outside w _ _ => exact ih
  exact hinv.holds hs

/-! ### Two runs -/

/-- A controller of the repository with one document, as it starts. -/
def fresh : Controller .namespacedOnly := ⟨⟨.fresh ∅ none, 0⟩, []⟩

/-- Its first pass completes. -/
theorem passes_honest_synced :
    ∃ p ∈ (fresh.pass syncedEnv (syncedPass .off)).passes,
      p.1 = .completed ∧ Honest p.1 p.2.1 p.2.2 := by
  have hskip : NotSkipped syncedEnv (syncedPass .off) fresh
      (fresh.pass syncedEnv (syncedPass .off)) := fun _ => by decide +kernel
  have hrun : ((system syncedEnv (syncedPass .off)).restrict
      (NotSkipped syncedEnv (syncedPass .off))).Reachable
        (fresh.pass syncedEnv (syncedPass .off)) :=
    .step (.init ⟨rfl, rfl⟩) ⟨.pass _, hskip⟩
  refine ⟨_, List.mem_cons_self .., ?_, passes_honest rfl hrun _ (List.mem_cons_self ..)⟩
  decide +kernel

/-- The API server refuses the first two calls, for the Lease and for the state. -/
def unreachable : Env .namespacedOnly :=
  { syncedEnv with fault := fun n _ => if n ≤ 4 then .refused ⟨some 500, "down"⟩ else .none }

/-- A controller that does not wait for the Lease. -/
def impatient : Reconciler :=
  ⟨{ settingsCfg with lockWaitTimeout := 0 }, ⟨none, none, none⟩, none, "pod:1"⟩

/-- The controller after a pass that failed. -/
def failedOnce : Controller .namespacedOnly := fresh.pass unreachable impatient

/-- Then another process takes the Lease. -/
def takenByPeer : Controller .namespacedOnly :=
  { failedOnce with
    now.world.lease := some (Lock.buildLease "pod:2" 60 0 failedOnce.now.world.nextRv) }

/-- The pass that finds the Lease busy forgets the failure and reports a success, and nothing
was ever written. -/
theorem skip_forgets_failure :
    (system unreachable impatient).Reachable (takenByPeer.pass unreachable impatient) ∧
      impatient.cfg.dryRun = false ∧
      passOutcome unreachable impatient takenByPeer.now.world = .skipped ∧
      takenByPeer.now.consecutiveFailures = 1 ∧
      (takenByPeer.pass unreachable impatient).now.consecutiveFailures = 0 ∧
      takenByPeer.now.world.lastSuccess = none ∧
      (takenByPeer.pass unreachable impatient).now.world.lastSuccess = some 0 ∧
      (takenByPeer.pass unreachable impatient).now.world.stateCm = none ∧
      ∃ p ∈ (takenByPeer.pass unreachable impatient).passes, ¬Honest p.1 p.2.1 p.2.2 := by
  have hfailed : (system unreachable impatient).Reachable failedOnce :=
    .step (.init ⟨rfl, rfl⟩) (.pass _)
  have htaken : (system unreachable impatient).Reachable takenByPeer :=
    .step hfailed (.outside _ _ rfl rfl)
  have hskipped : passOutcome unreachable impatient takenByPeer.now.world = .skipped := rfl
  refine ⟨.step htaken (.pass _), rfl, hskipped, rfl, rfl, rfl, rfl, rfl, ?_⟩
  refine ⟨_, List.mem_cons_self .., ?_⟩
  intro h
  have hcount := (h.skipped hskipped).2.1
  cases hcount

end Controller

end LeanCd.Reconcile
