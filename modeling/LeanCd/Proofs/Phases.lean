import LeanCd.Proofs.Actions
import LeanCd.Proofs.FailedPass

/-!
# `LeanCd.Proofs.Phases`: the phases of a pass

A pass that has parsed its files performs the actions of one of three plans. `Follows` writes
the plans down, with the ways in which a hook cuts them short: a pre-sync or pre-delete hook
that fails is the last action, and a post-sync or post-delete hook that fails changes only what
the pass reports.

`phase_discipline` says that every such pass follows its plan, whatever the API server answers,
and that nothing but its own write of the state can then fail it.

The plans are languages over the actions of `LeanCd.Proofs.Actions`, and a pass follows one when
its log is in it. The proof builds the log along the program text with the rules of
`LeanCd.Lib.Log`. The branch on the mode comes first, because the mode is decided before any
action is performed.
-/

set_option autoImplicit false

namespace LeanCd.Reconcile

open Act

variable {sc : Scopes} {env : Env sc} {cfg : Config} {guard : LeaseGuard} {prev : Option State}
  {c : Classified}

/-! ### The plans -/

/-- The actions of the hooks of a phase in order: all pass, or all before the first that fails
do. -/
def Phase (hooks : List HookInfo) : Option String → List Action → Prop
  | none, acts => acts = hooks.map (.hook · none)
  | some reason, acts => ∃ before info after, hooks = before ++ info :: after ∧
      acts = before.map (.hook · none) ++ [.hook info (some reason)]

/-- One attempt to apply each manifest in order, and the keys of those that failed. -/
inductive Attempts : List RawManifest → List Action → List ResourceKey → Prop
  | nil : Attempts [] [] []
  | applied {m : RawManifest} {ms : List RawManifest} {acts : List Action}
      {failed : List ResourceKey} (h : Attempts ms acts failed) :
      Attempts (m :: ms) (.attempt m false :: acts) failed
  | failed {m : RawManifest} {ms : List RawManifest} {acts : List Action}
      {failed : List ResourceKey} (h : Attempts ms acts failed) :
      Attempts (m :: ms) (.attempt m true :: acts) (.fromManifest m :: failed)

/-- The apply between its hooks: the actions, and the error it ends with or the one it
records. -/
inductive Synced (c : Classified) : List Action → Except Error (Option String) → Prop
  | stopped {reason : String} {acts : List Action}
      (hpre : Phase (Hooks.sortByWeight c.pre) (some reason) acts) :
      Synced c acts (.error (.hook ("pre-sync hook failed: " ++ reason)))
  | through {pre applies post : List Action} {failed : List ResourceKey}
      {failure : Option String} (hpre : Phase (Hooks.sortByWeight c.pre) none pre)
      (happly : Attempts c.main applies failed)
      (hpost : Phase (Hooks.sortByWeight c.post) failure post) :
      Synced c (pre ++ (applies ++ post))
        (.ok (failure.map ("post-sync hook failed: " ++ ·)))

/-- The plans of a pass, by its mode. -/
inductive Follows (c : Classified) : Mode → List Action → Except Error (Option String) → Prop
  | preDeleteFailed {reason : String} {acts : List Action}
      (hpre : Phase (Hooks.sortByWeight c.preDelete) (some reason) acts) :
      Follows c .teardown acts (.error (.hook ("pre-delete hook failed: " ++ reason)))
  | tornDown {pre post : List Action} {deleted : List ResourceKey} {failure : Option String}
      (hpre : Phase (Hooks.sortByWeight c.preDelete) none pre)
      (hpost : Phase (Hooks.sortByWeight c.postDelete) failure post) :
      Follows c .teardown (pre ++ .prune deleted :: post)
        (.ok (failure.map ("post-delete hook failed: " ++ ·)))
  | notApplied {acts : List Action} {e : Error} (h : Synced c acts (.error e)) :
      Follows c .fullApply acts (.error e)
  | applied {acts : List Action} {deleted : List ResourceKey} {failure : Option String}
      (h : Synced c acts (.ok failure)) :
      Follows c .fullApply (acts ++ [.prune deleted]) (.ok failure)
  | driftNotApplied {drifts : List DriftItem} {acts : List Action} {e : Error}
      (hdrift : drifts ≠ []) (h : Synced c acts (.error e)) :
      Follows c .driftCheck (.detect drifts :: acts) (.error e)
  | driftApplied {drifts : List DriftItem} {acts : List Action} {deleted : List ResourceKey}
      {failure : Option String} (hdrift : drifts ≠ []) (h : Synced c acts (.ok failure)) :
      Follows c .driftCheck (.detect drifts :: acts ++ [.prune deleted]) (.ok failure)
  | steady {deleted : List ResourceKey} :
      Follows c .driftCheck [.detect [], .prune deleted] (.ok none)

/-! ### The parts of a branch -/

/-- A loop of hooks logs those that it started. By induction on the list: a failure ends it,
otherwise the rest follows. -/
theorem logs_runHooks (hooks : List HookInfo) :
    Logs (actions env cfg guard prev c) (Hooks.runHooks env cfg guard hooks) fun res acts =>
      ∃ outcome, res = .ok outcome ∧ Phase hooks (outcome.failures.head?.map (·.2)) acts := by
  induction hooks with
  | nil => exact .pure ⟨_, rfl, rfl⟩
  | cons info rest ih =>
      have hstart : Logs (actions env cfg guard prev c) (startHook env cfg guard info)
          fun res acts => ∃ failure, res = .ok failure ∧ acts = [.hook info failure] :=
        Logs.action ((total_note _).bind fun _ => Hooks.total_runOne info guard)
          fun _ _ _ hrun => hrun
      rw [Hooks.runHooks, ← bind_assoc]
      refine hstart.bind_ok ?_
      intro failure acts hacts
      rw [hacts]
      cases failure with
      | some reason => exact .pure ⟨_, rfl, [], info, rest, rfl, rfl⟩
      | none =>
          refine ih.bind_ok ?_
          intro outcome acts' hphase
          refine .pure ⟨_, rfl, ?_⟩
          rw [List.append_nil]
          dsimp only
          -- The hooks after this one stop where they stop without it.
          cases hfailure : outcome.failures.head?.map (·.2) with
          | none =>
              rw [hfailure] at hphase
              have hphase : acts' = rest.map (.hook · none) := hphase
              simp [Phase, hphase]
          | some reason =>
              rw [hfailure] at hphase
              obtain ⟨before, failing, after, hrest, hacts'⟩ := hphase
              exact ⟨info :: before, failing, after, by simp [hrest], by simp [hacts']⟩

/-- The hooks before an apply: a failure among them is an error, and ends the branch. -/
theorem logs_preHooks (label : String) (hooks : List HookInfo) :
    Logs (actions env cfg guard prev c) (preHooks env cfg guard label hooks) fun res acts =>
      (res = .ok () ∧ Phase (Hooks.sortByWeight hooks) none acts) ∨
        ∃ reason, res = .error (.hook (label ++ " hook failed: " ++ reason)) ∧
          Phase (Hooks.sortByWeight hooks) (some reason) acts := by
  refine (logs_runHooks (Hooks.sortByWeight hooks)).bind_ok ?_
  intro outcome acts hphase
  obtain ⟨attempted, failures⟩ := outcome
  cases failures with
  | nil =>
      refine .pure (.inl ⟨rfl, ?_⟩)
      rwa [List.append_nil]
  | cons failure rest =>
      refine .throw (.inr ⟨failure.2, rfl, ?_⟩)
      rwa [List.append_nil]

/-- The hooks after an apply: a failure among them is a value, so that the state can still be
written. -/
theorem logs_postHooks (label : String) (hooks : List HookInfo) :
    Logs (actions env cfg guard prev c) (postHooks env cfg guard label hooks) fun res acts =>
      ∃ failure, res = .ok failure ∧ ∃ reason,
        failure = reason.map (label ++ " hook failed: " ++ ·) ∧
          Phase (Hooks.sortByWeight hooks) reason acts := by
  refine (logs_runHooks (Hooks.sortByWeight hooks)).bind_ok ?_
  intro outcome acts hphase
  obtain ⟨attempted, failures⟩ := outcome
  cases failures with
  | nil =>
      refine .pure ⟨none, rfl, none, rfl, ?_⟩
      rwa [List.append_nil]
  | cons failure rest =>
      refine .pure ⟨_, rfl, some failure.2, rfl, ?_⟩
      rwa [List.append_nil]

/-- The stored text of each manifest parses again. -/
def Reparses (env : Env sc) (ms : List RawManifest) : Prop :=
  ∀ m ∈ ms, ∃ v, env.yaml.fromSlice m.data = .ok v

/-- A manifest whose document parses again can be labelled. -/
theorem Reparses.labelled {ms : List RawManifest} (h : Reparses env ms) {m : RawManifest}
    (hm : m ∈ ms) : ∃ value, Hooks.labelledValue env cfg m = .ok value := by
  obtain ⟨v, hv⟩ := h m hm
  exact ⟨_, by rw [Hooks.labelledValue, hv]⟩

/-- An attempt to apply such a manifest does not throw. Its failures are values. -/
theorem total_attemptApply {m : RawManifest} {value : Value}
    (hvalue : Hooks.labelledValue env cfg m = .ok value) (cache : KubeUtil.DiscoveryCache) :
    Total (attemptApply env cfg false m cache) := by
  refine (Total.attempt _).bind ?_
  intro resolved
  cases resolved with
  | error e => exact .pure _
  | ok cache =>
      dsimp only
      rw [hvalue]
      refine (total_note _).bind fun _ => (Total.attempt _).bind ?_
      intro applied
      cases applied with
      | error e => exact .pure _
      | ok o => exact .pure _

/-- All manifests are attempted, one after the other, and the failed ones returned. -/
theorem logs_applyAll {ms : List RawManifest} (hparse : Reparses env ms)
    (cache : KubeUtil.DiscoveryCache) :
    Logs (actions env cfg guard prev c) (applyAll env cfg false ms cache) fun res acts =>
      ∃ failed, res = .ok failed ∧ Attempts ms acts failed := by
  induction ms generalizing cache with
  | nil => exact .pure ⟨[], rfl, .nil⟩
  | cons m rest ih =>
      obtain ⟨value, hvalue⟩ : ∃ value, Hooks.labelledValue env cfg m = .ok value :=
        hparse.labelled List.mem_cons_self
      -- One turn is one action of the log, whatever has gone wrong in it.
      have hround : Logs (actions env cfg guard prev c) (attemptApply env cfg false m cache)
          fun res acts => ∃ r, res = .ok r ∧ acts = [.attempt m r.1] :=
        Logs.action (total_attemptApply hvalue cache) fun _ _ _ hrun => ⟨cache, _, hrun⟩
      rw [applyAll_cons]
      refine hround.bind_ok ?_
      intro r acts hacts
      refine (ih (fun m' hm => hparse m' (List.mem_cons_of_mem m hm)) r.2).bind_ok ?_
      intro failed acts' hattempts
      refine .pure ⟨_, rfl, ?_⟩
      rw [hacts, List.append_nil]
      -- A failed attempt is remembered and the loop goes on.
      cases r.1 with
      | true => exact .failed hattempts
      | false => exact .applied hattempts

/-! ### The branches -/

/-- What a branch reports, as far as the plans speak of it. -/
def reported (res : Except Error BranchOutcome) : Except Error (Option String) :=
  res.map (·.postError)

/-- The hooks around an apply, and something quiet after it. -/
theorem logs_synced (hparse : Reparses env c.main) {α : Type} {between : Pass sc α}
    (hquiet : Keeps (onlyInteracts env) between) (htotal : Total between)
    (drifts : List DriftItem) (live : α → List DynamicObject) :
    Logs (actions env cfg guard prev c) (do
      preHooks env cfg guard "pre-sync" c.pre
      let applyFailures ← applyAll env cfg false c.main []
      let a ← between
      let postError ← postHooks env cfg guard "post-sync" c.post
      return { drifts, applyFailures, postError, healthLive := live a : BranchOutcome })
      fun res acts => Synced c acts (reported res) := by
  refine (logs_preHooks "pre-sync" c.pre).bind ?_ ?_
  · intro e acts h
    rcases h with ⟨hres, -⟩ | ⟨reason, hres, hphase⟩
    -- The hooks before the sync failed, and nothing else is done.
    · cases hres
    · cases hres
      exact .stopped hphase
  · intro _ pre h
    rcases h with ⟨-, hpre⟩ | ⟨reason, hres, -⟩
    -- What comes between the applies and the hooks after them writes nothing.
    · refine (logs_applyAll hparse []).bind_ok ?_
      intro failed applies happly
      refine Logs.quiet_bind hquiet htotal ?_
      intro a
      refine (logs_postHooks "post-sync" c.post).bind_ok ?_
      intro postError post hpost
      obtain ⟨reason, rfl, hpost⟩ := hpost
      refine .pure ?_
      rw [List.append_nil]
      exact .through hpre happly hpost
    · cases hres

/-- A full apply: hooks, applies, hooks, and its report says which of them failed. -/
theorem logs_fullApplyBranch (hparse : Reparses env c.main) :
    Logs (actions env cfg guard prev c) (fullApplyBranch env cfg guard c)
      fun res acts => Synced c acts (reported res) :=
  logs_synced hparse (benign_onlyInteracts.collectForHealth c.main)
    (total_collectForHealth c.main) [] fun live => live

/-- A drift check logs the drifts that it found. -/
theorem logs_detectDrift :
    Logs (actions env cfg guard prev c) (detectDrift env cfg c.main) fun res acts =>
      ∃ r, res = .ok r ∧ acts = [.detect r.1] :=
  Logs.action (total_detectDrift c.main) fun _ r _ hrun => ⟨r.2, hrun⟩

/-- The drift check looks for drift, and applies when it finds some. -/
theorem logs_driftBranch (hparse : Reparses env c.main) :
    Logs (actions env cfg guard prev c) (driftBranch env cfg guard c) fun res acts =>
      (acts = [.detect []] ∧ reported res = .ok none) ∨
        ∃ drifts acts', drifts ≠ [] ∧ acts = .detect drifts :: acts' ∧
          Synced c acts' (reported res) := by
  refine logs_detectDrift.bind_ok ?_
  intro r acts hacts
  obtain ⟨drifts, live⟩ := r
  rw [hacts]
  dsimp only
  cases drifts with
  | nil => exact .pure (.inl ⟨rfl, rfl⟩)
  | cons d ds =>
      have hquiet : Keeps (onlyInteracts env) (pure () : Pass sc Unit) := .pure ()
      have hsynced : Logs (actions env cfg guard prev c) _ _ :=
        logs_synced hparse hquiet (.pure ()) (d :: ds) fun _ => live
      simp only [pure_bind] at hsynced
      exact hsynced.mono fun res acts' h => .inr ⟨d :: ds, acts', by simp, rfl, h⟩

/-- A prune logs what it deleted. -/
theorem logs_pruneAction :
    Logs (actions env cfg guard prev c)
      (Prune.prune env cfg (prevApplied prev) (ResourceKey.keysOf c.main)) fun res acts =>
        ∃ deleted, res = .ok deleted ∧ acts = [.prune deleted] :=
  Logs.action (Prune.total_prune _ _) fun _ _ _ hrun => hrun

/-- A teardown: the prune between its own two phases of hooks. -/
theorem logs_teardownBranch :
    Logs (actions env cfg guard prev c) (teardownBranch env cfg guard c (prevApplied prev))
      fun res acts => Follows c .teardown acts (reported res) := by
  refine (logs_preHooks "pre-delete" c.preDelete).bind ?_ ?_
  · intro e acts h
    -- The hooks before the delete failed, so nothing is pruned.
    rcases h with ⟨hres, -⟩ | ⟨reason, hres, hphase⟩
    · cases hres
    · cases hres
      exact .preDeleteFailed hphase
  · intro _ pre h
    rcases h with ⟨-, hpre⟩ | ⟨reason, hres, -⟩
    -- The prune is one action with the list of what it has deleted.
    · refine logs_pruneAction.bind_ok ?_
      intro deleted acts hacts
      refine (logs_postHooks "post-delete" c.postDelete).bind_ok ?_
      intro postError post hpost
      obtain ⟨reason, rfl, hpost⟩ := hpost
      refine .pure ?_
      rw [hacts, List.append_nil]
      exact .tornDown hpre hpost
    · cases hres

/-- The prune after a branch that is not a teardown. -/
theorem logs_then_prune {m : Pass sc BranchOutcome}
    {P : Except Error (Option String) → List Action → Prop}
    {Q : Except Error (Option String) → List Action → Prop}
    (hm : Logs (actions env cfg guard prev c) m fun res acts => P (reported res) acts)
    (herror : ∀ e acts, P (.error e) acts → Q (.error e) acts)
    (hok : ∀ failure acts deleted, P (.ok failure) acts →
      Q (.ok failure) (acts ++ [.prune deleted])) :
    Logs (actions env cfg guard prev c) (do
      let outcome ← m
      let _ ← Prune.prune env cfg (prevApplied prev) (ResourceKey.keysOf c.main)
      return outcome) fun res acts => Q (reported res) acts := by
  refine hm.bind (fun e acts h => herror e acts h) ?_
  intro outcome acts h
  refine logs_pruneAction.bind_ok ?_
  intro deleted acts' hacts'
  refine .pure ?_
  rw [hacts', List.append_nil]
  exact hok outcome.postError acts deleted h

/-- A branch follows the plan of its mode. -/
theorem logs_branch (hparse : Reparses env c.main) (sync : SyncOutcome) :
    Logs (actions env cfg guard prev c) (branch env cfg guard prev sync c) fun res acts =>
      Follows c (modeOf prev sync c) acts (reported res) := by
  rw [branch_eq_branchOf]
  cases modeOf prev sync c with
  | teardown => exact logs_teardownBranch
  -- A full apply and a drift check share the branch and differ in what precedes the apply.
  | fullApply =>
      refine logs_then_prune (P := fun ended acts => Synced c acts ended)
        (Q := fun ended acts => Follows c .fullApply acts ended) (logs_fullApplyBranch hparse) ?_ ?_
      · intro e acts h
        exact .notApplied h
      · intro failure acts deleted h
        exact .applied h
  | driftCheck =>
      refine logs_then_prune
        (P := fun ended acts => (acts = [.detect []] ∧ ended = .ok none) ∨
          ∃ drifts acts', drifts ≠ [] ∧ acts = .detect drifts :: acts' ∧ Synced c acts' ended)
        (Q := fun ended acts => Follows c .driftCheck acts ended) (logs_driftBranch hparse) ?_ ?_
      · intro e acts h
        -- A branch that failed had found drift.
        rcases h with ⟨-, hended⟩ | ⟨drifts, acts', hdrifts, rfl, h⟩
        · cases hended
        · exact .driftNotApplied hdrifts h
      · intro failure acts deleted h
        -- Without drift nothing but the prune follows the detection.
        rcases h with ⟨rfl, hended⟩ | ⟨drifts, acts', hdrifts, rfl, h⟩
        · cases hended
          exact .steady
        · exact .driftApplied hdrifts h

/-! ### The whole pass -/

/-- What a pass makes of the end of its branch. A hook error is the error of the pass. A branch
that was not cut short reports in the stored state, and only the write of the state can still
fail. -/
structure Closes (env : Env sc) (ended : Except Error (Option String)) (res : Except Error Unit)
    (t : World sc) : Prop where
  stopped : ∀ e, ended = .error e → res = .error e
  surfaced : ∀ failure, ended = .ok failure →
    res = .ok () ∧ t.stored.map (·.lastError) = some failure ∨
      ∃ n e, (env.fault n .statePatch = .refused e ∨ env.fault n .statePatch = .lost e) ∧
        res = .error (.kube e)

/-- From `s` to `t`, the actions of a plan and then writes of the state. -/
def Planned (env : Env sc) (cfg : Config) (guard : LeaseGuard) (prev : Option State)
    (sync : SyncOutcome) (c : Classified) (s : World sc) (res : Except Error Unit)
    (t : World sc) : Prop :=
  ∃ acts ended u, Follows c (modeOf prev sync c) acts ended ∧
    Performs (actions env cfg guard prev c) acts s u ∧
    (adds fun e => ∃ v, e = .stateWritten v).rel u t ∧ Closes env ended res t

/-- What neither writes nor stores does not matter at the end. -/
theorem Planned.congr {sync : SyncOutcome} {s t u : World sc} {res : Except Error Unit}
    (h : Planned env cfg guard prev sync c s res t) (hu : untouched.rel t u) :
    Planned env cfg guard prev sync c s res u := by
  obtain ⟨acts, ended, v, hfollows, hperforms, hwrites, hcloses⟩ := h
  have hstored : u.stored = t.stored := congrArg (Option.map State.fromData) (Prod.mk.inj hu).2
  refine ⟨acts, ended, v, hfollows, hperforms, (adds _).trans hwrites (adds_of_untouched hu),
    hcloses.stopped, ?_⟩
  rw [hstored]
  exact hcloses.surfaced

/-- A write of the state stores it, or its call fails. -/
theorem after_stateWrite_fault (s : State) (w : World sc) :
    After (State.write env s) w fun res t =>
      (adds fun e => ∃ v, e = .stateWritten v).rel w t ∧
      (res = .ok () ∧ t.stored = some s ∨
        ∃ n e, (env.fault n .statePatch = .refused e ∨ env.fault n .statePatch = .lost e) ∧
          res = .error (.kube e)) := by
  refine After.and ?_ ?_
  · exact (Benign.after_stateWrite s w).mono fun res t ht =>
      adds_mono (fun e he => ⟨s.toData, he⟩) ht.1
  · rw [State.write, after_call]
    cases hfault : env.fault w.step .statePatch with
    | none => exact .inl ⟨rfl, World.stored_of_stateCm rfl⟩
    | refused e => exact .inr ⟨_, e, .inl hfault, rfl⟩
    | lost e => exact .inr ⟨_, e, .inr hfault, rfl⟩

/-- The execution of a pass logs the plan of its mode, and ends in a state that records what was
done. -/
theorem after_execute_planned (hparse : Reparses env c.main) (sync : SyncOutcome)
    (s : World sc) :
    After (execute env cfg guard prev sync c) s (Planned env cfg guard prev sync c s) := by
  rw [execute, after_bind]
  refine (logs_branch hparse sync s).mono ?_
  intro res t ht
  obtain ⟨acts, hperforms, hfollows⟩ := ht
  cases res with
  | error e =>
      refine ⟨acts, .error e, t, hfollows, hperforms, (adds _).refl t, ?_, by simp⟩
      intro e' he'
      cases he'
      rfl
  | ok outcome =>
      -- Computing the next state reads and writes nothing, and keeps the failure of the hooks.
      have hnext : After (nextState env cfg guard prev sync c outcome) t fun res u =>
          ∃ next, res = .ok next ∧ next.lastError = outcome.postError ∧ untouched.rel t u := by
        refine ((((total_nextState guard prev sync c outcome).after t).and
          ((Benign.returns_nextState guard prev sync c outcome).after t)).and
          ((benign_untouched.nextState guard prev sync c outcome).after t)).mono ?_
        intro res u h
        obtain ⟨⟨⟨next, rfl⟩, hnext⟩, hu⟩ := h
        obtain ⟨health, epoch, rfl⟩ := hnext next rfl
        exact ⟨_, rfl, rfl, hu⟩
      dsimp only
      rw [after_bind]
      refine hnext.mono ?_
      intro res u h
      obtain ⟨next, rfl, hlast, hu⟩ := h
      dsimp only
      rw [after_bind]
      refine (after_stateWrite_fault next u).mono ?_
      intro res v hv
      obtain ⟨hwrites, hv⟩ := hv
      have hwrites : (adds fun e => ∃ v, e = .stateWritten v).rel t v :=
        (adds _).trans (adds_of_untouched hu) hwrites
      -- Either the state was written and shows the failure, or the write of the state has failed.
      rcases hv with ⟨rfl, hstored⟩ | ⟨n, e, hfault, rfl⟩
      · refine ⟨acts, .ok outcome.postError, t, hfollows, hperforms, hwrites, by simp, ?_⟩
        intro failure hended
        cases hended
        have hreported : v.stored.map (·.lastError) = some outcome.postError := by
          rw [hstored, Option.map_some, hlast]
        exact .inl ⟨rfl, hreported⟩
      · exact ⟨acts, .ok outcome.postError, t, hfollows, hperforms, hwrites, by simp,
          fun _ _ => .inr ⟨n, e, hfault, rfl⟩⟩

variable {r : Reconciler} {w : World sc}

/-- A pass that fails after its branch adds the write of its error. -/
theorem keeps_recordError_writes (e : Error) :
    Keeps (adds fun e => ∃ v, e = .stateWritten v) (recordError env e) := by
  refine benign_adds.stateRead.bind ?_
  intro prior
  refine benign_adds.stateWrite ?_
  intro w
  exact adds_cons rfl ⟨_, rfl⟩

/-- The pass `x` on the manifests `c`, which ends with `res` in the world `t`: it follows its
plan, its changes are those of the actions in order, and after them it writes the state. -/
def Disciplined (x : Started env r w) (c : Classified) (res : Except Error Unit) (t : World sc) :
    Prop :=
  ∃ acts ended u, Follows c (modeOf x.prev x.sync c) acts ended ∧
    Performs (actions env r.cfg x.guard x.prev c) acts x.start u ∧
    (∃ es ∈ (acts.map (Action.events env r.cfg x.prev c)).prod, ∃ writes,
      t.trace = writes ++ (es.reverse ++ w.trace) ∧ ∀ e ∈ writes, ∃ v, e = .stateWritten v) ∧
    Closes env ended res t

/-- What was planned is what the discipline asks for. -/
theorem Planned.disciplined {x : Started env r w} {res : Except Error Unit} {t : World sc}
    (h : Planned env r.cfg x.guard x.prev x.sync c x.start res t) : Disciplined x c res t := by
  obtain ⟨acts, ended, u, hfollows, hperforms, hwrites, hcloses⟩ := h
  obtain ⟨es, hes, htrace⟩ := changes_of_actions hperforms
  obtain ⟨writes, hwritten, hall⟩ := hwrites
  have hstart : x.start.trace = w.trace := (Prod.mk.inj (x.rel benign_untouched)).1
  refine ⟨acts, ended, u, hfollows, hperforms, ⟨es, hes, writes, ?_, hall⟩, hcloses⟩
  rw [hwritten, htrace, hstart]

/-- A pass is a teardown exactly when every main manifest has left Git and something was
applied. -/
theorem modeOf_eq_teardown (prev : Option State) (sync : SyncOutcome) (c : Classified) :
    modeOf prev sync c = .teardown ↔ c.main = [] ∧ prevApplied prev ≠ [] := by
  unfold modeOf isTeardown
  cases c.main <;> cases prevApplied prev <;> cases shouldFullApply prev.isSome sync.changed <;>
    simp

/-- **Phase discipline.** A pass that has parsed its files performs the actions of its plan. -/
theorem phase_discipline (hlive : r.cfg.dryRun = false) (x : Started env r w)
    (hc : desired env x.sync.sha r.cfg (prevApplied x.prev) = .ok c)
    (hparse : Reparses env c.main) :
    (modeOf x.prev x.sync c = .teardown ↔ c.main = [] ∧ prevApplied x.prev ≠ []) ∧
      After (runOnce env r) w (Disciplined x c) := by
  refine ⟨modeOf_eq_teardown _ _ _, ?_⟩
  -- The plan holds for the pass from its start, which is where the branch is chosen.
  have hreconcile : After (reconcile env r) w
      (Planned env r.cfg x.guard x.prev x.sync c x.start) := by
    refine x.after_reconcile ?_ fun res t u hu h => h.congr hu
    rw [converge, hc, hlive, after_bind, after_ofExcept]
    dsimp only
    rw [after_ite, if_neg (by simp)]
    exact after_execute_planned hparse x.sync x.start
  refine after_runOnce_of (hreconcile.mono fun res t ht => ⟨?_, ?_⟩)
  · rintro rfl
    exact (ht.congr (u := { t.ticked env with lastSuccess := _ }) rfl).disciplined
  · rintro e rfl
    -- The error is recorded after the branch, and only the state is written for it.
    refine ((keeps_recordError_writes e).after t).mono ?_
    intro _ u hu
    obtain ⟨acts, ended, v, hfollows, hperforms, hwrites, hcloses⟩ := ht
    refine Planned.disciplined
      ⟨acts, ended, v, hfollows, hperforms, (adds _).trans hwrites hu, hcloses.stopped, ?_⟩
    intro failure hended
    rcases hcloses.surfaced failure hended with ⟨hok, -⟩ | hfault
    · cases hok
    · exact .inr hfault

/-- The theorem at a full apply whose pre-sync hook is refused. -/
theorem phase_discipline_forbidden :
    ∃ (x : Started forbiddingEnv (syncedPass .off) syncedWorld) (c : Classified),
      modeOf x.prev x.sync c = .fullApply ∧
      (modeOf x.prev x.sync c = .teardown ↔ c.main = [] ∧ prevApplied x.prev ≠ []) ∧
      After (runOnce forbiddingEnv (syncedPass .off)) syncedWorld (Disciplined x c) := by
  obtain ⟨x, c, hsha, hc, hmode⟩ : ∃ (x : Started forbiddingEnv (syncedPass .off) syncedWorld)
      (c : Classified), x.sync.sha = "c2" ∧
        desired forbiddingEnv x.sync.sha (syncedPass .off).cfg (prevApplied x.prev) = .ok c ∧
          modeOf x.prev x.sync c = .fullApply := exists_started (by decide +kernel)
  -- The set of the pass consists of the one manifest, which parses.
  have hmain : (desired forbiddingEnv "c2" (syncedPass .off).cfg []).map Classified.main =
      .ok [settings (some "default")] := by decide +kernel
  have hparse : Reparses forbiddingEnv c.main := by
    cases hdesired : desired forbiddingEnv "c2" (syncedPass .off).cfg [] with
    | error e =>
        rw [hdesired] at hmain
        cases hmain
    | ok c' =>
        rw [hdesired] at hmain
        rw [hsha] at hc
        rw [desired_unique hc hdesired, Except.ok.inj hmain]
        intro m hm
        rw [List.mem_singleton.mp hm]
        exact ⟨syncedValue, rfl⟩
  exact ⟨x, c, hmode, phase_discipline rfl x hc hparse⟩

end LeanCd.Reconcile
