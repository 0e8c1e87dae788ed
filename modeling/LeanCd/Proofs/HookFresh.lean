import LeanCd.Calm
import LeanCd.HookRun

/-!
# `LeanCd.Proofs.HookFresh`: whether a hook's outcome is that of a fresh instance

Before a hook is created, a prior instance of its object is deleted, so that the hook
runs fresh. `fresh_of_findsNone`: where the apply finds no instance, `run_one` reports
the outcome of the instance that the apply created. `stale_success` is a run in which the
prior instance, a Job that has succeeded, is still there when the apply arrives: the
apply updates it, and `run_one` reports its success.

What counts as a success is read off the status by `hook_completion`: of the conditions of a Job
the first that says `Complete` or `Failed` decides, of a Pod the phase (`JobSucceeded`,
`PodSucceeded`). `SawOurs.succeeded` says so of what the runner saw.

The invariant, `Inv`, says for each stage what the runner knows by then.

The system is `LeanCd.HookRun`, in which the outside may act between any two calls of the runner.
`LeanCd.Proofs.HookSimulation` ties it to the code. The condition `FindsNone` is about the one
moment of the apply, since before it a marked instance may still be there and be collected in
time.
-/

set_option autoImplicit false

namespace LeanCd.Hooks

/-! ### The successful end -/

/-- A JSON value is read as a text when it is that text. -/
theorem asStr_eq_some {v : Option Value} {s : String} :
    v.bind Value.asStr = some s ↔ v = some (.string s) := by
  cases v with
  | none => simp
  | some v => cases v <;> simp [Value.asStr]

/-- A JSON value is read as an array when it is that array. -/
theorem asArray_eq_some {v : Option Value} {vs : List Value} :
    v.bind Value.asArray = some vs ↔ v = some (.array vs) := by
  cases v with
  | none => simp
  | some v => cases v <;> simp [Value.asArray]

/-- A condition of the type whose status is `True`. -/
def Says (c : Value) (type : String) : Prop :=
  c.get "type" = some (.string type) ∧ c.get "status" = some (.string "True")

/-- A condition tells success when it says that the Job is complete. -/
theorem jobCompletion_eq_some_iff {c : Value} :
    jobCompletion c = some .succeeded ↔ Says c "Complete" := by
  simp only [jobCompletion, asStr_eq_some, Says]
  split
  next h => simp [h]
  next h => split <;> simp [h]

/-- A condition decides nothing when it says neither that the Job is complete nor that it has
failed. -/
theorem jobCompletion_eq_none_iff {c : Value} :
    jobCompletion c = none ↔ ¬ Says c "Complete" ∧ ¬ Says c "Failed" := by
  simp only [jobCompletion, asStr_eq_some, Says]
  split
  next h => simp [h]
  next h =>
    split
    next h' => simp [h']
    next h' => simp only [h, h', not_false_eq_true, and_self]

/-- The conditions of a status report a completed Job: the first that says `Complete` or `Failed`
says `Complete`. -/
def JobSucceeded (status : Value) : Prop :=
  ∃ pre c post, status.get "conditions" = some (.array (pre ++ c :: post)) ∧ Says c "Complete" ∧
    ∀ c' ∈ pre, ¬ Says c' "Complete" ∧ ¬ Says c' "Failed"

/-- The phase of a status is that of a Pod that ended well. -/
def PodSucceeded (status : Value) : Prop := status.get "phase" = some (.string "Succeeded")

/-- A Job is taken for succeeded exactly when its conditions say so. -/
theorem hookCompletion_job_succeeded_iff {status : Option Value} :
    hookCompletion "batch" "Job" status = .succeeded ↔ ∃ v, status = some v ∧ JobSucceeded v := by
  cases status with
  | none => simp [hookCompletion, isWaitable]
  | some v =>
      simp only [Option.some_inj, exists_eq_left']
      -- A null status is filtered away, so it reads like an absent one.
      by_cases hnull : v = .null
      · subst hnull
        have hrunning : hookCompletion "batch" "Job" (some .null) = .running := rfl
        rw [hrunning]
        refine iff_of_false nofun ?_
        rintro ⟨pre, c, post, hconditions, -⟩
        cases hconditions
      · have hfilter : (some v).filter (!·.isNull) = some v := by
          cases v <;> first | exact absurd rfl hnull | rfl
        rw [hookCompletion, hfilter]
        dsimp only
        rw [if_pos ⟨rfl, rfl⟩, Option.getD_eq_iff]
        simp only [reduceCtorEq, and_false, or_false]
        rw [List.findSome?_eq_some_iff]
        constructor
        -- The scan stops at the first condition that settles anything, and that one is the
        -- success.
        · rintro ⟨pre, c, post, hlist, hc, hpre⟩
          refine ⟨pre, c, post, ?_, jobCompletion_eq_some_iff.mp hc,
            fun c' hc' => jobCompletion_eq_none_iff.mp (hpre c' hc')⟩
          cases hcs : (v.get "conditions").bind Value.asArray with
          | none =>
              rw [hcs] at hlist
              simp at hlist
          | some cs =>
              rw [hcs, Option.getD_some] at hlist
              rw [asArray_eq_some.mp hcs, hlist]
        · rintro ⟨pre, c, post, hconditions, hc, hpre⟩
          refine ⟨pre, c, post, ?_, jobCompletion_eq_some_iff.mpr hc,
            fun c' hc' => jobCompletion_eq_none_iff.mpr (hpre c' hc')⟩
          rw [asArray_eq_some.mpr hconditions, Option.getD_some]

/-- A Pod is taken for succeeded exactly when its phase says so. -/
theorem hookCompletion_pod_succeeded_iff {status : Option Value} :
    hookCompletion "" "Pod" status = .succeeded ↔ ∃ v, status = some v ∧ PodSucceeded v := by
  cases status with
  | none => simp [hookCompletion, isWaitable]
  | some v =>
      simp only [Option.some_inj, exists_eq_left', PodSucceeded]
      by_cases hnull : v = .null
      · subst hnull
        refine iff_of_false nofun nofun
      · have hfilter : (some v).filter (!·.isNull) = some v := by
          cases v <;> first | exact absurd rfl hnull | rfl
        rw [hookCompletion, hfilter]
        simp only [asStr_eq_some]
        rw [if_neg (by decide), if_pos (by decide)]
        split
        next h => simp [h]
        next h => split <;> simp [h]

end LeanCd.Hooks

namespace LeanCd.HookRun

open Transition

variable {cfg : Config} {info : HookInfo} {s t : HookRun}

/-- The last poll saw an instance this run created, and it had ended so. -/
def SawOurs (m : RawManifest) (completion : Completion) (s : HookRun) : Prop :=
  ∃ i, s.saw = some (some i) ∧ i.ours = true ∧
    Hooks.hookCompletion m.group m.kind i.status = completion

/-- A success that the runner saw: an instance this run created had reached the state that says so,
a Job by its conditions, a Pod by its phase. -/
theorem SawOurs.succeeded {m : RawManifest} (hwait : Hooks.isWaitable m.group m.kind = true)
    (h : SawOurs m .succeeded s) :
    ∃ i v, s.saw = some (some i) ∧ i.ours = true ∧ i.status = some v ∧
      (m.kind = "Job" ∧ Hooks.JobSucceeded v ∨ m.kind = "Pod" ∧ Hooks.PodSucceeded v) := by
  obtain ⟨i, hsaw, hours, hstatus⟩ := h
  simp only [Hooks.isWaitable, Bool.or_eq_true, Bool.and_eq_true, beq_iff_eq] at hwait
  rcases hwait with ⟨hgroup, hkind⟩ | ⟨hgroup, hkind⟩
  · rw [hgroup, hkind, Hooks.hookCompletion_job_succeeded_iff] at hstatus
    obtain ⟨v, hv, hjob⟩ := hstatus
    exact ⟨i, v, hsaw, hours, hv, .inl ⟨hkind, hjob⟩⟩
  · rw [hgroup, hkind, Hooks.hookCompletion_pod_succeeded_iff] at hstatus
    obtain ⟨v, hv, hpod⟩ := hstatus
    exact ⟨i, v, hsaw, hours, hv, .inr ⟨hkind, hpod⟩⟩

/-- Why a failure may be reported: the apply failed, the deadline passed, or an instance
this run created vanished or failed. -/
def MayFail (m : RawManifest) (s : HookRun) : Prop :=
  s.applied = false ∨ s.timedOut = true ∨ (s.created = true ∧ s.saw = some none) ∨
    SawOurs m .failed s

/-- The outcome is that of an instance this run created. -/
structure Fresh (m : RawManifest) (s : HookRun) : Prop where
  success : s.stage = .returned none → SawOurs m .succeeded s
  failure : ∀ reason, s.stage = .returned (some reason) → MayFail m s

/-- An apply that is answered finds no instance. -/
def FindsNone (s t : HookRun) : Prop :=
  s.stage = .apply → t.applied = true → s.object = none

/-! ### The invariant -/

/-- What the runner knows at a stage. -/
def Inv (m : RawManifest) (s : HookRun) : Prop :=
  match s.stage with
  | .resolve | .preDelete | .apply => s.applied = false
  | .poll _ | .unfinished _ => s.created = true ∧ ∀ i, s.object = some i → i.ours = true
  | .ended .succeeded | .returned none => SawOurs m .succeeded s
  | .ended .running => False
  | .ended .failed | .returned (some _) => MayFail m s

/-- What the invariant keeps is enough for freshness: a hook that was seen to succeed was seen in an
instance this run created. -/
theorem Inv.fresh {m : RawManifest} (h : Inv m s) : Fresh m s where
  success hstage := by
    unfold Inv at h
    rwa [hstage] at h
  failure reason hstage := by
    unfold Inv at h
    rwa [hstage] at h

/-- A step of the outside changes neither the stage nor whose instance it is. -/
theorem Inv.outside {m : RawManifest} (h : Inv m s) (hstage : t.stage = s.stage)
    (happlied : t.applied = s.applied) (hcreated : t.created = s.created) (hsaw : t.saw = s.saw)
    (htimedOut : t.timedOut = s.timedOut)
    (hobject : (∀ i, s.object = some i → i.ours = true) → ∀ i, t.object = some i → i.ours = true) :
    Inv m t := by
  -- What was seen is a record of the run. Nobody outside writes it.
  have hours : ∀ completion, SawOurs m completion s → SawOurs m completion t := by
    intro completion hours
    rwa [SawOurs, hsaw]
  unfold Inv MayFail at h ⊢
  rw [hstage, happlied, hcreated, htimedOut, hsaw]
  -- The stages before the patch ask nothing of the object. Those that wait do, and the others can
  -- only move it while it stays ours.
  split at h
  · exact h
  · exact h
  · exact h
  · exact ⟨h.1, hobject h.2⟩
  · exact ⟨h.1, hobject h.2⟩
  · exact hours _ h
  · exact hours _ h
  · exact h
  · exact h.imp_right (Or.imp_right (Or.imp_right (hours _)))
  · exact h.imp_right (Or.imp_right (Or.imp_right (hours _)))

/-- What `run_one` returns for a completion is what is known of it. -/
theorem inv_returned {m : RawManifest} {completion : Completion} {object : Option Instance}
    (h : Inv m s) (hstage : s.stage = .ended completion) :
    Inv m { s with stage := .returned (outcome completion), object } := by
  unfold Inv at h ⊢
  rw [hstage] at h
  cases completion with
  | running => exact h.elim
  | succeeded => exact h
  | failed => exact h

/-- A step of the runner or of the outside keeps the invariant when the deletions before the
creation find none left. One case for each kind of step. -/
theorem inv_step (hwait : Hooks.isWaitable info.manifest.group info.manifest.kind = true)
    (h : Inv info.manifest s) (hstep : Step cfg info s t) (hnone : FindsNone s t) :
    Inv info.manifest t := by
  cases hstep with
  | time d => exact h.outside rfl rfl rfl rfl rfl fun hours => hours
  | progress i status hi =>
      refine h.outside rfl rfl rfl rfl rfl ?_
      intro hours j hj
      cases hj
      exact hours i hi
  | collect i hi => exact h.outside rfl rfl rfl rfl rfl fun _ => nofun
  -- Before the apply nothing is claimed but that there was none.
  | resolve hstage | noPreDelete hstage _ | preDelete hstage _ | preDeleteFails hstage _ =>
      unfold Inv at h ⊢
      rw [hstage] at h
      exact h
  | resolveFails reason hstage | applyFails reason hstage | applyLost reason hstage =>
      unfold Inv at h ⊢
      rw [hstage] at h
      exact .inl h
  -- The apply found no instance, so the one that is there now is ours.
  | apply hstage =>
      have hobject := hnone hstage rfl
      unfold Inv awaiting
      rw [if_pos hwait]
      refine ⟨?_, fun i hi => ?_⟩
      · show s.object.isNone = true
        rw [hobject]
        rfl
      · cases hi
        rw [patched, hobject]
        rfl
  | poll deadline i hstage hi =>
      unfold Inv at h
      rw [hstage] at h
      have hours := h.2 i hi
      unfold Inv afterPoll
      cases hcompletion : Hooks.hookCompletion info.manifest.group info.manifest.kind i.status with
      | running => exact h
      | succeeded => exact ⟨i, rfl, hours, hcompletion⟩
      | failed => exact .inr (.inr (.inr ⟨i, rfl, hours, hcompletion⟩))
  | pollMissing deadline hstage _ =>
      unfold Inv at h
      rw [hstage] at h
      exact .inr (.inr (.inl ⟨h.1, rfl⟩))
  | pollFails deadline hstage | sleep deadline hstage _ =>
      unfold Inv at h ⊢
      rw [hstage] at h
      exact h
  | timeout deadline hstage _ => exact .inr (.inl rfl)
  | noCleanup completion hstage _ | cleanup completion hstage _
  | cleanupFails completion hstage _ =>
      exact inv_returned h hstage

/-- Where every apply that is answered finds no instance, `run_one` reports success only
if an instance created by its apply succeeded, and failure only if the apply or the
timeout failed or such an instance failed or vanished. -/
theorem fresh_of_findsNone
    (hwait : Hooks.isWaitable info.manifest.group info.manifest.kind = true)
    (hs : ((system cfg info).restrict FindsNone).Reachable s) : Fresh info.manifest s := by
  have hinv : ((system cfg info).restrict FindsNone).Invariant (Inv info.manifest) := by
    refine ⟨fun hinit => ?_, fun _ h hstep => inv_step hwait h hstep.1 hstep.2⟩
    unfold Inv
    rw [hinit.stage]
    exact hinit.applied
  exact (hinv.holds hs).fresh

/-! ### A Job that has run before -/

/-- The status of a Job that has succeeded. -/
def completeStatus : Value := .object
  [("conditions", .array
    [.object [("type", .string "Complete"), ("status", .string "True")]])]

/-- A Job that is a hook with the default delete policy. -/
def migrateJob : HookInfo :=
  ⟨⟨"batch", "v1", "Job", "migrate", some "default", "migrate", []⟩, 0, [.beforeHookCreation]⟩

/-- Before a run, with a prior instance or none. -/
def before (prior : Option Instance) : HookRun := ⟨.resolve, prior, 0, false, false, none, false⟩

/-- The runs of the Job. -/
abbrev migrateRuns : System HookRun := system settingsCfg migrateJob

/-- Without a prior instance the Job is created, succeeds and is reported. -/
theorem fresh_of_findsNone_migrate :
    Fresh migrateJob.manifest ⟨.returned none, some ⟨true, false, some completeStatus⟩, 0, true,
      true, some (some ⟨true, false, some completeStatus⟩), false⟩ := by
  have hcalm {s t : HookRun} (h : s.stage ≠ .apply) : FindsNone s t := fun happly =>
    absurd happly h
  have hinit : (migrateRuns.restrict FindsNone).Reachable (before none) :=
    .init ⟨rfl, nofun, rfl, rfl, rfl, rfl⟩
  have hresolved := hinit.step ⟨.resolve _ rfl, hcalm nofun⟩
  have hdeleted := hresolved.step ⟨.preDelete _ rfl rfl, hcalm nofun⟩
  have happlied := hdeleted.step ⟨.apply _ rfl, fun _ _ => rfl⟩
  have hprogress := happlied.step ⟨.progress _ _ (some completeStatus) rfl, hcalm nofun⟩
  have hpolled := hprogress.step ⟨.poll _ _ _ rfl rfl, hcalm nofun⟩
  have hreturned := hpolled.step ⟨.noCleanup _ .succeeded (by decide) rfl, hcalm (by decide)⟩
  exact fresh_of_findsNone rfl hreturned

/-- The prior instance has succeeded and is not collected before the apply. It is marked,
updated and polled, and its success is reported. -/
theorem stale_success :
    ¬ ∀ s, migrateRuns.Reachable s → Fresh migrateJob.manifest s := by
  intro hall
  have hinit : migrateRuns.Reachable (before (some ⟨false, false, some completeStatus⟩)) :=
    .init ⟨rfl, fun i hi => by cases hi; rfl, rfl, rfl, rfl, rfl⟩
  have hresolved := hinit.step (.resolve _ rfl)
  have hdeleted := hresolved.step (.preDelete _ rfl rfl)
  have happlied := hdeleted.step (.apply _ rfl)
  have hpolled := happlied.step (.poll _ _ _ rfl rfl)
  have hreturned := hpolled.step (.noCleanup _ .succeeded (by decide) rfl)
  obtain ⟨i, hsaw, hours, -⟩ := (hall _ hreturned).success (by decide)
  cases hsaw
  cases hours

end LeanCd.HookRun
