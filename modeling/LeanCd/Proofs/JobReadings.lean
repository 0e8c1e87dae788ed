import LeanCd.Hooks
import LeanCd.Proofs.ConditionOrder

/-!
# `LeanCd.Proofs.JobReadings`: two readings of the status of a Job

`hookCompletion` returns at the first condition that decides. `jobHealth` goes through all of
them, sets flags, and ranks the flags afterwards. What both depend on is which types are `Reported`:
have a condition with status `True`.

`jobHealth_reported` and `hookCompletion_job` read each function off the reported types.
`readings_agree`: when at most one type is reported, the two say the same.

The two functions were written for two purposes: one asks whether a hook is done, the other how a
resource is. They differ in the suspended Job, which runs on for the one, and in a Job that
reports both ends, where the order decides for the one and the rank for the other.
-/

set_option autoImplicit false

namespace LeanCd.ResourceHealth

open Hooks

/-- Some condition of the list reports the type. -/
def Reported (cs : List Value) (type : String) : Prop := ∃ c ∈ cs, conditionHolds type c = true

/-- Whether a condition is reported is a test on the list of conditions. -/
theorem reported_iff_any {cs : List Value} {type : String} :
    Reported cs type ↔ cs.any (conditionHolds type) = true := by
  simp [Reported]

/-- The conditions of a Job. Without an array there are none. -/
def jobConditions (o : DynamicObject) : List Value := (conditions (status o)).getD []

/-- A failure outranks a suspension, and both outrank a completion. -/
theorem jobHealth_reported (o : DynamicObject) :
    (jobHealth o).status =
      if (jobConditions o).any (conditionHolds "Failed") then .degraded
      else if (jobConditions o).any (conditionHolds "Suspended") then .suspended
      else if (jobConditions o).any (conditionHolds "Complete") then .healthy
      else .progressing := by
  have hany : ∀ cs : List Value, (cs.any fun c => conditionHolds "Complete" c ||
      conditionHolds "Failed" c || conditionHolds "Suspended" c) =
        (cs.any (conditionHolds "Complete") || cs.any (conditionHolds "Failed") ||
          cs.any (conditionHolds "Suspended")) := by
    intro cs
    induction cs with
    | nil => rfl
    | cons c cs ih =>
        simp only [List.any_cons, ih]
        -- Both sides are the same six tests.
        ac_rfl
  rw [jobHealth_status (rfl : _ = jobConditions o), hany]
  cases (jobConditions o).any (conditionHolds "Failed") <;>
    cases (jobConditions o).any (conditionHolds "Suspended") <;>
    cases (jobConditions o).any (conditionHolds "Complete") <;> rfl

/-! ### The first decisive condition of `hook_completion` -/

/-- One condition of a Job, as the hook runner reads it: complete is asked before failed. -/
theorem jobCompletion_eq (c : Value) :
    jobCompletion c =
      if conditionHolds "Complete" c then some .succeeded
      else if conditionHolds "Failed" c then some .failed
      else none := by
  cases htype : (c.get "type").bind Value.asStr <;>
    simp [jobCompletion, conditionHolds, strOf, htype, and_comm]

/-- Without a failure, a completion is found at any place of the list, and the other way
round. -/
theorem findSome_jobCompletion {cs : List Value}
    (h : ¬(Reported cs "Complete" ∧ Reported cs "Failed")) :
    cs.findSome? jobCompletion =
      if cs.any (conditionHolds "Complete") then some .succeeded
      else if cs.any (conditionHolds "Failed") then some .failed
      else none := by
  simp only [reported_iff_any] at h
  induction cs with
  | nil => rfl
  | cons c cs ih =>
      have hrest : ¬(cs.any (conditionHolds "Complete") = true ∧
          cs.any (conditionHolds "Failed") = true) := by
        intro hboth
        refine h ⟨?_, ?_⟩
        · rw [List.any_cons, hboth.1, Bool.or_true]
        · rw [List.any_cons, hboth.2, Bool.or_true]
      rw [List.findSome?_cons, jobCompletion_eq, ih hrest]
      cases hcomplete : conditionHolds "Complete" c with
      | true => simp [hcomplete]
      | false =>
          cases hfailed : conditionHolds "Failed" c with
          | false => simp [hcomplete, hfailed]
          | true =>
              -- A completion further down would be a second type.
              have hnone : cs.any (conditionHolds "Complete") = false := by
                simpa [List.any_cons, hcomplete, hfailed] using h
              simp [hcomplete, hfailed, hnone]

/-- A Job whose conditions do not report both ends is read in the order complete, failed, running,
whatever order its conditions have. -/
theorem hookCompletion_job {o : DynamicObject}
    (h : ¬(Reported (jobConditions o) "Complete" ∧ Reported (jobConditions o) "Failed")) :
    hookCompletion "batch" "Job" (Value.field o.data "status") =
      if (jobConditions o).any (conditionHolds "Complete") then .succeeded
      else if (jobConditions o).any (conditionHolds "Failed") then .failed
      else .running := by
  have hlist : hookCompletion "batch" "Job" (Value.field o.data "status") =
      ((jobConditions o).findSome? jobCompletion).getD .running := by
    unfold jobConditions conditions status top
    cases hstatus : Value.field o.data "status" with
    | none => rfl
    | some v =>
        cases v with
        -- An empty status is read like a missing one.
        | null => rfl
        | bool | number | string | array | object => rfl
  rw [hlist, findSome_jobCompletion h]
  split
  · rfl
  · split <;> rfl

/-! ### The agreement -/

/-- The types that end or suspend a Job. -/
def decisiveTypes : List String := ["Complete", "Failed", "Suspended"]

/-- At most one of the decisive types is reported. -/
def OneVerdict (o : DynamicObject) : Prop :=
  ∀ type ∈ decisiveTypes, ∀ type' ∈ decisiveTypes,
    Reported (jobConditions o) type → Reported (jobConditions o) type' → type = type'

/-- When at most one of the decisive types is reported, the hook has succeeded exactly when
the Job is healthy, has failed exactly when the Job is degraded, and is running exactly when
the Job is progressing or suspended. -/
theorem readings_agree (o : DynamicObject) (h : OneVerdict o) :
    (hookCompletion "batch" "Job" (Value.field o.data "status") = .succeeded ↔
        (jobHealth o).status = .healthy) ∧
      (hookCompletion "batch" "Job" (Value.field o.data "status") = .failed ↔
        (jobHealth o).status = .degraded) ∧
      (hookCompletion "batch" "Job" (Value.field o.data "status") = .running ↔
        (jobHealth o).status = .progressing ∨ (jobHealth o).status = .suspended) := by
  -- At most one of the decisive types is reported, by the hypothesis.
  have hne : ∀ {type type' : String}, type ∈ decisiveTypes → type' ∈ decisiveTypes →
      type ≠ type' →
      ¬((jobConditions o).any (conditionHolds type) = true ∧
        (jobConditions o).any (conditionHolds type') = true) := by
    intro type type' ht ht' hne hboth
    exact hne (h type ht type' ht' (reported_iff_any.mpr hboth.1) (reported_iff_any.mpr hboth.2))
  have hfailed := @hne "Complete" "Failed" (by decide) (by decide) (by decide)
  have hsuspended := @hne "Complete" "Suspended" (by decide) (by decide) (by decide)
  have hboth := @hne "Failed" "Suspended" (by decide) (by decide) (by decide)
  -- With both types reported the first condition would count, which `OneVerdict` excludes.
  have hcompletion : ¬(Reported (jobConditions o) "Complete" ∧
      Reported (jobConditions o) "Failed") := by
    simpa only [reported_iff_any] using hfailed
  rw [hookCompletion_job hcompletion, jobHealth_reported]
  -- Three conditions, each there or not. The hypotheses leave four of the eight cases.
  cases hc : (jobConditions o).any (conditionHolds "Complete") <;>
    cases hf : (jobConditions o).any (conditionHolds "Failed") <;>
    cases hs : (jobConditions o).any (conditionHolds "Suspended") <;>
    simp [hc, hf, hs] at hfailed hsuspended hboth ⊢

/-- A Job that was suspended once and completed afterwards. -/
def resumedJob : DynamicObject :=
  ⟨none, ⟨some "migrate", some "prod", none, none, none, none, []⟩,
    [("status", .object [("conditions", .array
      [.object [("type", .string "Suspended"), ("status", .string "False")],
        .object [("type", .string "Complete"), ("status", .string "True")]])])]⟩

/-- A Job that was suspended and resumed: the two readings agree on it. -/
theorem readings_agree_resumed :
    (hookCompletion "batch" "Job" (Value.field resumedJob.data "status") = .succeeded ↔
        (jobHealth resumedJob).status = .healthy) ∧
      (hookCompletion "batch" "Job" (Value.field resumedJob.data "status") = .failed ↔
        (jobHealth resumedJob).status = .degraded) ∧
      (hookCompletion "batch" "Job" (Value.field resumedJob.data "status") = .running ↔
        (jobHealth resumedJob).status = .progressing ∨
          (jobHealth resumedJob).status = .suspended) := by
  refine readings_agree resumedJob ?_
  intro type ht type' ht' hr hr'
  rw [reported_iff_any] at hr hr'
  revert type type'
  decide

end LeanCd.ResourceHealth
