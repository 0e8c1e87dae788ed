import LeanCd.Lib.StableSort
import LeanCd.Proofs.Actions
import Mathlib.Data.Prod.Lex

/-!
# `LeanCd.Proofs.PhaseRun`: the hooks a phase executes

`run_phase` sorts its hooks and executes them up to the first that fails. `Executed` is a
sequence of hooks that ran one after the other, each with what came of it.
`runHooks_ran` follows the loop: what was executed is a prefix of the list, the counts and the
failures of the outcome are read off it, and nothing else was started.

`runPhase_ran` is the result for `run_phase`. The order comes from `LeanCd.Lib.StableSort`:
`sortByWeight` is the stable sort by weight and name, and with distinct pairs it does not
depend on the order of the input.

A loop that stops at the first failure is described by the prefix that it ran. `UpToFailure` is
that description, without the worlds, and the three facts that a caller needs are its projections:
the prefix, the stop, and that all were run when all passed.
-/

set_option autoImplicit false

namespace LeanCd

open Act
open Reconcile (startHook)

/-- The key of a hook start. -/
def Event.startedHook {sc : Scopes} : Event sc → Option ResourceKey
  | .hookStarted key => some key
  | _ => none

/-- The hooks the process started, newest first. -/
def World.hooksStarted {sc : Scopes} (w : World sc) : List ResourceKey :=
  w.trace.filterMap Event.startedHook

namespace Hooks

variable {sc : Scopes} {env : Env sc} {cfg : Config} {guard : LeaseGuard}

/-! ### The order -/

/-- The weight of a hook, then its name. -/
def rank (h : HookInfo) : Int ×ₗ String := toLex (h.weight, h.manifest.name)

/-- The comparison of the source is that of the ranks: by weight, then by name. -/
theorem hookLe_iff_rank (a b : HookInfo) : hookLe a b ↔ rank a ≤ rank b := by
  rw [rank, rank, Prod.Lex.toLex_le_toLex]
  rfl

/-- `sort_by_weight` sorts stably, and no other list is sorted so. -/
theorem stableSort_iff {hooks ordered : List HookInfo} :
    StableSort rank hooks ordered ↔ ordered = sortByWeight hooks :=
  stableSort_iff_eq_insertionSort hookLe_iff_rank

/-- Where no two hooks share a rank, the sorted list does not depend on the order that they came in.
-/
theorem sortByWeight_perm {hooks hooks' : List HookInfo} (hperm : hooks'.Perm hooks)
    (hnodup : (hooks.map rank).Nodup) : sortByWeight hooks' = sortByWeight hooks :=
  (stableSort_iff.mp ((stableSort_iff.mpr rfl).of_perm hperm hnodup)).symm

/-! ### The hooks that are started -/

/-- A hook that runs starts no other. -/
theorem keeps_runOne_hooksStarted (info : HookInfo) :
    Keeps (.fixed World.hooksStarted) (runOne env cfg info guard) := by
  have hbenign : Benign env (.fixed World.hooksStarted) :=
    ⟨⟨fun _ => rfl, fun _ _ => rfl⟩, fun _ _ => rfl, fun _ _ _ => rfl⟩
  refine hbenign.runOne (fun o id _ w => rfl) (fun w => ?_) guard
  unfold KubeUtil.serveDelete
  cases w.cluster.lookup (info.key.denotes sc cfg.namespace) with
  | none => rfl
  | some live => rfl

/-- A hook that was started enters itself among the started ones, whatever comes of it. -/
theorem startHook_hooksStarted {info : HookInfo} {w t : World sc} {reason : Option String}
    (h : startHook env cfg guard info w = .ok reason t) :
    t.hooksStarted = info.key :: w.hooksStarted := by
  have hkeep := @keeps_runOne_hooksStarted sc env cfg guard info
    { w with trace := .hookStarted info.key :: w.trace }
  have hrun : runOne env cfg info guard { w with trace := .hookStarted info.key :: w.trace } =
      .ok reason t := h
  rw [hrun] at hkeep
  exact hkeep

/-! ### The loop -/

/-- These hooks were executed one after the other, each with the reason of its failure. -/
inductive Executed (env : Env sc) (cfg : Config) (guard : LeaseGuard) :
    World sc → List (HookInfo × Option String) → World sc → Prop
  | nil (w : World sc) : Executed env cfg guard w [] w
  | cons {w v t : World sc} {info : HookInfo} {reason : Option String}
      {rest : List (HookInfo × Option String)}
      (hrun : startHook env cfg guard info w = .ok reason v)
      (hrest : Executed env cfg guard v rest t) :
      Executed env cfg guard w ((info, reason) :: rest) t

/-- The hooks that a run has started are those of its list, newest first. -/
theorem Executed.hooksStarted {runs : List (HookInfo × Option String)} {w t : World sc}
    (h : Executed env cfg guard w runs t) :
    t.hooksStarted = (runs.map (·.1.key)).reverse ++ w.hooksStarted := by
  induction h with
  | nil w => rfl
  | cons hrun _ ih =>
      rw [ih, startHook_hooksStarted hrun]
      simp

/-- The executed hooks of a list: all of them, or those up to the first that failed. -/
inductive UpToFailure : List HookInfo → List (HookInfo × Option String) → Prop
  | nil : UpToFailure [] []
  | failed (info : HookInfo) (reason : String) (after : List HookInfo) :
      UpToFailure (info :: after) [(info, some reason)]
  | passed (info : HookInfo) {rest : List HookInfo} {runs : List (HookInfo × Option String)}
      (h : UpToFailure rest runs) : UpToFailure (info :: rest) ((info, none) :: runs)

namespace UpToFailure

variable {ordered : List HookInfo} {runs : List (HookInfo × Option String)}

/-- The hooks that were run are a prefix of the sorted ones. -/
theorem prefixed (h : UpToFailure ordered runs) : runs.map Prod.fst <+: ordered := by
  induction h with
  | nil => exact List.prefix_refl []
  | failed info reason after => exact ⟨after, rfl⟩
  | passed info _ ih => exact (List.prefix_cons_inj info).mpr ih

/-- All but the last of them passed, since a failure ends the loop. -/
theorem stops (h : UpToFailure ordered runs) : ∀ run ∈ runs.dropLast, run.2 = none := by
  induction h with
  | nil => simp
  | failed info reason after => simp
  | @passed info rest runs _ ih =>
      intro run hrun
      cases runs with
      | nil => simp at hrun
      | cons next runs =>
          rcases List.mem_cons.mp hrun with rfl | hrun
          · rfl
          · exact ih run hrun

/-- When all passed, all were run. -/
theorem covers (h : UpToFailure ordered runs) (hall : ∀ run ∈ runs, run.2 = none) :
    runs.map Prod.fst = ordered := by
  induction h with
  | nil => rfl
  | failed info reason after => simp at hall
  | passed info _ ih =>
      rw [List.map_cons, ih fun run hrun => hall run (List.mem_cons_of_mem _ hrun)]

end UpToFailure

/-- The outcome of a phase, by what was executed. -/
def outcomeOf (runs : List (HookInfo × Option String)) : PhaseOutcome :=
  ⟨runs.length, runs.filterMap fun run => run.2.map (run.1.key, ·)⟩

/-- A failure of the outcome is the one of the last hook that was executed. -/
theorem outcomeOf_failures {ordered : List HookInfo} {runs : List (HookInfo × Option String)}
    (h : UpToFailure ordered runs) :
    (∀ run ∈ runs, run.2 = none) ∧ (outcomeOf runs).failures = [] ∨
      ∃ info reason, runs.getLast? = some (info, some reason) ∧
        (outcomeOf runs).failures = [(info.key, reason)] := by
  induction h with
  | nil => exact .inl ⟨by simp, rfl⟩
  | failed info reason after => exact .inr ⟨info, reason, rfl, rfl⟩
  | @passed info rest runs _ ih =>
      rcases ih with ⟨hnone, hfailures⟩ | ⟨last, reason, hlast, hfailures⟩
      · exact .inl ⟨by simpa using hnone, by simpa [outcomeOf] using hfailures⟩
      · refine .inr ⟨last, reason, ?_, by simpa [outcomeOf] using hfailures⟩
        rw [List.getLast?_cons, hlast]
        rfl

/-- Every executed hook succeeded, or has its failure in the outcome. -/
theorem outcomeOf_counts (runs : List (HookInfo × Option String)) :
    (outcomeOf runs).attempted =
      (outcomeOf runs).failures.length + (runs.filter (·.2.isNone)).length := by
  induction runs with
  | nil => rfl
  | cons run rest ih =>
      obtain ⟨info, reason⟩ := run
      simp only [outcomeOf] at ih ⊢
      cases reason with
      | none => simp [ih, Nat.add_assoc]
      | some reason => simp [ih, Nat.add_right_comm]

/-- A hook that fails is the last one. -/
theorem runHooks_failed {info : HookInfo} {rest : List HookInfo} {w v : World sc}
    {reason : String} (h : startHook env cfg guard info w = .ok (some reason) v) :
    runHooks env cfg guard (info :: rest) w = .ok ⟨1, [(info.key, reason)]⟩ v := by
  rw [runHooks, ← bind_assoc]
  exact bind_ok h

/-- After a hook that passes the rest is run, and both are counted. -/
theorem runHooks_passed {info : HookInfo} {rest : List HookInfo} {w v : World sc}
    (h : startHook env cfg guard info w = .ok none v) :
    runHooks env cfg guard (info :: rest) w = (runHooks env cfg guard rest >>= fun outcome =>
      pure { outcome with attempted := outcome.attempted + 1 }) v := by
  rw [runHooks, ← bind_assoc]
  exact bind_ok h

/-- One hook after the other is started, up to the first that fails. -/
theorem runHooks_executes (ordered : List HookInfo) (w : World sc) :
    ∃ runs t, runHooks env cfg guard ordered w = .ok (outcomeOf runs) t ∧
      Executed env cfg guard w runs t ∧ UpToFailure ordered runs := by
  induction ordered generalizing w with
  | nil => exact ⟨[], w, rfl, .nil w, .nil⟩
  | cons info rest ih =>
      obtain ⟨reason, v, hone⟩ : ∃ reason v, startHook env cfg guard info w = .ok reason v :=
        (total_note _).bind (fun _ => total_runOne info guard) w
      cases reason with
      | some reason =>
          exact ⟨[(info, some reason)], v, runHooks_failed hone, .cons hone (.nil v),
            .failed info reason rest⟩
      | none =>
          obtain ⟨runs, t, hrest, hexec, hupto⟩ := ih v
          exact ⟨(info, none) :: runs, t, (runHooks_passed hone).trans (bind_ok hrest),
            .cons hone hexec, .passed info hupto⟩

/-- What was executed of a list of hooks, and the outcome that was made of it. -/
structure Ran (env : Env sc) (cfg : Config) (guard : LeaseGuard) (ordered : List HookInfo)
    (w : World sc) (runs : List (HookInfo × Option String)) (outcome : PhaseOutcome)
    (t : World sc) : Prop where
  executed : Executed env cfg guard w runs t
  started : t.hooksStarted = (runs.map (·.1.key)).reverse ++ w.hooksStarted
  prefixed : runs.map Prod.fst <+: ordered
  /-- Only the last of the executed hooks can have failed. -/
  stops : ∀ run ∈ runs.dropLast, run.2 = none
  /-- Without a failure every hook was executed. -/
  covers : (∀ run ∈ runs, run.2 = none) → runs.map Prod.fst = ordered
  attempted : outcome.attempted = runs.length
  /-- No failure, or the one of the last hook that was executed. -/
  failures : (∀ run ∈ runs, run.2 = none) ∧ outcome.failures = [] ∨
    ∃ info reason, runs.getLast? = some (info, some reason) ∧
      outcome.failures = [(info.key, reason)]
  bounded : outcome.failures.length ≤ outcome.attempted
  succeeded : outcome.succeeded = (runs.filter (·.2.isNone)).length

/-- A phase executes its hooks in the order of the stable sort, up to the first that fails.
With distinct weights and names, another order of the input makes no difference. -/
theorem runPhase_ran (env : Env sc) (cfg : Config) (guard : LeaseGuard) (hooks : List HookInfo)
    (w : World sc) :
    ∃ ordered runs outcome t, StableSort rank hooks ordered ∧
      runPhase env cfg hooks guard w = .ok outcome t ∧
      Ran env cfg guard ordered w runs outcome t ∧
      ∀ hooks' : List HookInfo, hooks'.Perm hooks → (hooks.map rank).Nodup →
        StableSort rank hooks' ordered ∧ runPhase env cfg hooks' guard w = .ok outcome t := by
  obtain ⟨runs, t, hrun, hexec, hupto⟩ :=
    @runHooks_executes sc env cfg guard (sortByWeight hooks) w
  have hcounts := outcomeOf_counts runs
  refine ⟨sortByWeight hooks, runs, outcomeOf runs, t, stableSort_iff.mpr rfl, hrun, ?_, ?_⟩
  · exact ⟨hexec, hexec.hooksStarted, hupto.prefixed, hupto.stops, hupto.covers, rfl,
      outcomeOf_failures hupto, by omega, by unfold PhaseOutcome.succeeded; omega⟩
  · intro hooks' hperm hnodup
    have hsame := sortByWeight_perm hperm hnodup
    refine ⟨stableSort_iff.mpr hsame.symm, ?_⟩
    rw [runPhase, hsame]
    exact hrun

end Hooks

end LeanCd
