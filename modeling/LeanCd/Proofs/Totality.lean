import LeanCd.Reconcile
import LeanCd.Proofs.Calls

/-!
# `LeanCd.Proofs.Totality`: the parts of a pass that cannot fail

Refreshing the Lease, the drift detection, the hooks, the health and the time are best
effort: a failed call changes what they return, and never ends the pass. A hook phase
ends a pass only where the pass asks for it (`preHooks`), with a hook error, and the
apply ends one only at a manifest that no longer parses.

`Total` is a property of the text: no statement of it throws, or those that do are under an
`attempt`. The order of this file is that of the calls, from a clock up to the health check of a
pass.
-/

set_option autoImplicit false

namespace LeanCd

open Act

variable {sc : Scopes} {env : Env sc} {cfg : Config}

/-- The wall clock can always be read. -/
theorem total_timestampNow : Total (timestampNow env) := fun _ => ⟨_, _, rfl⟩

/-- The monotonic clock can always be read. -/
theorem total_instantNow : Total (instantNow env) := fun _ => ⟨_, _, rfl⟩

/-- A note in the history cannot fail. -/
theorem total_note (e : Event sc) : Total (note e) := fun _ => ⟨_, _, rfl⟩

/-- A sleep cannot fail. -/
theorem total_sleep (d : Nat) : Total (sleep d : Pass sc Unit) := fun _ => ⟨_, _, rfl⟩

namespace Hooks

/-- A renewal within a hook swallows its failure. -/
theorem total_renewBestEffort (guard : LeaseGuard) : Total (renewBestEffort env cfg guard) :=
  (Total.attempt _).bind fun _ => .pure _

/-- A deletion that a hook's policy asks for swallows its failure. -/
theorem total_deleteHookIf (asked : Bool) (m : RawManifest) :
    Total (deleteHookIf env cfg asked m) := by
  unfold deleteHookIf
  split
  · exact (Total.attempt _).bind fun _ => .pure _
  · exact .pure _

/-- The wait for a hook ends with a completion, also when a poll fails. By induction on its fuel. -/
theorem total_waitLoop (m : RawManifest) (guard : LeaseGuard) (deadline fuel : Nat) :
    Total (waitLoop env cfg m guard deadline fuel) := by
  induction fuel with
  | zero => exact .pure _
  | succ fuel ih =>
      -- A failed poll counts as a hook that is still running.
      refine (total_renewBestEffort guard).bind fun _ => (Total.attempt _).bind ?_
      intro polled
      dsimp only
      split
      · exact .pure _
      · exact .pure _
      · refine total_instantNow.bind ?_
        intro now
        split
        · exact .pure _
        · exact (total_sleep _).bind fun _ => ih

/-- So does the completion of every kind of hook. -/
theorem total_completionOf (m : RawManifest) (guard : LeaseGuard) :
    Total (completionOf env cfg m guard) := by
  unfold completionOf
  split
  · exact total_instantNow.bind fun _ => total_waitLoop m guard _ _
  · exact .pure _

/-- A hook ends with a failure as a value. -/
theorem total_runOne (info : HookInfo) (guard : LeaseGuard) :
    Total (runOne env cfg info guard) := by
  refine (Total.attempt _).bind ?_
  intro r
  split
  · exact .pure _
  refine (total_deleteHookIf _ _).bind fun _ => ?_
  unfold applyHook
  split
  · exact .pure _
  refine (Total.attempt _).bind ?_
  intro r
  split
  · exact .pure _
  · exact (total_completionOf _ guard).bind fun _ => (total_deleteHookIf _ _).bind fun _ =>
      .pure _

/-- So does a list of hooks. -/
theorem total_runHooks (guard : LeaseGuard) (hooks : List HookInfo) :
    Total (runHooks env cfg guard hooks) := by
  induction hooks with
  | nil => exact .pure _
  | cons info rest ih =>
      refine (total_note _).bind fun _ => (total_runOne info guard).bind ?_
      intro r
      split
      · exact .pure _
      · exact ih.bind fun _ => .pure _

end Hooks

namespace Drift

/-- A kind that cannot be listed is left out. -/
theorem total_listKind (g : GvkKey) : Total (listKind env cfg g) := by
  refine (Total.attempt _).bind ?_
  intro r
  split
  · exact .pure _
  refine (Total.attempt _).bind ?_
  intro r
  split
  · exact .pure _
  · exact .pure _

/-- So no listing of kinds fails. -/
theorem total_listKinds (gvks : List GvkKey) : Total (listKinds env cfg gvks) := by
  induction gvks with
  | nil => exact .pure _
  | cons g rest ih => exact (total_listKind g).bind fun _ => ih.bind fun _ => .pure _

/-- A kind that the fallback cannot read is passed over. -/
theorem total_largeFallback (items : List (GvkKey × List RawManifest))
    (cache : KubeUtil.DiscoveryCache) : Total (largeFallback env cfg items cache) := by
  induction items generalizing cache with
  | nil => exact .pure _
  | cons item rest ih =>
      refine (Total.attempt _).bind ?_
      intro r
      split
      · exact ih cache
      refine (Total.attempt _).bind ?_
      intro r
      split
      · exact ih _
      · exact (ih _).bind fun _ => .pure _

end Drift

namespace Reconcile

/-- A drift check does not fail. -/
theorem total_detectDrift (main : List RawManifest) : Total (detectDrift env cfg main) := by
  unfold detectDrift
  split
  -- From the stores, then from a list of each kind with large manifests.
  · refine Total.bind (fun _ => ⟨_, _, rfl⟩) fun n => (total_hashGvks _).bind ?_
    intro gvks
    dsimp only
    split
    · exact .pure _
    · exact (total_hashGvks _).bind fun _ => (Drift.total_largeFallback _ _).bind fun _ => .pure _
  · exact (total_hashGvks _).bind fun _ => (Drift.total_listKinds _).bind fun _ =>
      (total_hashGvks _).bind fun _ => .pure _

/-- A listing for the health check that fails counts as empty. -/
theorem total_collectLiveOrNone (main : List RawManifest) :
    Total (collectLiveOrNone env cfg main) := by
  refine (Total.attempt _).bind ?_
  intro r
  split
  · exact .pure _
  · exact .pure _

/-- What the health check looks at is found without a failure. -/
theorem total_collectForHealth (main : List RawManifest) :
    Total (collectForHealth env cfg main) := by
  unfold collectForHealth
  split
  · exact total_collectLiveOrNone main
  · exact .pure _

/-- Hence the health check does not fail. -/
theorem total_healthOf (main : List RawManifest) (live : List DynamicObject) :
    Total (healthOf env cfg main live) := by
  unfold healthOf
  split
  · refine Total.bind ?_ fun _ => .pure _
    unfold liveOrCollect
    split
    · exact total_collectLiveOrNone main
    · exact .pure _
  · exact .pure _

/-- The new state is always put together. -/
theorem total_nextState (guard : LeaseGuard) (prev : Option State) (sync : SyncOutcome)
    (c : Classified) (outcome : BranchOutcome) :
    Total (nextState env cfg guard prev sync c outcome) :=
  (Hooks.total_renewBestEffort guard).bind fun _ => (total_healthOf _ _).bind fun _ =>
    Total.bind (total_timestampNow.bind fun _ => .pure _) fun _ =>
      (Hooks.total_renewBestEffort guard).bind fun _ => .pure _

/-- A hook phase whose failure is recorded does not end the pass. -/
theorem total_postHooks (guard : LeaseGuard) (label : String) (hooks : List HookInfo) :
    Total (postHooks env cfg guard label hooks) := by
  refine (Hooks.total_runHooks guard _).bind ?_
  intro outcome
  split
  · exact .pure _
  · exact .pure _

/-- Another hook phase ends the pass with a hook error, or not at all. -/
theorem after_preHooks (guard : LeaseGuard) (label : String) (hooks : List HookInfo)
    (w : World sc) :
    After (preHooks env cfg guard label hooks) w fun r _ =>
      r = .ok () ∨ ∃ text, r = .error (.hook text) := by
  rw [preHooks, after_bind]
  refine ((Hooks.total_runHooks guard (Hooks.sortByWeight hooks)).after w).mono ?_
  rintro _ t ⟨⟨attempted, failures⟩, rfl⟩
  dsimp only
  cases failures with
  | nil => exact .inl rfl
  | cons f rest => exact .inr ⟨_, rfl⟩

end Reconcile

end LeanCd
