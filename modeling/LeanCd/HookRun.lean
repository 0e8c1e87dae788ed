import LeanCd.Hooks
import LeanCd.Lib.Transition

/-!
# `LeanCd.HookRun`: one hook and the instances of its object

`run_one` and `wait_for_completion` of `hooks.rs`, with the object of the hook, as a
transition system. The runner takes one step for each of its API calls, and the outside
may act between any two of them: the instance makes progress, it is collected, time
passes.

A foreground delete marks an instance. It stays readable until it is collected, and an
apply in between updates it. Nobody but the runner creates an instance.

`ours`, `applied`, `created`, `saw` and `timedOut` are history variables: the instance
was created by the apply of this run, the apply was answered, it created an instance,
what the last poll answered, and the deadline has passed.
-/

set_option autoImplicit false

namespace LeanCd

/-- An object under the hook's name. -/
structure Instance where
  ours : Bool
  terminating : Bool
  status : Option Value
deriving DecidableEq

/-- Where the runner is. -/
inductive HookStage where
  | resolve
  | preDelete
  | apply
  /-- `wait_for_completion`, before a poll. -/
  | poll (deadline : Nat)
  /-- The hook is not known to have ended. -/
  | unfinished (deadline : Nat)
  /-- The hook has ended so. -/
  | ended (completion : Completion)
  /-- `run_one` has returned: the reason of the failure, when there is one. -/
  | returned (reason : Option String)
deriving DecidableEq

/-- The runner, the object, and what happened. -/
structure HookRun where
  stage : HookStage
  object : Option Instance
  clock : Nat
  applied : Bool
  created : Bool
  saw : Option (Option Instance)
  timedOut : Bool
deriving DecidableEq

namespace HookRun

/-- The instance is marked for deletion. -/
def marked (object : Option Instance) : Option Instance :=
  object.map fun i => { i with terminating := true }

/-- A server-side apply: it updates the instance that is there, or creates one. -/
def patched (object : Option Instance) : Instance := object.getD ⟨true, false, none⟩

/-- The apply is carried out. -/
def patch (s : HookRun) : HookRun :=
  { s with object := some (patched s.object), created := s.object.isNone }

/-- Where the runner goes after an apply. -/
def awaiting (cfg : Config) (m : RawManifest) (clock : Nat) : HookStage :=
  if Hooks.isWaitable m.group m.kind then .poll (clock + cfg.hookTimeout) else .ended .succeeded

/-- Where a poll that found an instance leads. -/
def afterPoll (m : RawManifest) (deadline : Nat) (i : Instance) : HookStage :=
  match Hooks.hookCompletion m.group m.kind i.status with
  | .running => .unfinished deadline
  | completion => .ended completion

/-- What `run_one` returns for a completion. -/
def outcome (completion : Completion) : Option String :=
  if completion = .failed then some "hook completed with failure" else none

/-- One step of the runner, or of the outside. -/
inductive Step (cfg : Config) (info : HookInfo) : HookRun → HookRun → Prop
  -- The outside.
  | time (s : HookRun) (d : Nat) : Step cfg info s { s with clock := s.clock + d }
  | progress (s : HookRun) (i : Instance) (status : Option Value) : s.object = some i →
      Step cfg info s { s with object := some { i with status } }
  | collect (s : HookRun) (i : Instance) : s.object = some i →
      Step cfg info s { s with object := none }
  -- The runner.
  | resolve (s : HookRun) : s.stage = .resolve → Step cfg info s { s with stage := .preDelete }
  | resolveFails (s : HookRun) (reason : String) : s.stage = .resolve →
      Step cfg info s { s with stage := .returned (some reason) }
  | noPreDelete (s : HookRun) : s.stage = .preDelete →
      info.hasPolicy .beforeHookCreation = false → Step cfg info s { s with stage := .apply }
  /-- The delete is carried out, whether its response arrives or not. -/
  | preDelete (s : HookRun) : s.stage = .preDelete →
      info.hasPolicy .beforeHookCreation = true →
      Step cfg info s { s with stage := .apply, object := marked s.object }
  /-- The outcome of the delete is ignored. -/
  | preDeleteFails (s : HookRun) : s.stage = .preDelete →
      info.hasPolicy .beforeHookCreation = true → Step cfg info s { s with stage := .apply }
  | apply (s : HookRun) : s.stage = .apply →
      Step cfg info s
        { s.patch with stage := awaiting cfg info.manifest s.clock, applied := true }
  /-- The response of the apply is lost. -/
  | applyLost (s : HookRun) (reason : String) : s.stage = .apply →
      Step cfg info s { s.patch with stage := .returned (some reason) }
  /-- The manifest cannot be read, or the apply is refused. -/
  | applyFails (s : HookRun) (reason : String) : s.stage = .apply →
      Step cfg info s { s with stage := .returned (some reason) }
  | poll (s : HookRun) (deadline : Nat) (i : Instance) : s.stage = .poll deadline →
      s.object = some i →
      Step cfg info s
        { s with stage := afterPoll info.manifest deadline i, saw := some (some i) }
  | pollMissing (s : HookRun) (deadline : Nat) : s.stage = .poll deadline → s.object = none →
      Step cfg info s { s with stage := .ended .failed, saw := some none }
  | pollFails (s : HookRun) (deadline : Nat) : s.stage = .poll deadline →
      Step cfg info s { s with stage := .unfinished deadline }
  | timeout (s : HookRun) (deadline : Nat) : s.stage = .unfinished deadline →
      deadline ≤ s.clock → Step cfg info s { s with stage := .ended .failed, timedOut := true }
  | sleep (s : HookRun) (deadline : Nat) : s.stage = .unfinished deadline →
      s.clock < deadline →
      Step cfg info s { s with stage := .poll deadline, clock := s.clock + Hooks.pollInterval }
  | noCleanup (s : HookRun) (completion : Completion) : s.stage = .ended completion →
      Hooks.deleteAfter info completion = false →
      Step cfg info s { s with stage := .returned (outcome completion) }
  | cleanup (s : HookRun) (completion : Completion) : s.stage = .ended completion →
      Hooks.deleteAfter info completion = true →
      Step cfg info s { s with stage := .returned (outcome completion), object := marked s.object }
  | cleanupFails (s : HookRun) (completion : Completion) : s.stage = .ended completion →
      Hooks.deleteAfter info completion = true →
      Step cfg info s { s with stage := .returned (outcome completion) }

/-- A run starts with any prior instance, or none. -/
structure Initial (s : HookRun) : Prop where
  stage : s.stage = .resolve
  prior : ∀ i, s.object = some i → i.ours = false
  applied : s.applied = false
  created : s.created = false
  saw : s.saw = none
  timedOut : s.timedOut = false

/-- The runs of a hook. -/
def system (cfg : Config) (info : HookInfo) : Transition.System HookRun where
  init := Initial
  step := Step cfg info

end HookRun

end LeanCd
