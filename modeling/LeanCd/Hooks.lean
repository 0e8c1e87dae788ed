import LeanCd.Lock

/-!
# `LeanCd.Hooks`: Helm hooks

`hooks.rs`: which manifests are hooks of which phase, their order and delete
policies, and running a phase.

`classify` splits the manifests of a commit into main resources and hooks, by the annotation
`helm.sh/hook`. A manifest whose hook types are all unsupported is neither. `runPhase` sorts the
hooks of a phase by weight and name, and runs them one at a time until one fails. `runOne` is one
hook: the delete that the policy asks for, the apply, the wait for completion, and the delete
afterwards. The wait polls, and renews the Lease before each poll.
-/

set_option autoImplicit false

namespace LeanCd

/-- `hooks::HookPhase`. -/
inductive HookPhase where
  | preSync
  | postSync
  | preDelete
  | postDelete
deriving DecidableEq

/-- `hooks::HookDeletePolicy`. -/
inductive HookDeletePolicy where
  | beforeHookCreation
  | hookSucceeded
  | hookFailed
deriving DecidableEq

/-- `hooks::Completion`. -/
inductive Completion where
  | running
  | succeeded
  | failed
deriving DecidableEq

/-- `hooks::HookInfo`. -/
structure HookInfo where
  manifest : RawManifest
  weight : Int
  deletePolicies : List HookDeletePolicy
deriving DecidableEq

/-- `HookInfo::key`. -/
def HookInfo.key (h : HookInfo) : ResourceKey := .fromManifest h.manifest

/-- `has_policy`. -/
def HookInfo.hasPolicy (h : HookInfo) (p : HookDeletePolicy) : Bool := h.deletePolicies.contains p

/-- `hooks::Classified`. -/
structure Classified where
  pre : List HookInfo
  main : List RawManifest
  post : List HookInfo
  preDelete : List HookInfo
  postDelete : List HookInfo
deriving DecidableEq

namespace Hooks

/-- `HOOK_WEIGHT_ANNOTATION`. -/
def hookWeightAnnotation : String := "helm.sh/hook-weight"

/-- `HOOK_DELETE_POLICY_ANNOTATION`. -/
def hookDeletePolicyAnnotation : String := "helm.sh/hook-delete-policy"

/-- The tokens of a hook annotation: what stands between its commas, trimmed and in lower case. -/
def hookTokens (raw : String) : List String :=
  (Text.split ',' raw).map fun token => Text.toAsciiLowercase (Text.trim token)

/-- The phase a token names. -/
def phaseOf (token : String) : Option HookPhase :=
  let t := Text.toAsciiLowercase (Text.trim token)
  if t = "pre-install" ∨ t = "pre-upgrade" then some .preSync
  else if t = "post-install" ∨ t = "post-upgrade" then some .postSync
  else if t = "pre-delete" then some .preDelete
  else if t = "post-delete" then some .postDelete
  else none

/-- Append a phase that is not there yet. -/
def addPhase (out : List HookPhase) (phase : HookPhase) : List HookPhase :=
  if phase ∈ out then out else out ++ [phase]

/-- `hook_phases`. -/
def hookPhases (raw : String) : List HookPhase :=
  ((Text.split ',' raw).filterMap phaseOf).foldl addPhase []

/-- `hook_weight`. -/
def hookWeight (m : RawManifest) : Int :=
  ((Manifest.annotation m hookWeightAnnotation).bind (Text.parseI64 ∘ Text.trim)).getD 0

/-- The delete policy a token names. -/
def policyOf (token : String) : Option HookDeletePolicy :=
  let t := Text.toAsciiLowercase (Text.trim token)
  if t = "before-hook-creation" then some .beforeHookCreation
  else if t = "hook-succeeded" then some .hookSucceeded
  else if t = "hook-failed" then some .hookFailed
  else none

/-- `parse_delete_policies`. -/
def parseDeletePolicies (m : RawManifest) : List HookDeletePolicy :=
  match Manifest.annotation m hookDeletePolicyAnnotation with
  | none => [.beforeHookCreation]
  | some raw =>
      match (Text.split ',' raw).filterMap policyOf with
      -- An annotation without a known policy counts as none.
      | [] => [.beforeHookCreation]
      | policies => policies

/-- No manifests. -/
def Classified.empty : Classified := ⟨[], [], [], [], []⟩

/-- Put a hook into one of its phases. -/
def addHook (info : HookInfo) (c : Classified) : HookPhase → Classified
  | .preSync => { c with pre := c.pre ++ [info] }
  | .postSync => { c with post := c.post ++ [info] }
  | .preDelete => { c with preDelete := c.preDelete ++ [info] }
  | .postDelete => { c with postDelete := c.postDelete ++ [info] }

/-- One manifest: a main resource, a hook in its phases, or a hook of none. -/
def classifyOne (c : Classified) (m : RawManifest) : Classified :=
  match Manifest.annotation m hookAnnotation with
  | none => { c with main := c.main ++ [m] }
  | some raw => (hookPhases raw).foldl (addHook ⟨m, hookWeight m, parseDeletePolicies m⟩) c

/-- `classify`. -/
def classify (manifests : List RawManifest) : Classified :=
  manifests.foldl classifyOne Classified.empty

/-- The order of hooks in a phase: weight, then name. -/
def hookLe (a b : HookInfo) : Prop :=
  a.weight < b.weight ∨ (a.weight = b.weight ∧ a.manifest.name ≤ b.manifest.name)

instance (a b : HookInfo) : Decidable (hookLe a b) :=
  inferInstanceAs (Decidable (_ ∨ _))

/-- `sort_by_weight`, a stable sort. -/
def sortByWeight (hooks : List HookInfo) : List HookInfo := hooks.insertionSort hookLe

/-- `is_waitable`. -/
def isWaitable (group kind : String) : Bool :=
  (group == "batch" && kind == "Job") || (group == "" && kind == "Pod")

/-- What one condition of a Job says about its completion. -/
def jobCompletion (c : Value) : Option Completion :=
  let type := (c.get "type").bind Value.asStr
  let status := (c.get "status").bind Value.asStr
  if type = some "Complete" ∧ status = some "True" then some .succeeded
  else if type = some "Failed" ∧ status = some "True" then some .failed
  else none

/-- `hook_completion`. -/
def hookCompletion (group kind : String) (status : Option Value) : Completion :=
  match status.filter (!·.isNull) with
  | none => if isWaitable group kind then .running else .succeeded
  | some status =>
      if group = "batch" ∧ kind = "Job" then
        ((((status.get "conditions").bind Value.asArray).getD []).findSome?
          jobCompletion).getD .running
      else if group = "" ∧ kind = "Pod" then
        let phase := (status.get "phase").bind Value.asStr
        if phase = some "Succeeded" then .succeeded
        else if phase = some "Failed" then .failed
        else .running
      else .succeeded

/-- `hooks::PhaseOutcome`. -/
structure PhaseOutcome where
  attempted : Nat
  failures : List (ResourceKey × String)

/-- The hooks that succeeded, as `Reconciler::hook_phase` counts them. The subtraction saturates. -/
def PhaseOutcome.succeeded (outcome : PhaseOutcome) : Nat :=
  outcome.attempted - outcome.failures.length

/-- The interval between two looks at a hook resource. -/
def pollInterval : Nat := 2 * second

variable {sc : Scopes} (env : Env sc) (cfg : Config)

/-- Refresh the Lease. No outcome stops the caller. -/
def renewBestEffort (guard : LeaseGuard) : Pass sc Unit := do
  let _ ← Act.attempt (δ := Error) (Lock.renew env cfg guard)
  return ()

/-- The looks of `wait_for_completion`, at most `fuel` of them. Each sleeps a whole
interval, so the fuel `waitForCompletion` gives outlasts the deadline. -/
def waitLoop (m : RawManifest) (guard : LeaseGuard) (deadline : Nat) : Nat → Pass sc Completion
  | 0 => return .failed
  | fuel + 1 => do
      renewBestEffort env cfg guard
      let polled ← Act.attempt (δ := Error)
        (KubeUtil.getObject env cfg.namespace m.gvk m.ns m.name)
      let seen : Completion :=
        match polled with
        | .ok (some obj) => hookCompletion m.group m.kind (Value.field obj.data "status")
        -- A hook that is gone cannot complete; a failed poll is tried again.
        | .ok none => .failed
        | .error _ => .running
      match seen with
      | .succeeded => return .succeeded
      | .failed => return .failed
      | .running =>
          if deadline ≤ (← instantNow env) then return .failed
          else
            sleep pollInterval
            waitLoop m guard deadline fuel

/-- `wait_for_completion`. -/
def waitForCompletion (m : RawManifest) (guard : LeaseGuard) : Pass sc Completion := do
  let deadline := (← instantNow env) + cfg.hookTimeout
  waitLoop env cfg m guard deadline (cfg.hookTimeout / pollInterval + 2)

/-- Whether the delete policies ask for a delete after the hook ended so. -/
def deleteAfter (info : HookInfo) : Completion → Bool
  | .succeeded => info.hasPolicy .hookSucceeded
  | .failed => info.hasPolicy .hookFailed
  | .running => false

/-- The value that is applied for a manifest: its document with the managed label. The text of a
failure is that of an `Error::Manifest`, which both callers put into their own. -/
def labelledValue (m : RawManifest) : Except String Value :=
  match env.yaml.fromSlice m.data with
  | .error e => .error (Error.manifest e).toString
  | .ok v => .ok (Manifest.injectManagedLabelValue v cfg.managedLabelKey cfg.managedLabelValue)

/-- Delete the hook's object, whatever comes of it. -/
def deleteHook (m : RawManifest) : Pass sc Unit := do
  let _ ← Act.attempt (δ := Error) (KubeUtil.delete env cfg.namespace m.gvk m.ns m.name)
  return ()

/-- Delete the hook's object when a policy asks for it. -/
def deleteHookIf (asked : Bool) (m : RawManifest) : Pass sc Unit :=
  if asked then deleteHook env cfg m else return ()

/-- The completion of an applied hook: a Job or Pod is awaited. -/
def completionOf (m : RawManifest) (guard : LeaseGuard) : Pass sc Completion :=
  if isWaitable m.group m.kind then waitForCompletion env cfg m guard else return .succeeded

/-- Await an applied hook, then delete it where its policies ask for it. -/
def finishHook (info : HookInfo) (guard : LeaseGuard) : Pass sc (Option String) := do
  let completion ← completionOf env cfg info.manifest guard
  deleteHookIf env cfg (deleteAfter info completion) info.manifest
  return if completion = .failed then some "hook completed with failure" else none

/-- Apply a hook and see it through. -/
def applyHook (info : HookInfo) (guard : LeaseGuard) : Pass sc (Option String) := do
  match labelledValue env cfg info.manifest with
  | .error e => return some ("failed to parse hook manifest: " ++ e)
  | .ok value =>
      match ← Act.attempt (δ := Error)
          (KubeUtil.apply env cfg.namespace info.manifest.gvk value false) with
      | .error e => return some ("apply failed: " ++ e.toString)
      | .ok _ => finishHook env cfg info guard

/-- `run_one`: the reason of the failure, when there is one. -/
def runOne (info : HookInfo) (guard : LeaseGuard) : Pass sc (Option String) := do
  match ← Act.attempt (δ := Error) (KubeUtil.resolve env info.manifest.gvk) with
  | .error e => return some ("api discovery failed: " ++ e.toString)
  | .ok _ =>
      deleteHookIf env cfg (info.hasPolicy .beforeHookCreation) info.manifest
      applyHook env cfg info guard

/-- The hooks of a phase in order, up to the first that fails. -/
def runHooks (guard : LeaseGuard) : List HookInfo → Pass sc PhaseOutcome
  | [] => return ⟨0, []⟩
  | info :: rest => do
      note (.hookStarted info.key)
      match ← runOne env cfg info guard with
      | some reason => return ⟨1, [(info.key, reason)]⟩
      | none =>
          let outcome ← runHooks guard rest
          return { outcome with attempted := outcome.attempted + 1 }

/-- `run_phase`. -/
def runPhase (hooks : List HookInfo) (guard : LeaseGuard) : Pass sc PhaseOutcome :=
  runHooks env cfg guard (sortByWeight hooks)

end Hooks

end LeanCd
