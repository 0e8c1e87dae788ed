import LeanCd.Commands
import LeanCd.RunLoop

/-!
# `LeanCd.Controller`: the loop and its passes

`run_controller` of `main.rs`. `LeanCd.RunLoop` leaves open what a pass does. Here it is
`run_once`, in the world that it changes, and the loop goes on with its result and with the kinds
that it left in `last_gvks`.

A pass is one step, which it takes at its end. The drivers and the outside act on the loop before
that. What the cache and the stop flag show to a pass is left to its environment.
-/

set_option autoImplicit false

namespace LeanCd

/-- The loop, and the world of its passes. `stored` is kept for the results only: whether a pass
has stored its state since the start. -/
structure Controller (sc : Scopes) where
  loop : RunLoop
  world : World sc
  stored : Bool

namespace Controller

variable {sc : Scopes}

/-- The loop after a pass with this result, which left these kinds. -/
def afterPass (s : RunLoop) (result : Except Error Unit) (gvks : List GvkKey) : RunLoop :=
  { s with
    phase := .passed
    consecutiveFailures :=
      match result with
      | .ok _ => 0
      | .error _ => RunLoop.saturatingSucc32 s.consecutiveFailures
    lastGvks := gvks }

/-- One step of the loop, of a driver or of the outside, or a whole pass. -/
inductive Step (E : Env sc → Prop) (r : Reconciler) (kube : KubeCrate) :
    Controller sc → Controller sc → Prop
  /-- Only a pass ends a pass. -/
  | loop (s : Controller sc) (t : RunLoop) : RunLoop.Step r.cfg kube s.loop t →
      (s.loop.phase = .pass → t.phase = .pass) → Step E r kube s ⟨t, s.world, s.stored⟩
  | pass (s : Controller sc) (env : Env sc) : E env → s.loop.phase = .pass →
      Step E r kube s
        ⟨afterPass s.loop (Act.value (Reconcile.runOnce env r s.world))
            (Act.state (Reconcile.runOnce env r s.world)).lastGvks,
          Act.state (Reconcile.runOnce env r s.world),
          s.stored || Reconcile.storesState env r s.world⟩

/-- The runs of a controller that is started in the world `w₀`. -/
def system (E : Env sc → Prop) (cfg : Config) (secrets : Secrets) (holder : String)
    (kube : KubeCrate) (w₀ : World sc) : Transition.System (Controller sc) where
  init s := s = ⟨.start, { w₀ with lastGvks := [] }, false⟩
  step := Step E (Command.controller.reconciler cfg secrets holder) kube

end Controller

end LeanCd
