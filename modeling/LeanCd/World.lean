import LeanCd.Watch
import LeanCd.Lib.Act

/-!
# `LeanCd.World`: what a pass runs against

A pass is a computation over `World`: the state of the API server and of the
process. Everything the program does not decide is in `Env` and indexed by the
number of interactions so far: which API calls fail and how, what other clients
of the API server do in between, the clocks, the stop flag, the iteration order
of hash maps, and what `git` answers. A statement about every `Env` is a
statement about every run.

Other clients change the live objects and the Lease. They do not touch the state
ConfigMap or the process, so this model is about passes that do not overlap. The
interleavings of several processes are modelled in `LeanCd.Processes`.

`World.trace` and `World.traffic` are ghost histories that the model keeps: what was done to the
cluster, newest first, and what was sent, a request or a git command each. No function of the
program reads them. `World.slept` and the clocks of `Env` give the time.

`Pass` is the monad of a pass: a result or an `Error`, and the world in either case. A failing
call leaves the world in which it failed, as in the source a failed `await` does not undo what
went before.
-/

set_option autoImplicit false

namespace LeanCd

/-- `coordination.k8s.io/v1` Lease, the fields `lock.rs` reads. -/
structure Lease where
  holder : Option String
  durationSecs : Option Int
  renewTime : Option Nat
  resourceVersion : Nat
deriving DecidableEq

/-- One call to the API server. Objects are addressed under a version. -/
inductive Request (sc : Scopes) where
  | discover (g : GvkKey)
  | list (g : GvkKey)
  | get (g : GvkKey) (id : ObjId sc)
  | patch (g : GvkKey) (id : ObjId sc) (dryRun : Bool)
  | delete (g : GvkKey) (id : ObjId sc)
  | stateGet
  | statePatch
  | leaseGet
  | leaseCreate
  | leaseReplace
  | leaseDelete
deriving DecidableEq

/-- What happens to a call: it is served; or it fails before the server acts; or
the server acts and the response is lost. -/
inductive Fault where
  | none
  | refused (e : KubeError)
  | lost (e : KubeError)
deriving DecidableEq

/-- A `git` invocation, without the work directory and the URL it is given. -/
inductive GitCommand where
  | fetch (branch : String)
  | deepen (branch : String)
  | clone (branch : String)
  | resetHard (ref : String)
  | checkout (ref : String)
  | catFile (sha : String)
  | revParseHead
  | revListCount
deriving DecidableEq

/-- How a `git` invocation ends: it could not be started, or it exits. -/
inductive GitOutcome where
  | notStarted (text : String)
  | exited (success : Bool) (stdout stderr : String)
deriving DecidableEq

/-- An order in which the entries of a hash set are visited. -/
structure Shuffle (α : Type) where
  run : List α → List α
  perm : ∀ l, (run l).Perm l

namespace Shuffle

variable {α : Type}

/-- The entries as they stand. -/
def id : Shuffle α := ⟨fun l => l, fun _ => .refl _⟩

/-- A hash order has the elements of the list, neither more nor less. -/
@[simp] theorem mem_run (s : Shuffle α) (l : List α) (a : α) : a ∈ s.run l ↔ a ∈ l :=
  (s.perm l).mem_iff

end Shuffle

/-- What the program does not decide. -/
structure Env (sc : Scopes) where
  /-- The name under which the audit log of the API server knows the process. -/
  client : String
  yaml : Yaml
  kube : KubeCrate
  url : UrlCrate
  /-- Server-side apply: the stored object after a forced apply. -/
  merge : Option DynamicObject → DynamicObject → DynamicObject
  /-- A foreground delete: the object is gone, or it stays, marked for deletion. -/
  onDelete : Nat → ObjId sc → Live → Option Live
  fault : Nat → Request sc → Fault
  others : Nat → Cluster sc → Cluster sc
  otherLease : Nat → Option Lease → Option Lease
  /-- Time that passes outside `sleep`. -/
  busy : Nat → Nat
  busy_mono : Monotone busy
  wallClock : Nat → Nat
  stop : Nat → Bool
  gvkOrder : Nat → Shuffle GvkKey
  keyOrder : Nat → Shuffle ResourceKey
  git : Nat → GitCommand → GitOutcome
  gitDirExists : Nat → Bool
  workDirExists : Nat → Bool
  removeWorkDir : Nat → Except String Unit
  prepareSshKey : Nat → Except String Unit
  /-- The files of the checkout at a revision. -/
  tree : String → WorkTree
  /-- The stores the watch drivers of a controller fill, `Reconciler::cache_stores`.
  A one-shot pass has none. -/
  cacheStores : Nat → CacheStores
  /-- The characters outside ASCII that the `Debug` form of a text escapes. -/
  unprintable : Char → Bool

/-- What a pass did: the changes the server carried out for it, and the apply
attempts and hooks it started, as the audit log has them. -/
inductive Event (sc : Scopes) where
  | patched (id : ObjId sc) (sent : DynamicObject)
  | deleted (id : ObjId sc)
  | stateWritten (v : Value)
  | applyStarted (key : ResourceKey)
  | hookStarted (key : ResourceKey)
deriving DecidableEq

/-- What goes over the network: the API calls and the `git` commands, and the number of objects
that a list call brings back. -/
inductive Traffic (sc : Scopes) where
  | request (req : Request sc)
  | objects (n : Nat)
  | git (cmd : GitCommand)
deriving DecidableEq

/-- The API server and the process. `trace` and `traffic` are history variables, newest first:
what the process did, and every call and command that it sent for it. No function reads them. -/
structure World (sc : Scopes) where
  step : Nat
  slept : Nat
  cluster : Cluster sc
  /-- The JSON text under the `state` key of the state ConfigMap. -/
  stateCm : Option Value
  lease : Option Lease
  nextRv : Nat
  trace : List (Event sc)
  traffic : List (Traffic sc)
  /-- `Metrics::last_success_epoch`. -/
  lastSuccess : Option Nat
  /-- `Reconciler::last_gvks`. -/
  lastGvks : List GvkKey

/-- A computation with the errors of the program. -/
abbrev Pass (sc : Scopes) := EStateM Error (World sc)

section
variable {sc : Scopes}

/-- The objects this process deleted, newest first. -/
def World.deletions (w : World sc) : List (ObjId sc) :=
  w.trace.filterMap fun
    | .deleted id => some id
    | _ => none

/-- The texts of the state that the server stored for this process, newest first. -/
def World.writes (w : World sc) : List Value :=
  w.trace.filterMap fun
    | .stateWritten v => some v
    | _ => none

/-- The event is a change that the server carried out. -/
def Event.mutates : Event sc → Bool
  | .patched _ _ | .deleted _ | .stateWritten _ => true
  | .applyStarted _ | .hookStarted _ => false

/-- The changes the server carried out for the process, newest first. -/
def World.effects (w : World sc) : List (Event sc) := w.trace.filter Event.mutates

variable (env : Env sc)

/-- One interaction with the outside: the counter moves on, and other clients may
have acted. Returns the number of the interaction. -/
def tick : Pass sc Nat := fun w =>
  .ok w.step { w with
    step := w.step + 1
    cluster := env.others w.step w.cluster
    lease := env.otherLease w.step w.lease }

/-- Put what goes over the network into the history. -/
def transmit (x : Traffic sc) : Pass sc Unit := modify fun w => { w with traffic := x :: w.traffic }

/-- One API call. `act` is what the server does when it serves the call. -/
def call {α : Type} (req : Request sc) (act : Pass sc α) : Pass sc α := do
  transmit (.request req)
  match env.fault (← tick env) req with
  | .none => act
  | .refused e => throw (.kube e)
  | .lost e =>
      -- The server has acted, but the caller sees a failure all the same.
      let _ ← Act.attempt (δ := Error) act
      throw (.kube e)

/-- Put an event into the history. -/
def note (e : Event sc) : Pass sc Unit := modify fun w => { w with trace := e :: w.trace }

/-- `tokio::time::sleep`. -/
def sleep (d : Nat) : Pass sc Unit := modify fun w => { w with slept := w.slept + d }

/-- `tokio::time::Instant::now`: sleeping takes at least as long as asked. -/
def instantNow : Pass sc Nat := do
  let n ← tick env
  return (← get).slept + env.busy n

/-- `Timestamp::now`. -/
def timestampNow : Pass sc Nat := return env.wallClock (← tick env)

/-- Whether shutdown has been requested. -/
def stopRequested : Pass sc Bool := return env.stop (← tick env)

/-- The distinct kinds of a list, in the order of a hash set. -/
def hashGvks (l : List GvkKey) : Pass sc (List GvkKey) :=
  return (env.gvkOrder (← tick env)).run l.dedup

/-- The distinct keys of a list, in the order of a hash set. -/
def hashKeys (l : List ResourceKey) : Pass sc (List ResourceKey) :=
  return (env.keyOrder (← tick env)).run l.dedup

end

end LeanCd
