import LeanCd.Reconcile
import LeanCd.Lib.Transition

/-!
# `LeanCd.RunLoop`: the polling loop and the watch drivers

`Reconciler::run_loop` of `reconcile.rs`, with `WatchSet::rebuild` and the driver tasks
of `watch.rs`, as a transition system. The loop takes one step for each of its awaits,
and a driver may deliver an event between any two of them. How a pass ends, which kinds
can be discovered and when a timer fires is open.

The `Notify` is a permit, which `notify_one` stores while nobody waits, and a mark on
the one waiter, which it hands the notification to. A waiter that is dropped with the
mark on gives the notification back.

`pending` is a history variable: a driver has delivered a change, and no pass has
started since.
-/

set_option autoImplicit false

namespace LeanCd

/-- What `rebuild` meets at a new kind: a stop was requested, the discovery of the kind
fails, or it succeeds. -/
inductive Discovery where
  | stopped
  | failed
  | found
deriving DecidableEq

namespace WatchSet

/-- The second loop of `rebuild`: spawn the drivers of the new kinds, the first one as the
given task. -/
def addKinds (mode : WatchMode) (answer : GvkKey → Discovery) :
    List GvkKey → WatchSet × Nat → WatchSet × Nat
  | [], s => s
  | g :: rest, s =>
      match answer g with
      | .stopped => s
      | .failed => addKinds mode answer rest s
      | .found => addKinds mode answer rest (s.1.spawn mode g s.2, s.2 + 1)

/-- `rebuild`, for the kinds of a hash set. Both differences come in the order of one. -/
def rebuild (mode : WatchMode) (dropOrder addOrder : Shuffle GvkKey)
    (answer : GvkKey → Discovery) (desired : List GvkKey) (s : WatchSet × Nat) :
    WatchSet × Nat :=
  if mode = .off then s
  else
    let (toAdd, toDrop) := diffWatchedSet s.1.handles.keys desired
    addKinds mode answer (addOrder.run toAdd) ((dropOrder.run toDrop).foldl drop s.1, s.2)

/-- `shutdown`. -/
def shutdown (_ : WatchSet) : WatchSet := ⟨∅, ∅⟩

end WatchSet

/-- Where the loop is. -/
inductive LoopPhase where
  /-- The head of the loop, before the check of the stop flag. -/
  | top
  /-- Inside `run_once`. -/
  | pass
  /-- After a pass, before `rebuild`. -/
  | passed
  /-- Inside `rebuild`, with the kinds that are left to add. -/
  | adding (kinds : List GvkKey)
  /-- Before the `select!`, with the delay it is given. -/
  | select (delay : Nat)
  /-- Asleep in the `select!`. -/
  | waiting
  /-- After the `notified` branch of the `select!`. -/
  | woken
  /-- In the debounce sleep. -/
  | debounce
  | exited
deriving DecidableEq

/-- The loop, its drivers, and what they share. -/
structure RunLoop where
  phase : LoopPhase
  stop : Bool
  consecutiveFailures : UInt32
  lastGvks : List GvkKey
  watchSet : WatchSet
  nextTask : Nat
  /-- The stores, by the number of the task that fills them. -/
  heap : AList fun _ : Nat => LightweightStore
  /-- `Reconciler::cache_stores`: a copy of the map, which shares the stores. -/
  cacheStores : AList fun _ : GvkKey => Nat
  permit : Bool
  notified : Bool
  pending : Bool

namespace RunLoop

/-- The loop as it starts. -/
def start : RunLoop where
  phase := .top
  stop := false
  consecutiveFailures := 0
  lastGvks := []
  watchSet := .new
  nextTask := 0
  heap := ∅
  cacheStores := ∅
  permit := false
  notified := false
  pending := false

/-- `u32::saturating_add(1)`. -/
def saturatingSucc32 (n : UInt32) : UInt32 := if n = -1 then n else n + 1

/-- `Notify::notify_one`: to the waiter, if there is one that was not notified yet. -/
def notifyOne (s : RunLoop) : RunLoop :=
  if s.phase = .waiting ∧ s.notified = false then { s with notified := true }
  else { s with permit := true }

/-- The delay of `select!` after a pass: exact after a success, with jitter between three
quarters of it and all of it after a failure. -/
def DelayOf (cfg : Config) (failures : UInt32) (delay : Nat) : Prop :=
  let base := Reconcile.nextDelay failures.toNat cfg.backoffBase cfg.backoffMax cfg.pollInterval
  if failures = 0 then delay = base else 3 * base ≤ 4 * delay ∧ delay ≤ base

/-- What a driver task does with an event. -/
def handle (cfg : Config) (kube : KubeCrate) (task : Nat) (ev : WatchEvent) (s : RunLoop) :
    RunLoop :=
  match cfg.watchMode with
  | .off => s
  | .trigger => if ev.touches then s.notifyOne else s
  | .cache =>
      match s.heap.lookup task with
      | some store => { s with heap := s.heap.insert task (store.applyEvent kube ev) }
      | none => s

/-- The loop spawns the driver of a kind. -/
def spawn (cfg : Config) (g : GvkKey) (s : RunLoop) : RunLoop :=
  { s with
    watchSet := s.watchSet.spawn cfg.watchMode g s.nextTask
    nextTask := s.nextTask + 1
    heap :=
      if cfg.watchMode = .cache then s.heap.insert s.nextTask (.new cfg.cacheMaxObjectBytes)
      else s.heap }

/-- The first half of `rebuild`: drop the kinds that are no longer managed. -/
def dropKinds (s : RunLoop) : WatchSet :=
  (diffWatchedSet s.watchSet.handles.keys s.lastGvks).2.foldl WatchSet.drop s.watchSet

/-- The kinds `rebuild` adds. -/
def newKinds (s : RunLoop) : List GvkKey :=
  (diffWatchedSet s.watchSet.handles.keys s.lastGvks).1

/-- One step of the loop, of a driver, or of the outside. -/
inductive Step (cfg : Config) (kube : KubeCrate) : RunLoop → RunLoop → Prop
  /-- A shutdown is requested. -/
  | stop (s : RunLoop) : Step cfg kube s { s with stop := true }
  /-- The driver of a kind delivers an event. After a stop it ends instead. -/
  | deliver (s : RunLoop) (g : GvkKey) (task : Nat) (ev : WatchEvent) :
      s.watchSet.handles.lookup g = some task → s.stop = false →
      Step cfg kube s
        (handle cfg kube task ev { s with pending := s.pending || ev.changes })
  | exit (s : RunLoop) : s.phase = .top → s.stop = true →
      Step cfg kube s { s with phase := .exited, watchSet := .new }
  | startPass (s : RunLoop) : s.phase = .top → s.stop = false →
      Step cfg kube s { s with phase := .pass, pending := false }
  /-- The pass succeeds. It leaves the kinds it parsed, or the old ones when it was
  skipped. -/
  | passOk (s : RunLoop) (gvks : List GvkKey) : s.phase = .pass →
      Step cfg kube s
        { s with phase := .passed, consecutiveFailures := 0, lastGvks := gvks.dedup }
  | passErr (s : RunLoop) : s.phase = .pass →
      Step cfg kube s
        { s with
          phase := .passed, consecutiveFailures := saturatingSucc32 s.consecutiveFailures }
  /-- Without a watch set there is nothing to rebuild. -/
  | noWatch (s : RunLoop) : s.phase = .passed → cfg.watchMode = .off →
      Step cfg kube s { s with phase := .adding [] }
  /-- `rebuild` drops kinds, and visits the new ones in any order. -/
  | rebuild (s : RunLoop) (order : Shuffle GvkKey) : s.phase = .passed →
      cfg.watchMode ≠ .off →
      Step cfg kube s
        { s with phase := .adding (order.run s.newKinds), watchSet := s.dropKinds }
  | addKind (s : RunLoop) (g : GvkKey) (rest : List GvkKey) : s.phase = .adding (g :: rest) →
      s.stop = false → Step cfg kube s { s.spawn cfg g with phase := .adding rest }
  /-- Discovery of the kind fails. -/
  | skipKind (s : RunLoop) (g : GvkKey) (rest : List GvkKey) : s.phase = .adding (g :: rest) →
      s.stop = false → Step cfg kube s { s with phase := .adding rest }
  | breakAdding (s : RunLoop) (kinds : List GvkKey) : s.phase = .adding kinds →
      s.stop = true → Step cfg kube s { s with phase := .adding [] }
  /-- The snapshot of the stores, and the delay. -/
  | rebuilt (s : RunLoop) (delay : Nat) : s.phase = .adding [] →
      DelayOf cfg s.consecutiveFailures delay →
      Step cfg kube s
        { s with
          phase := .select delay
          cacheStores :=
            if cfg.watchMode = .cache then s.watchSet.stores else s.cacheStores }
  /-- The branches of `select!` that are ready at once: an elapsed delay, a stored permit,
  a stop. -/
  | noDelay (s : RunLoop) : s.phase = .select 0 → Step cfg kube s { s with phase := .top }
  | takePermit (s : RunLoop) (delay : Nat) : s.phase = .select delay → s.permit = true →
      Step cfg kube s { s with phase := .woken, permit := false }
  | stopNow (s : RunLoop) (delay : Nat) : s.phase = .select delay → s.stop = true →
      Step cfg kube s { s with phase := .exited, watchSet := .new }
  /-- No branch is ready: the loop falls asleep, as the one waiter. -/
  | sleep (s : RunLoop) (delay : Nat) : s.phase = .select delay → s.permit = false →
      s.stop = false →
      Step cfg kube s { s with phase := .waiting, notified := false }
  /-- The delay has elapsed. -/
  | timer (s : RunLoop) : s.phase = .waiting →
      Step cfg kube s
        { s with phase := .top, permit := s.permit || s.notified, notified := false }
  | wake (s : RunLoop) : s.phase = .waiting → s.notified = true →
      Step cfg kube s { s with phase := .woken, notified := false }
  | stopAsleep (s : RunLoop) : s.phase = .waiting → s.stop = true →
      Step cfg kube s { s with phase := .exited, watchSet := .new }
  | debounce (s : RunLoop) : s.phase = .woken → s.stop = false →
      Step cfg kube s { s with phase := .debounce }
  | noDebounce (s : RunLoop) : s.phase = .woken → s.stop = true →
      Step cfg kube s { s with phase := .top }
  | debounced (s : RunLoop) : s.phase = .debounce → Step cfg kube s { s with phase := .top }

/-- The runs of the loop. -/
def system (cfg : Config) (kube : KubeCrate) : Transition.System RunLoop where
  init s := s = start
  step := Step cfg kube

end RunLoop

end LeanCd
