import LeanCd.Calm
import LeanCd.RunLoop

/-!
# `LeanCd.Proofs.WakeUp`: an event wakes the loop

`FollowsEvents` says that a delivered change always has a wake-up pending until a pass
starts: a stored permit while the loop is busy, the mark on the waiter while it sleeps.
`followsEvents_iff`: this holds in every watch mode but `cache`, whose drivers fill
their stores and never notify. `sleeps_through_delete` is a run in which the loop sleeps
while a managed object is gone.

The three ways for a wake-up to be pending are kept apart (`WakeUpPending`), and each step of the
loop passes it on from one to the next, or starts a pass. The invariant is about the modes with a
notification. For `cache` a run is given in which nothing is pending after a change.
-/

set_option autoImplicit false

namespace LeanCd

/-- The loop is between the start of a pass and its sleep. -/
def LoopPhase.busy : LoopPhase → Bool
  | .pass | .passed | .adding _ | .select _ => true
  | .top | .waiting | .woken | .debounce | .exited => false

namespace RunLoop

open Transition

variable {cfg : Config} {kube : KubeCrate} {s t : RunLoop}

/-- A delivered change that no pass has followed yet has a wake-up pending. In the other
phases a pass comes next, or the loop ends. -/
structure WakeUpPending (s : RunLoop) : Prop where
  asleep : s.pending = true → s.phase = .waiting → s.notified = true
  busy : s.pending = true → s.phase.busy = true → s.permit = true

/-- The loop is asleep, and its timer alone will wake it. -/
def Asleep (s : RunLoop) : Prop := s.phase = .waiting ∧ s.notified = false

/-- In every run, a delivered change has a wake-up pending until a pass starts, and the
loop does not sleep in between. -/
structure FollowsEvents (cfg : Config) (kube : KubeCrate) : Prop where
  wakeUp : ∀ s, (system cfg kube).Reachable s → WakeUpPending s
  awake : ∀ s, (system cfg kube).Reachable s → Asleep s → s.pending = false

namespace WakeUpPending

/-- Nothing is pending. -/
theorem of_not_pending (h : s.pending = false) : WakeUpPending s :=
  ⟨fun hp => absurd (h.symm.trans hp) nofun, fun hp => absurd (h.symm.trans hp) nofun⟩

/-- A pass comes next, or the loop ends. -/
theorem of_phase (hwait : s.phase ≠ .waiting) (hbusy : s.phase.busy = false) :
    WakeUpPending s :=
  ⟨fun _ hp => absurd hp hwait, fun _ hb => absurd (hbusy.symm.trans hb) nofun⟩

/-- The loop goes from one busy phase to another and takes no permit. -/
theorem of_busy (h : WakeUpPending s) (hpending : t.pending = s.pending)
    (hpermit : t.permit = s.permit) (hs : s.phase.busy = true) (ht : t.phase.busy = true) :
    WakeUpPending t where
  asleep _ hwait := by
    rw [hwait] at ht
    cases ht
  busy hp _ := hpermit.trans (h.busy (hpending.symm.trans hp) hs)

/-- A notification leaves a wake-up pending, whatever came before. -/
theorem notifyOne (s : RunLoop) : WakeUpPending s.notifyOne := by
  unfold RunLoop.notifyOne
  split
  · rename_i h
    refine ⟨fun _ _ => rfl, fun _ hbusy => ?_⟩
    rw [show ({ s with notified := true } : RunLoop).phase = .waiting from h.1] at hbusy
    cases hbusy
  · rename_i h
    refine ⟨fun _ hwait => ?_, fun _ _ => rfl⟩
    by_contra hnot
    exact h ⟨hwait, by simpa using hnot⟩

/-- A driver that notifies on every change keeps a wake-up pending. -/
theorem handle (h : WakeUpPending s) (htrigger : cfg.watchMode = .trigger) (task : Nat)
    (ev : WatchEvent) :
    WakeUpPending
      (RunLoop.handle cfg kube task ev { s with pending := s.pending || ev.changes }) := by
  unfold RunLoop.handle
  rw [htrigger]
  dsimp only
  split
  · exact notifyOne _
  · rename_i htouch
    -- An event that touches no object changes none.
    have hsame : ev.changes = false := by
      cases ev with
      | init | initDone | initApply o => rfl
      | apply o | delete o => exact absurd rfl htouch
    refine ⟨fun hp => h.asleep ?_, fun hp => h.busy ?_⟩ <;>
      simpa [hsame] using hp

end WakeUpPending

/-- Without a watch there is no driver. -/
theorem no_driver_invariant (hoff : cfg.watchMode = .off) :
    (system cfg kube).Invariant fun s => s.watchSet.handles = ∅ where
  init := by
    rintro s rfl
    rfl
  step := by
    intro s t _ h hstep
    cases hstep with
    -- Without watches no driver is there to deliver anything.
    | deliver g task ev hdriver _ =>
        rw [h, AList.lookup_empty] at hdriver
        cases hdriver
    | exit | stopNow | stopAsleep => rfl
    | rebuild _ _ hwatch => exact absurd hoff hwatch
    -- And none is started.
    | addKind g rest _ _ =>
        unfold spawn WatchSet.spawn
        rw [hoff]
        exact h
    | _ => exact h

/-- Outside cache mode, every step keeps a wake-up pending. -/
theorem wakeUpPending_invariant (hmode : cfg.watchMode ≠ .cache) :
    (system cfg kube).Invariant WakeUpPending where
  init := by
    rintro s rfl
    exact .of_not_pending rfl
  step := by
    intro s t hs h hstep
    cases hstep with
    | stop => exact ⟨h.asleep, h.busy⟩
    | deliver g task ev hdriver _ =>
        cases hm : cfg.watchMode with
        | trigger => exact h.handle hm task ev
        | cache => exact absurd hm hmode
        | off =>
            -- Nothing is delivered without a driver.
            rw [(no_driver_invariant hm).holds hs, AList.lookup_empty] at hdriver
            cases hdriver
    -- The pass that starts follows every change delivered so far.
    | startPass => exact .of_not_pending rfl
    -- From these phases the loop starts a pass without sleeping again, or ends.
    | exit | noDelay | takePermit | stopNow | timer | wake | stopAsleep | debounce
    | noDebounce | debounced => exact .of_phase nofun rfl
    -- The loop stays busy and takes no permit, so what is stored stays stored.
    | passOk _ hphase | passErr hphase | noWatch hphase _ | rebuild _ hphase _
    | addKind _ _ hphase _ | skipKind _ _ hphase _ | breakAdding _ hphase _
    | rebuilt _ hphase _ => exact h.of_busy rfl rfl (by rw [hphase]; rfl) rfl
    | sleep delay hphase hpermit =>
        -- The phase before was busy, so a pending change would have left a permit. The loop
        -- falls asleep without one, so nothing is pending.
        refine ⟨fun hp _ => ?_, fun _ hbusy => nomatch hbusy⟩
        have hstored := h.busy hp (by rw [hphase]; rfl)
        rw [hpermit] at hstored
        cases hstored

/-! ### Cache mode -/

/-- The loop after its first pass left one kind to watch. -/
def watching (cfg : Config) (g : GvkKey) : RunLoop :=
  { spawn cfg g { start with lastGvks := [g] } with phase := .adding [] }

/-- The state of the example in which a kind is watched is reachable. -/
theorem reachable_watching (hon : cfg.watchMode ≠ .off) (g : GvkKey) :
    (system cfg kube).Reachable (watching cfg g) := by
  have hpass : (system cfg kube).Reachable { start with phase := .pass } :=
    (System.Reachable.init rfl).step (.startPass start rfl rfl)
  have hpassed : (system cfg kube).Reachable
      { start with phase := .passed, lastGvks := [g] } := hpass.step (.passOk _ [g] rfl)
  have hadding : (system cfg kube).Reachable
      { start with phase := .adding [g], lastGvks := [g] } :=
    hpassed.step (.rebuild _ .id rfl hon)
  exact hadding.step (.addKind _ g [] rfl rfl)

/-- The same loop, asleep. -/
def sleeping (cfg : Config) (g : GvkKey) : RunLoop :=
  { watching cfg g with
    phase := .waiting
    cacheStores := if cfg.watchMode = .cache then (watching cfg g).watchSet.stores else ∅ }

/-- So is the one in which the loop sleeps beside its watch. -/
theorem reachable_sleeping (hon : cfg.watchMode ≠ .off) (g : GvkKey) :
    (system cfg kube).Reachable (sleeping cfg g) := by
  have hselect : (system cfg kube).Reachable
      { sleeping cfg g with phase := .select cfg.pollInterval } :=
    (reachable_watching hon g).step (.rebuilt _ cfg.pollInterval rfl rfl)
  exact hselect.step (.sleep _ cfg.pollInterval rfl rfl rfl)

/-- In cache mode a driver fills its store, and leaves the loop as it is. -/
theorem handle_cache (kube : KubeCrate) (hcache : cfg.watchMode = .cache) (task : Nat)
    (ev : WatchEvent)
    (s : RunLoop) : ∃ heap, handle cfg kube task ev s = { s with heap } := by
  unfold handle
  rw [hcache]
  dsimp only
  split
  · exact ⟨_, rfl⟩
  · exact ⟨s.heap, rfl⟩

/-- In cache mode, the delete of a managed object does not wake the loop. -/
theorem exists_asleep_pending (kube : KubeCrate) (hcache : cfg.watchMode = .cache) (g : GvkKey)
    (o : DynamicObject) :
    ∃ s, (system cfg kube).Reachable s ∧ Asleep s ∧ s.pending = true := by
  have hdriver : (sleeping cfg g).watchSet.handles.lookup g = some 0 := by
    simp [sleeping, watching, spawn, WatchSet.spawn, hcache, start]
  have hsleeping : (system cfg kube).Reachable (sleeping cfg g) :=
    reachable_sleeping (by rw [hcache]; decide) g
  have hdelivered := hsleeping.step (.deliver _ g 0 (.delete o) hdriver rfl)
  obtain ⟨heap, hheap⟩ := handle_cache kube hcache 0 (.delete o)
    { sleeping cfg g with pending := (sleeping cfg g).pending || WatchEvent.changes (.delete o) }
  rw [hheap] at hdelivered
  exact ⟨_, hdelivered, ⟨rfl, rfl⟩, rfl⟩

/-- The loop follows every delivered change exactly when it is not in cache mode. -/
theorem followsEvents_iff (cfg : Config) (kube : KubeCrate) :
    FollowsEvents cfg kube ↔ cfg.watchMode ≠ .cache := by
  constructor
  · intro h hcache
    obtain ⟨s, hs, hasleep, hpending⟩ := exists_asleep_pending kube hcache
      ⟨"", "v1", "ConfigMap"⟩ ⟨none, ⟨none, none, none, none, none, none, []⟩, []⟩
    rw [h.awake s hs hasleep] at hpending
    cases hpending
  · intro hmode
    refine ⟨fun s hs => (wakeUpPending_invariant hmode).holds hs, fun s hs hasleep => ?_⟩
    by_contra hpending
    have hwake := (wakeUpPending_invariant hmode).holds hs
    have hnotified := hwake.asleep (by simpa using hpending) hasleep.1
    rw [hasleep.2] at hnotified
    cases hnotified

/-- With the default configuration, the loop sleeps on after a managed ConfigMap was
deleted. -/
theorem sleeps_through_delete :
    (∃ s, (system settingsCfg .plain).Reachable s ∧ Asleep s ∧ s.pending = true) ∧
      ¬ FollowsEvents settingsCfg .plain := by
  have hcache : settingsCfg.watchMode = .cache := rfl
  have hrun := exists_asleep_pending .plain hcache (settings none).gvk
    ⟨some ("v1", "ConfigMap"), ⟨some "settings", some "default", none, none, none, none, []⟩, []⟩
  refine ⟨hrun, fun h => ?_⟩
  obtain ⟨s, hs, hasleep, hpending⟩ := hrun
  rw [h.awake s hs hasleep] at hpending
  cases hpending

end RunLoop

end LeanCd
