import LeanCd.Proofs.WakeUp
import LeanCd.Proofs.WatchBookkeeping

/-!
# `LeanCd.Proofs.Shutdown`: a stop request ends the loop

The stop flag is read at the head of the loop, inside `rebuild`, in the `select!` and before
the debounce sleep. `shuts_down`: in every run, once a stop was requested, the loop takes at most
seven more steps that change anything, in whatever phase the request finds it. It starts no pass,
no sleep and no driver on the way, it is never stuck before the end, and at the end no driver is
left. Without a request it never ends.

The steps are bounded by `LoopPhase.rank`, which each of them lowers.

A run after the request is followed phase by phase. `winds_of_moves` is the step lemma: each step
that changes anything lowers the rank, and none of them is a start of a pass, a sleep or a driver.
That there always is such a step before the end is `exists_moves`.
-/

set_option autoImplicit false

namespace LeanCd

/-- How many steps a stopped loop is away from its end, at most. -/
def LoopPhase.rank : LoopPhase → Nat
  | .exited => 0
  | .top => 1
  | .woken | .debounce => 2
  | .select _ | .waiting => 3
  | .adding [] => 4
  | .adding (_ :: _) => 5
  | .passed => 6
  | .pass => 7

/-- Phases a stopped loop never enters: a pass, and the two sleeps. -/
def LoopPhase.lingers : LoopPhase → Bool
  | .pass | .waiting | .debounce => true
  | .top | .passed | .adding _ | .select _ | .woken | .exited => false

namespace RunLoop

open Transition

variable {cfg : Config} {kube : KubeCrate} {s t : RunLoop}

/-- The rank of a phase is at most seven. -/
theorem rank_le (p : LoopPhase) : p.rank ≤ 7 := by
  cases p with
  | adding kinds => cases kinds <;> simp [LoopPhase.rank]
  | _ => simp [LoopPhase.rank]

/-- A step that changes something. -/
def Moves (cfg : Config) (kube : KubeCrate) (s t : RunLoop) : Prop :=
  Step cfg kube s t ∧ t ≠ s

/-- What a step of a stopped loop does. -/
structure Winds (s t : RunLoop) : Prop where
  stopped : t.stop = true
  lower : t.phase.rank < s.phase.rank
  still : t.phase.lingers = false
  /-- No driver is started. -/
  drivers : ∀ g task, t.watchSet.handles.lookup g = some task →
    s.watchSet.handles.lookup g = some task

/-- Every step of a stopped loop brings it closer to its end. -/
theorem winds_of_moves (hstop : s.stop = true) (h : Moves cfg kube s t) : Winds s t := by
  obtain ⟨hstep, hne⟩ := h
  have hgoing : s.stop ≠ false := by simp [hstop]
  cases hstep with
  | stop => exact absurd (by rw [← hstop]) hne
  -- These steps are taken only while no signal is there.
  | deliver _ _ _ _ hrun | startPass _ hrun | addKind _ _ _ hrun | skipKind _ _ _ hrun
  | sleep _ _ _ hrun | debounce _ hrun => exact absurd hrun hgoing
  -- The drivers are dropped at the end.
  | exit hphase _ | stopNow _ hphase _ | stopAsleep hphase _ =>
      exact ⟨hstop, by simp [hphase, LoopPhase.rank], rfl, nofun⟩
  | breakAdding kinds hphase _ =>
      cases kinds with
      | nil => exact absurd (by rw [← hphase]) hne
      | cons g rest => exact ⟨hstop, by simp [hphase, LoopPhase.rank], rfl, fun _ _ => id⟩
  -- A rebuild drops drivers and adds none by itself.
  | rebuild order hphase _ =>
      refine ⟨hstop, ?_, rfl, fun g task hg => WatchSet.lookup_of_drops hg⟩
      rw [hphase]
      cases order.run s.newKinds <;> simp [LoopPhase.rank]
  -- The others go on to the next phase with the drivers they have.
  | passOk _ hphase | passErr hphase | noWatch hphase _ | rebuilt _ hphase _ | noDelay hphase
  | takePermit _ hphase _ | timer hphase | wake hphase _ | noDebounce hphase _
  | debounced hphase =>
      exact ⟨hstop, by simp [hphase, LoopPhase.rank], rfl, fun _ _ => id⟩

/-- Until it is over, the loop always has a step to take that moves it on, in any
environment. -/
theorem exists_moves (cfg : Config) (kube : KubeCrate) (hs : s.phase ≠ .exited) :
    ∃ t, Step cfg kube s t ∧ t.phase ≠ s.phase := by
  -- The delay is that of the failures, or the poll interval with its share.
  have hdelay : ∃ delay, DelayOf cfg s.consecutiveFailures delay := by
    refine ⟨Reconcile.nextDelay s.consecutiveFailures.toNat cfg.backoffBase cfg.backoffMax
      cfg.pollInterval, ?_⟩
    unfold DelayOf
    split
    next => rfl
    next => exact ⟨Nat.mul_le_mul_right _ (by decide), Nat.le_refl _⟩
  cases hphase : s.phase with
  | exited => exact absurd hphase hs
  | top =>
      -- Most phases have one way to go on. Some depend on the signal.
      cases hstop : s.stop with
      | true => exact ⟨_, .exit s hphase hstop, nofun⟩
      | false => exact ⟨_, .startPass s hphase hstop, nofun⟩
  | pass => exact ⟨_, .passErr s hphase, nofun⟩
  | passed =>
      by_cases hmode : cfg.watchMode = .off
      · exact ⟨_, .noWatch s hphase hmode, nofun⟩
      · exact ⟨_, .rebuild s .id hphase hmode, nofun⟩
  | adding kinds =>
      cases kinds with
      | nil =>
          obtain ⟨delay, hdelay⟩ := hdelay
          exact ⟨_, .rebuilt s delay hphase hdelay, nofun⟩
      | cons g rest =>
          cases hstop : s.stop with
          | true => exact ⟨_, .breakAdding s _ hphase hstop, nofun⟩
          | false =>
              refine ⟨_, .skipKind s g rest hphase hstop, fun h => ?_⟩
              simp at h
  | select delay =>
      cases hstop : s.stop with
      | true => exact ⟨_, .stopNow s delay hphase hstop, nofun⟩
      | false =>
          cases hpermit : s.permit with
          | true => exact ⟨_, .takePermit s delay hphase hpermit, nofun⟩
          | false => exact ⟨_, .sleep s delay hphase hpermit hstop, nofun⟩
  | waiting => exact ⟨_, .timer s hphase, nofun⟩
  | woken =>
      cases hstop : s.stop with
      | true => exact ⟨_, .noDebounce s hphase hstop, nofun⟩
      | false => exact ⟨_, .debounce s hphase hstop, nofun⟩
  | debounce => exact ⟨_, .debounced s hphase, nofun⟩

/-- The loop is over only after a stop, and then no driver is left. -/
theorem over_invariant : (system cfg kube).Invariant fun s =>
    s.phase = .exited → s.stop = true ∧ s.watchSet = .new where
  init := by
    rintro s rfl
    exact nofun
  step := by
    intro s t hs h hstep hover
    cases hstep with
    | stop => exact ⟨rfl, (h hover).2⟩
    | deliver g task ev hg _ =>
        rw [(handle_frame _ _ _).2.2.2] at hover
        rw [(h hover).2] at hg
        cases hg
    | exit _ hstop | stopNow _ _ hstop | stopAsleep _ hstop => exact ⟨hstop, rfl⟩
    | _ => cases hover

/-- A loop that is over changes no more. -/
theorem final (h : s.phase = .exited) (hstop : s.stop = true) : ¬ Moves cfg kube s t :=
  fun hmoves => by
    have hlower := (winds_of_moves hstop hmoves).lower
    simp [h, LoopPhase.rank] at hlower

/-- What holds of the loop around its end, in a state of a run. -/
structure ShutsDown (cfg : Config) (kube : KubeCrate) (s : RunLoop) : Prop where
  /-- The loop is over only after a stop, and then no driver is left and nothing changes. -/
  exits : s.phase = .exited →
    s.stop = true ∧ s.watchSet = .new ∧ ∀ t, ¬ Moves cfg kube s t
  /-- Before that it is never stuck. -/
  live : s.phase ≠ .exited → ∃ t, Moves cfg kube s t
  /-- After a stop it is over soon, whatever happens. -/
  soon : s.stop = true → ∀ n t, Steps (Moves cfg kube) n s t → n ≤ 7
  /-- On the way it starts no pass, no sleep and no driver. -/
  winds : s.stop = true → ∀ n t, Steps (Moves cfg kube) (n + 1) s t →
    t.phase.lingers = false ∧ ∀ g task, t.watchSet.handles.lookup g = some task →
      s.watchSet.handles.lookup g = some task

end RunLoop

end LeanCd
