import LeanCd.Controller
import LeanCd.Proofs.CacheCoherence
import LeanCd.Proofs.FailedPass
import LeanCd.Proofs.PassRuns
import LeanCd.Proofs.Totality

/-!
# `LeanCd.Proofs.WatchedKinds`: a controller watches what it has applied

The loop rebuilds its watch set from the kinds that the last pass left. A pass leaves them right
after it has stored the state with the applied set, and the record of an error changes neither.

A process that has just started knows of no kinds, whatever an earlier one has stored. It watches
nothing until a pass stores a state, and from then on the kinds of the stored set, even where that
is the set that it found. `Controller.stored` says which of the two it is.

The parts:

* `Within` and `Complete` follow the watch set through the loop, whatever its passes leave.
* `Remembers` follows the kinds through a pass.
* `Sound` says that a controller is a run of the loop and of passes at once, so that both meet in
  `watches_applied`.

No other process writes the state here. A rollback in between would change the applied set, and
the controller would watch the former one until its next pass.
-/

set_option autoImplicit false

namespace LeanCd

open Transition

/-- Outside a pass and the `rebuild` after it. -/
def LoopPhase.settled : LoopPhase → Bool
  | .pass | .passed | .adding _ => false
  | .top | .select _ | .waiting | .woken | .debounce | .exited => true

namespace RunLoop

variable {cfg : Config} {kube : KubeCrate} {s t : RunLoop}

/-! ### The loop -/

/-- Every kind with a driver is one of the kinds that the last pass left, and so is every kind
that is still to be added. -/
structure Within (cfg : Config) (s : RunLoop) : Prop where
  watched : s.phase ≠ .passed → ∀ g ∈ s.watchSet.handles, g ∈ s.lastGvks
  adding : ∀ kinds, s.phase = .adding kinds → ∀ g ∈ kinds, g ∈ s.lastGvks
  off : cfg.watchMode = .off → ∀ g, g ∉ s.watchSet.handles

/-- Of the watched kinds those stay that the last pass recorded. -/
theorem mem_dropKinds {g : GvkKey} :
    g ∈ s.dropKinds.handles ↔ g ∈ s.watchSet.handles ∧ g ∈ s.lastGvks := by
  unfold dropKinds
  rw [← AList.lookup_isSome, (WatchSet.lookup_drops g _ _).1, ← AList.lookup_isSome]
  have hkey : g ∈ s.watchSet.handles.keys ↔ (s.watchSet.handles.lookup g).isSome := by
    rw [AList.lookup_isSome, AList.mem_keys]
  split
  next hdrop =>
    simp only [diffWatchedSet, List.mem_filter, decide_not, Bool.not_eq_true',
      decide_eq_false_iff_not] at hdrop
    simp [hdrop.2]
  next hkeep =>
    simp only [diffWatchedSet, List.mem_filter, decide_not, Bool.not_eq_true',
      decide_eq_false_iff_not, not_and, not_not, hkey] at hkeep
    exact ⟨fun h => ⟨h, hkeep h⟩, And.left⟩

/-- New are the recorded kinds that nobody watches yet. -/
theorem mem_newKinds {g : GvkKey} :
    g ∈ s.newKinds ↔ g ∈ s.lastGvks ∧ g ∉ s.watchSet.handles := by
  simp [newKinds, diffWatchedSet, AList.mem_keys]

/-- A spawn adds its kind, unless nothing is watched in this mode. -/
theorem mem_spawn {g k : GvkKey} (hmode : cfg.watchMode ≠ .off) :
    k ∈ (s.spawn cfg g).watchSet.handles ↔ k = g ∨ k ∈ s.watchSet.handles := by
  simp only [spawn, WatchSet.spawn]
  cases hcase : cfg.watchMode with
  | off => exact absurd hcase hmode
  | trigger | cache => simp

/-- Without a watch a spawn does nothing. -/
theorem spawn_off {g : GvkKey} (hmode : cfg.watchMode = .off) :
    (s.spawn cfg g).watchSet = s.watchSet := by
  simp [spawn, WatchSet.spawn, hmode]

/-- A step that changes neither the kinds nor the set keeps the inclusion. -/
theorem Within.of_same (h : Within cfg s) (hkinds : t.lastGvks = s.lastGvks)
    (hset : t.watchSet = s.watchSet) (hpassed : s.phase ≠ .passed)
    (hphase : ∀ kinds, t.phase = .adding kinds → s.phase = .adding kinds ∨ kinds = []) :
    Within cfg t where
  watched _ := by
    rw [hset, hkinds]
    exact h.watched hpassed
  adding kinds ht g hg := by
    rw [hkinds]
    rcases hphase kinds ht with hs | rfl
    · exact h.adding kinds hs g hg
    · cases hg
  off := by
    rw [hset]
    exact h.off

/-- The loop is over, and no driver is left. -/
theorem Within.exited : Within cfg { s with phase := .exited, watchSet := .new } :=
  ⟨fun _ g hg => (by simp [WatchSet.new] at hg), fun _ h => (by cases h),
    fun _ g hg => (by simp [WatchSet.new] at hg)⟩

/-- In every run the watched kinds are recorded ones, and those yet to be added are too. One case
for each step of the loop. -/
theorem within_invariant : (system cfg kube).Invariant (Within cfg) where
  init := by
    rintro s rfl
    exact ⟨fun _ g hg => (by simp [start, WatchSet.new] at hg), fun _ h => (by cases h),
      fun _ g hg => (by simp [start, WatchSet.new] at hg)⟩
  step := by
    intro s t _ h hstep
    cases hstep with
    | stop => exact ⟨h.watched, h.adding, h.off⟩
    -- A delivery leaves the drivers and the phase.
    | deliver g task ev _ _ =>
        obtain ⟨hlast, hset, -, hphase⟩ := @handle_frame cfg kube task ev
          { s with pending := s.pending || ev.changes }
        refine ⟨?_, ?_, ?_⟩
        · rw [hphase, hset, hlast]
          exact h.watched
        · rw [hphase, hlast]
          exact h.adding
        · rw [hset]
          exact h.off
    | exit | stopNow | stopAsleep => exact .exited
    | passOk | passErr => exact ⟨fun hne => absurd rfl hne, fun _ ht => (by cases ht), h.off⟩
    | noWatch _ hmode =>
        exact ⟨fun _ g hg => absurd hg (h.off hmode g), fun _ ht g hg => (by cases ht; cases hg),
          h.off⟩
    -- After the drop only desired kinds are watched. The new ones are added one by one.
    | rebuild order _ hmode =>
        refine ⟨fun _ g hg => (mem_dropKinds.mp hg).2, ?_, fun hoff => absurd hoff hmode⟩
        rintro _ ⟨rfl⟩ g hg
        exact (mem_newKinds.mp ((order.mem_run _ _).mp hg)).1
    | addKind g rest hphase _ =>
        -- The kind to be added is one of the last pass's.
        have hg : g ∈ s.lastGvks := h.adding _ hphase g List.mem_cons_self
        refine ⟨fun _ k hk => ?_, ?_, fun hoff => ?_⟩
        · by_cases hoff : cfg.watchMode = .off
          · rw [spawn_off hoff] at hk
            exact absurd hk (h.off hoff k)
          · rcases (mem_spawn hoff).mp hk with rfl | hk
            · exact hg
            · exact h.watched (by simp [hphase]) k hk
        · rintro _ ⟨rfl⟩ k hk
          exact h.adding _ hphase k (List.mem_cons_of_mem _ hk)
        · dsimp only
          rw [spawn_off hoff]
          exact h.off hoff
    | skipKind g rest hphase _ =>
        refine ⟨fun _ => h.watched (by simp [hphase]), ?_, h.off⟩
        rintro _ ⟨rfl⟩ k hk
        exact h.adding _ hphase k (List.mem_cons_of_mem _ hk)
    | breakAdding kinds hphase _ =>
        exact h.of_same rfl rfl (by simp [hphase]) fun _ ht => .inr (by cases ht; rfl)
    | startPass hphase _ | rebuilt _ hphase _ | noDelay hphase | takePermit _ hphase _
    | sleep _ hphase _ _ | timer hphase | wake hphase _ | debounce hphase _ | noDebounce hphase _
    | debounced hphase =>
        exact h.of_same rfl rfl (by simp [hphase]) fun _ ht => (by cases ht)

/-- Discovery of a kind does not fail. -/
def Discovers (s t : RunLoop) : Prop :=
  ∀ g rest, s.phase = .adding (g :: rest) → t.phase = .adding rest → g ∈ t.watchSet.handles

/-- Until a stop is requested, every kind that the last pass left has a driver, or is still to be
added. -/
structure Complete (s : RunLoop) : Prop where
  settled : s.stop = false → s.phase.settled = true → ∀ g ∈ s.lastGvks, g ∈ s.watchSet.handles
  adding : s.stop = false → ∀ kinds, s.phase = .adding kinds →
    ∀ g ∈ s.lastGvks, g ∈ s.watchSet.handles ∨ g ∈ kinds

/-- A step between two settled phases that changes neither keeps completeness. -/
theorem Complete.of_same (h : Complete s) (hkinds : t.lastGvks = s.lastGvks)
    (hset : t.watchSet = s.watchSet) (hstop : t.stop = s.stop) (hs : s.phase.settled = true)
    (ht : t.phase.settled = true) : Complete t where
  settled hrun _ := by
    rw [hset, hkinds]
    exact h.settled (hstop ▸ hrun) hs
  adding _ kinds hadding := by
    rw [hadding] at ht
    cases ht

/-- After a stop nothing is promised. -/
theorem Complete.of_stopped (hstop : t.stop = true) : Complete t where
  settled hrun := by
    rw [hstop] at hrun
    cases hrun
  adding hrun := by
    rw [hstop] at hrun
    cases hrun

/-- The first of the kinds that are still to be added has a driver now. -/
theorem Complete.added (h : Complete s) {g : GvkKey} {rest : List GvkKey}
    (hphase : s.phase = .adding (g :: rest)) (hrun : s.stop = false)
    (hnext : t.phase = .adding rest) (hkinds : t.lastGvks = s.lastGvks)
    (hg : g ∈ t.watchSet.handles)
    (hkept : ∀ k, k ∈ s.watchSet.handles → k ∈ t.watchSet.handles) : Complete t where
  settled _ hsettled := by
    rw [hnext] at hsettled
    cases hsettled
  adding _ kinds hadding k hk := by
    rw [hnext] at hadding
    cases hadding
    rw [hkinds] at hk
    rcases h.adding hrun _ hphase k hk with hwatched | hleft
    · exact .inl (hkept k hwatched)
    · rcases List.mem_cons.mp hleft with rfl | hleft
      · exact .inl hg
      · exact .inr hleft

/-- Where discovery does not fail every recorded kind is watched, outside a pass and the rebuild
after it. The rebuild adds them one by one, and the invariant says which are left. -/
theorem complete_invariant (hmode : cfg.watchMode ≠ .off) :
    ((system cfg kube).restrict Discovers).Invariant Complete where
  init := by
    rintro s rfl
    exact ⟨fun _ _ g hg => (by cases hg), fun _ _ h => (by cases h)⟩
  step := by
    rintro s t _ h ⟨hstep, hdiscovers⟩
    cases hstep with
    | stop => exact .of_stopped rfl
    | deliver g task ev _ _ =>
        obtain ⟨hlast, hset, -, hphase⟩ := @handle_frame cfg kube task ev
          { s with pending := s.pending || ev.changes }
        have hstop := @handle_stop cfg kube task ev { s with pending := s.pending || ev.changes }
        refine ⟨?_, ?_⟩
        · rw [hphase, hset, hlast, hstop]
          exact h.settled
        · rw [hphase, hset, hlast, hstop]
          exact h.adding
    | exit _ hstop | breakAdding _ _ hstop => exact .of_stopped hstop
    | stopNow _ _ hstop | stopAsleep _ hstop => exact .of_stopped hstop
    | startPass | passOk | passErr =>
        exact ⟨fun _ hs => (by cases hs), fun _ _ hs => (by cases hs)⟩
    | noWatch _ hoff => exact absurd hoff hmode
    -- A desired kind is watched already or it is among the new ones.
    | rebuild order _ _ =>
        refine ⟨fun _ hs => (by cases hs), ?_⟩
        rintro _ _ ⟨rfl⟩ g hg
        by_cases hwatched : g ∈ s.watchSet.handles
        · exact .inl (mem_dropKinds.mpr ⟨hwatched, hg⟩)
        · exact .inr ((order.mem_run _ _).mpr (mem_newKinds.mpr ⟨hg, hwatched⟩))
    | addKind g rest hphase hrun =>
        exact h.added hphase hrun rfl rfl ((mem_spawn hmode).mpr (.inl rfl))
          fun _ hk => (mem_spawn hmode).mpr (.inr hk)
    | skipKind g rest hphase hrun =>
        -- A kind that is skipped was not found, which the hypothesis excludes.
        exact h.added hphase hrun rfl rfl (hdiscovers g rest hphase rfl) fun _ hk => hk
    -- Nothing is left to be added, so every kind is watched.
    | rebuilt delay hphase _ =>
        refine ⟨fun hrun _ g hg => ?_, fun _ _ hs => (by cases hs)⟩
        rcases h.adding hrun _ hphase g hg with hwatched | hleft
        · exact hwatched
        · cases hleft
    | noDelay hphase | takePermit _ hphase _ | sleep _ hphase _ _ | timer hphase
    | wake hphase _ | debounce hphase _ | noDebounce hphase _ | debounced hphase =>
        exact h.of_same rfl rfl rfl (by rw [hphase]; rfl) rfl

end RunLoop

namespace Reconcile

open Act

variable {sc : Scopes} {env : Env sc} {cfg : Config}

/-! ### The kinds that a pass leaves -/

/-- The kinds of an applied set. -/
def kindsOf (applied : List ResourceKey) : List GvkKey := (applied.map ResourceKey.gvk).dedup

/-- The state ConfigMap and the kinds are left alone. -/
def recordKept (sc : Scopes) : Frame (World sc) :=
  .fixed fun w => (w.stateCm, w.writes, w.lastGvks)

/-- Interactions leave the record of the kinds alone. -/
theorem benign_recordKept : Benign env (recordKept sc) :=
  ⟨⟨fun _ => rfl, fun _ _ => rfl⟩, fun _ _ => rfl, fun _ _ _ => rfl⟩

/-- So do writes to the cluster. -/
theorem blind_recordKept : Blind (recordKept sc) :=
  fun _ c _ he => Prod.ext rfl (Prod.ext (writes_cons c he) rfl)

/-- The kinds are left alone. -/
def kindsKept (sc : Scopes) : Frame (World sc) := .fixed fun w => w.lastGvks

/-- Interactions keep the kinds. -/
theorem benign_kindsKept : Benign env (kindsKept sc) :=
  ⟨⟨fun _ => rfl, fun _ _ => rfl⟩, fun _ _ => rfl, fun _ _ _ => rfl⟩

/-- A write of the state keeps them, for they are recorded apart from it. -/
theorem stateWrite_kindsKept (s : State) : Keeps (kindsKept sc) (State.write env s) :=
  benign_kindsKept.stateWrite fun _ => rfl

/-- What a pass does to the record of its resources: it stores a state and leaves the kinds of its
applied set, or it leaves the state and the kinds alone. Only the first is a success for
certain. -/
def Effect (w : World sc) (res : Except Error Unit) (t : World sc) : Prop :=
  (recordKept sc).rel w t ∨ w.writes.length < t.writes.length ∧
    res = .ok () ∧ ∃ s, t.stored = some s ∧ t.lastGvks = kindsOf s.applied

/-- The effect of a pass is the same when steps that leave the record alone come before it. -/
theorem Effect.after {w v t : World sc} {res : Except Error Unit} (h : Effect v res t)
    (hkept : (recordKept sc).rel w v) : Effect w res t := by
  rcases h with h | ⟨hgrows, hstored⟩
  · exact .inl ((recordKept sc).trans hkept h)
  · have hwrites : v.writes = w.writes := (Prod.mk.inj (Prod.mk.inj hkept).2).1
    exact .inr ⟨hwrites ▸ hgrows, hstored⟩

/-- The execution of a pass leaves the record alone, or it succeeds with a stored state and the
kinds of that state recorded. -/
theorem after_execute_effect (hs : env.StateApi) (guard : LeaseGuard) (prev : Option State)
    (sync : SyncOutcome) (c : Classified) (w : World sc) :
    After (execute env cfg guard prev sync c) w fun res t => Effect w res t := by
  have hb := @benign_recordKept _ env
  have hbranch : Keeps (recordKept sc) (branch env cfg guard prev sync c) :=
    hb.branch (blind_recordKept.allowsApply _ _) (blind_recordKept.allowsHooks _)
      blind_recordKept.serveDelete guard prev sync
  rw [execute, after_bind]
  refine (hbranch.after w).mono ?_
  intro res t ht
  cases res with
  -- The branch failed, and nothing was recorded.
  | error e => exact .inl ht
  | ok outcome =>
      dsimp only
      rw [after_bind]
      refine (((hb.nextState guard prev sync c outcome).after t).and
        ((Benign.returns_nextState guard prev sync c outcome).after t)).mono ?_
      rintro res u ⟨hu, hstate⟩
      have hkept : (recordKept sc).rel w u := (recordKept sc).trans ht hu
      cases res with
      | error e => exact .inl hkept
      | ok s =>
          obtain ⟨health, epoch, rfl⟩ := hstate s rfl
          have hlast : Keeps (kindsKept sc)
              (State.write env (newState prev sync c outcome health epoch)) :=
            stateWrite_kindsKept _
          dsimp only
          rw [after_bind]
          refine (((after_stateWrite_error hs _ u).and (after_stateWrite_writes hs _ u)).and
            (hlast.after u)).mono ?_
          rintro res v ⟨⟨hv, hwrites⟩, hgvks⟩
          cases res with
          -- The write failed, so the kinds are those of before.
          | error e =>
              exact .inl ((recordKept sc).trans hkept
                (Prod.ext (hv.2 (by simp)) (Prod.ext (hwrites.2 (by simp)) hgvks)))
          | ok x =>
              -- The write was stored: the log is longer by one, and the kinds are those of the
              -- stored set.
              have hgrows : w.writes.length < v.writes.length := by
                have hbefore : u.writes = w.writes := (Prod.mk.inj (Prod.mk.inj hkept).2).1
                rw [hwrites.1 rfl, List.length_cons, hbefore]
                exact Nat.lt_succ_self _
              refine .inr ⟨hgrows, rfl, newState prev sync c outcome health epoch, ?_, ?_⟩
              · exact World.stored_of_stateCm (hv.1 rfl)
              · show (c.main.map RawManifest.gvk).dedup = kindsOf (ResourceKey.keysOf c.main)
                simp only [kindsOf, ResourceKey.keysOf, List.map_map]
                rfl

/-- A whole pass does so. -/
theorem after_reconcile_effect (hs : env.StateApi) (r : Reconciler) (w : World sc) :
    After (reconcile env r) w fun res t => Effect w res t := by
  have hb := @benign_recordKept _ env
  rcases started_or_benign env r w with ⟨⟨x⟩⟩ | hbenign
  · have hstart : (recordKept sc).rel w x.start := x.rel hb
    have hpass : After (converge env r x.guard x.prev x.sync) x.start fun res t =>
        Effect w res t := by
      rw [converge, after_bind, after_ofExcept]
      cases desired env x.sync.sha r.cfg (prevApplied x.prev) with
      | error e => exact .inl hstart
      | ok c =>
          dsimp only
          rw [after_ite]
          split
          -- A dry run records nothing.
          next =>
            have hdry : Keeps (recordKept sc) (do
                let _ ← applyAll env r.cfg true c.main []
                return ()) :=
              (hb.applyAll (blind_recordKept.allowsApply true c.main) []).bind fun _ => .pure ()
            exact (hdry.after x.start).mono fun _ t ht => .inl ((recordKept sc).trans hstart ht)
          next =>
            refine (after_execute_effect hs x.guard x.prev x.sync c x.start).mono ?_
            exact fun _ _ ht => ht.after hstart
    rw [x.toEntered.after_reconcile, x.after_inner]
    refine hpass.mono ?_
    intro res t ht
    refine (hb.release.after t).mono ?_
    intro _ u hu
    obtain ⟨hstate, hrest⟩ := Prod.mk.inj hu
    obtain ⟨hwrites, hgvks⟩ := Prod.mk.inj hrest
    -- The release touches the Lease alone.
    refine ht.imp ?_ ?_
    · exact fun ht => (recordKept sc).trans ht hu
    · rintro ⟨hgrows, hres, s, hstored, hkinds⟩
      refine ⟨by rwa [hwrites], hres, s, ?_, hgvks.trans hkinds⟩
      unfold World.stored at hstored ⊢
      rwa [hstate]
  -- The pass ended before, without the Lease or at its checkout.
  · exact (hbenign _ hb).mono fun _ t ht => .inl ht

/-- What a process remembers: the kinds of the stored applied set, once a pass has stored one.
Before that it remembers nothing, and the set is still the one that it found. -/
def Remembers (applied : List ResourceKey) (stored : Bool) (w : World sc) : Prop :=
  if stored then ∃ s, w.stored = some s ∧ w.lastGvks = kindsOf s.applied
  else w.lastGvks = [] ∧ prevApplied w.stored = applied

section
variable {applied : List ResourceKey} {stored : Bool} {w t : World sc}

/-- What the process remembers does not change when neither the state nor the record does. -/
theorem Remembers.kept (h : Remembers applied stored w) (hstate : t.stateCm = w.stateCm)
    (hgvks : t.lastGvks = w.lastGvks) : Remembers applied stored t := by
  unfold Remembers World.stored
  rw [hstate, hgvks]
  exact h

/-- The recorded kinds are distinct. -/
theorem Remembers.nodup (h : Remembers applied stored w) : w.lastGvks.Nodup := by
  cases stored with
  | false =>
      rw [h.1]
      exact .nil
  | true =>
      obtain ⟨s, -, hkinds⟩ := h
      rw [hkinds]
      exact List.nodup_dedup _

/-- The record of an error does not change the kinds, nor the applied set of the state. -/
theorem after_recordError_remembers (hs : env.StateApi) (e : Error)
    (h : Remembers applied stored w) :
    After (recordError env e) w fun _ t =>
      t.lastGvks = w.lastGvks ∧ Remembers applied stored t := by
  have hlast : Keeps (kindsKept sc) (recordError env e) :=
    benign_kindsKept.stateRead.bind fun _ => stateWrite_kindsKept _
  refine ((after_recordError_stored hs e w).and (hlast.after w)).mono ?_
  rintro res t ⟨hstate, hgvks⟩
  refine ⟨hgvks, ?_⟩
  -- The error was stored with the applied set that was read.
  by_cases hres : res = .ok ()
  · have hrecorded := hstate.1 hres
    cases stored with
    -- No pass has stored a set, and the recorded error adds none.
    | false =>
        refine ⟨hgvks.trans h.1, ?_⟩
        rw [hrecorded, ← h.2]
        cases w.stored <;> rfl
    | true =>
        obtain ⟨s, hs, hkinds⟩ := h
        rw [hs] at hrecorded
        exact ⟨_, hrecorded, hgvks.trans hkinds⟩
  · exact h.kept (hstate.2 hres) hgvks

/-- Where a pass stored no state, nothing is new, and where it did, it leaves the kinds of the
applied set. -/
theorem Remembers.effect (h : Remembers applied stored w) {res : Except Error Unit}
    (ht : Effect w res t) :
    Remembers applied (stored || decide (w.writes.length < t.writes.length)) t := by
  rcases ht with hkept | ⟨hgrows, -, hstored⟩
  · obtain ⟨hstate, hrest⟩ := Prod.mk.inj hkept
    obtain ⟨hwrites, hgvks⟩ := Prod.mk.inj hrest
    rw [hwrites, decide_eq_false (lt_irrefl _), Bool.or_false]
    exact h.kept hstate hgvks
  · rw [decide_eq_true hgrows, Bool.or_true]
    exact hstored

/-- A pass that fails leaves the kinds alone, and every pass remembers. -/
theorem after_runOnce_remembers (hs : env.StateApi) (r : Reconciler)
    (h : Remembers applied stored w) :
    After (runOnce env r) w fun res t =>
      (∀ e, res = .error e → t.lastGvks = w.lastGvks) ∧
        Remembers applied (stored || storesState env r w) t := by
  have hend : After (reconcile env r) w fun _ t => t = state (reconcile env r w) := rfl
  rw [runOnce, after_bind, after_attempt]
  refine ((after_reconcile_effect hs r w).and hend).mono ?_
  rintro res t ⟨heffect, rfl⟩
  have ht := h.effect heffect
  cases res with
  | ok _ =>
      have htime : Keeps (recordKept sc) (timestampNow env) := benign_recordKept.timestampNow
      dsimp only
      rw [after_bind]
      refine ((htime.after _).and (total_timestampNow.after _)).mono ?_
      rintro _ u ⟨hu, now, rfl⟩
      obtain ⟨hstate, hrest⟩ := Prod.mk.inj hu
      exact ⟨fun e he => (by cases he), ht.kept hstate (Prod.mk.inj hrest).2⟩
  | error e =>
      -- A pass that failed has not remembered any kinds.
      have hkinds : (state (reconcile env r w)).lastGvks = w.lastGvks := by
        rcases heffect with hkept | ⟨-, hok, -⟩
        · exact (Prod.mk.inj (Prod.mk.inj hkept).2).2
        · cases hok
      dsimp only
      rw [after_bind, after_attempt]
      refine (after_recordError_remembers hs e ht).mono ?_
      rintro res u ⟨hgvks, hu⟩
      exact ⟨fun _ _ => hgvks.trans hkinds, hu⟩

end

end Reconcile

namespace Controller

open Act Reconcile

variable {sc : Scopes} {E : Env sc → Prop} {cfg : Config} {secrets : Secrets} {holder : String}
  {kube : KubeCrate} {w₀ : World sc}

/-! ### The controller -/

/-- Every step of the controller is one of the loop. -/
theorem loop_step (hE : ∀ env, E env → env.StateApi) {applied : List ResourceKey}
    {s t : Controller sc} (hkinds : s.loop.lastGvks = s.world.lastGvks)
    (hs : Remembers applied s.stored s.world)
    (h : Step E (Command.controller.reconciler cfg secrets holder) kube s t) :
    RunLoop.Step cfg kube s.loop t.loop ∧ t.loop.lastGvks = t.world.lastGvks ∧
      Remembers applied t.stored t.world := by
  cases h with
  | loop u hstep hends =>
      refine ⟨hstep, ?_, hs⟩
      show u.lastGvks = s.world.lastGvks
      rw [← hkinds]
      -- A step of the loop alone takes the kinds of the world as they are.
      cases hstep with
      | deliver g task ev _ _ => exact (RunLoop.handle_frame task ev _).1
      | passOk gvks hphase => exact absurd (hends hphase) (by simp)
      | passErr hphase => exact absurd (hends hphase) (by simp)
      | _ => rfl
  | pass env hEnv hphase =>
      have hpass := after_runOnce_remembers (hE env hEnv)
        (Command.controller.reconciler cfg secrets holder) hs
      refine ⟨?_, rfl, hpass.2⟩
      cases hres :
          value (runOnce env (Command.controller.reconciler cfg secrets holder) s.world) with
      | ok _ =>
          have hstep := @RunLoop.Step.passOk cfg kube s.loop
            (Act.state (runOnce env (Command.controller.reconciler cfg secrets holder)
              s.world)).lastGvks hphase
          rw [hpass.2.nodup.dedup] at hstep
          exact hstep
      | error e =>
          have hstep := @RunLoop.Step.passErr cfg kube s.loop hphase
          rw [afterPass, hpass.1 e hres, ← hkinds]
          exact hstep

/-- What holds of a controller at every moment. -/
structure Sound (E : Env sc → Prop) (cfg : Config) (kube : KubeCrate) (w₀ : World sc)
    (s : Controller sc) : Prop where
  /-- It is a run of the loop, and its world is one that passes lead to. -/
  loop : (RunLoop.system cfg kube).Reachable s.loop
  passes : (passesOf (fun env c => E env ∧ c = cfg) { w₀ with lastGvks := [] }).Reachable s.world
  kinds : s.loop.lastGvks = s.world.lastGvks
  remembers : Remembers (prevApplied w₀.stored) s.stored s.world

/-- The controller is sound in every run: its loop steps as the loop model does, and its passes are
runs of the pass model. -/
theorem sound_invariant (hE : ∀ env, E env → env.StateApi) :
    (system E cfg secrets holder kube w₀).Invariant (Sound E cfg kube w₀) where
  init := by
    rintro s rfl
    exact ⟨.init rfl, .init rfl, rfl, rfl, rfl⟩
  step := by
    intro s t _ h hstep
    obtain ⟨hloop, hkinds, hremembers⟩ := loop_step hE h.kinds h.remembers hstep
    refine ⟨.step h.loop hloop, ?_, hkinds, hremembers⟩
    cases hstep with
    | loop u _ _ => exact h.passes
    | pass env hEnv _ =>
        exact .step h.passes ⟨env, cfg, ⟨hEnv, rfl⟩, .controller, secrets, holder, rfl⟩

/-- The runs in which discovery does not fail. -/
def discovering (E : Env sc → Prop) (cfg : Config) (secrets : Secrets) (holder : String)
    (kube : KubeCrate) (w₀ : World sc) : System (Controller sc) :=
  (system E cfg secrets holder kube w₀).restrict fun s t => RunLoop.Discovers s.loop t.loop

/-- A run of the controller without failing discoveries is such a run of the loop. -/
theorem loop_discovers (hE : ∀ env, E env → env.StateApi) {s : Controller sc}
    (hs : (discovering E cfg secrets holder kube w₀).Reachable s) :
    ((RunLoop.system cfg kube).restrict RunLoop.Discovers).Reachable s.loop := by
  induction hs with
  | init hinit =>
      cases hinit
      exact .init rfl
  | step hreach hstep ih =>
      have h := (sound_invariant hE).holds hreach.of_restrict
      exact .step ih ⟨(loop_step hE h.kinds h.remembers hstep.1).1, hstep.2⟩

/-- A controller watches what it has applied. It runs the loop, and its world is one that passes
lead to. Outside a pass and the rebuild after it, every kind with a driver is one of the persisted
applied set. As long as discovery does not fail and no stop is requested, those are all kinds of
that set, once a pass has stored one. Before that nothing is watched, and the set is still the one
that the controller found. -/
theorem watches_applied (hE : ∀ env, E env → env.StateApi) :
    (∀ s, (system E cfg secrets holder kube w₀).Reachable s →
      (RunLoop.system cfg kube).Reachable s.loop ∧
        (passesOf (fun env c => E env ∧ c = cfg) { w₀ with lastGvks := [] }).Reachable s.world ∧
        (s.loop.phase.settled = true →
          ∀ g ∈ s.loop.watchSet.handles, g ∈ kindsOf (prevApplied s.world.stored))) ∧
      ∀ s, (discovering E cfg secrets holder kube w₀).Reachable s →
        cfg.watchMode ≠ .off → s.loop.stop = false → s.loop.phase.settled = true →
          (s.stored = true →
            ∀ g, g ∈ s.loop.watchSet.handles ↔ g ∈ kindsOf (prevApplied s.world.stored)) ∧
          (s.stored = false → (∀ g, g ∉ s.loop.watchSet.handles) ∧
            prevApplied s.world.stored = prevApplied w₀.stored) := by
  have hwithin : ∀ {s : Controller sc}, Sound E cfg kube w₀ s → s.loop.phase.settled = true →
      ∀ g ∈ s.loop.watchSet.handles, g ∈ s.world.lastGvks := by
    intro s h hphase g hg
    rw [← h.kinds]
    refine (RunLoop.within_invariant.holds h.loop).watched (fun hpassed => ?_) g hg
    rw [hpassed] at hphase
    cases hphase
  refine ⟨fun s hs => ?_, fun s hs hmode hrun hphase => ?_⟩
  · have h := (sound_invariant hE).holds hs
    refine ⟨h.loop, h.passes, fun hphase g hg => ?_⟩
    have hg := hwithin h hphase g hg
    have hremembers := h.remembers
    unfold Remembers at hremembers
    split at hremembers
    · obtain ⟨st, hst, hkinds⟩ := hremembers
      rw [hst]
      exact hkinds ▸ hg
    · rw [hremembers.1] at hg
      cases hg
  · have h := (sound_invariant hE).holds hs.of_restrict
    have hall := ((RunLoop.complete_invariant hmode).holds (loop_discovers hE hs)).settled hrun
      hphase
    rw [h.kinds] at hall
    have hremembers := h.remembers
    refine ⟨fun hstored g => ?_, fun hstored => ?_⟩
    · rw [hstored] at hremembers
      obtain ⟨st, hst, hkinds⟩ := hremembers
      rw [hst]
      show _ ↔ g ∈ kindsOf st.applied
      rw [← hkinds]
      exact ⟨hwithin h hphase g, hall g⟩
    · rw [hstored] at hremembers
      refine ⟨fun g hg => ?_, hremembers.2⟩
      have hg := hwithin h hphase g hg
      rw [hremembers.1] at hg
      cases hg

/-- A controller whose first pass succeeded. -/
theorem reachable_passed {env : Env sc} (hEnv : E env) {w : World sc} {kinds : List GvkKey}
    (hpass : runOnce env (Command.controller.reconciler cfg secrets holder)
      { w₀ with lastGvks := [] } = .ok () w) (hkinds : w.lastGvks = kinds) {stored : Bool}
    (hstored : storesState env (Command.controller.reconciler cfg secrets holder)
      { w₀ with lastGvks := [] } = stored) :
    (discovering E cfg secrets holder kube w₀).Reachable
      ⟨{ RunLoop.start with phase := .passed, lastGvks := kinds }, w, stored⟩ := by
  have hstarted : (discovering E cfg secrets holder kube w₀).Reachable
      ⟨{ RunLoop.start with phase := .pass }, { w₀ with lastGvks := [] }, false⟩ :=
    .step (.init rfl) ⟨.loop _ _ (.startPass _ rfl rfl) fun _ => rfl, fun _ _ h => (by cases h)⟩
  have hstep := hstarted.step ⟨.pass _ env hEnv rfl, fun _ _ h => (by cases h)⟩
  rw [hpass, hstored] at hstep
  rw [← hkinds]
  exact hstep

/-- The controller falls asleep after a pass that left one kind. -/
theorem reachable_asleep (hon : cfg.watchMode ≠ .off) {g : GvkKey} {w : World sc} {stored : Bool}
    (hpassed : (discovering E cfg secrets holder kube w₀).Reachable
      ⟨{ RunLoop.start with phase := .passed, lastGvks := [g] }, w, stored⟩) :
    (discovering E cfg secrets holder kube w₀).Reachable ⟨RunLoop.sleeping cfg g, w, stored⟩ := by
  have hadding : (discovering E cfg secrets holder kube w₀).Reachable
      ⟨{ RunLoop.start with phase := .adding [g], lastGvks := [g] }, w, stored⟩ :=
    hpassed.step ⟨.loop _ _ (.rebuild _ .id rfl hon) fun h => (by cases h),
      fun _ _ h => (by cases h)⟩
  have hwatching : (discovering E cfg secrets holder kube w₀).Reachable
      ⟨RunLoop.watching cfg g, w, stored⟩ := by
    refine hadding.step ⟨.loop _ _ (.addKind _ g [] rfl rfl) fun h => (by cases h), ?_⟩
    rintro _ _ ⟨rfl, rfl⟩ -
    exact (RunLoop.mem_spawn hon).mpr (.inl rfl)
  have hselect : (discovering E cfg secrets holder kube w₀).Reachable
      ⟨{ RunLoop.sleeping cfg g with phase := .select cfg.pollInterval }, w, stored⟩ :=
    hwatching.step ⟨.loop _ _ (.rebuilt _ cfg.pollInterval rfl rfl) fun h => (by cases h),
      fun _ _ h => (by cases h)⟩
  exact hselect.step ⟨.loop _ _ (.sleep _ cfg.pollInterval rfl rfl rfl) fun h => (by cases h),
    fun _ _ h => (by cases h)⟩

/-- The first pass over the repository with one document. -/
def firstPass : EStateM.Result Error (World .namespacedOnly) Unit :=
  runOnce syncedEnv
    (Command.controller.reconciler (syncedPass .trigger).cfg ⟨none, none, none⟩ "pod:1")
    { World.fresh ∅ none with lastGvks := [] }

/-- The first pass of the example succeeds, and records the one kind. -/
theorem firstPass_ok :
    ∃ w, firstPass = .ok () w ∧ w.lastGvks = [(settings none).gvk] := by
  have hok : (value firstPass).isOk = true := by decide +kernel
  have hkinds : (state firstPass).lastGvks = [(settings none).gvk] := by decide +kernel
  cases hpass : firstPass with
  | ok _ w =>
      rw [hpass] at hkinds
      exact ⟨w, rfl, hkinds⟩
  | error e w =>
      rw [hpass] at hok
      cases hok

/-- It stores its state. -/
theorem firstPass_stores : storesState syncedEnv
    (Command.controller.reconciler (syncedPass .trigger).cfg ⟨none, none, none⟩ "pod:1")
    { World.fresh ∅ none with lastGvks := [] } = true := by decide +kernel

/-- After it, a controller asleep in trigger mode watches the one kind that it has applied. -/
theorem watches_applied_first :
    ∃ w, firstPass = .ok () w ∧
      ∀ g, g ∈ (RunLoop.sleeping (syncedPass .trigger).cfg (settings none).gvk).watchSet.handles ↔
        g ∈ kindsOf (prevApplied w.stored) := by
  obtain ⟨w, hpass, hkinds⟩ := firstPass_ok
  have hsynced : syncedEnv.StateApi :=
    ⟨fun _ _ h => (by cases h), fun _ _ h => (by rcases h with h | h <;> cases h)⟩
  have hon : (syncedPass .trigger).cfg.watchMode ≠ .off := by decide
  have hasleep : (discovering Env.StateApi (syncedPass .trigger).cfg ⟨none, none, none⟩ "pod:1"
      .plain (.fresh ∅ none)).Reachable ⟨_, w, true⟩ :=
    reachable_asleep hon (reachable_passed hsynced hpass hkinds firstPass_stores)
  exact ⟨w, hpass, ((watches_applied fun _ h => h).2 _ hasleep hon rfl rfl).1 rfl⟩

end Controller

end LeanCd
