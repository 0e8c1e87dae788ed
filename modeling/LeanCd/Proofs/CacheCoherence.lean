import LeanCd.Proofs.StoreRefinement
import LeanCd.Proofs.WakeUp
import LeanCd.Proofs.WatchBookkeeping

/-!
# `LeanCd.Proofs.CacheCoherence`: what a pass finds in the cache

In cache mode a pass compares the manifests with the stores that the drivers fill while the
loop runs. A driver is started when its kind appears and dropped when the kind leaves, and the
loop hands the stores to the passes once per round.

`Observed` is the loop with the events that each driver has delivered. `cache_coherent`: in every
run, the store that a pass finds for a kind answers as the map of the events of the driver that
watches the kind now, from the start of that driver on. It is no store of an earlier driver of
the kind, and of no other kind.

The proof follows each driver from its start: `Filling` says of the store of every task that it is
the fold of the events that the task has delivered. A store is only ever filled by its own driver,
because tasks and stores go by number and a number is given once.
-/

set_option autoImplicit false

namespace LeanCd.RunLoop

open Transition

variable {cfg : Config} {kube : KubeCrate}

/-! ### The events of a run -/

/-- The loop, and the events that each driver has delivered so far. -/
structure Observed where
  loop : RunLoop
  delivered : Nat → List WatchEvent

/-- A driver delivers an event, or the loop or the outside takes a step. -/
inductive Observed.Step (cfg : Config) (kube : KubeCrate) : Observed → Observed → Prop
  | deliver (x : Observed) (g : GvkKey) (task : Nat) (ev : WatchEvent) :
      x.loop.watchSet.handles.lookup g = some task → x.loop.stop = false →
      Observed.Step cfg kube x
        ⟨handle cfg kube task ev { x.loop with pending := x.loop.pending || ev.changes },
          Function.update x.delivered task (x.delivered task ++ [ev])⟩
  | other (x : Observed) (t : RunLoop) : RunLoop.Step cfg kube x.loop t →
      (t.phase ≠ x.loop.phase ∨ t.stop ≠ x.loop.stop) →
      Observed.Step cfg kube x ⟨t, x.delivered⟩

/-- The runs of the loop with their events. -/
def observed (cfg : Config) (kube : KubeCrate) : System Observed where
  init x := x = ⟨start, fun _ => []⟩
  step := Observed.Step cfg kube

/-- A driver leaves the course of the loop alone. -/
theorem handle_stop (task : Nat) (ev : WatchEvent) (s : RunLoop) :
    (handle cfg kube task ev s).stop = s.stop := by
  unfold handle notifyOne
  repeat' split
  all_goals rfl

/-- A step that neither moves the loop nor stops it is an event, or changes nothing. -/
theorem step_of_still {s t : RunLoop} (h : Step cfg kube s t) (hphase : t.phase = s.phase)
    (hstop : t.stop = s.stop) :
    t = s ∨ ∃ g task ev, s.watchSet.handles.lookup g = some task ∧ s.stop = false ∧
      t = handle cfg kube task ev { s with pending := s.pending || ev.changes } := by
  cases h with
  -- A delivery changes neither, so the statement has a case for it.
  | deliver g task ev hlookup hrun => exact .inr ⟨g, task, ev, hlookup, hrun, rfl⟩
  | stop =>
      dsimp only at hstop
      exact .inl (by rw [hstop])
  -- These could change the phase to itself only, or they change it for certain.
  | breakAdding kinds hadding _ =>
      dsimp only at hphase
      exact .inl (by rw [hphase])
  | addKind g rest hadding _ | skipKind g rest hadding _ =>
      simp only [hadding, LoopPhase.adding.injEq] at hphase
      exact absurd hphase (List.ne_cons_self)
  | exit hwas _ | startPass hwas _ | passOk _ hwas | passErr hwas | noWatch hwas _
  | rebuild _ hwas _ | rebuilt _ hwas _ | noDelay hwas | takePermit _ hwas _ | stopNow _ hwas _
  | sleep _ hwas _ _ | timer hwas | wake hwas _ | stopAsleep hwas _ | debounce hwas _
  | noDebounce hwas _ | debounced hwas =>
      rw [hwas] at hphase
      cases hphase

/-- Every run of the loop has its events. -/
theorem reachable_iff_observed {s : RunLoop} :
    (system cfg kube).Reachable s ↔ ∃ delivered, (observed cfg kube).Reachable ⟨s, delivered⟩ := by
  constructor
  · intro hs
    induction hs with
    | init h =>
        cases h
        exact ⟨_, .init rfl⟩
    | @step s t _ hstep ih =>
        obtain ⟨delivered, hreach⟩ := ih
        -- A step that moves the phase or the stop flag delivers nothing.
        by_cases hmoves : t.phase ≠ s.phase ∨ t.stop ≠ s.stop
        · exact ⟨delivered, hreach.step (.other _ t hstep hmoves)⟩
        · rw [not_or, not_not, not_not] at hmoves
          -- Any other is a delivery, or no step at all.
          rcases step_of_still hstep hmoves.1 hmoves.2 with rfl | ⟨g, task, ev, hg, hrun, rfl⟩
          · exact ⟨delivered, hreach⟩
          · exact ⟨_, hreach.step (.deliver _ g task ev hg hrun)⟩
  · rintro ⟨delivered, hx⟩
    generalize hs : Observed.mk s delivered = x at hx
    have hloop : (system cfg kube).Reachable x.loop := by
      clear hs
      induction hx with
      | init h =>
          cases h
          exact .init rfl
      | step _ hstep ih =>
          cases hstep with
          | deliver g task ev hg hrun => exact ih.step (.deliver _ g task ev hg hrun)
          | other t hother _ => exact ih.step hother
    rw [← hs] at hloop
    exact hloop

/-! ### The stores -/

/-- The loop is between the first and the last step of a `rebuild`, or over. -/
def LoopPhase.rebuilds : LoopPhase → Bool
  | .adding _ | .exited => true
  | _ => false

/-- Each driver fills a store of its own with what it delivers, and the passes are handed the
stores of the drivers. -/
structure Filling (cfg : Config) (kube : KubeCrate) (x : Observed) : Prop where
  heap : ∀ g task, x.loop.watchSet.handles.lookup g = some task →
    x.loop.heap.lookup task =
      some ((LightweightStore.new cfg.cacheMaxObjectBytes).run kube (x.delivered task))
  unborn : ∀ task, x.loop.nextTask ≤ task → x.delivered task = []
  snapshot : LoopPhase.rebuilds x.loop.phase = false →
    x.loop.cacheStores = x.loop.watchSet.stores

namespace Filling

variable {x : Observed}

/-- A step that leaves the stores and the drivers alone. -/
theorem of_same {t : RunLoop} (h : Filling cfg kube x) (hheap : t.heap = x.loop.heap)
    (htask : t.nextTask = x.loop.nextTask) (hset : t.watchSet = x.loop.watchSet)
    (hcache : t.cacheStores = x.loop.cacheStores)
    (hphase : LoopPhase.rebuilds t.phase = false → LoopPhase.rebuilds x.loop.phase = false) :
    Filling cfg kube ⟨t, x.delivered⟩ where
  heap g task hg := by
    dsimp only at hg ⊢
    rw [hheap]
    exact h.heap g task (hset ▸ hg)
  unborn task htask' := h.unborn task (htask ▸ htask')
  snapshot ht := by
    dsimp only
    rw [hcache, hset]
    exact h.snapshot (hphase ht)

/-- A driver adds its event to its own store. -/
theorem deliver (hmode : cfg.watchMode = .cache) (h : Filling cfg kube x)
    (hnumbered : WatchSet.Numbered (x.loop.watchSet, x.loop.nextTask)) {g : GvkKey} {task : Nat}
    (ev : WatchEvent) (hg : x.loop.watchSet.handles.lookup g = some task) :
    Filling cfg kube
      ⟨handle cfg kube task ev { x.loop with pending := x.loop.pending || ev.changes },
        Function.update x.delivered task (x.delivered task ++ [ev])⟩ := by
  -- The heap is a map from tasks to stores, and only the entry of the task is written.
  have hhandle : handle cfg kube task ev
        { x.loop with pending := x.loop.pending || ev.changes } =
      { x.loop with
        pending := x.loop.pending || ev.changes
        heap := x.loop.heap.insert task
          (((LightweightStore.new cfg.cacheMaxObjectBytes).run kube
            (x.delivered task)).applyEvent kube ev) } := by
    rw [handle, hmode]
    simp only [h.heap g task hg]
  rw [hhandle]
  refine ⟨fun k other hk => ?_, fun k hk => ?_, h.snapshot⟩
  -- The store of the task itself has one more event in its fold. All others are as they were.
  · by_cases hother : other = task
    · subst hother
      dsimp only
      rw [AList.lookup_insert, Function.update_self, LightweightStore.run, LightweightStore.run,
        List.foldl_append]
      rfl
    · dsimp only
      rw [AList.lookup_insert_ne hother, Function.update_of_ne hother]
      exact h.heap k other hk
  · -- The driver was started, so its number is taken.
    dsimp only
    rw [Function.update_of_ne (Nat.ne_of_gt (Nat.lt_of_lt_of_le (hnumbered.below hg) hk))]
    exact h.unborn k hk

/-- A new driver has a new store, and has delivered nothing. -/
theorem spawn (hmode : cfg.watchMode = .cache) (h : Filling cfg kube x)
    (hnumbered : WatchSet.Numbered (x.loop.watchSet, x.loop.nextTask)) (g : GvkKey)
    (kinds : List GvkKey) :
    Filling cfg kube ⟨{ x.loop.spawn cfg g with phase := .adding kinds }, x.delivered⟩ := by
  refine ⟨fun k task hk => ?_, fun task htask => h.unborn task (Nat.le_of_succ_le htask), nofun⟩
  simp only [RunLoop.spawn, WatchSet.spawn, hmode, if_true] at hk ⊢
  by_cases hkg : k = g
  · subst hkg
    rw [AList.lookup_insert, Option.some_inj] at hk
    rw [← hk, AList.lookup_insert, h.unborn _ (Nat.le_refl _)]
    rfl
  · rw [AList.lookup_insert_ne hkg] at hk
    have hbelow : task < x.loop.nextTask := hnumbered.below hk
    rw [AList.lookup_insert_ne (Nat.ne_of_lt hbelow)]
    exact h.heap k task hk

/-- Drivers are dropped. -/
theorem drop (h : Filling cfg kube x) {w : WatchSet} {phase : LoopPhase}
    (hsub : ∀ g task, w.handles.lookup g = some task →
      x.loop.watchSet.handles.lookup g = some task)
    (hphase : LoopPhase.rebuilds phase = true) :
    Filling cfg kube ⟨{ x.loop with phase := phase, watchSet := w }, x.delivered⟩ where
  heap g task hg := h.heap g task (hsub g task hg)
  unborn := h.unborn
  snapshot hdone := by
    rw [hphase] at hdone
    cases hdone

end Filling

/-- No driver has two kinds, and none has the number of the next one. -/
theorem numbered_of_observed {x : Observed} (hx : (observed cfg kube).Reachable x) :
    WatchSet.Numbered (x.loop.watchSet, x.loop.nextTask) :=
  WatchSet.numbered_invariant.holds
    (loop_refines_calls.holds (reachable_iff_observed.mpr ⟨x.delivered, hx⟩)).settled

/-- The invariant of a run whose events are watched. Each kind of step is one case: a rebuild starts
drivers with empty stores and stops others, an event goes to one store, and no other step touches a
store. -/
theorem filling_invariant (hmode : cfg.watchMode = .cache) :
    (observed cfg kube).Invariant (Filling cfg kube) where
  init := by
    rintro x rfl
    exact ⟨fun _ _ => nofun, fun _ _ => rfl, fun _ => rfl⟩
  step := by
    intro x y hx h hstep
    have hnumbered := numbered_of_observed hx
    cases hstep with
    | deliver g task ev hg hrun => exact h.deliver hmode hnumbered ev hg
    | other t hother hmoves =>
        cases hother with
        | deliver g task ev hg hrun =>
            -- An event moves nothing.
            exact absurd hmoves (by
              rw [handle_stop, (handle_frame _ _ _).2.2.2]
              simp)
        | addKind g rest hphase _ => exact h.spawn hmode hnumbered g rest
        | exit | stopNow | stopAsleep => exact h.drop (fun g task hg => by cases hg) rfl
        | rebuild order hphase _ =>
            exact h.drop (fun g task hg => WatchSet.lookup_of_drops hg) rfl
        | rebuilt delay hphase _ =>
            exact ⟨h.heap, h.unborn, fun _ => if_pos hmode⟩
        | skipKind g rest hphase _ | breakAdding kinds hphase _ | noWatch hphase _ =>
            exact h.of_same rfl rfl rfl rfl nofun
        | stop => exact h.of_same rfl rfl rfl rfl id
        | startPass hphase _ | passOk _ hphase | passErr hphase | noDelay hphase
        | takePermit _ hphase _ | sleep _ hphase _ _ | timer hphase | wake hphase _
        | debounce hphase _ | noDebounce hphase _ | debounced hphase =>
            exact h.of_same rfl rfl rfl rfl fun _ => by rw [hphase]; rfl

/-! ### What a pass finds -/

/-- What the passes read in cache mode: each driver fills a store of its own, which answers as
the map of its events does, and the passes find the stores of the drivers. -/
structure Coherent (cfg : Config) (kube : KubeCrate) (x : Observed) : Prop where
  apart : ∀ g g' task, x.loop.watchSet.handles.lookup g = some task →
    x.loop.watchSet.handles.lookup g' = some task → g = g'
  serves : ∀ g task, x.loop.watchSet.handles.lookup g = some task →
    ∃ store, x.loop.heap.lookup task = some store ∧
      store.Serves kube cfg.cacheMaxObjectBytes
        (Reflector.empty.run ((x.delivered task).map WatchEvent.stream)).map
  found : LoopPhase.rebuilds x.loop.phase = false →
    ∀ g, x.loop.cacheStores.lookup g = x.loop.watchSet.handles.lookup g

/-- Every run of the loop has its events, and in cache mode a pass finds for each kind the map
of what its driver has delivered, in every run. -/
theorem cache_coherent (cfg : Config) (kube : KubeCrate) :
    (∀ s, (system cfg kube).Reachable s ↔
        ∃ delivered, (observed cfg kube).Reachable ⟨s, delivered⟩) ∧
      ∀ x, (observed cfg kube).Reachable x → cfg.watchMode = .cache → Coherent cfg kube x := by
  refine ⟨fun s => reachable_iff_observed, fun x hx hmode => ?_⟩
  have h := (filling_invariant hmode).holds hx
  have hcalls := (loop_refines_calls.holds (reachable_iff_observed.mpr ⟨x.delivered, hx⟩)).settled
  refine ⟨fun _ _ _ => (numbered_of_observed hx).unique, ?_, ?_⟩
  · intro g task hg
    have hserves := ((LightweightStore.refines_new kube cfg.cacheMaxObjectBytes).run
      (x.delivered task)).serves
    rw [LightweightStore.maxBytes_run] at hserves
    exact ⟨_, h.heap g task hg, hserves⟩
  · intro hdone g
    rw [h.snapshot hdone]
    exact (WatchSet.consistent_invariant.holds hcalls).cache hmode g

/-- The loop asleep in cache mode, with one kind watched. -/
theorem cache_coherent_sleeping :
    ∃ delivered,
      Coherent settingsCfg .plain ⟨sleeping settingsCfg (settings none).gvk, delivered⟩ := by
  obtain ⟨hruns, hcoherent⟩ := cache_coherent settingsCfg .plain
  obtain ⟨delivered, hx⟩ := (hruns _).mp (reachable_sleeping (by decide) (settings none).gvk)
  exact ⟨delivered, hcoherent _ hx rfl⟩

end LeanCd.RunLoop
