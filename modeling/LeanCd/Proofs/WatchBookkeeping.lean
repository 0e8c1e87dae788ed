import LeanCd.RunLoop
import Mathlib.Data.List.Dedup

/-!
# `LeanCd.Proofs.WatchBookkeeping`: the watch set follows the manifests

`rebuild` drops the kinds that left and adds the new ones, in two loops over two maps.
`lookup_drops` and `lookup_addKinds` say what each loop leaves alone. `rebuilt` puts them
together for one call, and `bookkeeping` settles every sequence of calls: the watch set stays
between the kinds it keeps and the desired ones, a kept kind keeps its driver and its store,
and the two maps have the same keys in cache mode.

`RunLoop` takes `rebuild` apart into one step for each new kind. `loop_refines_calls` shows
that the watch set of the loop is always one that calls of `rebuild` lead to.

The two loops go through hash orders that the environment chooses, so nothing may depend on the
order. `lookup_` lemmas describe a map after a loop by its entries, kind by kind. A kind that
discovery does not find now is not added, and all that is said of it is that nothing changed.
-/

set_option autoImplicit false

namespace LeanCd.WatchSet

open Transition

variable {mode : WatchMode} {answer : GvkKey → Discovery} {desired : List GvkKey}

/-! ### The two loops -/

/-- Dropping kinds takes them out of both maps, and leaves the others alone. -/
theorem lookup_drops (g : GvkKey) (kinds : List GvkKey) (w : WatchSet) :
    (kinds.foldl drop w).handles.lookup g = (if g ∈ kinds then none else w.handles.lookup g) ∧
      (kinds.foldl drop w).stores.lookup g =
        if g ∈ kinds then none else w.stores.lookup g := by
  induction kinds generalizing w with
  | nil => simp
  | cons k rest ih =>
      rw [List.foldl_cons, (ih _).1, (ih _).2]
      by_cases hk : g = k
      · subst hk
        simp [drop]
      · simp [drop, hk, AList.lookup_erase_ne]

/-- Dropping kinds starts no driver. -/
theorem lookup_of_drops {g : GvkKey} {task : Nat} {kinds : List GvkKey} {w : WatchSet}
    (h : (kinds.foldl drop w).handles.lookup g = some task) :
    w.handles.lookup g = some task := by
  rw [(lookup_drops g kinds w).1] at h
  split at h
  next => cases h
  next => exact h

/-- Adding kinds leaves the others alone. -/
theorem lookup_addKinds {g : GvkKey} {kinds : List GvkKey} (hg : g ∉ kinds)
    (s : WatchSet × Nat) :
    (addKinds mode answer kinds s).1.handles.lookup g = s.1.handles.lookup g ∧
      (addKinds mode answer kinds s).1.stores.lookup g = s.1.stores.lookup g := by
  induction kinds generalizing s with
  | nil => exact ⟨rfl, rfl⟩
  | cons k rest ih =>
      have hne : g ≠ k := fun h => hg (h ▸ List.mem_cons_self)
      have hrest : g ∉ rest := fun h => hg (List.mem_cons_of_mem k h)
      rw [addKinds]
      cases answer k with
      | stopped => exact ⟨rfl, rfl⟩
      | failed => exact ih hrest s
      | found =>
          dsimp only
          rw [(ih hrest _).1, (ih hrest _).2]
          cases mode <;> simp [spawn, hne]

/-- Adding kinds keeps the watched ones. -/
theorem mem_addKinds_of_mem {g : GvkKey} (kinds : List GvkKey) {s : WatchSet × Nat}
    (hg : g ∈ s.1.handles) : g ∈ (addKinds mode answer kinds s).1.handles := by
  induction kinds generalizing s with
  | nil => exact hg
  | cons k rest ih =>
      rw [addKinds]
      cases answer k with
      | stopped => exact hg
      | failed => exact ih hg
      | found =>
          refine ih ?_
          cases mode <;> simp [spawn, hg]

/-- When every discovery succeeds, all the kinds are added. -/
theorem mem_addKinds (hmode : mode ≠ .off) {kinds : List GvkKey}
    (hfound : ∀ g ∈ kinds, answer g = .found) {g : GvkKey} (hg : g ∈ kinds)
    (s : WatchSet × Nat) : g ∈ (addKinds mode answer kinds s).1.handles := by
  induction kinds generalizing s with
  | nil => cases hg
  | cons k rest ih =>
      rw [addKinds, hfound k List.mem_cons_self]
      dsimp only
      rcases List.mem_cons.mp hg with rfl | hrest
      · refine mem_addKinds_of_mem rest ?_
        cases mode with
        | off => exact absurd rfl hmode
        | trigger | cache => simp [spawn]
      · exact ih (fun g hg => hfound g (List.mem_cons_of_mem k hg)) hrest _

/-- The answer for one kind does not matter to the others. -/
theorem addKinds_update {g : GvkKey} {first : Discovery} {kinds : List GvkKey} (hg : g ∉ kinds)
    (p : WatchSet × Nat) :
    addKinds mode (Function.update answer g first) kinds p =
      addKinds mode answer kinds p := by
  induction kinds generalizing p with
  | nil => rfl
  | cons k rest ih =>
      have hne : k ≠ g := fun h => hg (h ▸ List.mem_cons_self)
      have hrest : g ∉ rest := fun h => hg (List.mem_cons_of_mem k h)
      rw [addKinds, addKinds, Function.update_of_ne hne]
      cases answer k with
      | stopped => rfl
      | failed => exact ih hrest p
      | found => exact ih hrest _

/-! ### One call -/

/-- What a call of `rebuild` owes to the watch set before it. -/
structure Rebuilt (answer : GvkKey → Discovery) (desired : List GvkKey) (s t : WatchSet) :
    Prop where
  within : ∀ g ∈ t.handles, g ∈ desired
  kept : ∀ g ∈ s.handles, g ∈ desired → g ∈ t.handles
  driver : ∀ g ∈ s.handles, g ∈ desired → t.handles.lookup g = s.handles.lookup g
  store : ∀ g ∈ s.handles, g ∈ desired → t.stores.lookup g = s.stores.lookup g
  /-- Nothing failed and no stop was requested. -/
  complete : (∀ g ∈ desired, g ∉ s.handles → answer g = .found) →
    ∀ g, g ∈ t.handles ↔ g ∈ desired

section
variable (hmode : mode ≠ .off) (dropOrder addOrder : Shuffle GvkKey) (s : WatchSet × Nat)
include hmode

/-- `rebuild` leaves the kinds alone that it neither drops nor adds. -/
theorem lookup_rebuild_of_watched {g : GvkKey} (hg : g ∈ s.1.handles) (hd : g ∈ desired) :
    (rebuild mode dropOrder addOrder answer desired s).1.handles.lookup g =
        s.1.handles.lookup g ∧
      (rebuild mode dropOrder addOrder answer desired s).1.stores.lookup g =
        s.1.stores.lookup g := by
  have hkey := AList.mem_keys.mp hg
  have hadd : g ∉ addOrder.run (diffWatchedSet s.1.handles.keys desired).1 := by
    simp [diffWatchedSet, hkey]
  have hdrop : g ∉ dropOrder.run (diffWatchedSet s.1.handles.keys desired).2 := by
    simp [diffWatchedSet, hd]
  rw [rebuild, if_neg hmode]
  dsimp only
  rw [(lookup_addKinds hadd _).1, (lookup_addKinds hadd _).2, (lookup_drops g _ _).1,
    (lookup_drops g _ _).2, if_neg hdrop, if_neg hdrop]
  exact ⟨rfl, rfl⟩

/-- `rebuild` watches no kind that is not desired. -/
theorem lookup_rebuild_of_left {g : GvkKey} (hd : g ∉ desired) :
    (rebuild mode dropOrder addOrder answer desired s).1.handles.lookup g = none := by
  have hadd : g ∉ addOrder.run (diffWatchedSet s.1.handles.keys desired).1 := by
    simp [diffWatchedSet, hd]
  rw [rebuild, if_neg hmode]
  dsimp only
  rw [(lookup_addKinds hadd _).1, (lookup_drops g _ _).1]
  split
  next => rfl
  next hdrop =>
    -- It is not dropped, so it was not watched.
    rw [AList.lookup_eq_none, AList.mem_keys]
    simpa [diffWatchedSet, hd] using hdrop

/-- When every discovery succeeds, `rebuild` watches every desired kind. -/
theorem mem_rebuild (hfound : ∀ g ∈ desired, g ∉ s.1.handles → answer g = .found) {g : GvkKey}
    (hd : g ∈ desired) :
    g ∈ (rebuild mode dropOrder addOrder answer desired s).1.handles := by
  by_cases hg : g ∈ s.1.handles
  · rw [← AList.lookup_isSome, (lookup_rebuild_of_watched hmode _ _ s hg hd).1]
    exact AList.lookup_isSome.mpr hg
  · rw [rebuild, if_neg hmode]
    refine mem_addKinds hmode ?_ ?_ _
    · intro k hk
      simp only [Shuffle.mem_run, List.mem_filter, decide_eq_true_eq] at hk
      exact hfound k hk.1 fun h => hk.2 (AList.mem_keys.mp h)
    · rw [Shuffle.mem_run]
      simpa [diffWatchedSet, hd] using fun h => hg (AList.mem_keys.mpr h)

/-- What one rebuild does to the set of watched kinds: the inclusion, the drivers that stay, and the
equality when discovery does not fail. -/
theorem rebuilt :
    Rebuilt answer desired s.1 (rebuild mode dropOrder addOrder answer desired s).1 := by
  -- A kind that is not desired loses its driver.
  have hwithin : ∀ g ∈ (rebuild mode dropOrder addOrder answer desired s).1.handles,
      g ∈ desired := by
    intro g hg
    by_contra hd
    rw [← AList.lookup_isSome, lookup_rebuild_of_left hmode _ _ s hd] at hg
    cases hg
  refine ⟨hwithin, ?_, ?_, ?_, ?_⟩
  -- A watched kind that is desired keeps the driver it had.
  · intro g hg hd
    rw [← AList.lookup_isSome, (lookup_rebuild_of_watched hmode _ _ s hg hd).1]
    exact AList.lookup_isSome.mpr hg
  · intro g hg hd
    exact (lookup_rebuild_of_watched hmode _ _ s hg hd).1
  · intro g hg hd
    exact (lookup_rebuild_of_watched hmode _ _ s hg hd).2
  -- Every desired kind has a driver, as long as its discovery is answered.
  · intro hfound g
    exact ⟨hwithin g, mem_rebuild hmode _ _ s hfound⟩

end

/-- What every new driver keeps holds after the new kinds. -/
theorem addKinds_induction {P : WatchSet × Nat → Prop}
    (hspawn : ∀ s, P s → ∀ g, P (s.1.spawn mode g s.2, s.2 + 1)) {s : WatchSet × Nat} (h : P s)
    (kinds : List GvkKey) : P (addKinds mode answer kinds s) := by
  induction kinds generalizing s with
  | nil => exact h
  | cons g rest ih =>
      rw [addKinds]
      cases answer g with
      | stopped => exact h
      | failed => exact ih h
      | found => exact ih (hspawn s h g)

/-! ### The two maps -/

/-- In cache mode each driver has its own store, in the other modes there is none. -/
structure Consistent (mode : WatchMode) (w : WatchSet) : Prop where
  cache : mode = .cache → ∀ g, w.stores.lookup g = w.handles.lookup g
  other : mode ≠ .cache → w.stores = ∅

namespace Consistent

/-- Empty maps are consistent. -/
theorem empty : Consistent mode ⟨∅, ∅⟩ := ⟨fun _ _ => rfl, fun _ => rfl⟩

/-- To drop a kind removes it from both maps, or from the one where it was. -/
theorem drop {w : WatchSet} (h : Consistent mode w) (g : GvkKey) :
    Consistent mode (w.drop g) where
  cache hm k := by
    by_cases hk : k = g
    · subst hk
      simp [WatchSet.drop]
    · simp [WatchSet.drop, AList.lookup_erase_ne hk, h.cache hm k]
  other hm := by
    rw [WatchSet.drop, h.other hm]
    rfl

/-- To spawn a driver adds its kind to both maps, as the mode says. -/
theorem spawn {w : WatchSet} (h : Consistent mode w) (g : GvkKey) (task : Nat) :
    Consistent mode (w.spawn mode g task) where
  cache hm k := by
    subst hm
    by_cases hk : k = g
    · subst hk
      simp [WatchSet.spawn]
    · simp [WatchSet.spawn, AList.lookup_insert_ne hk, h.cache rfl k]
  other hm := by
    cases mode with
    | cache => exact absurd rfl hm
    | off | trigger => exact h.other hm

/-- The same of many kinds that are dropped. -/
theorem drops {w : WatchSet} (h : Consistent mode w) (kinds : List GvkKey) :
    Consistent mode (kinds.foldl WatchSet.drop w) := by
  induction kinds generalizing w with
  | nil => exact h
  | cons g rest ih => exact ih (h.drop g)

/-- The same of kinds that are added, some of which discovery may refuse. -/
theorem addKinds {s : WatchSet × Nat} (h : Consistent mode s.1) (kinds : List GvkKey) :
    Consistent mode (WatchSet.addKinds mode answer kinds s).1 := by
  refine addKinds_induction (P := fun s => Consistent mode s.1) ?_ h kinds
  exact fun s hs g => hs.spawn g s.2

/-- So a rebuild keeps the maps consistent. -/
theorem rebuild {s : WatchSet × Nat} (h : Consistent mode s.1)
    (dropOrder addOrder : Shuffle GvkKey) :
    Consistent mode (WatchSet.rebuild mode dropOrder addOrder answer desired s).1 := by
  unfold WatchSet.rebuild
  split
  · exact h
  · exact addKinds (h.drops _) _

end Consistent

/-- The drivers have numbers of their own, all below the next one. -/
structure Numbered (s : WatchSet × Nat) : Prop where
  below : ∀ {g task}, s.1.handles.lookup g = some task → task < s.2
  unique : ∀ {g g' task}, s.1.handles.lookup g = some task →
    s.1.handles.lookup g' = some task → g = g'

namespace Numbered

/-- Without tasks no number was given twice. -/
theorem empty (next : Nat) : Numbered (⟨∅, ∅⟩, next) := ⟨by simp, by simp⟩

/-- Fewer drivers. -/
theorem sub {s : WatchSet × Nat} (h : Numbered s) {w : WatchSet}
    (hsub : ∀ {g task}, w.handles.lookup g = some task → s.1.handles.lookup g = some task) :
    Numbered (w, s.2) :=
  ⟨fun hg => h.below (hsub hg), fun hg hg' => h.unique (hsub hg) (hsub hg')⟩

/-- The next driver gets the next number. -/
theorem spawn {s : WatchSet × Nat} (h : Numbered s) (g : GvkKey) :
    Numbered (s.1.spawn mode g s.2, s.2 + 1) := by
  -- The driver that was started has the next number, which no other one has.
  have hlookup : ∀ {k task}, (s.1.spawn mode g s.2).handles.lookup k = some task →
      (k = g ∧ task = s.2) ∨ s.1.handles.lookup k = some task := by
    intro k task hk
    cases mode with
    | off => exact .inr hk
    | trigger | cache =>
        by_cases hkg : k = g
        · subst hkg
          rw [WatchSet.spawn, AList.lookup_insert, Option.some_inj] at hk
          exact .inl ⟨rfl, hk.symm⟩
        · rw [WatchSet.spawn, AList.lookup_insert_ne hkg] at hk
          exact .inr hk
  -- Numbers of kept drivers are below it, so no two are the same.
  constructor
  · intro k task hk
    rcases hlookup hk with ⟨-, rfl⟩ | hold
    · exact Nat.lt_succ_self _
    · exact Nat.lt_succ_of_lt (h.below hold)
  · intro k k' task hk hk'
    rcases hlookup hk with ⟨rfl, rfl⟩ | hold <;> rcases hlookup hk' with ⟨rfl, htask⟩ | hold'
    · rfl
    · exact absurd (h.below hold') (Nat.lt_irrefl _)
    · subst htask
      exact absurd (h.below hold) (Nat.lt_irrefl _)
    · exact h.unique hold hold'

/-- Kinds that are added get new numbers. -/
theorem addKinds {s : WatchSet × Nat} (h : Numbered s) (kinds : List GvkKey) :
    Numbered (WatchSet.addKinds mode answer kinds s) :=
  addKinds_induction (fun _ hs g => hs.spawn g) h kinds

/-- So a rebuild keeps the numbers apart. -/
theorem rebuild {s : WatchSet × Nat} (h : Numbered s) (dropOrder addOrder : Shuffle GvkKey) :
    Numbered (WatchSet.rebuild mode dropOrder addOrder answer desired s) := by
  unfold WatchSet.rebuild
  split
  · exact h
  · refine addKinds (h.sub ?_) _
    intro g task hg
    rw [(lookup_drops g _ _).1] at hg
    split at hg
    · cases hg
    · exact hg

end Numbered

/-! ### Every sequence of calls -/

/-- A call, with what it meets. -/
inductive Call (mode : WatchMode) : WatchSet × Nat → WatchSet × Nat → Prop
  | rebuild (s : WatchSet × Nat) (dropOrder addOrder : Shuffle GvkKey)
      (answer : GvkKey → Discovery) (desired : List GvkKey) :
      Call mode s (rebuild mode dropOrder addOrder answer desired s)
  | shutdown (s : WatchSet × Nat) : Call mode s (s.1.shutdown, s.2)

/-- The sequences of calls, from a new watch set. -/
def calls (mode : WatchMode) : System (WatchSet × Nat) where
  init s := s = (.new, 0)
  step := Call mode

/-- Every sequence of calls keeps the maps consistent. -/
theorem consistent_invariant : (calls mode).Invariant fun s => Consistent mode s.1 where
  init := by
    rintro s rfl
    exact .empty
  step := by
    intro s t _ h hstep
    cases hstep with
    | rebuild dropOrder addOrder answer desired => exact h.rebuild dropOrder addOrder
    | shutdown => exact .empty

/-- And its tasks have numbers of their own. -/
theorem numbered_invariant : (calls mode).Invariant Numbered where
  init := by
    rintro s rfl
    exact .empty 0
  step := by
    intro s t _ h hstep
    cases hstep with
    | rebuild dropOrder addOrder answer desired => exact h.rebuild dropOrder addOrder
    | shutdown => exact .empty _

/-- After every sequence of calls the two maps agree, no two kinds share a driver, and the next
call keeps the watch set between what it keeps and what is desired. -/
theorem bookkeeping (hmode : mode ≠ .off) {s : WatchSet × Nat} (hs : (calls mode).Reachable s) :
    (mode = .cache → ∀ g, g ∈ s.1.stores ↔ g ∈ s.1.handles) ∧
      (mode = .trigger → s.1.stores = ∅) ∧
      (∀ g g' task, s.1.handles.lookup g = some task → s.1.handles.lookup g' = some task →
        g = g') ∧
      ∀ dropOrder addOrder answer desired,
        Rebuilt answer desired s.1 (rebuild mode dropOrder addOrder answer desired s).1 := by
  have h := consistent_invariant.holds hs
  refine ⟨?_, ?_, ?_, ?_⟩
  · intro hm g
    rw [← AList.lookup_isSome, ← AList.lookup_isSome, h.cache hm g]
  · rintro rfl
    exact h.other (by decide)
  · exact fun _ _ _ => (numbered_invariant.holds hs).unique
  · intro dropOrder addOrder answer desired
    exact rebuilt hmode dropOrder addOrder s

/-- A watch set in cache mode after one call, for one kind. -/
theorem bookkeeping_one_kind :
    let s := rebuild .cache .id .id (fun _ => .found) [⟨"", "v1", "ConfigMap"⟩] (.new, 0)
    (∀ g, g ∈ s.1.stores ↔ g ∈ s.1.handles) ∧
      Rebuilt (fun _ => .failed) [⟨"", "v1", "ConfigMap"⟩, ⟨"", "v1", "Secret"⟩] s.1
        (rebuild .cache .id .id (fun _ => .failed)
          [⟨"", "v1", "ConfigMap"⟩, ⟨"", "v1", "Secret"⟩] s).1 := by
  intro s
  have hs : (calls .cache).Reachable s := .step (.init rfl) (.rebuild _ _ _ _ _)
  obtain ⟨hkeys, -, -, hnext⟩ := bookkeeping (by decide) hs
  exact ⟨hkeys rfl, hnext _ _ _ _⟩

end LeanCd.WatchSet

/-! ### The loop -/

namespace LeanCd.RunLoop

open Transition

variable {cfg : Config} {kube : KubeCrate}

/-- What is left of the `rebuild` of the loop leads to a watch set that calls lead to,
whatever it meets. -/
structure Refines (cfg : Config) (s : RunLoop) : Prop where
  kinds : s.lastGvks.Nodup
  settled : (WatchSet.calls cfg.watchMode).Reachable (s.watchSet, s.nextTask)
  adding : ∀ {kinds}, s.phase = .adding kinds → kinds.Nodup ∧ ∀ answer,
    (WatchSet.calls cfg.watchMode).Reachable
      (WatchSet.addKinds cfg.watchMode answer kinds (s.watchSet, s.nextTask))

namespace Refines

variable {s t : RunLoop}

/-- A step that does not touch the watch set. -/
theorem of_same (h : Refines cfg s) (hkinds : t.lastGvks = s.lastGvks)
    (hset : t.watchSet = s.watchSet) (htask : t.nextTask = s.nextTask)
    (hphase : ∀ kinds, t.phase = .adding kinds → s.phase = .adding kinds ∨ kinds = []) :
    Refines cfg t := by
  have hsettled : (WatchSet.calls cfg.watchMode).Reachable (t.watchSet, t.nextTask) := by
    rw [hset, htask]
    exact h.settled
  refine ⟨hkinds ▸ h.kinds, hsettled, ?_⟩
  intro kinds ht
  rcases hphase kinds ht with hs | rfl
  · rw [hset, htask]
    exact h.adding hs
  · exact ⟨.nil, fun _ => hsettled⟩

/-- The loop is in its `rebuild`, and whatever the rest meets, calls lead there. When it meets
a stop, the rest does nothing. -/
theorem of_adding {kinds : List GvkKey} (hlast : t.lastGvks.Nodup)
    (hphase : t.phase = .adding kinds) (hnodup : kinds.Nodup)
    (h : ∀ answer, (WatchSet.calls cfg.watchMode).Reachable
      (WatchSet.addKinds cfg.watchMode answer kinds (t.watchSet, t.nextTask))) :
    Refines cfg t := by
  have hstopped : WatchSet.addKinds cfg.watchMode (fun _ => .stopped) kinds
      (t.watchSet, t.nextTask) = (t.watchSet, t.nextTask) := by
    cases kinds <;> rfl
  refine ⟨hlast, hstopped ▸ h _, ?_⟩
  intro kinds' hphase'
  rw [hphase] at hphase'
  cases hphase'
  exact ⟨hnodup, h⟩

end Refines

/-- A driver changes neither the loop nor the watch set. -/
theorem handle_frame (task : Nat) (ev : WatchEvent) (s : RunLoop) :
    (handle cfg kube task ev s).lastGvks = s.lastGvks ∧
      (handle cfg kube task ev s).watchSet = s.watchSet ∧
      (handle cfg kube task ev s).nextTask = s.nextTask ∧
      (handle cfg kube task ev s).phase = s.phase := by
  unfold handle notifyOne
  repeat' split
  all_goals exact ⟨rfl, rfl, rfl, rfl⟩

/-- The watch set of the loop is always one that calls of `rebuild` and `shutdown` lead to. -/
theorem loop_refines_calls : (system cfg kube).Invariant (Refines cfg) where
  init := by
    rintro s rfl
    exact ⟨.nil, .init rfl, nofun⟩
  step := by
    intro s t _ h hstep
    cases hstep with
    -- A delivery changes no driver.
    | deliver g task ev _ _ =>
        obtain ⟨hkinds, hset, htask, hphase⟩ := @handle_frame cfg kube task ev
          { s with pending := s.pending || ev.changes }
        exact h.of_same hkinds hset htask fun kinds ht => .inl (hphase ▸ ht)
    -- The drivers end with the process.
    | exit _ _ | stopNow _ _ _ | stopAsleep _ _ =>
        exact ⟨h.kinds, .step h.settled (.shutdown _), nofun⟩
    | passOk gvks _ => exact ⟨List.nodup_dedup _, h.settled, nofun⟩
    -- The rebuild is one call with some answer, and it drops what is not desired.
    | rebuild order _ hmode =>
        refine .of_adding h.kinds rfl ((order.perm _).nodup_iff.mpr (h.kinds.filter _)) ?_
        intro answer
        have hcall : WatchSet.Call cfg.watchMode (s.watchSet, s.nextTask) _ :=
          .rebuild _ .id order answer s.lastGvks
        rw [WatchSet.rebuild, if_neg hmode] at hcall
        exact .step h.settled hcall
    | addKind g rest hphase _ =>
        -- The kind was found, so the call so far is one in which it was.
        obtain ⟨hnodup, hall⟩ := h.adding hphase
        refine .of_adding h.kinds rfl hnodup.of_cons ?_
        intro answer
        have hfound := hall (Function.update answer g .found)
        rw [WatchSet.addKinds, Function.update_self] at hfound
        dsimp only at hfound
        rwa [WatchSet.addKinds_update hnodup.notMem] at hfound
    | skipKind g rest hphase _ =>
        -- It was not found, and the call goes on with the rest.
        obtain ⟨hnodup, hall⟩ := h.adding hphase
        refine .of_adding h.kinds rfl hnodup.of_cons ?_
        intro answer
        have hfailed := hall (Function.update answer g .failed)
        rw [WatchSet.addKinds, Function.update_self] at hfailed
        dsimp only at hfailed
        rwa [WatchSet.addKinds_update hnodup.notMem] at hfailed
    | breakAdding kinds hphase _ => exact .of_adding h.kinds rfl .nil fun _ => h.settled
    | noWatch _ _ => exact h.of_same rfl rfl rfl fun kinds ht => .inr (by cases ht; rfl)
    | stop => exact h.of_same rfl rfl rfl fun kinds ht => .inl ht
    | _ => exact h.of_same rfl rfl rfl nofun

/-- The two maps of the loop agree, in the middle of a `rebuild` too. -/
theorem watchSet_consistent {s : RunLoop} (hs : (system cfg kube).Reachable s) :
    WatchSet.Consistent cfg.watchMode s.watchSet :=
  WatchSet.consistent_invariant.holds (loop_refines_calls.holds hs).settled

end LeanCd.RunLoop
