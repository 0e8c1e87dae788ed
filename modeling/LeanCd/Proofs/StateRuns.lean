import LeanCd.Proofs.CacheAgrees
import LeanCd.Proofs.HealthAggregate
import LeanCd.Proofs.PassRuns

/-!
# `LeanCd.Proofs.StateRuns`: the persisted state is coherent

The state in the ConfigMap is put together from what the parts of a pass return, and a pass that
fails writes the old one with an error in it. `Coherent` is what its fields say of each other: the
counts are bounded by the applied set, the failures are part of it, and a state without a commit
has applied nothing.

`coherent_of_run`: every state that a run of passes persists is coherent, in every environment and
under every mix of subcommands and configurations.

The facts come from the parts of a pass as postconditions of their results (`Returns`), so they
hold in every environment. The numbers of the state are then compared field by field. The frame
argument is only about the ConfigMap: who writes it, and with what.
-/

set_option autoImplicit false

namespace LeanCd

open Act

variable {sc : Scopes} {env : Env sc} {cfg : Config}

namespace Drift

open Grouping

variable {yaml : Yaml} {kube : KubeCrate} {manifests : List RawManifest}

/-! ### Every manifest is reported at most once -/

/-- A store reports a manifest, or puts it off, or does neither. -/
theorem length_driftFromStore_le (store : Option CacheStore) (ms : List RawManifest) :
    (driftFromStore yaml kube store ms).1.length + (driftFromStore yaml kube store ms).2.length ≤
      ms.length := by
  rcases store with _ | _ | s
  · simp [driftFromStore]
  · simp [driftFromStore]
  · simp only [driftFromStore]
    induction ms with
    | nil => simp
    | cons m rest ih =>
        -- A manifest is reported or left to the fallback, and not both.
        have hverdict : (cacheVerdict yaml kube s m).2 = true →
            (cacheVerdict yaml kube s m).1 = none := by
          unfold cacheVerdict
          cases s.tierOf (m.name, m.ns) <;> simp
        rw [List.filterMap_cons, List.filter_cons]
        cases hlarge : (cacheVerdict yaml kube s m).2 with
        | true =>
            rw [hverdict hlarge]
            simp only [if_true, List.length_cons]
            omega
        | false =>
            cases (cacheVerdict yaml kube s m).1 <;> simp <;> omega

/-- The fallback reports no manifest twice. -/
theorem length_fallbackDrifts_le (items : List (GvkKey × List RawManifest)) (lists : LiveByGvk) :
    (fallbackDrifts yaml kube items lists).length ≤ (items.flatMap (·.2)).length := by
  induction items with
  | nil => simp [fallbackDrifts]
  | cons item rest ih =>
      unfold fallbackDrifts at ih ⊢
      rw [List.flatMap_cons, List.flatMap_cons, List.length_append, List.length_append]
      refine Nat.add_le_add ?_ ih
      split
      next => simp
      next => exact List.length_filterMap_le _ _

/-- A check against stores reports at most as many drifts as there are manifests: each is looked at
in its store or in the fallback. -/
theorem length_detectFromLw_le (stores : CacheStores) :
    Returns (detectFromLw env cfg manifests stores) fun r => r.1.length ≤ manifests.length := by
  intro w r hr
  obtain ⟨d, t, u, -, hrun, hd, -⟩ := @detectFromLwReading_run _ env cfg manifests stores w
  rw [hrun] at hr
  cases hr
  -- The manifests of the fallback are those that the stores have put off.
  have hput : (fallbackItems (fromStores env manifests stores w.step).2
        (fallbackKinds env manifests stores w.step)).flatMap (·.2) =
      (fallbackKinds env manifests stores w.step).flatMap (largeOf env manifests stores) := by
    rw [fallbackItems, List.flatMap_map]
    refine List.flatMap_congr ?_
    intro g hg
    obtain ⟨m, hm, rfl, -⟩ := mem_fallbackKinds.mp hg
    dsimp only
    rw [fromStores_snd, lookup_deferred, if_pos (mem_gvkOrder.mpr ⟨m, hm, rfl⟩)]
  have hfallback := @length_fallbackDrifts_le env.yaml env.kube
    (fallbackItems (fromStores env manifests stores w.step).2
      (fallbackKinds env manifests stores w.step)) d.lists
  rw [hput] at hfallback
  have hsub : (fallbackKinds env manifests stores w.step).Subperm
      ((env.gvkOrder w.step).run (manifests.map RawManifest.gvk).dedup) := by
    refine List.subperm_of_subset (nodup_fallbackKinds manifests stores w.step) fun g hg => ?_
    obtain ⟨m, hm, hgvk, -⟩ := mem_fallbackKinds.mp hg
    exact mem_gvkOrder.mpr ⟨m, hm, hgvk⟩
  obtain ⟨kinds, hperm, hkinds⟩ := hsub
  obtain ⟨more, hmore⟩ := hkinds.exists_perm_append
  have hkinds := ((hmore.trans (hperm.append_right more)).flatMap_right
    (largeOf env manifests stores)).length_eq
  have hgroups := (flatMap_group_perm (@nodup_gvkOrder _ env manifests w.step)
    fun m hm => mem_gvkOrder.mpr ⟨m, hm, rfl⟩).length_eq
  have hall := length_flatMap_add_le (h := fun g => manifests.filter (·.gvk = g))
    (fun g => @length_driftFromStore_le env.yaml env.kube (stores.lookup g)
      (manifests.filter (·.gvk = g)))
    ((env.gvkOrder w.step).run (manifests.map RawManifest.gvk).dedup)
  have hstores : (fromStores env manifests stores w.step).1 = _ := driftFromCache_fst _ _ _
  rw [hd, List.length_append, hstores]
  rw [List.flatMap_append, List.length_append] at hkinds
  unfold largeOf at hfallback hkinds
  omega

/-- A check against lists reports at most as many drifts as there are manifests. -/
theorem length_detect_le :
    Returns (detect env cfg manifests) fun r => r.1.length ≤ manifests.length := by
  refine (Returns.any _).bind fun _ _ => (Returns.any _).bind fun _ _ => ?_
  refine (Returns.any _).bind fun _ _ => .pure ?_
  exact List.length_filterMap_le _ _

end Drift

namespace Reconcile

open Drift ResourceHealth

/-- A detection reports each manifest at most once. -/
theorem length_detectDrift_le (main : List RawManifest) :
    Returns (detectDrift env cfg main) fun r => r.1.length ≤ main.length := by
  unfold detectDrift
  split
  next => exact (Returns.any _).bind fun n _ => length_detectFromLw_le _
  next => exact length_detect_le

/-- The failures of an apply are keys of its manifests, in their order. -/
theorem returns_applyAll_sublist (dryRun : Bool) (ms : List RawManifest)
    (cache : KubeUtil.DiscoveryCache) :
    Returns (applyAll env cfg dryRun ms cache) fun failed =>
      failed.Sublist (ResourceKey.keysOf ms) := by
  induction ms generalizing cache with
  | nil => exact .pure (List.Sublist.refl _)
  | cons m rest ih =>
      rw [applyAll_cons]
      refine (Returns.any _).bind fun r _ => (ih r.2).bind fun failed hfailed => .pure ?_
      split
      next => exact hfailed.cons_cons _
      next => exact hfailed.cons _

/-- What a branch returns fits the manifests. -/
structure Fits (main : List RawManifest) (o : BranchOutcome) : Prop where
  failures : o.applyFailures.Sublist (ResourceKey.keysOf main)
  drifts : o.drifts.length ≤ main.length

/-- An outcome without drifts and failures fits every commit. -/
theorem fits_empty {main : List RawManifest} {post : Option String} :
    Fits main ⟨[], [], post, []⟩ := ⟨List.nil_sublist _, Nat.zero_le _⟩

/-- The outcome of every branch fits the commit: drifts are reported of its manifests, failures are
those of its applies. -/
theorem fits_branch (guard : LeaseGuard) (prev : Option State) (sync : SyncOutcome)
    (c : Classified) : Returns (branch env cfg guard prev sync c) (Fits c.main) := by
  -- Failures are among the manifests, and drifts are as many as they at the most.
  have hfull : Returns (fullApplyBranch env cfg guard c) (Fits c.main) := by
    refine (Returns.any _).bind fun _ _ => ?_
    refine (returns_applyAll_sublist false c.main []).bind fun failed hfailed => ?_
    refine (Returns.any _).bind fun live _ => (Returns.any _).bind fun post _ => .pure ?_
    exact ⟨hfailed, Nat.zero_le _⟩
  have hdrift : Returns (driftBranch env cfg guard c) (Fits c.main) := by
    refine (length_detectDrift_le c.main).bind fun r hr => ?_
    dsimp only
    split
    next => exact .pure ⟨List.nil_sublist _, hr⟩
    next =>
      refine (Returns.any _).bind fun _ _ => ?_
      refine (returns_applyAll_sublist false c.main []).bind fun failed hfailed => ?_
      exact (Returns.any _).bind fun post _ => .pure ⟨hfailed, hr⟩
  unfold branch syncBranch
  split
  -- A teardown applies nothing.
  next =>
    refine (Returns.any _).bind fun _ _ => (Returns.any _).bind fun _ _ => ?_
    exact (Returns.any _).bind fun post _ => .pure fits_empty
  next =>
    -- The prune comes after the branch and fails nothing.
    refine Returns.bind (P := Fits c.main) ?_ fun outcome h => ?_
    · split
      next => exact hfull
      next => exact hdrift
    · exact (Returns.any _).bind fun _ _ => .pure h

/-- What the health of a pass says of its manifests. -/
structure Counts (main : List RawManifest) (h : HealthSummary) : Prop where
  total : main.length < 2 ^ 64 → HealthSummary.total h ≤ main.length
  worst : main.length < 2 ^ 64 → (h.worst = none ↔ HealthSummary.total h = 0)

/-- The empty summary counts nothing. -/
theorem counts_default (main : List RawManifest) : Counts main .default :=
  ⟨fun _ => Nat.zero_le _, fun _ => ⟨fun _ => rfl, fun _ => rfl⟩⟩

/-- A health assessment counts manifests of the commit, each at most once. -/
theorem counts_assess (main : List RawManifest) (live : List DynamicObject) :
    Counts main (assess main live) where
  total hlen := by
    rw [total_assess hlen]
    exact List.countP_le_length
  worst hlen := by
    rw [total_assess hlen, (worst_assess main).1, Option.map_eq_none_iff, worst_tally_none,
      countP_counted_eq_zero]

/-- So does the health check of a pass, which is an assessment or nothing. -/
theorem counts_healthOf (main : List RawManifest) (live : List DynamicObject) :
    Returns (healthOf env cfg main live) (Counts main) := by
  unfold healthOf
  split
  next => exact (Returns.any _).bind fun live _ => .pure (counts_assess main live)
  next => exact .pure (counts_default main)

/-- The new state of a pass, with a health of its manifests. -/
theorem returns_nextState_counts (guard : LeaseGuard) (prev : Option State) (sync : SyncOutcome)
    (c : Classified) (outcome : BranchOutcome) :
    Returns (nextState env cfg guard prev sync c outcome) fun s =>
      ∃ health epoch, Counts c.main health ∧ s = newState prev sync c outcome health epoch :=
  (Returns.any _).bind fun _ _ => (counts_healthOf c.main _).bind fun health h =>
    (Returns.any _).bind fun epoch _ => (Returns.any _).bind fun _ _ =>
      .pure ⟨health, epoch, h, rfl⟩

/-! ### The invariant -/

/-- What the fields of a persisted state say of each other. -/
structure Coherent (s : State) : Prop where
  managed : s.managedCount = count s.applied
  failures : s.applyFailures.Sublist s.applied
  drift : ∃ n ≤ s.applied.length, s.driftCount = UInt64.ofNat n
  health : s.applied.length < 2 ^ 64 → HealthSummary.total s.health ≤ s.applied.length
  worst : s.applied.length < 2 ^ 64 → (s.health.worst = none ↔ HealthSummary.total s.health = 0)
  epoch : s.lastSyncEpoch.isSome = s.lastSha.isSome
  never : s.lastSha = none → s.applied = []

/-- The default state is coherent. -/
theorem coherent_default : Coherent .default :=
  ⟨rfl, List.Sublist.refl _, ⟨0, Nat.zero_le _, rfl⟩, fun _ => Nat.zero_le _,
    fun _ => ⟨fun _ => rfl, fun _ => rfl⟩, rfl, fun _ => rfl⟩

/-- The state that a pass writes is coherent, as its numbers are those of its outcome. -/
theorem coherent_newState {prev : Option State} {sync : SyncOutcome} {c : Classified}
    {outcome : BranchOutcome} (h : Fits c.main outcome) {health : HealthSummary}
    (hhealth : Counts c.main health) (epoch : UInt64) :
    Coherent (newState prev sync c outcome health epoch) where
  managed := by simp [newState, count, ResourceKey.keysOf]
  failures := h.failures
  drift := ⟨outcome.drifts.length, by simpa [newState, ResourceKey.keysOf] using h.drifts, rfl⟩
  health := by simpa [newState, ResourceKey.keysOf] using hhealth.total
  worst := by simpa [newState, ResourceKey.keysOf] using hhealth.worst
  epoch := rfl
  never := nofun

/-- The record of an error keeps a state coherent: it adds the error, and changes no number that the
others are compared with. -/
theorem coherent_errorState (e : Error) {prev : Option State}
    (h : ∀ s, prev = some s → Coherent s) : Coherent (errorState e prev) := by
  have hbase : Coherent (prev.getD .default) := by
    cases prev with
    | none => exact coherent_default
    | some s => exact h s rfl
  exact ⟨hbase.managed, hbase.failures, hbase.drift, hbase.health, hbase.worst, hbase.epoch,
    hbase.never⟩

/-- The persisted state is coherent, if there is one. -/
def CoherentAt (w : World sc) : Prop := ∀ s, w.stored = some s → Coherent s

/-- Steps that leave the state keep it coherent. -/
theorem CoherentAt.kept {w t : World sc} (h : CoherentAt w) (ht : t.stateCm = w.stateCm) :
    CoherentAt t := by
  unfold CoherentAt World.stored at h ⊢
  rwa [ht]

/-- What is known of a coherent state is coherent. -/
theorem CoherentAt.known {w : World sc} (h : CoherentAt w) {prev : Option State}
    (hprev : Knows w prev) {s : State} (hs : prev = some s) : Coherent s := by
  rcases hprev with hstored | hnone
  · exact h s (hstored ▸ hs)
  · rw [hnone] at hs
    cases hs

/-- Interactions leave the state, so it stays coherent. -/
theorem benign_coherentAt : Benign env (.preserves CoherentAt) where
  tick _ h := h.kept rfl
  transmit _ _ h := h.kept rfl
  sleep _ _ h := h.kept rfl
  lease _ _ _ h := h.kept rfl

/-- A write to the cluster leaves it too. -/
theorem blind_coherentAt : Blind (.preserves (@CoherentAt sc)) := fun _ _ _ _ h => h.kept rfl

/-- A write of a coherent state keeps coherence: the ConfigMap is decoded to what was encoded. -/
theorem keeps_stateWrite_coherent {s : State} (hs : Coherent s) :
    Keeps (.preserves CoherentAt) (State.write env s) := by
  refine benign_coherentAt.stateWrite ?_
  intro w _ s' hs'
  have hstored : World.stored { w with stateCm := some s.toData } = some s :=
    World.stored_of_stateCm rfl
  have hs' : World.stored { w with stateCm := some s.toData } = some s' := hs'
  rw [hstored] at hs'
  cases hs'
  exact hs

/-- Every pass keeps the state coherent, in every environment. -/
theorem passRule_coherent (env : Env sc) (cfg : Config) : PassRule env cfg CoherentAt where
  benign := benign_coherentAt
  validate _ _ c _ := blind_coherentAt.allowsApply true c.main
  execute guard prev sync c w hw _ _ := by
    have hbranch : Keeps (.preserves CoherentAt) (branch env cfg guard prev sync c) :=
      benign_coherentAt.branch (blind_coherentAt.allowsApply false c.main)
        (blind_coherentAt.allowsHooks c.hooks) blind_coherentAt.serveDelete guard prev sync
    refine hbranch.bind_returns (fits_branch guard prev sync c) (fun outcome hfits => ?_) w hw
    refine (benign_coherentAt.nextState guard prev sync c outcome).bind_returns
      (returns_nextState_counts guard prev sync c outcome) ?_
    rintro _ ⟨health, epoch, hhealth, rfl⟩
    exact (keeps_stateWrite_coherent (coherent_newState hfits hhealth epoch)).bind
      fun _ _ h => h.kept rfl
  record e prev w hw hprev :=
    keeps_stateWrite_coherent (coherent_errorState e fun _ => hw.known hprev) w hw
  success _ _ h := h.kept rfl

/-- Every state that a run of passes persists is coherent, when the one before it was. -/
theorem coherent_of_run {E : Env sc → Config → Prop} {w t : World sc} (hw : CoherentAt w)
    (ht : (passesOf E w).Reachable t) : CoherentAt t :=
  PassRule.holds (fun env cfg _ => passRule_coherent env cfg) hw ht

/-- The state that a first pass over a repository persists. -/
theorem coherent_of_run_first :
    ∃ t : World .namespacedOnly, (passesOf (fun _ _ => True) (.fresh ∅ none)).Reachable t ∧
      t.stored ≠ none ∧ CoherentAt t := by
  have hpass : (passesOf (fun _ _ => True) (.fresh ∅ none)).Reachable
      (Act.state (Command.controller.pass syncedEnv (syncedPass .off).cfg ⟨none, none, none⟩
        "pod:1" (.fresh ∅ none))) :=
    .step (.init rfl) ⟨_, _, trivial, .controller, _, _, rfl⟩
  exact ⟨_, hpass, by decide +kernel, coherent_of_run (fun s hs => by cases hs) hpass⟩

end Reconcile

end LeanCd
