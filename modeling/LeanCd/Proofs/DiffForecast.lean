import LeanCd.Proofs.SelfHealing
import LeanCd.Reports

/-!
# `LeanCd.Proofs.DiffForecast`: the report of `diff` and the pass that follows it

`leancd diff` and the drift check of a pass are two callers of `detect`. In a steady run, where
the failures of calls do not change and nobody else acts, what `detect` finds depends on the
live objects alone: `forecast`, kind by kind, with nothing found for a kind whose calls fail.

`diff_foretells`: the report lists what the next drift check of its commit finds. A pass that
completes after a report without a drift starts no hook and no apply, one after a report with
drifts tries every main manifest, and both persist the number of the lines as the drift count.

`passive` is the frame of steps that only look. Both callers begin with such steps, so they look
at the same live objects, and `forecast` is what a look returns. `Foretold` is the rest of the
pass, in terms of the drifts that were foretold.
-/

set_option autoImplicit false

namespace LeanCd

open Act

variable {sc : Scopes} {env : Env sc} {cfg : Config} {secrets : Secrets}

namespace Drift

/-- The API server answers to a list of the kind. -/
def Listed (env : Env sc) (g : GvkKey) : Prop :=
  env.fault 0 (.discover g) = .none ∧ env.fault 0 (.list g) = .none

instance (env : Env sc) (g : GvkKey) : Decidable (Listed env g) :=
  inferInstanceAs (Decidable (_ ∧ _))

/-- What the answer holds, or nothing when there is none. -/
def answered (env : Env sc) (cfg : Config) (c : Cluster sc) (g : GvkKey) : List DynamicObject :=
  if Listed env g then c.list g cfg.selector else []

/-- The drifts that a detection from lists finds in a cluster. -/
def forecast (env : Env sc) (cfg : Config) (main : List RawManifest) (c : Cluster sc) :
    List DriftItem :=
  main.filterMap fun m =>
    driftAgainst env.yaml env.kube m (findLiveMatch m (answered env cfg c m.gvk))

/-- In a steady run the answers are lists of one cluster. -/
theorem lookup_listAnswers_steady (hs : env.Steady) (gvks : List GvkKey) (g : GvkKey)
    (w : World sc) : (listAnswers env cfg gvks w).lookup g =
      if g ∈ gvks ∧ Listed env g then some (w.cluster.list g cfg.selector) else none := by
  have hlisted : ∀ (g : GvkKey) (w : World sc), (w.listed env g cfg.selector).cluster =
      w.cluster := fun g w => hs.cluster_called (.list g) w
  induction gvks generalizing w with
  | nil => simp [listAnswers]
  | cons g' rest ih =>
      rw [listAnswers, hs.fault w.step, hs.fault (w.called env (.discover g')).step]
      by_cases hdiscover : env.fault 0 (.discover g') = .none
      · by_cases hlist : env.fault 0 (.list g') = .none
        · rw [if_pos hdiscover, if_pos hlist, List.lookup_cons]
          -- The kind of the round itself may be the one that is asked for. It was read from the
          -- cluster as it stands, which none of the calls has changed.
          by_cases hg : g = g'
          · subst hg
            simp [Listed, hdiscover, hlist, hs.cluster_called]
          · simp [beq_eq_false_iff_ne.mpr hg, hg, ih, hlisted, hs.cluster_called]
        -- The list failed, so the round adds nothing and the kind is not `Listed`.
        · rw [if_pos hdiscover, if_neg hlist, ih]
          have hnot : ¬ Listed env g' := fun h => hlist h.2
          by_cases hg : g = g'
          · subst hg
            simp [hnot]
          · simp [hg, hs.cluster_called]
      -- The kind is not discovered, and no list is tried.
      · rw [if_neg hdiscover, ih]
        have hnot : ¬ Listed env g' := fun h => hdiscover h.1
        by_cases hg : g = g'
        · subst hg
          simp [hnot]
        · simp [hg, hs.cluster_called]

/-- In a steady run a detection from lists finds what there is to find. -/
theorem after_detect_forecast (hs : env.Steady) (main : List RawManifest) (w : World sc) :
    After (detect env cfg main) w fun res _ =>
      ∃ live, res = .ok (forecast env cfg main w.cluster, live) := by
  refine (after_detect_answers main w).mono ?_
  rintro _ t ⟨live, rfl⟩
  refine ⟨live, ?_⟩
  have hsame : computeDrifts env.yaml env.kube main (listAnswers env cfg
      ((env.gvkOrder w.step).run (main.map RawManifest.gvk).dedup) (w.ticked env)) =
      forecast env cfg main w.cluster := by
    -- The verdicts are compared manifest by manifest: each reads the list of its own kind only.
    refine List.filterMap_congr ?_
    intro m hm
    have hkind : m.gvk ∈ (env.gvkOrder w.step).run (main.map RawManifest.gvk).dedup := by
      rw [Shuffle.mem_run, List.mem_dedup]
      exact List.mem_map_of_mem hm
    have hcluster : (w.ticked env).cluster = w.cluster := hs.quiet w.step w.cluster
    rw [lookup_listAnswers_steady hs, hcluster, answered]
    by_cases hlisted : Listed env m.gvk
    · simp [hkind, hlisted]
    · simp [hlisted]
  rw [hsame]

end Drift

namespace Reconcile

open Drift

/-- The process has started no hook and no apply, and has changed no object but by a delete. -/
def passive : Frame (World sc) := adds fun e =>
  match e with
  | .deleted _ | .stateWritten _ => True
  | .patched _ _ | .applyStarted _ | .hookStarted _ => False

/-- What the rest of a pass does after a report with those drifts. -/
structure Foretold (env : Env sc) (cfg : Config) (main : List RawManifest)
    (drifts : List DriftItem) (w t : World sc) (failures : List ResourceKey) : Prop where
  quiet : drifts = [] → passive.rel w t ∧ failures = []
  tried : drifts ≠ [] → ∀ m ∈ main, Tried env cfg w t failures m

section
variable (hs : env.Steady) (hlists : cfg.watchMode ≠ .cache)
include hs hlists

/-- The drift check of a pass finds what was foretold, and leaves everything where it was. -/
theorem after_detectDrift_forecast (main : List RawManifest) (w : World sc) :
    After (detectDrift env cfg main) w fun res t => passive.rel w t ∧
      ∃ live, res = .ok (forecast env cfg main w.cluster, live) := by
  have hB : Benign env (passive : Frame (World sc)) := benign_adds
  rw [detectDrift, if_neg hlists]
  exact ((hB.detect main).after w).and (after_detect_forecast hs main w)

/-- The drift check notices something exactly when there is something to find. -/
theorem noticed_eq_forecast (main : List RawManifest) (w : World sc) :
    noticed env cfg main w = !(forecast env cfg main w.cluster).isEmpty := by
  obtain ⟨drifts, live, hrun, hempty⟩ := @after_detectDrift_noticed _ env cfg main w
  obtain ⟨-, live', hrun'⟩ := after_detectDrift_forecast hs hlists main w
  have hsame := Except.ok.inj (hrun.symm.trans hrun')
  rw [← (Prod.mk.inj hsame).1, hempty, Bool.not_not]

/-- The branch of a pass with a drift check: with no drift it does nothing, otherwise it applies. -/
theorem after_syncBranch_forecast (guard : LeaseGuard) (c : Classified) {prev : Option State}
    {sync : SyncOutcome} (hfull : shouldFullApply prev.isSome sync.changed = false)
    (w : World sc) :
    After (syncBranch env cfg guard prev sync c) w fun res t => ∀ o, res = .ok o →
      o.drifts = forecast env cfg c.main w.cluster ∧
        Foretold env cfg c.main o.drifts w t o.applyFailures := by
  have hdrifts : After (syncBranch env cfg guard prev sync c) w fun res t => ∀ o, res = .ok o →
      o.drifts = forecast env cfg c.main w.cluster ∧
        (o.drifts = [] → passive.rel w t ∧ o.applyFailures = []) := by
    rw [syncBranch, hfull, if_neg (by decide), driftBranch, after_bind]
    refine (after_detectDrift_forecast hs hlists c.main w).mono ?_
    rintro _ t ⟨ht, live, rfl⟩
    dsimp only
    rw [after_ite]
    split
    -- No drift was found. The pass returns at once, and the world is that after the detection.
    next hempty =>
      rintro o ho
      cases ho
      exact ⟨rfl, fun _ => ⟨ht, rfl⟩⟩
    -- With drift the outcome still carries the drifts that were found before the hooks ran.
    next hfound =>
      have hreturns : Returns (do
          preHooks env cfg guard "pre-sync" c.pre
          let applyFailures ← applyAll env cfg false c.main []
          let postError ← postHooks env cfg guard "post-sync" c.post
          return ({ drifts := forecast env cfg c.main w.cluster, applyFailures, postError,
                    healthLive := live } : BranchOutcome)) fun o =>
            o.drifts = forecast env cfg c.main w.cluster :=
        (Returns.any _).bind fun _ _ => (Returns.any _).bind fun _ _ =>
          (Returns.any _).bind fun _ _ => .pure rfl
      refine (hreturns.after t).mono ?_
      intro res u hu o ho
      have hsame := hu o ho
      refine ⟨hsame, fun hnone => ?_⟩
      rw [← hsame, hnone] at hfound
      exact absurd rfl hfound
  -- What the report left empty is not applied at all, and what it named is attempted.
  by_cases hnone : forecast env cfg c.main w.cluster = []
  · refine hdrifts.mono ?_
    intro res t ht o ho
    obtain ⟨hsame, hquiet⟩ := ht o ho
    exact ⟨hsame, hquiet, fun hne => absurd (hsame.trans hnone) hne⟩
  · have hnoticed : noticed env cfg c.main w = true := by
      rw [noticed_eq_forecast hs hlists, List.isEmpty_eq_false_iff.mpr hnone]
      rfl
    refine (hdrifts.and (after_syncBranch_tried guard c prev sync w (.inr hnoticed))).mono ?_
    intro res t ht o ho
    obtain ⟨hsame, hquiet⟩ := ht.1 o ho
    exact ⟨hsame, hquiet, fun _ => ht.2 o ho⟩

/-! ### The pass -/

omit hs hlists in
/-- What was foretold is not undone by steps that only look. -/
theorem Foretold.after {main : List RawManifest} {drifts : List DriftItem} {w t u : World sc}
    {failures : List ResourceKey} (h : Foretold env cfg main drifts w t failures)
    (hu : passive.rel t u) : Foretold env cfg main drifts w u failures where
  quiet hnone := ⟨passive.trans (h.quiet hnone).1 hu, (h.quiet hnone).2⟩
  tried hsome m hm := (h.tried hsome m hm).imp_sent fun hsent =>
    hsent.after (adds_mono (fun _ _ => trivial) hu)

omit hs hlists in
/-- Nor by such steps before. -/
theorem Foretold.before {main : List RawManifest} {drifts : List DriftItem} {v w t : World sc}
    {failures : List ResourceKey} (hv : passive.rel v w)
    (h : Foretold env cfg main drifts w t failures) :
    Foretold env cfg main drifts v t failures where
  quiet hnone := ⟨passive.trans hv (h.quiet hnone).1, (h.quiet hnone).2⟩
  tried hsome m hm := (h.tried hsome m hm).imp_sent fun hsent =>
    hsent.before (adds_mono (fun _ _ => trivial) hv)

/-- The same of the whole branch of a pass in drift-check mode. -/
theorem after_branch_forecast (guard : LeaseGuard) (c : Classified) {prev : Option State}
    {sync : SyncOutcome} (hmode : modeOf prev sync c = .driftCheck) (w : World sc) :
    After (branch env cfg guard prev sync c) w fun res t => ∀ o, res = .ok o →
      o.drifts = forecast env cfg c.main w.cluster ∧
        Foretold env cfg c.main o.drifts w t o.applyFailures := by
  -- A drift check is neither a first pass nor a full apply, which leaves one branch of `modeOf`.
  unfold modeOf at hmode
  split at hmode
  next => cases hmode
  next hkeep =>
    split at hmode
    next => cases hmode
    next hfull =>
      -- The prune at the end only adds to the trace, so what was attempted stays so.
      have hprune : Keeps passive
          (Prune.prune env cfg (prevApplied prev) (ResourceKey.keysOf c.main)) :=
        Prune.keeps_prune interacts_adds (keeps_serveDelete_adds fun _ => trivial) _ _
      rw [branch, if_neg hkeep]
      refine After.bind_ok (by simp) ?_
      refine (after_syncBranch_forecast hs hlists guard c (Bool.not_eq_true _ ▸ hfull) w).mono ?_
      intro res t ht o ho
      obtain ⟨hsame, hforetold⟩ := ht o ho
      refine After.bind_ok (by simp) ((hprune.after t).mono fun res u hu deleted _ => ?_)
      rintro o' ho'
      cases ho'
      exact ⟨hsame, hforetold.after hu⟩

/-- What a pass of a drift check persists, and what it has done, when it completes. -/
theorem Started.after_forecast {r : Reconciler} (hr : r.cfg = cfg) (hdry : cfg.dryRun = false)
    {v : World sc} (x : Started env r v) {c : Classified}
    (hdesired : desired env x.sync.sha cfg (prevApplied x.prev) = .ok c)
    (hmode : modeOf x.prev x.sync c = .driftCheck) :
    After (runOnce env r) v fun res t => res = .ok () → ∃ s, t.stored = some s ∧
      s.lastSha = some x.sync.sha ∧ s.driftCount = count (forecast env cfg c.main v.cluster) ∧
        Foretold env cfg c.main (forecast env cfg c.main v.cluster) v t s.applyFailures := by
  subst hr
  have hB : Benign env (passive : Frame (World sc)) := benign_adds
  -- The checkout and the state read leave the cluster as the report found it.
  have hcluster : x.start.cluster = v.cluster :=
    x.rel (benign_preserves (I := (· = v.cluster)) fun n c hc => (hs.quiet n c).trans hc) rfl
  refine x.after_runOnce_ok hdry ?_ ?_
  · rintro t now ⟨s, hstored, hsha, hcount, hforetold⟩
    exact ⟨s, hstored, hsha, hcount, hforetold.after (adds_of_untouched rfl)⟩
  intro c' hc'
  cases hdesired.symm.trans hc'
  refine hB.after_execute_ok (fun _ _ _ => hB.stateWrite fun w => adds_cons rfl trivial)
    (fun _ _ => adds_of_untouched rfl) ?_
  -- The branch runs from the start of the pass, and the state is written after it.
  refine (after_branch_forecast hs hlists x.guard c hmode x.start).mono ?_
  intro res t ht o ho u health epoch htu hwritten y huy
  obtain ⟨hsame, hforetold⟩ := ht o ho
  rw [hcluster] at hsame
  have hstored : y.stored = some (newState x.prev x.sync c o health epoch) :=
    World.stored_of_stateCm (huy.stateCm.trans hwritten)
  refine ⟨_, hstored, rfl, congrArg count hsame, ?_⟩
  rw [← hsame]
  exact ((hforetold.after htu).after (huy _ hB)).before (x.rel hB)

end

/-- What a report that is printed says: the commit that was checked out, and what there is to
find in the cluster. -/
theorem diff_ok (hs : env.Steady) {w t : World sc} {text : String}
    (h : diff env cfg secrets w = .ok text t) : ∃ sync u c,
      GitSync.sync env cfg secrets none w = .ok sync u ∧
      (∀ applied, desired env sync.sha cfg applied = .ok c) ∧
      text = renderDiff sync.sha (forecast env cfg c.main w.cluster) := by
  have hB : Benign env (.preserves fun t => t.cluster = w.cluster) :=
    benign_preserves fun n c hc => (hs.quiet n c).trans hc
  cases hsync : GitSync.sync env cfg secrets none w with
  | error e u =>
      rw [diff, bind_error hsync] at h
      cases h
  | ok sync u =>
      -- The checkout only reads, so the report is computed from the cluster at the call.
      have hcluster : u.cluster = w.cluster := (hB.checkout none .branch).of_ok hsync rfl
      have hafter : After (diff env cfg secrets) w fun res _ => ∀ text, res = .ok text → ∃ c,
          (∀ applied, desired env sync.sha cfg applied = .ok c) ∧
            text = renderDiff sync.sha (forecast env cfg c.main w.cluster) := by
        rw [diff, after_bind, after_of_ok hsync]
        dsimp only
        rw [after_bind, after_ofExcept]
        cases hroots : Manifest.expandRoots env.unprintable (env.tree sync.sha)
            cfg.effectiveWorkDir cfg.path with
        | error e => exact nofun
        | ok roots =>
            dsimp only
            rw [after_bind, after_ofExcept]
            cases hparsed : Manifest.parsePaths env.yaml (env.tree sync.sha) roots with
            | error e => exact nofun
            | ok ms =>
                dsimp only
                rw [after_bind]
                refine (after_detect_forecast hs (Hooks.classify ms).main u).mono ?_
                rintro _ v ⟨live, rfl⟩ text htext
                -- The text is rendered from the drifts. The set is the same whatever was applied
                -- before, as the roots expand without an error.
                cases htext
                refine ⟨Hooks.classify ms, fun applied => ?_, by rw [hcluster]⟩
                rw [desired, rootsOf, hroots]
                dsimp only
                rw [hparsed]
                rfl
      obtain ⟨c, hdesired, htext⟩ := hafter.of_run h text rfl
      exact ⟨sync, u, c, rfl, hdesired, htext⟩

/-- Where nobody else acts and failures do not change, a report of `leancd diff` tells what the
next drift check of its commit from lists finds. -/
theorem diff_foretells (hs : env.Steady) (hlists : cfg.watchMode ≠ .cache)
    (hdry : cfg.dryRun = false) {w t : World sc} {text : String}
    (h : diff env cfg secrets w = .ok text t) :
    ∃ sync u c, GitSync.sync env cfg secrets none w = .ok sync u ∧
      (∀ applied, desired env sync.sha cfg applied = .ok c) ∧
      text = renderDiff sync.sha (forecast env cfg c.main w.cluster) ∧
      ∀ (r : Reconciler) (v : World sc) (x : Started env r v), r.cfg = cfg →
        v.cluster = w.cluster → x.sync.sha = sync.sha → modeOf x.prev x.sync c = .driftCheck →
          After (runOnce env r) v fun res y => res = .ok () → ∃ s, y.stored = some s ∧
            s.lastSha = some sync.sha ∧
            s.driftCount = count (forecast env cfg c.main w.cluster) ∧
            Foretold env cfg c.main (forecast env cfg c.main w.cluster) v y s.applyFailures := by
  obtain ⟨sync, u, c, hsync, hdesired, htext⟩ := diff_ok hs h
  refine ⟨sync, u, c, hsync, hdesired, htext, ?_⟩
  intro r v x hr hcluster hsha hmode
  have hplan : desired env x.sync.sha cfg (prevApplied x.prev) = .ok c := hsha ▸ hdesired _
  have hforecast := x.after_forecast hs hlists hr hdry hplan hmode
  rwa [hsha, hcluster] at hforecast

/-- The world in which somebody has deleted the ConfigMap since it was applied. -/
def lostWorld : World .namespacedOnly := { syncedWorld with cluster := ∅ }

/-- A report of the one ConfigMap that is missing, and the pass after it, a drift check that
completes. -/
theorem diff_foretells_synced :
    ∃ text t sync u y s, diff syncedEnv (syncedPass .off).cfg ⟨none, none, none⟩ lostWorld =
        .ok text t ∧
      GitSync.sync syncedEnv (syncedPass .off).cfg ⟨none, none, none⟩ none lostWorld =
        .ok sync u ∧
      text = renderDiff sync.sha (forecast syncedEnv (syncedPass .off).cfg
        [settings (some "default")] lostWorld.cluster) ∧
      runOnce syncedEnv (syncedPass .off) lostWorld = .ok () y ∧ y.stored = some s ∧
      s.lastSha = some sync.sha ∧ s.driftCount = 1 ∧
      Foretold syncedEnv (syncedPass .off).cfg [settings (some "default")]
        (forecast syncedEnv (syncedPass .off).cfg [settings (some "default")] lostWorld.cluster)
        lostWorld y s.applyFailures := by
  have hok : (value (diff syncedEnv (syncedPass .off).cfg ⟨none, none, none⟩
      lostWorld)).isOk = true := by decide +kernel
  obtain ⟨text, hrun⟩ := run_eq_of_isOk hok
  have hpassed : (value (runOnce syncedEnv (syncedPass .off) lostWorld)).isOk = true := by
    decide +kernel
  obtain ⟨_, hpass⟩ := run_eq_of_isOk hpassed
  have hsteady : Env.Steady syncedEnv := ⟨fun _ _ => rfl, fun _ _ => rfl⟩
  obtain ⟨sync, u, c, hsync, hdesired, htext, hrest⟩ :=
    diff_foretells hsteady (by decide) rfl hrun
  -- The report and the pass are of one commit, and the pass checks for drift.
  have hcommit : (value (GitSync.sync syncedEnv (syncedPass .off).cfg ⟨none, none, none⟩ none
      lostWorld)).toOption.map (·.sha) = some "c1" := by decide +kernel
  have hsha : sync.sha = "c1" := by
    rw [hsync] at hcommit
    exact Option.some.inj hcommit
  have hmain : desired syncedEnv "c1" (syncedPass .off).cfg [] =
      .ok ⟨[], [settings (some "default")], [], [], []⟩ := by decide +kernel
  obtain rfl : ⟨[], [settings (some "default")], [], [], []⟩ = c :=
    Except.ok.inj (hmain.symm.trans (hsha ▸ hdesired []))
  have hone : count (forecast syncedEnv (syncedPass .off).cfg [settings (some "default")]
      lostWorld.cluster) = 1 := by decide +kernel
  have hstart : ∃ x ∈ Started.run syncedEnv (syncedPass .off) lostWorld, x.sync.sha = "c1" ∧
      modeOf x.prev x.sync ⟨[], [settings (some "default")], [], [], []⟩ = .driftCheck := by
    decide +kernel
  obtain ⟨x, -, hx, hmode⟩ := hstart
  have hforetold := hrest (syncedPass .off) lostWorld x rfl rfl (hx.trans hsha.symm) hmode
  rw [after_of_ok hpass] at hforetold
  obtain ⟨s, hstored, hlast, hcount, hrest⟩ := hforetold rfl
  exact ⟨text, _, sync, u, _, s, hrun, hsync, htext, hpass, hstored, hlast, hcount.trans hone,
    hrest⟩
end Reconcile

end LeanCd
