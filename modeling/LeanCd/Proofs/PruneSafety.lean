import LeanCd.Calm
import LeanCd.Proofs.PruneSpec

/-!
# `LeanCd.Proofs.PruneSafety`: when `prune` spares what Git declares

A live object has several keys: the namespace of a key is the one its manifest
names or the one the server assigned, and its version is any served one. `prune`
compares keys. `sparesCurrent_iff` says for which sets no object of a current
manifest is ever deleted, and `versionChange_spared_iff` what becomes of an object
whose manifest moved to another version.

Both theorems compare keys with the objects they denote. Where the namespace of a key is the one
the server assigns, and where an object has one version in the two sets, keys and objects are the
same thing, and `prune` does with the keys what it should do with the objects.
-/

set_option autoImplicit false

namespace LeanCd

open Act

namespace Prune

variable {sc : Scopes} {env : Env sc} {cfg : Config}

/-- The idle environment is steady. -/
theorem idle_steady (sc : Scopes) : (Env.idle sc).Steady := ⟨fun _ _ => rfl, fun _ _ => rfl⟩

/-- A live object that carries the managed label and is exempt from nothing. -/
def managedLive (cfg : Config) : Live where
  object :=
    { types := none
      metadata := ⟨none, none, some [cfg.selector], none, none, none, []⟩
      data := [] }
  lastApplied := none
  appliedBy := none

/-- The world in which the object a key denotes is the only one, and managed. -/
def managedWorld (sc : Scopes) (cfg : Config) (k : ResourceKey) : World sc :=
  .fresh (AList.singleton (k.denotes sc cfg.namespace) (managedLive cfg)) none

/-- The world of the example holds its one managed object. -/
theorem lookup_managedWorld (k : ResourceKey) :
    (managedWorld sc cfg k).cluster.lookup (k.denotes sc cfg.namespace) =
      some (managedLive cfg) :=
  List.dlookup_cons_eq [] _ _

/-- Where every call is served, a managed object that a candidate denotes is deleted. -/
theorem prune_deletes_of_candidate {prev current : List ResourceKey} {k : ResourceKey}
    (hk : Candidate sc prev current k) :
    k.denotes sc cfg.namespace ∈
      (state (prune (Env.idle sc) cfg prev current (managedWorld sc cfg k))).deletions := by
  have hlabel : (managedLive cfg).object.labelled cfg.selector = true := by
    simp [managedLive, DynamicObject.labelled, DynamicObject.label, Config.selector]
  rw [mem_deletions_prune (idle_steady sc)]
  refine .inr ⟨k, ⟨hk.gone, hk.source.imp id fun h => ?_⟩, rfl, ?_⟩
  · exact ⟨h.1, rfl, rfl, h.2, managedLive cfg, lookup_managedWorld k, hlabel⟩
  · exact ⟨⟨rfl, rfl, nofun⟩, managedLive cfg, lookup_managedWorld k, rfl⟩

/-! ### The namespace of a key -/

/-- `prune` deletes no object that `apply_all` writes for a manifest of the current
set: the object its group, kind and name denote in the namespace it names, in the
default namespace where it names none, or at cluster scope. -/
def SparesCurrent (sc : Scopes) (cfg : Config) (prev : List ResourceKey)
    (main : List RawManifest) : Prop :=
  ∀ (env : Env sc) (w : World sc), w.trace = [] → ∀ m ∈ main,
    (ResourceKey.fromManifest m).denotes sc cfg.namespace ∉
      (state (prune env cfg prev (ResourceKey.keysOf main) w)).deletions

/-- The current objects are safe exactly when no candidate key denotes one of them. -/
theorem sparesCurrent_iff (sc : Scopes) (cfg : Config) (prev : List ResourceKey)
    (main : List RawManifest) :
    SparesCurrent sc cfg prev main ↔
      ∀ k, Candidate sc prev (ResourceKey.keysOf main) k → ∀ m ∈ main,
        k.denotes sc cfg.namespace ≠ (ResourceKey.fromManifest m).denotes sc cfg.namespace := by
  constructor
  · intro h k hk m hm hsame
    -- A candidate that denotes a current object: in the world where that object is the
    -- only one, and no call fails, it is deleted.
    refine h (Env.idle sc) (managedWorld sc cfg k) rfl m hm ?_
    rw [← hsame]
    exact prune_deletes_of_candidate hk
  · intro h env w htrace m hm hdel
    have hdeletes : Keeps _ (prune env cfg prev (ResourceKey.keysOf main)) :=
      prune_deletes_candidates prev (ResourceKey.keysOf main)
    obtain ⟨new, hnew, hcand⟩ := hdeletes w
    rw [World.mem_deletions, hnew, htrace, List.append_nil] at hdel
    obtain ⟨id, ⟨k, hk, hsame⟩, hid⟩ := hcand _ hdel
    cases hid
    exact h k hk m hm hsame

/-- Git still declares the ConfigMap under the very key that was applied. The object
lives in the default namespace, where the safety net lists it under another key. -/
theorem not_sparesCurrent_settings :
    ResourceKey.keysOf [settings none] = [.fromManifest (settings none)] ∧
      ¬ SparesCurrent .namespacedOnly settingsCfg [.fromManifest (settings none)]
        [settings none] := by
  refine ⟨rfl, fun h => ?_⟩
  have hdel : (ResourceKey.fromManifest (settings none)).denotes .namespacedOnly "default" ∈
      (state (prune (Env.idle .namespacedOnly) settingsCfg [.fromManifest (settings none)]
        [.fromManifest (settings none)]
        (managedWorld _ settingsCfg (.fromManifest (settings none))))).deletions := by
    decide
  exact h (Env.idle _) _ rfl (settings none) List.mem_cons_self hdel

/-! ### The version of a key -/

/-- Git changed the version part of a resource's `apiVersion`, and nothing else of its
identity: the old key was applied and has left Git, the new one is there. -/
structure VersionChange (prev current : List ResourceKey) (old : ResourceKey)
    (version : String) : Prop where
  applied : old ∈ prev
  left : old ∉ current
  declared : { old with version } ∈ current

/-- The old key is a candidate. -/
theorem VersionChange.candidate {prev current : List ResourceKey} {old : ResourceKey}
    {version : String} (h : VersionChange prev current old version) (env : Env sc)
    (cfg : Config) (c : Cluster sc) : SteadyCandidate env cfg c prev current old :=
  ⟨h.left, .inl h.applied⟩

/-- An object whose manifest moved to another version is spared exactly when it is gone
or exempt, or the calls fail for the old key and for every other candidate key that
denotes the object. -/
theorem versionChange_spared_iff (hs : env.Steady) {prev current : List ResourceKey}
    {old : ResourceKey} {version : String} (h : VersionChange prev current old version)
    (w : World sc) (hw : w.trace = []) :
    ({ old with version } : ResourceKey).denotes sc cfg.namespace ∉
        (state (prune env cfg prev current w)).deletions ↔
      (∀ live, w.cluster.lookup (old.denotes sc cfg.namespace) = some live →
        shouldSkipDeletion live.object = true) ∨
      (¬ Reachable env cfg old ∧
        ∀ k ≠ old, SteadyCandidate env cfg w.cluster prev current k →
          k.denotes sc cfg.namespace = old.denotes sc cfg.namespace →
          ¬ Reachable env cfg k) := by
  have hnone : w.deletions = [] := by simp [World.deletions, hw]
  have hsame : ({ old with version } : ResourceKey).denotes sc cfg.namespace =
      old.denotes sc cfg.namespace := rfl
  rw [hsame, mem_deletions_prune hs, hnone, or_iff_right List.not_mem_nil]
  constructor
  · intro hspared
    -- An object that is live and not exempt is spared only if every key that denotes it
    -- fails, the old key among them.
    by_cases hexempt : ∀ live, w.cluster.lookup (old.denotes sc cfg.namespace) = some live →
        shouldSkipDeletion live.object = true
    · exact .inl hexempt
    · push Not at hexempt
      obtain ⟨live, hlook, hskip⟩ := hexempt
      have hfail : ∀ k, SteadyCandidate env cfg w.cluster prev current k →
          k.denotes sc cfg.namespace = old.denotes sc cfg.namespace → ¬ Reachable env cfg k :=
        fun k hk hden hr =>
          hspared ⟨k, hk, hden, hr, live, hden ▸ hlook, by simpa using hskip⟩
      exact .inr ⟨hfail old (h.candidate env cfg w.cluster) rfl, fun k _ => hfail k⟩
  · rintro hsafe ⟨k, hk, hden, hdel⟩
    rcases hsafe with hexempt | ⟨hold, hother⟩
    · obtain ⟨live, hlook, hskip⟩ := hdel.live
      rw [hden] at hlook
      rw [hexempt live hlook] at hskip
      exact absurd hskip (by decide)
    · by_cases hko : k = old
      · exact hold (hko ▸ hdel.toReachable)
      · exact hother k hko hk hden hdel.toReachable

/-- An autoscaler under the version it was applied with. -/
def hpaKey : ResourceKey := ⟨"autoscaling", "v2beta2", "HorizontalPodAutoscaler", some "web", "web"⟩

/-- The one autoscaler moves from `v2beta2` to `v2`, and is deleted. -/
theorem versionChange_deleted :
    VersionChange [hpaKey] [{ hpaKey with version := "v2" }] hpaKey "v2" ∧
      ({ hpaKey with version := "v2" } : ResourceKey).denotes .namespacedOnly "default" ∈
        (state (prune (Env.idle .namespacedOnly) settingsCfg
          [hpaKey] [{ hpaKey with version := "v2" }]
          (managedWorld _ settingsCfg hpaKey))).deletions :=
  ⟨⟨by decide, by decide, by decide⟩, by decide⟩

/-- The same run, through the general theorem: the old key is reachable and the object
is not exempt. -/
theorem versionChange_spared_iff_hpa :
    ({ hpaKey with version := "v2" } : ResourceKey).denotes .namespacedOnly "default" ∉
        (state (prune (Env.idle .namespacedOnly) settingsCfg
          [hpaKey] [{ hpaKey with version := "v2" }]
          (managedWorld _ settingsCfg hpaKey))).deletions ↔
      (∀ live, (managedWorld .namespacedOnly settingsCfg
          hpaKey).cluster.lookup (hpaKey.denotes _ "default") = some live →
        shouldSkipDeletion live.object = true) ∨
      (¬ Reachable (Env.idle .namespacedOnly) settingsCfg hpaKey ∧
        ∀ k ≠ hpaKey, SteadyCandidate (Env.idle .namespacedOnly)
            settingsCfg (managedWorld _ settingsCfg
              hpaKey).cluster [hpaKey] [{ hpaKey with version := "v2" }] k →
          k.denotes .namespacedOnly "default" =
            hpaKey.denotes .namespacedOnly "default" →
          ¬ Reachable (Env.idle .namespacedOnly) settingsCfg k) :=
  versionChange_spared_iff (idle_steady _) ⟨by decide, by decide, by decide⟩ _ rfl

end Prune

end LeanCd
