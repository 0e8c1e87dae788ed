import LeanCd.Calm
import LeanCd.Lib.Transition
import LeanCd.Proofs.Withheld

/-!
# `LeanCd.Proofs.DeclaredHooks`: what Git declares as a hook

The keys that `prune` is told are those of the main manifests. A hook is spared through the
annotation of its live object, which is there once the hook has been applied. A manifest that
turns from a main resource into a hook of no phase, or of a phase that does not run, leaves a
live object without the annotation.

A `History` is a run of passes, any commit in each, with what every prune had declared and
what it deleted. The results:

* `declared_kept`: no declared object is deleted in a run whose passes all meet the condition
  `SparesDeclared`. The condition is about a pass before its prune: the two key sets, the live
  objects, and which calls fail from there on.
* `spared_iff`: in a steady run a pass meets the condition exactly when it deletes no object
  that its commit declares.
* `hooked_pruned`: a run of two passes, the second of which deletes a declared object.
* `declared_kept_annotated`: a run in which the same conversion does no harm, because the live
  object is annotated to be kept.

What a prune deletes is `PrunePoint.pruned`, read off the trace of the pass, and the condition on
the pass is `Withheld` for every declared object. So the run theorem is an invariant of one line
per step, and the content is in `LeanCd.Proofs.Withheld`.
-/

set_option autoImplicit false

namespace LeanCd.Reconcile

open Act Prune Transition

variable {sc : Scopes} {env : Env sc} {r : Reconciler} {w : World sc}

/-! ### One pass -/

/-- The objects that the manifests of the commit declare, the hooks among them. -/
def PrunePoint.declaredIds (x : PrunePoint env r w) : List (ObjId sc) :=
  x.manifests.map fun m => (ResourceKey.fromManifest m).denotes sc r.cfg.namespace

/-- Each object that the commit declares is out of the hands of the prune when it starts: it stays
gone or exempt, or no candidate key that denotes it can cost it. -/
def SparesDeclared (env : Env sc) (r : Reconciler) (w : World sc) : Prop :=
  ∀ x : PrunePoint env r w, ∀ id ∈ x.declaredIds,
    Withheld env r.cfg (prevApplied x.prev) x.current x.before id

/-- A pass that meets the condition deletes nothing that its commit declares. -/
theorem SparesDeclared.spared (h : SparesDeclared env r w) (x : PrunePoint env r w)
    {id : ObjId sc} (hid : id ∈ x.declaredIds) : id ∉ x.pruned :=
  x.not_mem_pruned (h x id hid)

/-- In a steady run the condition is what a pass needs in order to spare what its commit
declares. -/
theorem spared_iff (hs : env.Steady) :
    SparesDeclared env r w ↔ ∀ x : PrunePoint env r w, ∀ id ∈ x.declaredIds, id ∉ x.pruned :=
  forall_congr' fun x => forall₂_congr fun _ _ => (x.not_mem_pruned_iff hs).symm

/-! ### Runs of passes -/

/-- What one prune had declared, and what it deleted. -/
structure PruneRecord (sc : Scopes) where
  declared : List (ObjId sc)
  deleted : List (ObjId sc)
deriving DecidableEq

/-- A world, and the prunes that led to it. -/
structure History (sc : Scopes) where
  world : World sc
  records : List (PruneRecord sc)

/-- The record of a prune. -/
def PrunePoint.record (x : PrunePoint env r w) : PruneRecord sc := ⟨x.declaredIds, x.pruned⟩

/-- A pass, whose environment holds its commit, the answers of the API server and the other
clients; or others change the live objects between two passes. -/
inductive HistoryStep (P : Env sc → Reconciler → World sc → Prop) :
    History sc → History sc → Prop
  | pruning {h : History sc} (env : Env sc) (r : Reconciler) (hP : P env r h.world)
      (x : PrunePoint env r h.world) :
      HistoryStep P h ⟨state (runOnce env r h.world), x.record :: h.records⟩
  | stopped {h : History sc} (env : Env sc) (r : Reconciler) (hP : P env r h.world)
      (hno : IsEmpty (PrunePoint env r h.world)) :
      HistoryStep P h ⟨state (runOnce env r h.world), h.records⟩
  | others {h : History sc} (cluster : Cluster sc) :
      HistoryStep P h ⟨{ h.world with cluster }, h.records⟩

/-- The runs whose passes meet a condition, from any world. -/
def histories (sc : Scopes) (P : Env sc → Reconciler → World sc → Prop) :
    System (History sc) where
  init h := h.records = []
  step := HistoryStep P

/-- No prune deleted what its commit declared. -/
def DeclaredKept (h : History sc) : Prop :=
  ∀ p ∈ h.records, ∀ id ∈ p.declared, id ∉ p.deleted

/-- The invariant of the runs. A prune adds a record, which is kept because of the condition on its
pass, and every other step leaves the records as they were. -/
theorem invariant_declaredKept :
    (histories sc SparesDeclared).Invariant DeclaredKept where
  init := by
    intro h hinit p hp
    have hnone : h.records = [] := hinit
    simp [hnone] at hp
  step := by
    intro h t _ hkept hstep
    cases hstep with
    | pruning env r hP x =>
        intro p hp
        cases hp with
        | head => exact fun id hid => hP.spared x hid
        | tail _ hp => exact hkept p hp
    | stopped env r hP hno => exact hkept
    | others cluster => exact hkept

/-- **Declared as a hook is still declared**, in every run whose passes meet the condition. -/
theorem declared_kept {h : History sc} (hr : (histories sc SparesDeclared).Reachable h) :
    DeclaredKept h :=
  invariant_declaredKept.holds hr

/-! ### A main resource becomes a hook -/

/-- The document of `settings` as a hook of a type that is not supported. -/
def hookedValue : Value := .object
  [("apiVersion", .string "v1"), ("kind", .string "ConfigMap"),
    ("metadata", .object [("name", .string "settings"), ("namespace", .string "default"),
      ("annotations", .object [("helm.sh/hook", .string "test")])]),
    ("data", .object [("mode", .string "fast")])]

/-- The document of `settings`, annotated to be kept. -/
def keptValue : Value := .object
  [("apiVersion", .string "v1"), ("kind", .string "ConfigMap"),
    ("metadata", .object [("name", .string "settings"), ("namespace", .string "default"),
      ("annotations", .object [("helm.sh/resource-policy", .string "keep")])])]

/-- A repository at a commit: `settings` is a main resource at `c1` and a hook at `c2`. At `c0` it
is a main resource that is to be kept. -/
def hookedEnv (sha : String) : Env .namespacedOnly :=
  .calm _ (.table [("c0", [keptValue, otherValue]), ("c1", [syncedValue, otherValue]),
      ("c2", [hookedValue, otherValue])]
    [("kept", keptValue), ("settings", syncedValue), ("hooked", hookedValue),
      ("other", otherValue)]) (gitAt sha) (.oneFile "/tmp/leancd-work-1/.")

/-- The objects of the two ConfigMaps. -/
def settingsId : ObjId .namespacedOnly :=
  (ResourceKey.fromManifest (settings (some "default"))).denotes _ "default"

def otherId : ObjId .namespacedOnly :=
  (ResourceKey.mk "" "v1" "ConfigMap" (some "default") "other").denotes _ "default"

/-- The world after the pass at `c1`. -/
def hookedWorld : World .namespacedOnly :=
  state (runOnce (hookedEnv "c1") (syncedPass .off) (.fresh ∅ none))

/-- A pass that prunes, by what its run records. -/
theorem exists_record {rec : PruneRecord sc}
    (h : (PrunePoint.run env r w).map PrunePoint.record = some rec) :
    ∃ x : PrunePoint env r w, x.record = rec := by
  obtain ⟨x, -, hx⟩ := Option.map_eq_some_iff.mp h
  exact ⟨x, hx⟩

/-- A pass that prunes continues a run. -/
theorem reachable_prune {P : Env sc → Reconciler → World sc → Prop} {w t : World sc}
    {records : List (PruneRecord sc)} (hr : (histories sc P).Reachable ⟨w, records⟩)
    (hP : P env r w) (x : PrunePoint env r w) (ht : state (runOnce env r w) = t) :
    (histories sc P).Reachable ⟨t, x.record :: records⟩ :=
  ht ▸ hr.step (@HistoryStep.pruning _ P ⟨w, records⟩ env r hP x)

/-- `settings` is applied at `c1`. At `c2` it is still declared, and it is pruned. -/
theorem hooked_pruned :
    ∃ h : History .namespacedOnly,
      (histories .namespacedOnly fun _ _ _ => True).Reachable h ∧ ¬ DeclaredKept h := by
  obtain ⟨x, hx⟩ : ∃ x : PrunePoint (hookedEnv "c1") (syncedPass .off) (.fresh ∅ none),
      x.record = ⟨[settingsId, otherId], []⟩ := exists_record (by decide +kernel)
  obtain ⟨y, hy⟩ : ∃ y : PrunePoint (hookedEnv "c2") (syncedPass .off) hookedWorld,
      y.record = ⟨[settingsId, otherId], [settingsId]⟩ := exists_record (by decide +kernel)
  have hinit : (histories .namespacedOnly fun _ _ _ => True).Reachable ⟨.fresh ∅ none, []⟩ :=
    .init rfl
  have hfirst := reachable_prune (t := hookedWorld) hinit trivial x rfl
  refine ⟨_, reachable_prune hfirst trivial y rfl, ?_⟩
  intro hkept
  have hspared := hkept y.record List.mem_cons_self settingsId (by simp [hy])
  simp [hy] at hspared

/-- The world after the pass at `c0`. -/
def keptWorld : World .namespacedOnly :=
  state (runOnce (hookedEnv "c0") (syncedPass .off) (.fresh ∅ none))

/-- A key of the repository's kind, as the server lists it, is known by its object. -/
theorem eq_of_denotes {k : ResourceKey} {name : String}
    (hkind : k.gvk = ⟨"", "v1", "ConfigMap"⟩) (hserved : k.AsServed .namespacedOnly)
    (hid : k.denotes .namespacedOnly "default" =
      (ResourceKey.mk "" "v1" "ConfigMap" (some "default") name).denotes _ "default") :
    k = ⟨"", "v1", "ConfigMap", some "default", name⟩ := by
  obtain ⟨group, version, kind, ns, _⟩ := k
  obtain ⟨s, rfl⟩ : ∃ s, ns = some s := Option.isSome_iff_exists.mp hserved
  cases hkind
  have hns : some s = some "default" := congrArg ObjId.ns hid
  have hname := congrArg ObjId.name hid
  cases hns
  cases hname
  rfl

/-- The first pass has nothing to prune. -/
theorem sparesDeclared_first :
    ∃ x : PrunePoint (hookedEnv "c0") (syncedPass .off) (.fresh ∅ none),
      x.record = ⟨[settingsId, otherId], []⟩ ∧
      SparesDeclared (hookedEnv "c0") (syncedPass .off) (.fresh ∅ none) := by
  have hrun : (PrunePoint.run (hookedEnv "c0") (syncedPass .off) (.fresh ∅ none)).map
      (fun x => (prevApplied x.prev, x.record)) =
        some ([], ⟨[settingsId, otherId], []⟩) := by decide +kernel
  obtain ⟨x, -, hx⟩ := Option.map_eq_some_iff.mp hrun
  obtain ⟨hprev, hrecord⟩ := Prod.mk.inj hx
  refine ⟨x, hrecord, fun y id _ => .inr fun k hk _ => ?_⟩
  have hsource := hk.source
  rw [y.unique x, hprev] at hsource
  simp at hsource

/-- In the second pass `settings` is exempt, and no candidate key denotes the other one. -/
theorem sparesDeclared_second :
    ∃ x : PrunePoint (hookedEnv "c2") (syncedPass .off) keptWorld,
      x.record = ⟨[settingsId, otherId], []⟩ ∧
      SparesDeclared (hookedEnv "c2") (syncedPass .off) keptWorld := by
  have hrun : (PrunePoint.run (hookedEnv "c2") (syncedPass .off) keptWorld).map
      (fun x => (prevApplied x.prev, x.current, x.record,
        (x.before.cluster.lookup settingsId).all fun live => shouldSkipDeletion live.object)) =
        some ([⟨"", "v1", "ConfigMap", some "default", "settings"⟩,
            ⟨"", "v1", "ConfigMap", some "default", "other"⟩],
          [⟨"", "v1", "ConfigMap", some "default", "other"⟩],
          ⟨[settingsId, otherId], []⟩, true) := by decide +kernel
  obtain ⟨x, -, hx⟩ := Option.map_eq_some_iff.mp hrun
  simp only [Prod.mk.injEq] at hx
  obtain ⟨hprev, hcurrent, hrecord, hexempt⟩ := hx
  refine ⟨x, hrecord, fun y id hid => ?_⟩
  rw [y.unique x] at hid ⊢
  have hdeclared : x.declaredIds = [settingsId, otherId] := congrArg PruneRecord.declared hrecord
  rw [hdeclared] at hid
  rcases List.mem_cons.mp hid with rfl | hid
  · refine .inl ⟨fun live hlook => ?_, fun _ _ _ h => h⟩
    rw [hlook] at hexempt
    exact hexempt
  · refine .inr fun k hk hsame => ?_
    rw [List.mem_singleton.mp hid] at hsame
    -- The key of the other object is current, so it is no candidate.
    refine absurd ?_ hk.gone
    rw [hcurrent, List.mem_singleton]
    have hsource := hk.source
    rw [hprev] at hsource
    rcases hsource with hprev | ⟨hkind, hserved⟩
    · rcases List.mem_cons.mp hprev with rfl | hk
      · exact absurd (congrArg ObjId.name hsame) (by decide)
      · exact List.mem_singleton.mp hk
    · have hkind : k.gvk = ⟨"", "v1", "ConfigMap"⟩ := by
        rcases List.mem_cons.mp hkind with hkind | hkind
        · exact hkind
        · exact List.mem_singleton.mp hkind
      exact eq_of_denotes hkind hserved hsame

/-- `settings` is applied at `c0` with the annotation. At `c2` it is a hook that does not run, and
it is spared. -/
theorem declared_kept_annotated :
    ∃ h : History .namespacedOnly, (histories .namespacedOnly SparesDeclared).Reachable h ∧
      h.records = [⟨[settingsId, otherId], []⟩, ⟨[settingsId, otherId], []⟩] ∧
      DeclaredKept h := by
  obtain ⟨x, hx, hfirst⟩ := sparesDeclared_first
  obtain ⟨y, hy, hsecond⟩ := sparesDeclared_second
  have hinit : (histories .namespacedOnly SparesDeclared).Reachable ⟨.fresh ∅ none, []⟩ :=
    .init rfl
  have hone := reachable_prune (t := keptWorld) hinit hfirst x rfl
  have htwo := reachable_prune hone hsecond y rfl
  rw [hx, hy] at htwo
  exact ⟨_, htwo, rfl, declared_kept htwo⟩

end LeanCd.Reconcile
