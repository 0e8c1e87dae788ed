import LeanCd.Calm
import LeanCd.Proofs.ListExpansion
import LeanCd.Proofs.Withheld

/-!
# `LeanCd.Proofs.TypoEdit`: a document that stops being recognised

A file that does not parse fails the pass, so that its resources are not taken for removed
ones. A mapping without a string `apiVersion`, `kind` or `metadata.name` parses, and
`value_to_manifest` skips it (`expandValue_unrecognised`). The resource it declared leaves the
keys of the commit all the same.

`Typo` is a commit that edits one document of a resource so. The results:

* `mem_current_iff`: the keys of the commit are those of the documents that are left.
* `spared_iff_of_typo`: at such a commit the prune spares the resource where it is `Retained`, in
  every environment; in a steady run it spares it nowhere else. The condition is about the pass
  before its prune: the documents of the commit, the applied set, the live objects, and which
  calls fail from there on.
* `typo_pruned`: a misspelt `name` that costs the resource.

The pass that reads the commit has one document less and knows nothing about it. So its key set is
what the other documents declare, and the prune does what `LeanCd.Proofs.Withheld` says of an
applied key that is not among them. `retained_iff` is the bridge: the condition in terms of the
documents is the condition in terms of the keys.
-/

set_option autoImplicit false

namespace LeanCd

namespace Manifest

/-- A mapping without one of the three strings that make it a manifest. -/
def Unrecognised (v : Value) : Prop :=
  ∃ fields, v = .object fields ∧
    ((Value.field fields "apiVersion").bind Value.asStr = none ∨
      (Value.field fields "kind").bind Value.asStr = none ∨
      (v.metaField "name").bind Value.asStr = none)

/-- `value_to_manifest` skips such a mapping. -/
theorem valueToManifest_unrecognised (yaml : Yaml) {v : Value} (h : Unrecognised v) :
    valueToManifest yaml v = .ok none := by
  obtain ⟨fields, rfl, h⟩ := h
  refine valueToManifest_none_iff.mpr fun hrec => ?_
  obtain ⟨hversion, hkind, hname⟩ := hrec
  rcases h with h | h | h
  · exact absurd h (Option.isSome_iff_ne_none.mp hversion)
  · exact absurd h (Option.isSome_iff_ne_none.mp hkind)
  · exact absurd h (Option.isSome_iff_ne_none.mp hname)

/-- Such a mapping stands for no manifest, unless it is a `List`. -/
theorem expandValue_unrecognised (yaml : Yaml) {v : Value} (h : Unrecognised v)
    (hlist : ¬ IsList v) : expandValue yaml v = .ok [] := by
  have hskipped := valueToManifest_unrecognised yaml h
  obtain ⟨fields, rfl, -⟩ := h
  rw [expandValue, if_neg fun hkind => hlist ⟨fields, rfl, hkind⟩, hskipped]
  rfl

/-- Two checkouts that differ in one document of one file: a document that declares the
resource of the key became a mapping that is no manifest. -/
structure Typo (yaml : Yaml) (old new : WorkTree) (k : ResourceKey) where
  file : Path
  first : List Value
  document : Value
  edited : Value
  rest : List Value
  files : new.glob = old.glob ∧ new.isDir = old.isDir ∧ new.isFile = old.isFile
  elsewhere : ∀ f, f ≠ file → new.read f = old.read f
  before : Holds yaml old file (first ++ document :: rest)
  after : Holds yaml new file (first ++ edited :: rest)
  declared : ∃ m, expandValue yaml document = .ok [m] ∧ .fromManifest m = k
  unrecognised : Unrecognised edited

end Manifest

namespace Reconcile

open Act Manifest Prune

variable {sc : Scopes} {env : Env sc} {r : Reconciler} {w : World sc}

/-- The manifests of a pass are those of the documents of its directories. -/
theorem mem_gitSet {sha : String} {cfg : Config} {applied : List ResourceKey}
    {ms : List RawManifest} (h : gitSet env sha cfg applied = .ok ms) :
    ∃ roots, rootsOf env sha cfg applied = .ok roots ∧ ∀ m, m ∈ ms ↔
      ∃ file doc, Scanned env.yaml (env.tree sha) roots file doc ∧ Yields env.yaml doc m := by
  unfold gitSet at h
  cases hroots : rootsOf env sha cfg applied with
  | error e =>
      rw [hroots] at h
      cases h
  | ok roots =>
      rw [hroots] at h
      exact ⟨roots, rfl, fun m => mem_parsePaths h⟩

/-- After the edit, a document still declares the main resource of a key: another document
than the edited one, or the edited one where the edit made it a `List`. -/
def StillDeclared (env : Env sc) (cfg : Config) (applied : List ResourceKey) {sha : String}
    {old : WorkTree} {k : ResourceKey} (e : Typo env.yaml old (env.tree sha) k)
    (k' : ResourceKey) : Prop :=
  ∃ roots file doc m, rootsOf env sha cfg applied = .ok roots ∧
    Scanned env.yaml (env.tree sha) roots file doc ∧
    (file = e.file → doc ∈ e.first ++ e.rest ∨ IsList doc) ∧
    Yields env.yaml doc m ∧ Manifest.annotation m hookAnnotation = none ∧ .fromManifest m = k'

namespace PrunePoint

variable (x : PrunePoint env r w) {old : WorkTree} {k : ResourceKey}

/-- The keys that Git declares are those of the documents left. -/
theorem mem_current_iff (e : Typo env.yaml old (env.tree x.sync.sha) k) (k' : ResourceKey) :
    k' ∈ x.current ↔ StillDeclared env r.cfg (prevApplied x.prev) e k' := by
  obtain ⟨roots, hroots, hms⟩ := mem_gitSet x.declared
  rw [current, main, Hooks.main_classify, ResourceKey.keysOf, List.mem_map]
  simp only [List.mem_filter, Option.isNone_iff_eq_none, hms]
  constructor
  · intro h
    obtain ⟨m, ⟨⟨file, doc, hscanned, hyields⟩, hmain⟩, hkey⟩ := h
    refine ⟨roots, file, doc, m, hroots, hscanned, ?_, hyields, hmain, hkey⟩
    intro hfile
    by_cases hlist : IsList doc
    · exact .inr hlist
    · obtain ⟨docs, hdocs, hdoc⟩ := hscanned.held
      rw [hfile] at hdocs
      cases hdocs.unique e.after
      have hcases : doc ∈ e.first ++ e.rest ∨ doc = e.edited := by
        simp only [List.mem_append, List.mem_cons] at hdoc ⊢
        tauto
      refine .inl (hcases.resolve_right ?_)
      intro hedited
      -- The edited document declares nothing.
      obtain ⟨found, hfound, hm⟩ := hyields
      rw [hedited] at hfound hlist
      rw [expandValue_unrecognised env.yaml e.unrecognised hlist] at hfound
      cases hfound
      cases hm
  · intro h
    obtain ⟨roots', file, doc, m, hroots', hscanned, -, hyields, hmain, hkey⟩ := h
    cases hroots.symm.trans hroots'
    exact ⟨m, ⟨⟨file, doc, hscanned, hyields⟩, hmain⟩, hkey⟩

/-- What keeps the resource of an applied key after the edit. Its object stays gone or exempt. Or
the key is still declared, or the calls for it fail; and the same holds of every other key of the
object that was applied or that the safety net may find. -/
def Retained (e : Typo env.yaml old (env.tree x.sync.sha) k) : Prop :=
  Stays env x.before (k.denotes sc r.cfg.namespace) GoneOrExempt ∨
    (StillDeclared env r.cfg (prevApplied x.prev) e k ∨ OutOfReach env r.cfg x.before k) ∧
      ∀ k', k' ≠ k → k'.denotes sc r.cfg.namespace = k.denotes sc r.cfg.namespace →
        (k' ∈ prevApplied x.prev ∨
          (k'.gvk ∈ (prevApplied x.prev).map ResourceKey.gvk ∧ k'.AsServed sc)) →
        StillDeclared env r.cfg (prevApplied x.prev) e k' ∨
          Harmless env r.cfg (prevApplied x.prev) x.before k'

/-- A retained resource is one that is withheld from the prune. -/
theorem retained_iff (e : Typo env.yaml old (env.tree x.sync.sha) k)
    (happlied : k ∈ prevApplied x.prev) :
    x.Retained e ↔ Withheld env r.cfg (prevApplied x.prev) x.current x.before
      (k.denotes sc r.cfg.namespace) := by
  unfold Retained Withheld
  simp only [← x.mem_current_iff e]
  refine or_congr Iff.rfl ?_
  constructor
  · intro h k' hcandidate hsame
    by_cases hk : k' = k
    · rw [hk] at hcandidate ⊢
      exact .inl (h.1.resolve_left hcandidate.gone)
    · exact (h.2 k' hk hsame hcandidate.source).resolve_left hcandidate.gone
  · intro h
    constructor
    · by_cases hcurrent : k ∈ x.current
      · exact .inl hcurrent
      · -- The key was applied and is gone, so it is a candidate whether it is found or not.
        have hharmless := h k ⟨hcurrent, .inl happlied⟩ rfl
        exact .inr (hharmless.resolve_right fun hnew => hnew.1 happlied)
    · intro k' _ hsame hsource
      by_cases hcurrent : k' ∈ x.current
      · exact .inl hcurrent
      · exact .inr (h k' ⟨hcurrent, hsource⟩ hsame)

/-- **A pass at a commit with a typo.** Its prune spares the resource where it is retained, and in
a steady run nowhere else. -/
theorem spared_iff_of_typo (e : Typo env.yaml old (env.tree x.sync.sha) k)
    (happlied : k ∈ prevApplied x.prev) :
    (x.Retained e → k.denotes sc r.cfg.namespace ∉ x.pruned) ∧
      (env.Steady → (k.denotes sc r.cfg.namespace ∉ x.pruned ↔ x.Retained e)) := by
  rw [x.retained_iff e happlied]
  exact ⟨x.not_mem_pruned, x.not_mem_pruned_iff⟩

end PrunePoint

/-! ### A misspelt name -/

/-- The document of `settings` with `name` misspelt. -/
def misspeltValue : Value := .object
  [("apiVersion", .string "v1"), ("kind", .string "ConfigMap"),
    ("metadata", .object [("nmae", .string "settings"), ("namespace", .string "default")]),
    ("data", .object [("mode", .string "fast")])]

/-- The checkout of a commit: the text of the one file is the commit. -/
def editedTree (sha : String) : WorkTree :=
  { WorkTree.oneFile "/tmp/leancd-work-1/." sha with
    read := fun f => if f = ["work", "all.yaml"] then .ok sha else .error "not found" }

/-- A repository whose commit `c2` misspells the `name` of `settings`. -/
def typoEnv : Env .namespacedOnly :=
  .calm _ (.table [("c1", [syncedValue, otherValue]), ("c2", [misspeltValue, otherValue])]
    [("settings", syncedValue), ("other", otherValue)]) (gitAt "c2") editedTree

/-- The edit of the commit. -/
def misspelling :
    Typo typoEnv.yaml (editedTree "c1") (editedTree "c2")
      (.fromManifest (settings (some "default"))) where
  file := ["work", "all.yaml"]
  first := []
  document := syncedValue
  edited := misspeltValue
  rest := [otherValue]
  files := ⟨rfl, rfl, rfl⟩
  elsewhere := by
    intro f hf
    simp [editedTree, hf]
  before := ⟨"c1", rfl, by decide +kernel⟩
  after := ⟨"c2", rfl, by decide +kernel⟩
  declared := ⟨settings (some "default"), by decide +kernel, by decide +kernel⟩
  unrecognised := ⟨_, rfl, .inr (.inr rfl)⟩

/-- The pass at `c2`, from the world in which `settings` is applied, prunes it. -/
theorem exists_typoPoint : ∃ x : PrunePoint typoEnv (syncedPass .off) syncedWorld,
    x.sync.sha = "c2" ∧
      prevApplied x.prev = [.fromManifest (settings (some "default"))] ∧
      x.pruned = [(ResourceKey.fromManifest (settings (some "default"))).denotes _ "default"] := by
  let point := PrunePoint.run typoEnv (syncedPass .off) syncedWorld
  have hsome : point.isSome = true := by decide +kernel
  have hsha : point.map (fun x => x.sync.sha) = some "c2" := by decide +kernel
  have hprev : point.map (fun x => prevApplied x.prev) =
      some [.fromManifest (settings (some "default"))] := by decide +kernel
  have hpruned : point.map (fun x => x.pruned) =
      some [(ResourceKey.fromManifest (settings (some "default"))).denotes _ "default"] := by
    decide +kernel
  obtain ⟨x, hx⟩ := Option.isSome_iff_exists.mp hsome
  rw [hx] at hsha hprev hpruned
  exact ⟨x, Option.some.inj hsha, Option.some.inj hprev, Option.some.inj hpruned⟩

/-- The pass completes, and `settings` is pruned. -/
theorem typo_pruned :
    (∃ x : PrunePoint typoEnv (syncedPass .off) syncedWorld,
      Nonempty (Typo typoEnv.yaml (editedTree "c1") (typoEnv.tree x.sync.sha)
        (.fromManifest (settings (some "default")))) ∧
      .fromManifest (settings (some "default")) ∈ prevApplied x.prev ∧
      (ResourceKey.fromManifest (settings (some "default"))).denotes _ "default" ∈ x.pruned) ∧
    (value (runOnce typoEnv (syncedPass .off) syncedWorld)).isOk = true := by
  obtain ⟨x, hsha, hprev, hpruned⟩ := exists_typoPoint
  refine ⟨⟨x, ?_, by simp [hprev], by simp [hpruned]⟩, by decide +kernel⟩
  rw [hsha]
  exact ⟨misspelling⟩

/-- The theorem at this pass: it is steady, and the resource is not retained. -/
theorem spared_iff_of_misspelling :
    ∃ (x : PrunePoint typoEnv (syncedPass .off) syncedWorld)
      (e : Typo typoEnv.yaml (editedTree "c1") (typoEnv.tree x.sync.sha)
        (.fromManifest (settings (some "default")))),
      ((ResourceKey.fromManifest (settings (some "default"))).denotes _
        (syncedPass .off).cfg.namespace ∉ x.pruned ↔ x.Retained e) ∧ ¬ x.Retained e := by
  obtain ⟨x, hsha, hprev, hpruned⟩ := exists_typoPoint
  have e : Typo typoEnv.yaml (editedTree "c1") (typoEnv.tree x.sync.sha)
      (.fromManifest (settings (some "default"))) := hsha ▸ misspelling
  have hsteady : typoEnv.Steady := ⟨fun _ _ => rfl, fun _ _ => rfl⟩
  have hiff := (PrunePoint.spared_iff_of_typo x e (by simp [hprev])).2 hsteady
  refine ⟨x, e, hiff, fun hretained => hiff.mpr hretained ?_⟩
  rw [hpruned]
  exact List.mem_cons_self

end Reconcile

end LeanCd
