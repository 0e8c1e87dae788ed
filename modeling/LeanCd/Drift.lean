import LeanCd.Prune

/-!
# `LeanCd.Drift`: live objects against the desired manifests

`drift.rs`: the subset comparison, the detection from lists, and the detection
from the stores of cache mode with its list fallback for large objects.

`computeDrifts` compares each manifest with the live object that `findLiveMatch` finds for it, by
name and namespace, and `specsDiffer` is the comparison of two such objects. `specSubset` recurses
over both values: what Git does not mention is not compared.

The detections differ in where the live objects come from. `detect` lists every kind of the
manifests. `detectFromLw` looks each manifest up in the store of its kind, and lists only the
kinds of which it meets an object too large for the store. A kind that cannot be listed is left
out in both, which means a missing object to the one and nothing to report to the other.
-/

set_option autoImplicit false

namespace LeanCd

/-- `drift::DriftItem`. -/
structure DriftItem where
  key : ResourceKey
  reason : String
deriving DecidableEq

namespace Drift

/-! ### The comparison -/

/-- `remove_top_level_keys`. -/
def removeTopLevelKeys (v : Value) (keys : List String) : Value :=
  match v with
  | .object fields => .object (fields.filter fun f => f.1 ∉ keys)
  | v => v

/-- `is_k8s_zero_value`: what the API server omits. -/
def isK8sZeroValue : Value → Bool
  | .bool false => true
  | .null => true
  | .array [] => true
  | .number (.int i) => i == 0
  | .number (.float q) => q == 0
  | _ => false

mutual

/-- `spec_subset`: every field and element the Git side declares is in the live one. -/
def specSubset (git live : Value) : Bool :=
  match git, live with
  | .object g, .object l => fieldsSubset g l
  | .array g, .array l => elemsSubset g l
  | git, live => decide (git = live)

/-- The fields of two objects: a zero value may be absent in the live one. -/
def fieldsSubset (g l : List (String × Value)) : Bool :=
  match g with
  | [] => true
  | (k, v) :: rest =>
      (match l.lookup k with
        | none => isK8sZeroValue v
        | some lv => specSubset v lv) && fieldsSubset rest l

/-- The elements of two arrays, index by index: the live one may be longer. -/
def elemsSubset (g l : List Value) : Bool :=
  match g, l with
  | [], _ => true
  | _ :: _, [] => false
  | v :: vs, lv :: lvs => specSubset v lv && elemsSubset vs lvs

end

/-- `specs_differ`. -/
def specsDiffer (git live : Value) : Bool :=
  let git := removeTopLevelKeys git ["apiVersion", "kind", "stringData"]
  let live := removeTopLevelKeys live ["apiVersion", "kind", "stringData"]
  match git.get "spec", live.get "spec" with
  | some g, some l => !specSubset g l
  | some _, none => true
  | none, _ => !specSubset git live

/-- `find_live_match`: the first object of that name and namespace. -/
def findLiveMatch (m : RawManifest) (live : List DynamicObject) : Option DynamicObject :=
  live.find? fun o => o.metadata.name == some m.name && o.metadata.ns == m.ns

/-- `manifest_value`. -/
def manifestValue (yaml : Yaml) (m : RawManifest) : Value :=
  match yaml.fromSlice m.data with
  | .ok v => v
  | .error _ => .null

/-- The reason of a manifest without a live object. -/
def missingReason : String := "missing in cluster"

/-- The reason of a manifest whose live object differs. -/
def differsReason : String := "spec differs from desired state"

/-- The reason of a manifest whose cache store is poisoned. -/
def unavailableReason : String := "cache unavailable"

section
variable (yaml : Yaml) (kube : KubeCrate)

/-- The drift of a manifest against the live object found for it. -/
def driftAgainst (m : RawManifest) : Option DynamicObject → Option DriftItem
  | none => some ⟨.fromManifest m, missingReason⟩
  | some lo =>
      if specsDiffer (manifestValue yaml m) (kube.toValue lo) then
        some ⟨.fromManifest m, differsReason⟩
      else none

/-- The live objects by kind. -/
abbrev LiveByGvk := List (GvkKey × List DynamicObject)

/-- `compute_drifts`: an absent kind has no live object. -/
def computeDrifts (manifests : List RawManifest) (live : LiveByGvk) : List DriftItem :=
  manifests.filterMap fun m =>
    driftAgainst yaml kube m (findLiveMatch m ((live.lookup m.gvk).getD []))

/-! ### The cache -/

/-- What the cache says about one manifest of a kind whose store is at hand: its
drift, or that it is large. -/
def cacheVerdict (s : LightweightStore) (m : RawManifest) : Option DriftItem × Bool :=
  match s.tierOf (m.name, m.ns) with
  | .small => (driftAgainst yaml kube m (s.smallGet (m.name, m.ns)), false)
  | .large => (none, true)
  | .absent => (some ⟨.fromManifest m, missingReason⟩, false)

/-- The drifts and the large manifests of one kind. -/
def driftFromStore (store : Option CacheStore) (ms : List RawManifest) :
    List DriftItem × List RawManifest :=
  match store with
  -- No driver has been started for the kind yet: the pass is to apply it again.
  | none => (ms.map fun m => ⟨.fromManifest m, missingReason⟩, [])
  | some .poisoned => (ms.map fun m => ⟨.fromManifest m, unavailableReason⟩, [])
  | some (.ready s) =>
      (ms.filterMap fun m => (cacheVerdict yaml kube s m).1,
        ms.filter fun m => (cacheVerdict yaml kube s m).2)

/-- `drift_from_cache`: kind by kind, in the order `gvks`. -/
def driftFromCache (manifests : List RawManifest) (stores : CacheStores) (gvks : List GvkKey) :
    List DriftItem × List (GvkKey × List RawManifest) :=
  let byGvk := gvks.map fun g =>
    (g, driftFromStore yaml kube (stores.lookup g) (manifests.filter (·.gvk = g)))
  (byGvk.flatMap (·.2.1), (byGvk.map fun r => (r.1, r.2.2)).filter fun r => !r.2.isEmpty)

/-- `collect_cached_live`: the small objects of the manifests' kinds, each kind where it comes
first. -/
def collectCachedLive (manifests : List RawManifest) (stores : CacheStores) :
    List DynamicObject :=
  (manifests.map RawManifest.gvk).eraseDups.flatMap fun g =>
    match stores.lookup g with
    | some (.ready s) => s.smallValues
    | _ => []

end

/-! ### The API side -/

variable {sc : Scopes} (env : Env sc) (cfg : Config)

/-- One kind's labelled live objects, unless its discovery or list fails. -/
def listKind (g : GvkKey) : Pass sc (Option (List DynamicObject)) := do
  match ← Act.attempt (δ := Error) (KubeUtil.resolve env g) with
  | .error _ => return none
  | .ok _ =>
      match ← Act.attempt (δ := Error) (KubeUtil.listAll env g cfg.selector) with
      | .error _ => return none
      | .ok live => return some live

/-- The lists of several kinds: a kind whose list fails has no entry. -/
def listKinds : List GvkKey → Pass sc LiveByGvk
  | [] => return []
  | g :: rest => do
      let live ← listKind env cfg g
      let more ← listKinds rest
      return (live.map fun l => (g, l)).toList ++ more

/-- `detect`. -/
def detect (manifests : List RawManifest) : Pass sc (List DriftItem × List DynamicObject) := do
  let lists ← listKinds env cfg (← hashGvks env (manifests.map RawManifest.gvk))
  let drifts := computeDrifts env.yaml env.kube manifests lists
  -- The map of lists is flattened in its own order, not in that of the requests.
  let order ← hashGvks env (lists.map (·.1))
  return (drifts, order.flatMap fun g => (lists.lookup g).getD [])

/-- `collect_live`. -/
def collectLive (manifests : List RawManifest) : Pass sc (List DynamicObject) := do
  let lists ← listKinds env cfg (← hashGvks env (manifests.map RawManifest.gvk))
  return lists.flatMap (·.2)

/-- The list fallback for the large manifests, kind by kind. A kind whose discovery or
list fails contributes neither drifts nor live objects. -/
def largeFallback : List (GvkKey × List RawManifest) → KubeUtil.DiscoveryCache →
    Pass sc (List DriftItem × List DynamicObject)
  | [], _ => return ([], [])
  | (g, ms) :: rest, cache => do
      match ← Act.attempt (δ := Error) (KubeUtil.getOrResolve env cache g) with
      | .error _ => largeFallback rest cache
      | .ok cache =>
          match ← Act.attempt (δ := Error) (KubeUtil.listAll env g cfg.selector) with
          | .error _ => largeFallback rest cache
          | .ok live =>
              let found := ms.filterMap fun m =>
                driftAgainst env.yaml env.kube m (findLiveMatch m live)
              let (drifts, lives) ← largeFallback rest cache
              return (found ++ drifts, live ++ lives)

/-- `detect_from_lw`. -/
def detectFromLw (manifests : List RawManifest) (stores : CacheStores) :
    Pass sc (List DriftItem × List DynamicObject) := do
  let gvks ← hashGvks env (manifests.map RawManifest.gvk)
  let (drifts, large) := driftFromCache env.yaml env.kube manifests stores gvks
  let live := collectCachedLive manifests stores
  if large.isEmpty then return (drifts, live)
  else
    let order ← hashGvks env (large.map (·.1))
    let (more, lists) ← largeFallback env cfg
      (order.map fun g => (g, (large.lookup g).getD [])) []
    return (drifts ++ more, live ++ lists)

end Drift

end LeanCd
