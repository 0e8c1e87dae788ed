import LeanCd.KubeUtil

/-!
# `LeanCd.Prune`: deleting what left Git

`prune.rs`. The candidates are the previously applied keys that Git no longer
declares, together with the labelled live objects, of every kind seen in the
applied set, whose key Git does not declare. Each candidate is read before it is
deleted.

The safety net lists the kinds of the applied set and keeps what carries the managed label.
`deletionTargets` puts the two sources together in a hash set. `deleteKey` is one candidate:
discovery, a GET, a look at the annotations, the DELETE. Each of these may fail, and then the
candidate is passed over.
-/

set_option autoImplicit false

namespace LeanCd

/-- The label that marks the objects this program manages, as a selector. -/
def Config.selector (cfg : Config) : String × String :=
  (cfg.managedLabelKey, cfg.managedLabelValue)

/-- `ResourceKey::from_dynamic`: the kind is the one the object was listed under. -/
def ResourceKey.fromDynamic (o : DynamicObject) (g : GvkKey) : ResourceKey :=
  ⟨g.group, g.version, g.kind, o.metadata.ns, o.metadata.name.getD ""⟩

namespace Prune

/-- `should_skip_deletion`: kept by policy, or managed by the hook engine. -/
def shouldSkipDeletion (o : DynamicObject) : Bool :=
  o.annotation resourcePolicyAnnotation == some resourcePolicyKeep ||
    (o.annotation hookAnnotation).isSome

/-- The name and the namespace that the server fills in do not decide about a deletion, since the
annotations are those of the live object. -/
@[simp] theorem shouldSkipDeletion_serve {sc : Scopes} (id : ObjId sc) (live : Live) :
    shouldSkipDeletion (serve id live) = shouldSkipDeletion live.object := rfl

/-- `deletion_targets`. -/
def deletionTargets (prev current : List ResourceKey) : List ResourceKey :=
  prev.filter (· ∉ current)

variable {sc : Scopes} (env : Env sc) (cfg : Config)

/-- The safety net at one kind: the keys of the labelled live objects that Git does
not declare. A failed discovery or list contributes nothing. -/
def safetyNetKind (current : List ResourceKey) (cache : KubeUtil.DiscoveryCache)
    (g : GvkKey) : Pass sc (List ResourceKey × KubeUtil.DiscoveryCache) := do
  match ← Act.attempt (δ := Error) (KubeUtil.getOrResolve env cache g) with
  | .error _ => return ([], cache)
  | .ok cache =>
      match ← Act.attempt (δ := Error) (KubeUtil.listAll env g cfg.selector) with
      | .error _ => return ([], cache)
      -- The comparison is of whole keys: the namespace is the server's, the version that of `g`.
      | .ok live => return ((live.map (ResourceKey.fromDynamic · g)).filter (· ∉ current), cache)

/-- The safety net over the kinds of the applied set. -/
def safetyNet (current : List ResourceKey) :
    List GvkKey → KubeUtil.DiscoveryCache → Pass sc (List ResourceKey × KubeUtil.DiscoveryCache)
  | [], cache => return ([], cache)
  | g :: rest, cache => do
      let (found, cache) ← safetyNetKind env cfg current cache g
      let (more, cache) ← safetyNet current rest cache
      return (found ++ more, cache)

/-- One candidate: resolve its kind, read it, and delete it unless it is gone or
exempt. Any failure skips it. Returns whether it was deleted. -/
def deleteKey (cache : KubeUtil.DiscoveryCache) (key : ResourceKey) :
    Pass sc (Bool × KubeUtil.DiscoveryCache) := do
  match ← Act.attempt (δ := Error) (KubeUtil.getOrResolve env cache key.gvk) with
  | .error _ => return (false, cache)
  | .ok cache =>
      match ← Act.attempt (δ := Error)
          (KubeUtil.getObject env cfg.namespace key.gvk key.ns key.name) with
      | .error _ => return (false, cache)
      | .ok none => return (false, cache)
      | .ok (some obj) =>
          if shouldSkipDeletion obj then return (false, cache)
          else
            match ← Act.attempt (δ := Error)
                (KubeUtil.delete env cfg.namespace key.gvk key.ns key.name) with
            | .error _ => return (false, cache)
            | .ok _ => return (true, cache)

/-- Every candidate in turn. Returns the keys deleted. -/
def deleteKeys : List ResourceKey → KubeUtil.DiscoveryCache → Pass sc (List ResourceKey)
  | [], _ => return []
  | key :: rest, cache => do
      let (gone, cache) ← deleteKey env cfg cache key
      let deleted ← deleteKeys rest cache
      return if gone then key :: deleted else deleted

/-- `prune`. -/
def prune (prev current : List ResourceKey) : Pass sc (List ResourceKey) := do
  let gvks ← hashGvks env (prev.map ResourceKey.gvk)
  let (orphans, cache) ← safetyNet env cfg current gvks []
  let targets ← hashKeys env (deletionTargets prev current ++ orphans)
  deleteKeys env cfg targets cache

end Prune

end LeanCd
