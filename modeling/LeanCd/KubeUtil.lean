import LeanCd.World

/-!
# `LeanCd.KubeUtil`: API discovery, apply, list, get and delete

`kube_util.rs`. Discovery returns the scope of a kind and the path it is served
under. Both are determined by the kind and the cluster, so `resolve` is modelled
by its success alone.

Each call goes through `call`, which lets the other clients act, enters the request into the
traffic, and asks the environment whether it is refused, lost after the server has acted, or
served. The functions `servePatch`, `serveDelete` and `serveGet` are the server's side of a call.
So a call that fails may have had its effect.
-/

set_option autoImplicit false

namespace LeanCd

/-- The `helm.sh/resource-policy` annotation. -/
def resourcePolicyAnnotation : String := "helm.sh/resource-policy"

/-- The value that exempts a resource from deletion. -/
def resourcePolicyKeep : String := "keep"

/-- The annotation marking a resource as a Helm hook. -/
def hookAnnotation : String := "helm.sh/hook"

/-- The answer of the API server about an object it does not have. -/
def notFound : KubeError := ⟨some 404, "not found"⟩

/-- The text of a failed call. -/
def kubeText : Error → String
  | .kube e => e.message
  | e => e.toString

namespace KubeUtil

variable {sc : Scopes} (env : Env sc)

/-- The `Debug` form of a `GroupVersionKind`. -/
def debugGvk (g : GvkKey) : String :=
  "GroupVersionKind \x7b group: " ++ Text.debug env.unprintable g.group ++
    ", version: " ++ Text.debug env.unprintable g.version ++
    ", kind: " ++ Text.debug env.unprintable g.kind ++ " \x7d"

/-- `resolve`. -/
def resolve (g : GvkKey) : Pass sc Unit := do
  match ← Act.attempt (call env (.discover g) (pure ())) with
  | .ok _ => return ()
  | .error e =>
      throw (.other ("api discovery for " ++ debugGvk env g ++ " failed: " ++ kubeText e))

/-- `DiscoveryCache`: the kinds resolved so far in a pass. -/
abbrev DiscoveryCache := List GvkKey

/-- `DiscoveryCache::get_or_resolve`: a failure is not cached. Returns the cache. -/
def getOrResolve (cache : DiscoveryCache) (g : GvkKey) : Pass sc DiscoveryCache :=
  if g ∈ cache then return cache
  else do
    resolve env g
    return g :: cache

/-! ### The server's side -/

/-- A forced server-side apply. A dry run stores nothing. -/
def servePatch (id : ObjId sc) (obj : DynamicObject) (dryRun : Bool) : Pass sc DynamicObject :=
  fun w =>
    let stored : Live :=
      -- A dry run answers with the merged object as well, without storing it.
      { object := env.merge ((w.cluster.lookup id).map (·.object)) obj
        lastApplied := some obj
        appliedBy := some env.client }
    .ok (serve id stored)
      (if dryRun then w
       else { w with
         cluster := w.cluster.insert id stored
         trace := .patched id obj :: w.trace })

/-- The object, or a 404. -/
def serveGet (id : ObjId sc) : Pass sc DynamicObject := fun w =>
  match w.cluster.lookup id with
  | some live => .ok (serve id live) w
  | none => .error (.kube notFound) w

/-- A delete removes the object or marks it; a missing object is a 404. -/
def serveDelete (id : ObjId sc) : Pass sc Unit := fun w =>
  match w.cluster.lookup id with
  | none => .error (.kube notFound) w
  | some live =>
      .ok () { w with
        cluster :=
          match env.onDelete w.step id live with
          | none => w.cluster.erase id
          | some marked => w.cluster.insert id marked
        trace := .deleted id :: w.trace }

/-! ### The client's side -/

/-- `apply`: server-side apply of a manifest value, by the name and namespace the
value carries. -/
def apply (defaultNs : String) (g : GvkKey) (manifest : Value) (dryRun : Bool) :
    Pass sc DynamicObject :=
  match env.kube.fromValue manifest with
  | .error e => throw (.manifest ("failed to build DynamicObject from manifest: " ++ e))
  | .ok obj =>
      match obj.metadata.name with
      | none => throw (.manifest "manifest has no metadata.name")
      | some name =>
          let id := apiFor sc g obj.metadata.ns defaultNs name
          call env (.patch g id dryRun) (servePatch env id obj dryRun)

/-- `list_all`: the labelled objects of a kind, across all namespaces. -/
def listAll (g : GvkKey) (sel : String × String) : Pass sc (List DynamicObject) := do
  let live ← call env (.list g) (return (← get).cluster.list g sel)
  transmit (.objects live.length)
  return live

/-- `delete`. -/
def delete (defaultNs : String) (g : GvkKey) (ns : Option String) (name : String) :
    Pass sc Unit :=
  let id := apiFor sc g ns defaultNs name
  call env (.delete g id) (serveDelete env id)

/-- `get`: a 404 is `none`. -/
def getObject (defaultNs : String) (g : GvkKey) (ns : Option String) (name : String) :
    Pass sc (Option DynamicObject) := do
  let id := apiFor sc g ns defaultNs name
  match ← Act.attempt (call env (.get g id) (serveGet id)) with
  | .ok obj => return some obj
  | .error (.kube e) => if e.code = some 404 then return none else throw (.kube e)
  | .error e => throw e

end KubeUtil

end LeanCd
