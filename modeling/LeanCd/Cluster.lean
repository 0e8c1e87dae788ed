import LeanCd.Manifest
import Mathlib.Data.List.AList

/-!
# `LeanCd.Cluster`: live objects and their identity

The API server keeps one object per group, kind, namespace and name, and serves
it under every version of its group and kind. Which namespace an object has
follows from the scope of its kind: `ObjId` carries that as a field, so no
cluster-scoped object has a namespace and every namespaced one has.

`DynamicObject` is the untyped live object of the Kubernetes client. How it is
read from a JSON value and written back is the client's own code, the parameter
`KubeCrate`.

The cluster is a finite map from `ObjId` to `Live`. `serve` is what the server returns of an
entry: the stored object with the name and the namespace of its identifier filled in. Listing
selects by group, kind and label, and says nothing about an order that a program could rely on.
`Live.lastApplied` and `Live.appliedBy` are ghost fields: what was applied last, and by whom. No
function of the program reads them.
-/

set_option autoImplicit false

namespace LeanCd

/-- `kube::core::ObjectMeta`: the fields the passes read, and the others. -/
structure ObjectMeta where
  name : Option String
  ns : Option String
  labels : Option (List (String × String))
  annotations : Option (List (String × String))
  generation : Option Int
  deletionTimestamp : Option String
  rest : List (String × Value)
deriving DecidableEq

/-- `kube::core::DynamicObject`: the type fields when the server sent them, the
metadata, and every other top-level field. -/
structure DynamicObject where
  types : Option (String × String)
  metadata : ObjectMeta
  data : List (String × Value)
deriving DecidableEq

/-- The Kubernetes client's conversions: `serde_json::from_value` and `to_value` at
`DynamicObject`, and the length of the serialized object. -/
structure KubeCrate where
  fromValue : Value → Except String DynamicObject
  toValue : DynamicObject → Value
  size : DynamicObject → Nat

namespace DynamicObject

/-- The value of a label. -/
def label (o : DynamicObject) (key : String) : Option String :=
  (o.metadata.labels.getD []).lookup key

/-- The value of an annotation. -/
def annotation (o : DynamicObject) (key : String) : Option String :=
  (o.metadata.annotations.getD []).lookup key

/-- The object carries the label with that value. -/
def labelled (o : DynamicObject) (sel : String × String) : Bool := o.label sel.1 == some sel.2

end DynamicObject

/-! ### Identity -/

/-- `kube::discovery::Scope`. -/
inductive Scope where
  | cluster
  | namespaced
deriving DecidableEq

/-- The scope of every group and kind. -/
abbrev Scopes := String → String → Scope

namespace Scope

/-- The namespaces objects of a scope have. -/
def Fits : Scope → Option String → Prop
  | .cluster, ns => ns = none
  | .namespaced, ns => ns.isSome

/-- The namespace a request goes to: `api_for`'s choice between the cluster-wide
handle, the given namespace and the default one. -/
def place (scope : Scope) (ns : Option String) (defaultNs : String) : Option String :=
  match scope with
  | .cluster => none
  | .namespaced => some (ns.getD defaultNs)

/-- `place` decides as the scope asks: a namespaced kind gets some namespace, a cluster-scoped one
gets none, whatever the manifest says. -/
theorem place_fits (scope : Scope) (ns : Option String) (defaultNs : String) :
    scope.Fits (scope.place ns defaultNs) := by
  cases scope with
  | cluster => rfl
  | namespaced => rfl

/-- A namespace that already fits is where the request goes. -/
theorem place_eq_self {scope : Scope} {ns : Option String} (h : scope.Fits ns)
    (defaultNs : String) : scope.place ns defaultNs = ns := by
  cases scope with
  | cluster => exact h.symm
  | namespaced =>
      obtain ⟨s, rfl⟩ := Option.isSome_iff_exists.mp h
      rfl

end Scope

/-- The identity of a live object. -/
structure ObjId (sc : Scopes) where
  group : String
  kind : String
  ns : Option String
  name : String
  fits : (sc group kind).Fits ns
deriving DecidableEq

/-- The object named `name` behind the handle `api_for` builds for a kind and an
optional namespace. -/
def apiFor (sc : Scopes) (g : GvkKey) (ns : Option String) (defaultNs name : String) :
    ObjId sc where
  group := g.group
  kind := g.kind
  ns := (sc g.group g.kind).place ns defaultNs
  name := name
  fits := Scope.place_fits _ _ _

section
variable {sc : Scopes}

/-- Identifiers are equal when their four data fields are. The proof that the namespace fits the
scope is irrelevant. -/
@[ext] theorem ObjId.ext {a b : ObjId sc} (hg : a.group = b.group) (hk : a.kind = b.kind)
    (hns : a.ns = b.ns) (hn : a.name = b.name) : a = b := by
  cases a; cases b; simp_all

/-- The identity a resource key denotes. -/
def ResourceKey.denotes (sc : Scopes) (k : ResourceKey) (defaultNs : String) : ObjId sc :=
  apiFor sc k.gvk k.ns defaultNs k.name

/-! ### The store -/

/-- A live object, with what the last server-side apply sent for it, and the client that sent it.
The last two fields are history variables: no request reads them. -/
structure Live where
  object : DynamicObject
  lastApplied : Option DynamicObject
  appliedBy : Option String
deriving DecidableEq

/-- The live objects. -/
abbrev Cluster (sc : Scopes) := AList fun _ : ObjId sc => Live

/-- An object as the server returns it: name and namespace are those of its
identity. -/
def serve (id : ObjId sc) (live : Live) : DynamicObject :=
  { live.object with
    metadata := { live.object.metadata with name := some id.name, ns := id.ns } }

/-- What the server returns carries the name of the identifier it is stored under. -/
@[simp] theorem serve_name (id : ObjId sc) (live : Live) :
    (serve id live).metadata.name = some id.name := rfl

/-- What the server returns carries the namespace of the identifier it is stored under. -/
@[simp] theorem serve_ns (id : ObjId sc) (live : Live) :
    (serve id live).metadata.ns = id.ns := rfl

namespace Cluster

/-- The objects of one kind that carry a label, in every namespace. -/
def list (c : Cluster sc) (g : GvkKey) (sel : String × String) : List DynamicObject :=
  c.entries.filterMap fun e =>
    if e.1.group = g.group ∧ e.1.kind = g.kind ∧ e.2.object.labelled sel then
      some (serve e.1 e.2)
    else none

/-- What a list returns: each labelled object of the kind, as it is served. -/
theorem mem_list {c : Cluster sc} {g : GvkKey} {sel : String × String} {o : DynamicObject} :
    o ∈ c.list g sel ↔ ∃ id live, c.lookup id = some live ∧ id.group = g.group ∧
      id.kind = g.kind ∧ live.object.labelled sel = true ∧ o = serve id live := by
  -- The store has one entry for each identity, so an entry is what a lookup finds.
  simp only [list, List.mem_filterMap, Option.ite_none_right_eq_some, Option.some.injEq]
  constructor
  · rintro ⟨⟨id, live⟩, hmem, ⟨hg, hk, hl⟩, rfl⟩
    exact ⟨id, live, AList.mem_lookup_iff.mpr hmem, hg, hk, hl, rfl⟩
  · rintro ⟨id, live, hlook, hg, hk, hl, rfl⟩
    exact ⟨⟨id, live⟩, AList.mem_lookup_iff.mp hlook, ⟨hg, hk, hl⟩, rfl⟩

end Cluster

end

end LeanCd
