import LeanCd.ResourceHealth
import Mathlib.Data.List.Dedup
import Mathlib.Data.List.Perm.Basic

/-!
# `LeanCd.Proofs.HealthMatch`: health over several kinds

The live objects of all kinds reach `assess` as one list, in the order of a hash map,
and `find_live_match` looks at name and namespace alone. `assessByKind` is the
assessment of each manifest against its own kind.

`assess_flatten_iff`: on every order, and for the manifests and each selection of
them, the two assessments are equal if and only if no manifest is misjudged by a live
object of another kind with its name and namespace.

A live object is found by name and namespace in a list of all kinds. So an object of another kind
can stand in for the right one when its kind comes earlier in the hash order. The condition asks
that every such stand-in has the health that the right object has, for each manifest alone.
-/

set_option autoImplicit false

namespace LeanCd.ResourceHealth

open Drift (findLiveMatch)

/-- The live objects of each kind. -/
abbrev Family := GvkKey → List DynamicObject

/-- Each manifest against the live object of its own kind. -/
def assessByKind (family : Family) (manifests : List RawManifest) : HealthSummary :=
  summarize (manifests.map fun m => entryOf m (findLiveMatch m (family m.gvk)))

/-- An object of one of the kinds that has the manifest's name and namespace gives the
manifest the health its own kind gives it. -/
def SameHealth (kinds : List GvkKey) (family : Family) (m : RawManifest) : Prop :=
  ∀ g ∈ kinds, ∀ o, findLiveMatch m (family g) = some o →
    entryOf m (some o) = entryOf m (findLiveMatch m (family m.gvk))

/-- The kinds of the manifests. -/
def kindsOf (manifests : List RawManifest) : List GvkKey :=
  (manifests.map RawManifest.gvk).dedup

/-- On the flattened list the first kind that has a match decides. -/
theorem findLiveMatch_flatMap (m : RawManifest) (order : List GvkKey) (family : Family) :
    findLiveMatch m (order.flatMap family) =
      order.findSome? fun g => findLiveMatch m (family g) := List.find?_flatMap

/-- A manifest no other kind misjudges has its own health on the flattened list. -/
theorem entryOf_flatMap {kinds order : List GvkKey} {family : Family} {m : RawManifest}
    (horder : order.Perm kinds) (hkind : m.gvk ∈ kinds) (h : SameHealth kinds family m) :
    entryOf m (findLiveMatch m (order.flatMap family)) =
      entryOf m (findLiveMatch m (family m.gvk)) := by
  rw [findLiveMatch_flatMap]
  cases hfind : order.findSome? fun g => findLiveMatch m (family g) with
  | none =>
      have hown := List.findSome?_eq_none_iff.mp hfind m.gvk (horder.mem_iff.mpr hkind)
      rw [hown]
  | some o =>
      obtain ⟨g, hg, hmatch⟩ := List.exists_of_findSome?_eq_some hfind
      exact h g (horder.mem_iff.mp hg) o hmatch

/-- Statuses with one text are one status. -/
theorem asStr_injective : Function.Injective HealthStatusCode.asStr := by
  intro a b h
  cases a <;> cases b <;> first | rfl | exact absurd h (by decide)

/-- The summary of one resource has the resource's own status for the worst. -/
theorem summarize_singleton_worst (e : Option HealthStatus) :
    (summarize [e]).worst = e.map (·.status.asStr) := by
  cases e <;> rfl

/-- And the resource's own message. -/
theorem summarize_singleton_message (e : Option HealthStatus) :
    (summarize [e]).worstMessage = e.map (·.message) := by
  cases e <;> rfl

/-- The summary of one entry tells the entry. -/
theorem summarize_singleton_injective {e e' : Option HealthStatus}
    (h : summarize [e] = summarize [e']) : e = e' := by
  have hworst := congrArg HealthSummary.worst h
  have hmessage := congrArg HealthSummary.worstMessage h
  rw [summarize_singleton_worst, summarize_singleton_worst] at hworst
  rw [summarize_singleton_message, summarize_singleton_message] at hmessage
  rcases e with _ | ⟨status, message⟩ <;> rcases e' with _ | ⟨status', message'⟩
  · rfl
  · exact absurd hworst (by simp)
  · exact absurd hworst (by simp)
  · have hs : status = status' := asStr_injective (Option.some.inj hworst)
    have hm : message = message' := Option.some.inj hmessage
    rw [hs, hm]

/-- The flattened list may put any of the kinds first. -/
theorem exists_order {kinds : List GvkKey} {g : GvkKey} (hg : g ∈ kinds) :
    ∃ rest, (g :: rest).Perm kinds :=
  ⟨kinds.erase g, (List.perm_cons_erase hg).symm⟩

/-- `assess` on the flattened list is the assessment by kind, for the manifests and
every selection of them and in every order of the kinds, exactly when every manifest
has the same health from every kind that has an object of its name and namespace. -/
theorem assess_flatten_iff (manifests : List RawManifest) (family : Family) :
    (∀ ms ⊆ manifests, ∀ order : List GvkKey, order.Perm (kindsOf manifests) →
        assess ms (order.flatMap family) = assessByKind family ms) ↔
      ∀ m ∈ manifests, SameHealth (kindsOf manifests) family m := by
  constructor
  · intro h m hm g hg o hmatch
    -- Take the manifest alone, and the kind that misjudges it first in the order. Over a
    -- larger set two wrong entries could cancel out in the counts.
    obtain ⟨rest, horder⟩ := exists_order hg
    have hone := h [m] (by simpa using hm) (g :: rest) horder
    have hfirst : findLiveMatch m ((g :: rest).flatMap family) = some o := by
      rw [findLiveMatch_flatMap, List.findSome?_cons, hmatch]
    have hentry : entryOf m (findLiveMatch m ((g :: rest).flatMap family)) =
        entryOf m (findLiveMatch m (family m.gvk)) := summarize_singleton_injective hone
    rwa [hfirst] at hentry
  · intro h ms hms order horder
    refine congrArg summarize (List.map_congr_left fun m hm => ?_)
    have hmem : m ∈ manifests := hms hm
    exact entryOf_flatMap horder (List.mem_dedup.mpr (List.mem_map_of_mem hmem)) (h m hmem)

/-- A load balancer Service and a Deployment of one name. -/
def webService : RawManifest := ⟨"", "v1", "Service", "web", some "prod", "", []⟩

/-- The Deployment of that name. -/
def webDeployment : RawManifest := ⟨"apps", "v1", "Deployment", "web", some "prod", "", []⟩

/-- The live Service waits for its address, the live Deployment is rolled out. -/
def webFamily : Family := fun g =>
  let metadata : ObjectMeta := ⟨some "web", some "prod", none, none, none, none, []⟩
  if g.kind = "Service" then
    [⟨none, metadata, [("spec", .object [("type", .string "LoadBalancer")])]⟩]
  else [⟨none, metadata, []⟩]

/-- With the Deployment first, the waiting Service is counted as healthy. -/
theorem assess_webFamily :
    (assess [webService, webDeployment]
        ([webDeployment.gvk, webService.gvk].flatMap webFamily)).worst = some "Healthy" ∧
      (assessByKind webFamily [webService, webDeployment]).worst = some "Progressing" ∧
      [webDeployment.gvk, webService.gvk].Perm (kindsOf [webService, webDeployment]) := by
  decide

end LeanCd.ResourceHealth
