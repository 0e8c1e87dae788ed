import LeanCd.Proofs.Documents
import LeanCd.Proofs.Sweep
import LeanCd.Proofs.Totality

/-!
# `LeanCd.Proofs.InPlace`: what a pass does to the cluster

A pass has three kinds of effect on the live objects: hooks change hook objects
(`HookWork`), the apply puts the main objects in place (`InPlace`), and `prune` sweeps
what left Git (`Reconciled`). `Regular` collects what is assumed of the crates, of the
hooks and of the manifests of one commit: they can be told apart and sent, and nobody else
interferes. `Orderly` adds that every call is served.

Each effect has a composition rule. `Regular.after_applyAll` here and
`after_prune_reconciled` in `Settled` are the two steps that do something.

Objects fall into three sets: those of main manifests, those of hooks, and the rest. `HookWork`,
`InPlace` and `Reconciled` say of each set what a part of a pass does to it. Hook objects are
free, as hooks may do anything to them and other clients too, and the other two sets are only
changed by the pass.
-/

set_option autoImplicit false

namespace LeanCd

open Act

variable {sc : Scopes}

/-! ### Objects -/

/-- The object of a manifest. -/
def RawManifest.ident (sc : Scopes) (cfg : Config) (m : RawManifest) : ObjId sc :=
  (ResourceKey.fromManifest m).denotes sc cfg.namespace

/-- The object of a hook. -/
def HookInfo.ident (sc : Scopes) (cfg : Config) (h : HookInfo) : ObjId sc :=
  h.manifest.ident sc cfg

/-- A live object that carries the managed label and no hook annotation. -/
def Managed (cfg : Config) (c : Cluster sc) (id : ObjId sc) : Prop :=
  ∃ live, c.lookup id = some live ∧ live.object.labelled cfg.selector = true ∧
    live.object.annotation hookAnnotation = none

/-- A live object that is annotated to be kept. -/
def Kept (c : Cluster sc) (id : ObjId sc) : Prop :=
  ∃ live, c.lookup id = some live ∧
    live.object.annotation resourcePolicyAnnotation = some resourcePolicyKeep

/-- The object was applied as a main resource. -/
def FormerlyApplied (cfg : Config) (w : World sc) (id : ObjId sc) : Prop :=
  ∃ k, .applyStarted k ∈ w.trace ∧ k.denotes sc cfg.namespace = id

/-- A pass can find these manifests, at some revision. -/
def Declares (env : Env sc) (cfg : Config) (c : Classified) : Prop :=
  ∃ sha applied, Reconcile.desired env sha cfg applied = .ok c

/-- The object of a main manifest of some revision. -/
def MainObject (env : Env sc) (cfg : Config) (id : ObjId sc) : Prop :=
  ∃ c, Declares env cfg c ∧ ∃ m ∈ c.main, m.ident sc cfg = id

/-- The object of a hook of some revision. -/
def HookObject (env : Env sc) (cfg : Config) (id : ObjId sc) : Prop :=
  ∃ c, Declares env cfg c ∧ ∃ h ∈ c.hooks, h.ident sc cfg = id

/-- The manifest can be sent: its document decodes, and its labels are absent or a
mapping. -/
structure Sendable (env : Env sc) (cfg : Config) (m : RawManifest) : Prop where
  decodes : ∃ o id, Sends env cfg m o id
  labels : ∀ v, env.yaml.fromSlice m.data = .ok v → v.LabelsMapping

/-- The assumptions: the crates and the server do what they document, every call is
served, a delete removes the object at once, nobody else changes an object other than a
hook's, main manifests can be sent and name the namespaces their objects have, keys are
distinct within a commit, a resource keeps its version, and hooks and main resources are
different objects. -/
structure Orderly (env : Env sc) (cfg : Config) : Prop where
  yaml : env.yaml.RoundTrips
  kube : env.kube.Reads
  merge : Merges env.merge
  served : env.Served
  erases : env.Erases
  quiet : env.QuietOutside (HookObject env cfg)
  /-- Another client never turns a hook object into a managed one. -/
  hooksStay : ∀ n c, (∀ id, HookObject env cfg id → ¬ Managed cfg c id) →
    ∀ id, HookObject env cfg id → ¬ Managed cfg (env.others n c) id
  notDryRun : cfg.dryRun = false
  sendable : ∀ c, Declares env cfg c → ∀ m ∈ c.main, Sendable env cfg m
  asServed : ∀ c, Declares env cfg c → ∀ m ∈ c.main, (ResourceKey.fromManifest m).AsServed sc
  distinct : ∀ c, Declares env cfg c → (ResourceKey.keysOf c.main).Nodup
  version : ∀ c c', Declares env cfg c → Declares env cfg c' → ∀ m ∈ c.main, ∀ m' ∈ c'.main,
    m.group = m'.group → m.kind = m'.kind → m.ns = m'.ns → m.name = m'.name →
    m.version = m'.version
  apart : ∀ id, HookObject env cfg id → ¬ MainObject env cfg id

/-- What the results about runs with failures assume: `Orderly` without the served calls,
and with the objects of one commit distinct in place of the keys and versions. -/
structure Regular (env : Env sc) (cfg : Config) : Prop where
  yaml : env.yaml.RoundTrips
  kube : env.kube.Reads
  merge : Merges env.merge
  erases : env.Erases
  quiet : env.QuietOutside (HookObject env cfg)
  hooksStay : ∀ n c, (∀ id, HookObject env cfg id → ¬ Managed cfg c id) →
    ∀ id, HookObject env cfg id → ¬ Managed cfg (env.others n c) id
  notDryRun : cfg.dryRun = false
  sendable : ∀ c, Declares env cfg c → ∀ m ∈ c.main, Sendable env cfg m
  asServed : ∀ c, Declares env cfg c → ∀ m ∈ c.main, (ResourceKey.fromManifest m).AsServed sc
  distinct : ∀ c, Declares env cfg c → (c.main.map (RawManifest.ident sc cfg)).Nodup
  apart : ∀ id, HookObject env cfg id → ¬ MainObject env cfg id

/-- The object of a manifest is live as the server stores it for that manifest: it was
last applied from it, and carries the label and the manifest's keep annotation. -/
structure MainLive (env : Env sc) (cfg : Config) (c : Cluster sc) (m : RawManifest) : Prop where
  live : ∃ live o, c.lookup (m.ident sc cfg) = some live ∧ Sends env cfg m o (m.ident sc cfg) ∧
    live.lastApplied = some o ∧ live.object.labelled cfg.selector = true ∧
    live.object.annotation hookAnnotation = none ∧
    (Manifest.annotation m resourcePolicyAnnotation = some resourcePolicyKeep →
      live.object.annotation resourcePolicyAnnotation = some resourcePolicyKeep)

section
variable {env : Env sc} {cfg : Config}

/-- No hook object is a managed one. -/
def HooksApart (env : Env sc) (cfg : Config) (c : Cluster sc) : Prop :=
  ∀ id, HookObject env cfg id → ¬ Managed cfg c id

/-- Whether a main object is in place depends on that object only. -/
theorem MainLive.congr {c c' : Cluster sc} {m : RawManifest} (h : MainLive env cfg c m)
    (hsame : c'.lookup (m.ident sc cfg) = c.lookup (m.ident sc cfg)) : MainLive env cfg c' m := by
  obtain ⟨live, o, hlook, hrest⟩ := h.live
  exact ⟨live, o, hsame.trans hlook, hrest⟩

/-- A main object in place carries the managed label. -/
theorem MainLive.managed {c : Cluster sc} {m : RawManifest} (h : MainLive env cfg c m) :
    Managed cfg c (m.ident sc cfg) := by
  obtain ⟨live, o, hlook, -, -, hlabel, hhook, -⟩ := h.live
  exact ⟨live, hlook, hlabel, hhook⟩

/-- Whether an object is managed depends on that object only. -/
theorem managed_congr {c c' : Cluster sc} {id : ObjId sc} (h : c'.lookup id = c.lookup id) :
    Managed cfg c' id ↔ Managed cfg c id := by
  unfold Managed
  rw [h]

/-- The same of whether it is kept. -/
theorem kept_congr {c c' : Cluster sc} {id : ObjId sc} (h : c'.lookup id = c.lookup id) :
    Kept c' id ↔ Kept c id := by
  unfold Kept
  rw [h]

/-! ### Hooks -/

/-- What running hooks leaves alone: every object but the hooks', the history of the
applies, and the state. -/
structure HookWork (env : Env sc) (cfg : Config) (w t : World sc) : Prop where
  outside : (outside (HookObject env cfg)).rel w t
  hooks : HooksApart env cfg w.cluster → HooksApart env cfg t.cluster
  former : ∀ id, FormerlyApplied cfg t id ↔ FormerlyApplied cfg w id
  stateCm : t.stateCm = w.stateCm

/-- What hooks do adds up. -/
theorem HookWork.trans {w t u : World sc} (h : HookWork env cfg w t) (h' : HookWork env cfg t u) :
    HookWork env cfg w u :=
  ⟨(LeanCd.outside _).trans h.outside h'.outside, fun hw => h'.hooks (h.hooks hw),
    fun id => (h'.former id).trans (h.former id), h'.stateCm.trans h.stateCm⟩

/-- `HookWork` as a frame. -/
def hookWork (env : Env sc) (cfg : Config) : Frame (World sc) where
  rel := HookWork env cfg
  refl _ := ⟨fun _ _ => rfl, id, fun _ => Iff.rfl, rfl⟩
  trans := HookWork.trans

/-- An event that is no apply does not count as one. -/
theorem formerlyApplied_cons {w t : World sc} {e : Event sc} (ht : t.trace = e :: w.trace)
    (he : ∀ k, e ≠ .applyStarted k) (id : ObjId sc) :
    FormerlyApplied cfg t id ↔ FormerlyApplied cfg w id := by
  unfold FormerlyApplied
  rw [ht]
  refine exists_congr fun k => and_congr_left fun _ => ?_
  rw [List.mem_cons, or_iff_right (fun h => he k h.symm)]

/-- The start of an apply counts as one. -/
theorem formerlyApplied_start {w t : World sc} {k : ResourceKey}
    (ht : t.trace = .applyStarted k :: w.trace) (id : ObjId sc) :
    FormerlyApplied cfg t id ↔ FormerlyApplied cfg w id ∨ k.denotes sc cfg.namespace = id := by
  unfold FormerlyApplied
  rw [ht]
  constructor
  · rintro ⟨k', hmem, hid⟩
    rcases List.mem_cons.mp hmem with heq | hmem
    · cases heq
      exact .inr hid
    · exact .inl ⟨k', hmem, hid⟩
  · rintro (⟨k', hmem, hid⟩ | hid)
    · exact ⟨k', List.mem_cons_of_mem _ hmem, hid⟩
    · exact ⟨k, List.mem_cons_self, hid⟩

/-- Two main manifests of one object, of any two commits, have one key. -/
theorem Orderly.key_eq_of_ident (ho : Orderly env cfg) {c c' : Classified}
    (hc : Declares env cfg c) (hc' : Declares env cfg c')
    {m m' : RawManifest} (hm : m ∈ c.main) (hm' : m' ∈ c'.main)
    (h : m.ident sc cfg = m'.ident sc cfg) :
    ResourceKey.fromManifest m = .fromManifest m' := by
  have hg : m.group = m'.group := congrArg ObjId.group h
  have hk : m.kind = m'.kind := congrArg ObjId.kind h
  have hn : m.name = m'.name := congrArg ObjId.name h
  -- A manifest may leave its namespace out only where the server has none either, so the
  -- namespaces of the objects are those of the manifests.
  have hns : m.ns = m'.ns := by
    have hsame : (m.ident sc cfg).ns = (m'.ident sc cfg).ns := congrArg ObjId.ns h
    have hself : (m.ident sc cfg).ns = m.ns := Scope.place_eq_self (ho.asServed c hc m hm) _
    have hself' : (m'.ident sc cfg).ns = m'.ns := Scope.place_eq_self (ho.asServed c' hc' m' hm') _
    exact hself.symm.trans (hsame.trans hself')
  simp only [ResourceKey.fromManifest, hg, hk, hn, hns,
    ho.version c c' hc hc' m hm m' hm' hg hk hns hn]

/-- The objects of a commit are distinct, since its keys are. -/
theorem Orderly.regular (ho : Orderly env cfg) : Regular env cfg where
  yaml := ho.yaml
  kube := ho.kube
  merge := ho.merge
  erases := ho.erases
  quiet := ho.quiet
  hooksStay := ho.hooksStay
  notDryRun := ho.notDryRun
  sendable := ho.sendable
  asServed := ho.asServed
  distinct c hc := by
    have hkeys := ho.distinct c hc
    refine List.Nodup.map_on (fun m hm m' hm' heq => ?_) (List.Nodup.of_map _ hkeys)
    exact List.inj_on_of_nodup_map hkeys hm hm' (ho.key_eq_of_ident hc hc hm hm' heq)
  apart := ho.apart

namespace Regular

variable (ho : Regular env cfg)
include ho

/-- What the others do is what hooks may do as well: it concerns hook objects only. -/
theorem benign_hookWork : Benign env (hookWork env cfg) where
  tick w := ⟨ho.quiet.benign.tick w, ho.hooksStay w.step w.cluster, fun _ => Iff.rfl, rfl⟩
  transmit _ _ := ⟨fun _ _ => rfl, id, fun _ => Iff.rfl, rfl⟩
  sleep _ _ := ⟨fun _ _ => rfl, id, fun _ => Iff.rfl, rfl⟩
  lease _ _ _ := ⟨fun _ _ => rfl, id, fun _ => Iff.rfl, rfl⟩

/-- Main objects are not hooks'. -/
theorem not_hookObject {c : Classified} (hc : Declares env cfg c) {m : RawManifest}
    (hm : m ∈ c.main) : ¬ HookObject env cfg (m.ident sc cfg) :=
  fun h => ho.apart _ h ⟨c, hc, m, hm, rfl⟩

/-! ### The writes of hooks and of `prune` -/

/-- A patch that stores an object with a hook annotation makes no managed object. -/
theorem keeps_hookPatch {id : ObjId sc} (hid : HookObject env cfg id) {o : DynamicObject}
    (hannotated : (o.annotation hookAnnotation).isSome) :
    Keeps (hookWork env cfg) (KubeUtil.servePatch env id o false) := by
  intro w
  refine ⟨fun id' hid' => ?_, fun hw id' hid' => ?_,
    formerlyApplied_cons rfl (fun _ => nofun), rfl⟩
  · exact AList.lookup_insert_ne fun heq => hid' (heq ▸ hid)
  · rintro ⟨live, hlook, hlabel, hhook⟩
    by_cases heq : id' = id
    · subst heq
      have hstored := hlook.symm.trans (AList.lookup_insert w.cluster)
      rw [Option.some_inj] at hstored
      -- The patched object carries the annotation that was sent, so it is not managed.
      obtain ⟨s, hs⟩ := Option.isSome_iff_exists.mp hannotated
      rw [hstored] at hhook
      exact absurd (hhook.symm.trans (ho.merge.annotation hs)) nofun
    · exact hw id' hid' ⟨live, (AList.lookup_insert_ne heq).symm.trans hlook, hlabel, hhook⟩

/-- A delete makes no managed object. -/
theorem hooksApart_delete (id : ObjId sc) (w : World sc) (hw : HooksApart env cfg w.cluster) :
    HooksApart env cfg (Act.state (KubeUtil.serveDelete env id w)).cluster := by
  have h : After (KubeUtil.serveDelete env id) w fun _ t => HooksApart env cfg t.cluster := by
    rw [Prune.after_serveDelete]
    cases w.cluster.lookup id with
    | none => exact hw
    | some live =>
        dsimp only
        rw [ho.erases]
        rintro id' hid' ⟨live', hlook, hrest⟩
        by_cases heq : id' = id
        · subst heq
          exact absurd ((AList.lookup_erase _ _).symm.trans hlook) nofun
        · exact hw id' hid' ⟨live', (AList.lookup_erase_ne heq).symm.trans hlook, hrest⟩
  exact h

/-- A delete of a hook's object stays within what hooks do. -/
theorem keeps_hookDelete {id : ObjId sc} (hid : HookObject env cfg id) :
    Keeps (hookWork env cfg) (KubeUtil.serveDelete env id) := by
  intro w
  have hapart := ho.hooksApart_delete id w
  have h : After (KubeUtil.serveDelete env id) w fun _ t =>
      (HooksApart env cfg w.cluster → HooksApart env cfg t.cluster) → HookWork env cfg w t := by
    rw [Prune.after_serveDelete]
    cases w.cluster.lookup id with
    | none => exact fun _ => (hookWork env cfg).refl w
    | some live =>
        refine fun hooks =>
          ⟨fun id' hid' => ?_, hooks, formerlyApplied_cons rfl (fun _ => nofun), rfl⟩
        dsimp only
        rw [ho.erases]
        exact AList.lookup_erase_ne fun heq => hid' (heq ▸ hid)
  exact h hapart

/-- Hooks of the repository do hook work. -/
theorem allowsHooks {c : Classified} (hc : Declares env cfg c) {hooks : List HookInfo}
    (hsub : ∀ h ∈ hooks, h ∈ c.hooks) : AllowsHooks env cfg (hookWork env cfg) hooks := by
  obtain ⟨sha, applied, hdesired⟩ := id hc
  have hsorted := Reconcile.desired_sorted hdesired
  have hobject : ∀ h ∈ hooks, HookObject env cfg (h.ident sc cfg) := fun h hh =>
    ⟨c, hc, h, hsub h hh, rfl⟩
  refine ⟨fun h _ w => ?_, fun h hh o id hsends => ?_, fun h hh => ?_⟩
  · exact ⟨fun _ _ => rfl, fun hw => hw, formerlyApplied_cons rfl (fun _ => nofun), rfl⟩
  · obtain ⟨hparsed, hannotated⟩ := hsorted.hooks h (hsub h hh)
    obtain ⟨rfl, hvalues⟩ := hparsed.sends ho.yaml ho.kube hsends
    exact ho.keeps_hookPatch (hobject h hh) (by rw [hvalues]; exact hannotated)
  · exact ho.keeps_hookDelete (hobject h hh)

end Regular

/-! ### The apply -/

/-- The objects of these manifests are in place, and every other object but the hooks' is
as it was. -/
structure InPlace (env : Env sc) (cfg : Config) (ms : List RawManifest) (w t : World sc) :
    Prop where
  main : ∀ m ∈ ms, MainLive env cfg t.cluster m
  other : ∀ id, ¬ HookObject env cfg id → (∀ m ∈ ms, m.ident sc cfg ≠ id) →
    t.cluster.lookup id = w.cluster.lookup id
  hooks : HooksApart env cfg w.cluster → HooksApart env cfg t.cluster
  former : ∀ id, FormerlyApplied cfg t id ↔
    FormerlyApplied cfg w id ∨ ∃ m ∈ ms, m.ident sc cfg = id
  stateCm : t.stateCm = w.stateCm

/-- Nothing is to be put in place. -/
theorem HookWork.inPlace {w t : World sc} (h : HookWork env cfg w t) : InPlace env cfg [] w t :=
  ⟨List.forall_mem_nil _, fun id hid _ => h.outside id hid, h.hooks,
    fun id => (h.former id).trans (by simp), h.stateCm⟩

/-- Hooks before the apply. -/
theorem InPlace.after_hooks {ms : List RawManifest} {w t u : World sc} (h : HookWork env cfg w t)
    (h' : InPlace env cfg ms t u) : InPlace env cfg ms w u :=
  ⟨h'.main, fun id hid hne => (h'.other id hid hne).trans (h.outside id hid),
    fun hw => h'.hooks (h.hooks hw),
    fun id => (h'.former id).trans (or_congr (h.former id) Iff.rfl), h'.stateCm.trans h.stateCm⟩

/-- Hooks after the apply. -/
theorem InPlace.before_hooks {ms : List RawManifest} {w t u : World sc}
    (h : InPlace env cfg ms w t)
    (hms : ∀ m ∈ ms, ¬ HookObject env cfg (m.ident sc cfg)) (h' : HookWork env cfg t u) :
    InPlace env cfg ms w u :=
  ⟨fun m hm => (h.main m hm).congr (h'.outside _ (hms m hm)),
    fun id hid hne => (h'.outside id hid).trans (h.other id hid hne),
    fun hw => h'.hooks (h.hooks hw),
    fun id => (h'.former id).trans (h.former id), h'.stateCm.trans h.stateCm⟩

/-- One manifest after another, of different objects. -/
theorem InPlace.cons {m : RawManifest} {rest : List RawManifest} {w t u : World sc}
    (h : InPlace env cfg [m] w t) (h' : InPlace env cfg rest t u)
    (hm : ¬ HookObject env cfg (m.ident sc cfg))
    (hne : ∀ m' ∈ rest, m'.ident sc cfg ≠ m.ident sc cfg) :
    InPlace env cfg (m :: rest) w u where
  main m' hm' := by
    rcases List.mem_cons.mp hm' with rfl | hm'
    · exact (h.main m' List.mem_cons_self).congr (h'.other _ hm hne)
    · exact h'.main m' hm'
  other id hid hall :=
    (h'.other id hid fun m' hm' => hall m' (List.mem_cons_of_mem m hm')).trans
      (h.other id hid fun m' hm' => hall m' (List.mem_singleton.mp hm' ▸ List.mem_cons_self))
  hooks hw := h'.hooks (h.hooks hw)
  former id := by
    rw [h'.former, h.former, or_assoc]
    simp
  stateCm := h'.stateCm.trans h.stateCm

/-- No main object has a hook annotation. -/
def MainsPlain (env : Env sc) (cfg : Config) (c : Cluster sc) : Prop :=
  ∀ id live, MainObject env cfg id → c.lookup id = some live →
    live.object.annotation hookAnnotation = none

namespace Regular

variable (ho : Regular env cfg)
include ho

/-- Hook work changes no main object. -/
theorem mainsPlain_of_hookWork {w t : World sc} (h : HookWork env cfg w t)
    (hw : MainsPlain env cfg w.cluster) : MainsPlain env cfg t.cluster := by
  intro id live hid hlook
  rw [h.outside id fun hhook => ho.apart id hhook hid] at hlook
  exact hw id live hid hlook

/-- The patch of a main manifest puts its object in place. -/
theorem inPlace_patch {c : Classified} (hc : Declares env cfg c) {m : RawManifest}
    (hm : m ∈ c.main) {o : DynamicObject} (hsends : Sends env cfg m o (m.ident sc cfg))
    {w t : World sc} (hplain : MainsPlain env cfg w.cluster)
    (hstart : t.trace = .applyStarted (.fromManifest m) :: w.trace)
    (hrest : t.stateCm = w.stateCm ∧ t.cluster = w.cluster) :
    InPlace env cfg [m] w (Act.state (KubeUtil.servePatch env (m.ident sc cfg) o false t)) := by
  obtain ⟨sha, applied, hdesired⟩ := id hc
  obtain ⟨hparsed, hnohook⟩ := (Reconcile.desired_sorted hdesired).main m hm
  obtain ⟨-, hvalues⟩ := hparsed.sends ho.yaml ho.kube hsends
  obtain ⟨hstate, hcluster⟩ := hrest
  have hmain : ¬ HookObject env cfg (m.ident sc cfg) := ho.not_hookObject hc hm
  refine ⟨fun m' hm' => ?_, fun id hid hne => ?_, fun hw id hid => ?_, fun id => ?_, hstate⟩
  · rw [List.mem_singleton.mp hm']
    refine ⟨_, o, AList.lookup_insert t.cluster, hsends, rfl, ?_, ?_, fun hkeep => ?_⟩
    -- The label was sent, so the server stores it.
    · have hlabel := hparsed.sends_labelled ho.yaml ho.kube (ho.sendable c hc m hm).labels hsends
      exact beq_iff_eq.mpr (ho.merge.label (beq_iff_eq.mp hlabel))
    -- The hook annotation was not sent. If the object was live with one, it was not a main
    -- object before.
    · rcases ho.merge.other ((hvalues hookAnnotation).trans hnohook) with hnone | hsame
      · exact hnone
      · refine hsame.trans ?_
        rw [hcluster]
        cases hlook : w.cluster.lookup (m.ident sc cfg) with
        | none => rfl
        | some live => exact hplain _ live ⟨c, hc, m, hm, rfl⟩ hlook
    · exact ho.merge.annotation ((hvalues _).trans hkeep)
  · have hid' : id ≠ m.ident sc cfg := fun heq => hne m List.mem_cons_self heq.symm
    refine (AList.lookup_insert_ne hid').trans ?_
    rw [hcluster]
  · have hid' : id ≠ m.ident sc cfg := fun heq => hmain (heq ▸ hid)
    rw [managed_congr (c := w.cluster)]
    · exact hw id hid
    · refine (AList.lookup_insert_ne hid').trans ?_
      rw [hcluster]
  · refine (formerlyApplied_cons (w := t) (e := .patched (m.ident sc cfg) o) rfl
      (fun _ => nofun) id).trans ?_
    rw [formerlyApplied_start hstart]
    simp [RawManifest.ident]

/-- Putting main objects in place leaves main objects without hook annotations. -/
theorem mainsPlain_of_inPlace {ms : List RawManifest} {w t : World sc}
    (h : InPlace env cfg ms w t) (hw : MainsPlain env cfg w.cluster) :
    MainsPlain env cfg t.cluster := by
  intro id live hid hlook
  -- An object that was put in place is managed, and any other is what it was.
  by_cases hmem : ∃ m ∈ ms, m.ident sc cfg = id
  · obtain ⟨m, hm, rfl⟩ := hmem
    obtain ⟨live', hlook', -, hhook⟩ := (h.main m hm).managed
    cases hlook.symm.trans hlook'
    exact hhook
  · have hne : ∀ m ∈ ms, m.ident sc cfg ≠ id := fun m hm heq => hmem ⟨m, hm, heq⟩
    rw [h.other id (fun hhook => ho.apart id hhook hid) hne] at hlook
    exact hw id live hid hlook

/-- A round of the apply puts the object of its manifest in place, and does not fail. -/
theorem after_attemptApply (hs : env.Served) {c : Classified} (hc : Declares env cfg c)
    {m : RawManifest} (hm : m ∈ c.main) (cache : KubeUtil.DiscoveryCache) (w : World sc)
    (hplain : MainsPlain env cfg w.cluster) :
    After (Reconcile.attemptApply env cfg false m cache) w fun r t =>
      (∃ cache', r = .ok (false, cache')) ∧ InPlace env cfg [m] w t := by
  have hB := ho.benign_hookWork
  obtain ⟨sha, applied, hdesired⟩ := id hc
  have hsorted := Reconcile.desired_sorted hdesired
  obtain ⟨o, ident, hsends⟩ := (ho.sendable c hc m hm).decodes
  obtain ⟨rfl, -⟩ := (hsorted.main m hm).1.sends ho.yaml ho.kube hsends
  refine hs.after_attemptApply hsends (keeps_getOrResolve hB.toInteracts cache m.gvk) ?_
  intro t cache' hwt
  -- From here on, the world after the patch. The start of the apply was noted before the
  -- call, so `t` is taken with that event and one more interaction.
  have htick : HookWork env cfg w (t.ticked env) := hwt.trans (hB.tick t)
  have hput : InPlace env cfg [m] (t.ticked env) _ := ho.inPlace_patch hc hm hsends
    (t := { t with trace := .applyStarted (.fromManifest m) :: t.trace }.called env
      (.patch m.gvk (m.ident sc cfg) false))
    (ho.mainsPlain_of_hookWork htick hplain) rfl ⟨rfl, rfl⟩
  exact ⟨⟨cache', rfl⟩, InPlace.after_hooks htick hput⟩

/-- The apply puts the main manifests' objects in place, and does not fail. -/
theorem after_applyAll (hs : env.Served) {c : Classified} (hc : Declares env cfg c)
    {ms : List RawManifest} (hsub : ∀ m ∈ ms, m ∈ c.main)
    (hnodup : (ms.map (RawManifest.ident sc cfg)).Nodup)
    (cache : KubeUtil.DiscoveryCache) (w : World sc) (hplain : MainsPlain env cfg w.cluster) :
    After (Reconcile.applyAll env cfg false ms cache) w fun r t =>
      (∃ failed, r = .ok failed) ∧ InPlace env cfg ms w t := by
  have hB := ho.benign_hookWork
  induction ms generalizing cache w with
  | nil => exact ⟨⟨[], rfl⟩, HookWork.inPlace ((hookWork env cfg).refl w)⟩
  | cons m rest ih =>
      have hm := hsub m List.mem_cons_self
      obtain ⟨hfirst, hrest⟩ := List.nodup_cons.mp hnodup
      -- The applies of the rest do not touch the object of the first.
      have hne : ∀ m' ∈ rest, m'.ident sc cfg ≠ m.ident sc cfg := fun m' hm' heq =>
        hfirst (List.mem_map.mpr ⟨m', hm', heq⟩)
      rw [Reconcile.applyAll_cons, after_bind]
      refine (ho.after_attemptApply hs hc hm cache w hplain).mono ?_
      rintro _ t ⟨⟨cache', rfl⟩, hdone⟩
      dsimp only
      rw [after_bind]
      refine (ih (fun m' hm' => hsub m' (List.mem_cons_of_mem m hm')) hrest cache' t
        (ho.mainsPlain_of_inPlace hdone hplain)).mono ?_
      rintro _ u ⟨⟨failed, rfl⟩, hu⟩
      exact ⟨⟨failed, rfl⟩, hdone.cons hu (ho.not_hookObject hc hm) hne⟩

end Regular

end

end LeanCd
