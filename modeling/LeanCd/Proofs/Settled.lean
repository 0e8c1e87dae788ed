import LeanCd.Proofs.InPlace
import LeanCd.Proofs.PassStart

/-!
# `LeanCd.Proofs.Settled`: the invariant of the passes, and one pass over a commit

`Settled` ties three things together: the managed live objects, the persisted applied
set and the persisted commit. Every managed object was applied by an earlier pass, and is
in the persisted set unless it is kept, and the objects of the persisted commit's
manifests are in place.

`after_branch` is what any branch of a pass and its `prune` do to a settled cluster: they
reconcile it with the commit (`Reconciled`), or end early with a hook error. The one
condition is `SameVersions`. `Reconciled.settled` closes the circle: with the new state
written, the world is settled again.

The sweep and the apply do not commute: the sweep may take what the apply puts in place, when a
key of the applied set denotes a main object under another version. `SameVersions` excludes it.
Everything else is bookkeeping about which objects were formerly applied, which the trace of the
world remembers.
-/

set_option autoImplicit false

namespace LeanCd

open Act

variable {sc : Scopes} {env : Env sc} {cfg : Config}

/-- The state in the ConfigMap. -/
def World.stored (w : World sc) : Option State := w.stateCm.map State.fromData

/-- A state reads back as it was written. -/
theorem World.stored_of_stateCm {w : World sc} {s : State} (h : w.stateCm = some s.toData) :
    w.stored = some s := by
  rw [World.stored, h, Option.map_some, State.fromData_toData]

namespace Reconcile

/-! ### What a pass reads -/

/-- The server returns the text of the state ConfigMap. -/
theorem after_stateServeGet {w : World sc} {Q : Except Error Value → World sc → Prop} :
    After State.serveGet w Q ↔
      match w.stateCm with
      | some v => Q (.ok v) w
      | none => Q (.error (.kube notFound)) w := by
  unfold After State.serveGet
  cases w.stateCm <;> rfl

/-- What a pass reads as its prior state is the stored one, unless the read fails with the
answer that there is none. -/
theorem after_stateRead_or (env : Env sc) (w : World sc) :
    After (State.read env) w fun res _ => ∀ prev, res = .ok prev → prev = w.stored ∨
      prev = none ∧ ∃ n e, (env.fault n .stateGet = .refused e ∨ env.fault n .stateGet = .lost e) ∧
        e.code = some 404 := by
  have hsame : (w.called env .stateGet).stateCm = w.stateCm := rfl
  have hcode : ∀ (e : KubeError) (t : World sc),
      env.fault w.step .stateGet = .refused e ∨ env.fault w.step .stateGet = .lost e →
      After (if e.code = some 404 then return none else throw (.kube e) : Pass sc (Option State)) t
        fun res _ => ∀ prev, res = .ok prev → prev = w.stored ∨ prev = none ∧ ∃ n e,
          (env.fault n .stateGet = .refused e ∨ env.fault n .stateGet = .lost e) ∧
            e.code = some 404 := by
    -- A 404 is read as no state. Every other error ends the read.
    intro e t hfault
    rw [after_ite]
    split
    next hnone =>
      rintro prev hprev
      cases hprev
      exact .inr ⟨rfl, w.step, e, hfault, hnone⟩
    next => exact nofun
  rw [State.read, after_bind, after_attempt, after_call]
  cases hf : env.fault w.step .stateGet with
  | none =>
      -- The read was served, and it returns what is stored.
      dsimp only
      rw [after_stateServeGet, hsame, World.stored]
      cases w.stateCm with
      | none =>
          rintro prev hprev
          cases hprev
          exact .inl rfl
      | some v =>
          rintro prev hprev
          cases hprev
          exact .inl rfl
  | refused e => exact hcode e _ (.inl hf)
  | lost e =>
      have hcode := hcode e (w.called env .stateGet) (.inr hf)
      dsimp only
      rw [after_stateServeGet]
      cases (w.called env .stateGet).stateCm with
      | none => exact hcode
      | some v => exact hcode

/-- A pass that got as far as its checkout knows the stored state, unless its read failed
with the answer that there is none. -/
theorem Started.prev_eq {r : Reconciler} {w : World sc} (x : Started env r w)
    (hget : ∀ n e, env.fault n .stateGet = .refused e ∨ env.fault n .stateGet = .lost e →
      e.code ≠ some 404) : x.prev = w.stored := by
  -- The Lease and the state are read one after the other, and nobody else writes the state.
  have hheld := Keeps.of_ok (benign_untouched.acquire r.holder) x.acquired
  have hstored : x.held.stored = w.stored :=
    congrArg (Option.map State.fromData) (Prod.mk.inj hheld).2
  rw [← hstored]
  rcases (after_stateRead_or env x.held).of_run x.read x.prev rfl with
    hprev | ⟨-, n, e, hfault, hcode⟩
  · exact hprev
  · exact absurd hcode (hget n e hfault)

/-- Where every call is served a pass reads the state that is stored. -/
theorem Started.prev_eq_of_served (hs : env.Served) {r : Reconciler} {w : World sc}
    (x : Started env r w) : x.prev = w.stored := by
  refine x.prev_eq ?_
  rintro n e (hfault | hfault)
  · cases (hs n _).symm.trans hfault
  · cases (hs n _).symm.trans hfault

/-! ### The invariant -/

/-- No key of the applied set has the group and kind of a main manifest under another
version, unless the manifest is annotated to be kept. -/
def SameVersions (applied : List ResourceKey) (c : Classified) : Prop :=
  ∀ k ∈ applied, ∀ m ∈ c.main, k.group = m.group → k.kind = m.kind → k.version ≠ m.version →
    Manifest.annotation m resourcePolicyAnnotation = some resourcePolicyKeep

/-- Between two passes, every managed object was applied, and is in the persisted applied
set or kept. The objects of the persisted set's manifests are in place. -/
structure Settled (env : Env sc) (cfg : Config) (w : World sc) : Prop where
  hooks : HooksApart env cfg w.cluster
  mains : MainsPlain env cfg w.cluster
  former : ∀ id, FormerlyApplied cfg w id → MainObject env cfg id ∧
    ∀ live, w.cluster.lookup id = some live → live.object.labelled cfg.selector = true
  managed : ∀ id, Managed cfg w.cluster id → FormerlyApplied cfg w id ∧
    ((∃ k ∈ prevApplied w.stored, k.denotes sc cfg.namespace = id) ∨ Kept w.cluster id)
  applied : ∀ k ∈ prevApplied w.stored,
    k.AsServed sc ∧ FormerlyApplied cfg w (k.denotes sc cfg.namespace)
  synced : ∀ sha, w.stored.bind (·.lastSha) = some sha → ∃ applied c,
    desired env sha cfg applied = .ok c ∧ prevApplied w.stored = ResourceKey.keysOf c.main ∧
      ∀ m ∈ c.main, MainLive env cfg w.cluster m

/-- A world stays settled when the main objects, the history of the applies and the
persisted set and commit stay what they are. -/
theorem Settled.congr (ho : Orderly env cfg) {w t : World sc} (h : Settled env cfg w)
    (hout : (outside (HookObject env cfg)).rel w t) (hhooks : HooksApart env cfg t.cluster)
    (hformer : ∀ id, FormerlyApplied cfg t id ↔ FormerlyApplied cfg w id)
    (happlied : prevApplied t.stored = prevApplied w.stored)
    (hsha : t.stored.bind (·.lastSha) = w.stored.bind (·.lastSha)) : Settled env cfg t := by
  -- What is outside the hooks' objects is the same in both worlds.
  have hsame : ∀ id, MainObject env cfg id → t.cluster.lookup id = w.cluster.lookup id :=
    fun id hid => hout id fun hhook => ho.apart id hhook hid
  refine ⟨hhooks, fun id live hid hlook => ?_, fun id hid => ?_, fun id hid => ?_,
    fun k hk => ?_, fun sha hsome => ?_⟩
  -- The clauses of `Settled`, each carried over by what it depends on.
  · rw [hsame id hid] at hlook
    exact h.mains id live hid hlook
  · obtain ⟨hmain, hlabel⟩ := h.former id ((hformer id).mp hid)
    exact ⟨hmain, by rw [hsame id hmain]; exact hlabel⟩
  · have hid' : ¬ HookObject env cfg id := fun hhook => hhooks id hhook hid
    rw [managed_congr (hout id hid')] at hid
    rw [hformer, kept_congr (hout id hid'), happlied]
    exact h.managed id hid
  · rw [happlied] at hk
    exact ⟨(h.applied k hk).1, (hformer _).mpr (h.applied k hk).2⟩
  · rw [hsha] at hsome
    obtain ⟨applied, c, hc, hkeys, hmain⟩ := h.synced sha hsome
    exact ⟨applied, c, hc, happlied.trans hkeys, fun m hm =>
      (hmain m hm).congr (hsame _ ⟨c, ⟨sha, applied, hc⟩, m, hm, rfl⟩)⟩

/-- The stored state, along hook work. -/
theorem stored_of_hookWork {w t : World sc} (h : HookWork env cfg w t) : t.stored = w.stored :=
  congrArg (Option.map State.fromData) h.stateCm

/-- Hook work leaves a settled world settled. -/
theorem Settled.hookWork (ho : Orderly env cfg) {w t : World sc} (h : Settled env cfg w)
    (hwt : HookWork env cfg w t) : Settled env cfg t :=
  h.congr ho hwt.outside (hwt.hooks h.hooks) hwt.former
    (congrArg prevApplied (stored_of_hookWork hwt))
    (congrArg (Option.bind · (·.lastSha)) (stored_of_hookWork hwt))

/-- A commit has one set of manifests, whatever was applied before. -/
theorem desired_unique {sha : String} {applied applied' : List ResourceKey} {c c' : Classified}
    (h : desired env sha cfg applied = .ok c) (h' : desired env sha cfg applied' = .ok c') :
    c = c' := by
  obtain ⟨roots, ms, hroots, hparsed, rfl⟩ := desired_ok h
  obtain ⟨roots', ms', hroots', hparsed', rfl⟩ := desired_ok h'
  -- The expansion does not look at the applied set. Where it fails, both passes saw the
  -- failure, and both took it for no directory.
  have hsame : roots = roots' := by
    rcases rootsOf_ok hroots with hexpand | ⟨rfl, text, hexpand⟩ <;>
      rcases rootsOf_ok hroots' with hexpand' | ⟨rfl, text', hexpand'⟩
    · exact Except.ok.inj (hexpand.symm.trans hexpand')
    · exact absurd (hexpand.symm.trans hexpand') nofun
    · exact absurd (hexpand.symm.trans hexpand') nofun
    · rfl
  rw [hsame] at hparsed
  rw [Except.ok.inj (hparsed.symm.trans hparsed')]

/-! ### The sweep -/

/-- The main objects are in place, and of the others only the kept ones are managed. -/
structure Reconciled (env : Env sc) (cfg : Config) (ms : List RawManifest) (w t : World sc) :
    Prop where
  main : ∀ m ∈ ms, MainLive env cfg t.cluster m
  managed : ∀ id, Managed cfg t.cluster id ↔
    (∃ m ∈ ms, m.ident sc cfg = id) ∨ (FormerlyApplied cfg w id ∧ Kept w.cluster id)
  other : ∀ id, ¬ HookObject env cfg id → (∀ m ∈ ms, m.ident sc cfg ≠ id) →
    t.cluster.lookup id = none ∨ t.cluster.lookup id = w.cluster.lookup id
  hooks : HooksApart env cfg t.cluster
  former : ∀ id, FormerlyApplied cfg t id ↔
    FormerlyApplied cfg w id ∨ ∃ m ∈ ms, m.ident sc cfg = id
  stateCm : t.stateCm = w.stateCm

/-- What `prune` leaves alone, apart from live objects. -/
structure Pruning (env : Env sc) (cfg : Config) (w t : World sc) : Prop where
  hooks : HooksApart env cfg w.cluster → HooksApart env cfg t.cluster
  former : ∀ id, FormerlyApplied cfg t id ↔ FormerlyApplied cfg w id
  stateCm : t.stateCm = w.stateCm

/-- `Pruning` as a frame. -/
def pruning (env : Env sc) (cfg : Config) : Frame (World sc) where
  rel := Pruning env cfg
  refl _ := ⟨id, fun _ => Iff.rfl, rfl⟩
  trans h h' := ⟨fun hw => h'.hooks (h.hooks hw),
    fun id => (h'.former id).trans (h.former id), h'.stateCm.trans h.stateCm⟩

/-- The deletes of a prune take objects away and add none. -/
theorem keeps_prune_pruning (ho : Orderly env cfg) (prev current : List ResourceKey) :
    Keeps (pruning env cfg) (Prune.prune env cfg prev current) := by
  have hin : Interacts env (pruning env cfg) := by
    refine ⟨fun w => ?_, fun _ _ => ⟨id, fun _ => Iff.rfl, rfl⟩⟩
    have h := ho.regular.benign_hookWork.tick w
    exact ⟨h.hooks, h.former, h.stateCm⟩
  refine Prune.keeps_prune hin (fun id w => ?_) prev current
  · have hapart := ho.regular.hooksApart_delete id w
    have h : After (KubeUtil.serveDelete env id) w fun _ t =>
        (HooksApart env cfg w.cluster → HooksApart env cfg t.cluster) → Pruning env cfg w t := by
      rw [Prune.after_serveDelete]
      cases w.cluster.lookup id with
      | none => exact fun _ => (pruning env cfg).refl w
      | some live => exact fun hooks => ⟨hooks, formerlyApplied_cons rfl (fun _ => nofun), rfl⟩
    exact h hapart

/-- A candidate that denotes a main object comes from a kind under another version. -/
theorem version_ne_of_candidate (ho : Regular env cfg) {c : Classified}
    (hc : Declares env cfg c) {prev : List ResourceKey} (hprev : ∀ k ∈ prev, k.AsServed sc)
    {k : ResourceKey} (hk : Prune.Candidate sc prev (ResourceKey.keysOf c.main) k)
    {m : RawManifest} (hm : m ∈ c.main) (hid : k.denotes sc cfg.namespace = m.ident sc cfg) :
    ∃ k' ∈ prev, k'.group = m.group ∧ k'.kind = m.kind ∧ k'.version ≠ m.version := by
  have hg : k.group = m.group := congrArg ObjId.group hid
  have hkind : k.kind = m.kind := congrArg ObjId.kind hid
  have hname : k.name = m.name := congrArg ObjId.name hid
  have hserved : k.AsServed sc := hk.source.elim (hprev k) (·.2)
  have hns : k.ns = m.ns := by
    have hsame : (k.denotes sc cfg.namespace).ns = (m.ident sc cfg).ns := congrArg ObjId.ns hid
    have hself : (k.denotes sc cfg.namespace).ns = k.ns := Scope.place_eq_self hserved _
    have hself' : (m.ident sc cfg).ns = m.ns := Scope.place_eq_self (ho.asServed c hc m hm) _
    exact hself.symm.trans (hsame.trans hself')
  -- With the version too, the key would be the manifest's own, and `prune` spares those.
  have hversion : k.version ≠ m.version := by
    intro hv
    refine hk.gone (List.mem_map.mpr ⟨m, hm, ?_⟩)
    obtain ⟨group, version, kind, ns, name⟩ := k
    simp only at hg hkind hname hns hv
    simp only [ResourceKey.fromManifest, hg, hkind, hname, hns, hv]
  -- The candidate comes from the applied set itself, or from a list of one of its kinds.
  rcases hk.source with hmem | ⟨hgvk, -⟩
  · exact ⟨k, hmem, hg, hkind, hversion⟩
  · obtain ⟨k', hmem, hsame⟩ := List.mem_map.mp hgvk
    obtain ⟨hg', hv', hk'⟩ := GvkKey.mk.inj hsame
    exact ⟨k', hmem, hg'.trans hg, hk'.trans hkind, fun h => hversion (hv'.symm.trans h)⟩

/-! ### The sweep after the apply -/

section AfterSweep
variable {c : Classified} {w t u : World sc} {targets : List ResourceKey}

/-- The sweep leaves the main objects: a target that denotes one comes from another
version, and then the manifest is annotated to be kept. -/
theorem lookup_main_of_swept (ho : Regular env cfg) (hc : Declares env cfg c)
    {prev : List ResourceKey} (hprev : ∀ k ∈ prev, k.AsServed sc)
    (ht : ∀ m ∈ c.main, MainLive env cfg t.cluster m) (hversions : SameVersions prev c)
    (hcandidates : ∀ k ∈ targets, Prune.Candidate sc prev (ResourceKey.keysOf c.main) k)
    (hswept : Prune.Swept cfg (HookObject env cfg) targets t u) {m : RawManifest}
    (hm : m ∈ c.main) :
    u.cluster.lookup (m.ident sc cfg) = t.cluster.lookup (m.ident sc cfg) := by
  obtain ⟨live, o, hlook, -, -, -, -, hkeep⟩ := (ht m hm).live
  rw [hswept _ (ho.not_hookObject hc hm), hlook, Option.filter_some, if_pos]
  rw [Prune.spared, Bool.or_eq_true]
  -- Only a target that denotes this object could sweep it.
  by_cases hany : targets.any (fun k => k.denotes sc cfg.namespace = m.ident sc cfg)
  · obtain ⟨k, hk, hid⟩ := List.any_eq_true.mp hany
    obtain ⟨k', hk', hg, hkind, hv⟩ := version_ne_of_candidate ho hc hprev (hcandidates k hk) hm
      (of_decide_eq_true hid)
    have hannotated := hkeep (hversions k' hk' m hm hg hkind hv)
    exact .inl (by simp [Prune.shouldSkipDeletion, hannotated])
  · exact .inr (by simpa using hany)

/-- Any other object that is not a hook's is what it was before the apply, unless it is
swept. -/
theorem lookup_other_of_swept (ht : InPlace env cfg c.main w t)
    (hswept : Prune.Swept cfg (HookObject env cfg) targets t u) {id : ObjId sc}
    (hid : ¬ HookObject env cfg id) (hne : ∀ m ∈ c.main, m.ident sc cfg ≠ id) :
    u.cluster.lookup id = (w.cluster.lookup id).filter (Prune.spared sc cfg targets id) := by
  rw [hswept id hid, ht.other id hid hne]

/-- A managed object that Git does not declare survives the sweep only when it is kept: its
key left Git, so its object is a target. -/
theorem kept_of_survives (hw : Settled env cfg w)
    (hleft : ∀ k ∈ prevApplied w.stored, k ∉ ResourceKey.keysOf c.main → k ∈ targets)
    {id : ObjId sc} (hne : ∀ m ∈ c.main, m.ident sc cfg ≠ id)
    (hother : u.cluster.lookup id =
      (w.cluster.lookup id).filter (Prune.spared sc cfg targets id))
    (hmanaged : Managed cfg u.cluster id) : FormerlyApplied cfg w id ∧ Kept w.cluster id := by
  obtain ⟨live, hlook, hlabel, hhook⟩ := hmanaged
  rw [hother, Option.filter_eq_some_iff] at hlook
  obtain ⟨hbefore, hspared⟩ := hlook
  -- It was managed before, so its key was persisted or it was kept.
  obtain ⟨hformer, ⟨k, hk, hid⟩ | hkept⟩ := hw.managed id ⟨live, hbefore, hlabel, hhook⟩
  · have hgone : k ∉ ResourceKey.keysOf c.main := by
      intro hmem
      obtain ⟨m, hm, rfl⟩ := List.mem_map.mp hmem
      exact hne m hm hid
    have hany : targets.any (fun k => k.denotes sc cfg.namespace = id) = true :=
      List.any_eq_true.mpr ⟨k, hleft k hk hgone, decide_eq_true hid⟩
    rw [Prune.spared, hany] at hspared
    exact ⟨hformer, live, hbefore, by simpa [Prune.shouldSkipDeletion, hhook] using hspared⟩
  · exact ⟨hformer, hkept⟩

/-- A kept object that was formerly applied survives the sweep, and is managed. -/
theorem managed_of_kept (hw : Settled env cfg w) {id : ObjId sc}
    (hother : u.cluster.lookup id =
      (w.cluster.lookup id).filter (Prune.spared sc cfg targets id))
    (hformer : FormerlyApplied cfg w id) (hkept : Kept w.cluster id) :
    Managed cfg u.cluster id := by
  obtain ⟨hobject, hlabel⟩ := hw.former id hformer
  obtain ⟨live, hlook, hkeep⟩ := hkept
  refine ⟨live, ?_, hlabel live hlook, hw.mains id live hobject hlook⟩
  rw [hother, hlook, Option.filter_some, if_pos]
  simp [Prune.spared, Prune.shouldSkipDeletion, hkeep]

/-- After the apply, `prune` removes the managed objects that the commit does not declare,
unless they are kept, and no others that matter. -/
theorem after_prune_reconciled (ho : Orderly env cfg) (hc : Declares env cfg c)
    (hw : Settled env cfg w) (ht : InPlace env cfg c.main w t)
    (hversions : SameVersions (prevApplied w.stored) c) :
    After (Prune.prune env cfg (prevApplied w.stored) (ResourceKey.keysOf c.main)) t fun r u =>
      (∃ deleted, r = .ok deleted) ∧ Reconciled env cfg c.main w u := by
  refine (((Prune.total_prune _ _).after t).and (((keeps_prune_pruning ho _ _).after t).and
    (Prune.after_prune ho.served ho.erases ho.quiet _ _ t))).mono ?_
  rintro r u ⟨hr, hpruning, targets, hcandidates, hleft, hswept⟩
  have hhooks : HooksApart env cfg u.cluster := hpruning.hooks (ht.hooks hw.hooks)
  -- What the prune deletes is no main object of the set, so they stay as the apply left them.
  have hmain : ∀ m ∈ c.main, MainLive env cfg u.cluster m := fun m hm =>
    (ht.main m hm).congr (lookup_main_of_swept ho.regular hc (fun k hk => (hw.applied k hk).1)
      ht.main hversions hcandidates hswept hm)
  refine ⟨hr, hmain, fun id => ⟨fun hmanaged => ?_, ?_⟩, fun id hid hne => ?_, hhooks,
    fun id => (hpruning.former id).trans (ht.former id), hpruning.stateCm.trans ht.stateCm⟩
  -- What is managed after the prune is declared, or it was kept from before.
  · by_cases hmem : ∃ m ∈ c.main, m.ident sc cfg = id
    · exact .inl hmem
    · have hne : ∀ m ∈ c.main, m.ident sc cfg ≠ id := fun m hm heq => hmem ⟨m, hm, heq⟩
      have hid : ¬ HookObject env cfg id := fun h => hhooks id h hmanaged
      exact .inr (kept_of_survives hw hleft hne (lookup_other_of_swept ht hswept hid hne) hmanaged)
  · rintro (⟨m, hm, rfl⟩ | ⟨hformer, hkept⟩)
    · exact (hmain m hm).managed
    · by_cases hmem : ∃ m ∈ c.main, m.ident sc cfg = id
      · obtain ⟨m, hm, rfl⟩ := hmem
        exact (hmain m hm).managed
      · have hne : ∀ m ∈ c.main, m.ident sc cfg ≠ id := fun m hm heq => hmem ⟨m, hm, heq⟩
        have hid : ¬ HookObject env cfg id := fun h => ho.apart id h (hw.former id hformer).1
        exact managed_of_kept hw (lookup_other_of_swept ht hswept hid hne) hformer hkept
  -- What is neither declared nor a hook's was deleted or was left as it was.
  · rw [lookup_other_of_swept ht hswept hid hne]
    cases w.cluster.lookup id with
    | none => exact .inl rfl
    | some live =>
        rw [Option.filter_some]
        split
        · exact .inr rfl
        · exact .inl rfl

end AfterSweep

/-- Hooks after the sweep. -/
theorem Reconciled.before_hooks (ho : Orderly env cfg) {c : Classified} (hc : Declares env cfg c)
    {w t u : World sc} (h : Reconciled env cfg c.main w t) (h' : HookWork env cfg t u) :
    Reconciled env cfg c.main w u where
  main m hm := (h.main m hm).congr (h'.outside _ (ho.regular.not_hookObject hc hm))
  managed id := by
    by_cases hid : HookObject env cfg id
    · rw [← h.managed]
      exact iff_of_false (h'.hooks h.hooks id hid) (h.hooks id hid)
    · rw [managed_congr (h'.outside id hid), h.managed]
  other id hid hne := by
    rw [h'.outside id hid]
    exact h.other id hid hne
  hooks := h'.hooks h.hooks
  former id := (h'.former id).trans (h.former id)
  stateCm := h'.stateCm.trans h.stateCm

/-! ### The branches of a pass -/

section
variable (ho : Regular env cfg) {c : Classified} (hc : Declares env cfg c) (guard : LeaseGuard)
include ho hc

/-- The hooks before an apply do hook work. -/
theorem hookWork_preHooks (label : String) {hooks : List HookInfo}
    (hsub : ∀ h ∈ hooks, h ∈ c.hooks) :
    Keeps (hookWork env cfg) (preHooks env cfg guard label hooks) :=
  ho.benign_hookWork.preHooks (ho.allowsHooks hc hsub) guard label

/-- So do those after it. -/
theorem hookWork_postHooks (label : String) {hooks : List HookInfo}
    (hsub : ∀ h ∈ hooks, h ∈ c.hooks) :
    Keeps (hookWork env cfg) (postHooks env cfg guard label hooks) :=
  ho.benign_hookWork.postHooks (ho.allowsHooks hc hsub) guard label

/-- A hook phase that ends the pass, or lets it go on. -/
theorem after_preHooks_bind {α : Type} (label : String) {hooks : List HookInfo}
    (hsub : ∀ h ∈ hooks, h ∈ c.hooks) {rest : Pass sc α} {w : World sc}
    {Q : Except Error α → World sc → Prop}
    (herror : ∀ text t, HookWork env cfg w t → Q (.error (.hook text)) t)
    (hok : ∀ t, HookWork env cfg w t → After rest t Q) :
    After (preHooks env cfg guard label hooks >>= fun _ => rest) w Q := by
  rw [after_bind]
  refine (((hookWork_preHooks ho hc guard label hsub).after w).and
    (after_preHooks guard label hooks w)).mono ?_
  rintro _ t ⟨ht, rfl | ⟨text, rfl⟩⟩
  · exact hok t ht
  · exact herror text t ht

end

/-- The pass ends with a hook error after hook work alone, or goes on with `P`. -/
def HookErrorOr {α : Type} (env : Env sc) (cfg : Config) (w : World sc)
    (P : World sc → Prop) (r : Except Error α) (t : World sc) : Prop :=
  ((∃ text, r = .error (.hook text)) ∧ HookWork env cfg w t) ∨ ((∃ a, r = .ok a) ∧ P t)

section
variable (ho : Orderly env cfg) {c : Classified} {w : World sc} (hw : Settled env cfg w)
  (guard : LeaseGuard)
include ho hw

/-- The apply, and steps after it that do hook work and do not fail. -/
theorem after_applyAll_bind (hc : Declares env cfg c) {α : Type}
    {rest : List ResourceKey → Pass sc α} (hrest : ∀ failed, Keeps (hookWork env cfg) (rest failed))
    (htotal : ∀ failed, Total (rest failed)) {t : World sc} (ht : HookWork env cfg w t) :
    After (applyAll env cfg false c.main [] >>= rest) t
      (HookErrorOr env cfg w (InPlace env cfg c.main w)) := by
  rw [after_bind]
  refine (ho.regular.after_applyAll ho.served hc (fun _ hm => hm) (ho.regular.distinct c hc) [] t
    (ho.regular.mainsPlain_of_hookWork ht hw.mains)).mono ?_
  rintro _ u ⟨⟨failed, rfl⟩, hu⟩
  dsimp only
  refine (((hrest failed).after u).and ((htotal failed).after u)).mono ?_
  rintro r v ⟨hv, hr⟩
  exact .inr ⟨hr, (InPlace.after_hooks ht hu).before_hooks
    (fun m hm => ho.regular.not_hookObject hc hm) hv⟩

/-- A full apply puts the main objects in place. -/
theorem after_fullApplyBranch (hc : Declares env cfg c) :
    After (fullApplyBranch env cfg guard c) w
      (HookErrorOr env cfg w (InPlace env cfg c.main w)) := by
  have hB := ho.regular.benign_hookWork
  refine after_preHooks_bind ho.regular hc guard _ (fun h hh => Classified.mem_hooks.mpr (.inl hh))
    (fun text t ht => .inl ⟨⟨text, rfl⟩, ht⟩) ?_
  intro t ht
  refine after_applyAll_bind ho hw hc (fun failed => ?_) (fun failed => ?_) ht
  · refine (hB.collectForHealth c.main).bind fun _ => ?_
    exact (hookWork_postHooks ho.regular hc guard _
      fun h hh => Classified.mem_hooks.mpr (.inr (.inl hh))).bind fun _ => Keeps.pure _
  · exact (total_collectForHealth c.main).bind fun _ =>
      (total_postHooks guard _ _).bind fun _ => .pure _

/-- Where the commit is the persisted one, its main objects are in place already. -/
theorem inPlace_of_settled {sha : String}
    (hdesired : desired env sha cfg (prevApplied w.stored) = .ok c)
    (hsha : w.stored.bind (·.lastSha) = some sha) {t : World sc} (ht : HookWork env cfg w t) :
    InPlace env cfg c.main w t := by
  obtain ⟨applied, c', hc', happlied, hmain⟩ := hw.synced sha hsha
  cases desired_unique hc' hdesired
  -- Before any hook work this holds of the world as it is: the persisted keys are the
  -- commit's, and they were all applied.
  have hin : InPlace env cfg c.main w w := by
    refine ⟨hmain, fun _ _ _ => rfl, fun h => h, fun id => ⟨.inl, fun h => h.elim (fun h => h) ?_⟩,
      rfl⟩
    rintro ⟨m, hm, rfl⟩
    refine (hw.applied (.fromManifest m) ?_).2
    rw [happlied]
    exact List.mem_map.mpr ⟨m, hm, rfl⟩
  exact hin.before_hooks (fun m hm => ho.regular.not_hookObject ⟨sha, _, hdesired⟩ hm) ht

/-- A drift check puts the main objects in place, or finds them there. -/
theorem after_driftBranch {sha : String}
    (hdesired : desired env sha cfg (prevApplied w.stored) = .ok c)
    (hsha : w.stored.bind (·.lastSha) = some sha) :
    After (driftBranch env cfg guard c) w
      (HookErrorOr env cfg w (InPlace env cfg c.main w)) := by
  have hc : Declares env cfg c := ⟨sha, _, hdesired⟩
  rw [driftBranch, after_bind]
  refine (((ho.regular.benign_hookWork.detectDrift c.main).after w).and
    ((total_detectDrift c.main).after w)).mono ?_
  rintro _ t ⟨ht, ⟨drifts, live⟩, rfl⟩
  dsimp only
  rw [after_ite]
  split
  -- No drift: everything is in place as it was.
  · exact .inr ⟨⟨_, rfl⟩, inPlace_of_settled ho hw hdesired hsha ht⟩
  -- With drift the hooks come first, and each part after them leaves the main objects alone or
  -- puts them in place.
  · refine after_preHooks_bind ho.regular hc guard _
      (fun h hh => Classified.mem_hooks.mpr (.inl hh))
      (fun text u hu => .inl ⟨⟨text, rfl⟩, ht.trans hu⟩) ?_
    intro u hu
    refine after_applyAll_bind ho hw hc (fun failed => ?_) (fun failed => ?_) (ht.trans hu)
    · exact (hookWork_postHooks ho.regular hc guard _
        fun h hh => Classified.mem_hooks.mpr (.inr (.inl hh))).bind fun _ => Keeps.pure _
    · exact (total_postHooks guard _ _).bind fun _ => .pure _

/-! ### One pass -/

/-- The pass learns whether the commit changed from the persisted commit. -/
def KnowsCommit (w : World sc) (sync : SyncOutcome) : Prop :=
  sync.changed = false → w.stored.bind (·.lastSha) = some sync.sha

variable {sync : SyncOutcome} (hdesired : desired env sync.sha cfg (prevApplied w.stored) = .ok c)
  (hsync : KnowsCommit w sync) (hversions : SameVersions (prevApplied w.stored) c)
include hdesired hsync hversions

/-- A branch, and the prune, reconcile the cluster with the commit. -/
theorem after_branch :
    After (branch env cfg guard w.stored sync c) w
      (HookErrorOr env cfg w (Reconciled env cfg c.main w)) := by
  have hc : Declares env cfg c := ⟨sync.sha, _, hdesired⟩
  rw [branch, after_ite]
  split
  · rename_i hteardown
    -- A teardown: there is nothing to put in place.
    have hmain : c.main = [] := by
      rw [isTeardown, Bool.and_eq_true, List.isEmpty_iff] at hteardown
      exact hteardown.1
    refine after_preHooks_bind ho.regular hc guard _
      (fun h hh => Classified.mem_hooks.mpr (.inr (.inr (.inl hh))))
      (fun text t ht => .inl ⟨⟨text, rfl⟩, ht⟩) ?_
    intro t ht
    rw [after_bind]
    refine (after_prune_reconciled ho hc hw (by rw [hmain]; exact ht.inPlace) hversions).mono ?_
    rintro _ u ⟨⟨deleted, rfl⟩, hu⟩
    dsimp only
    rw [after_bind]
    refine (((hookWork_postHooks ho.regular hc guard "post-delete"
      (fun h hh => Classified.mem_hooks.mpr (.inr (.inr (.inr hh))))).after u).and
      ((total_postHooks guard _ _).after u)).mono ?_
    rintro _ v ⟨hv, postError, rfl⟩
    exact .inr ⟨⟨_, rfl⟩, hu.before_hooks ho hc hv⟩
  · rw [after_bind]
    have hsync' : After (syncBranch env cfg guard w.stored sync c) w
        (HookErrorOr env cfg w (InPlace env cfg c.main w)) := by
      rw [syncBranch, after_ite]
      split
      · exact after_fullApplyBranch ho hw guard hc
      · rename_i hdrift
        -- No full apply means that the commit is the persisted one.
        refine after_driftBranch ho hw guard hdesired (hsync ?_)
        simp only [shouldFullApply, Bool.or_eq_true, not_or, Bool.not_eq_true] at hdrift
        exact hdrift.2
    refine hsync'.mono ?_
    rintro _ t (⟨⟨text, rfl⟩, ht⟩ | ⟨⟨outcome, rfl⟩, ht⟩)
    · exact .inl ⟨⟨text, rfl⟩, ht⟩
    · dsimp only
      rw [after_bind]
      refine (after_prune_reconciled ho hc hw ht hversions).mono ?_
      rintro _ u ⟨⟨deleted, rfl⟩, hu⟩
      exact .inr ⟨⟨outcome, rfl⟩, hu⟩

end

/-! ### The new state -/

namespace Reconciled

variable (ho : Orderly env cfg) {c : Classified} {w t : World sc} (hw : Settled env cfg w)
  (h : Reconciled env cfg c.main w t)
include ho hw h

omit hw in
/-- A live main object after the sweep is one of the commit, or was there before. -/
theorem mem_or_before {id : ObjId sc} (hid : MainObject env cfg id) {live : Live}
    (hlook : t.cluster.lookup id = some live) :
    (∃ m ∈ c.main, m.ident sc cfg = id) ∨ w.cluster.lookup id = some live := by
  by_cases hmain : ∃ m ∈ c.main, m.ident sc cfg = id
  · exact .inl hmain
  · refine .inr ?_
    rcases h.other id (fun hhook => ho.apart id hhook hid)
      (fun m hm heq => hmain ⟨m, hm, heq⟩) with hnone | hsame
    · exact absurd (hnone.symm.trans hlook) nofun
    · exact hsame.symm.trans hlook

/-- No object of a main manifest has a hook annotation. -/
theorem mainsPlain : MainsPlain env cfg t.cluster := by
  intro id live hid hlook
  rcases h.mem_or_before ho hid hlook with ⟨m, hm, rfl⟩ | hbefore
  · obtain ⟨live', hlook', -, hhook⟩ := (h.main m hm).managed
    cases hlook.symm.trans hlook'
    exact hhook
  · exact hw.mains id live hid hbefore

omit ho in
/-- What was applied formerly and is still tracked is a main object. -/
theorem former_main (hc : Declares env cfg c) {id : ObjId sc} (hid : FormerlyApplied cfg t id) :
    MainObject env cfg id := by
  rcases (h.former id).mp hid with hf | ⟨m, hm, rfl⟩
  · exact (hw.former id hf).1
  · exact ⟨c, hc, m, hm, rfl⟩

/-- What was applied formerly and is live carries the label. -/
theorem former_labelled (hc : Declares env cfg c) {id : ObjId sc} (hid : FormerlyApplied cfg t id)
    {live : Live} (hlook : t.cluster.lookup id = some live) :
    live.object.labelled cfg.selector = true := by
  by_cases hmain : ∃ m ∈ c.main, m.ident sc cfg = id
  · obtain ⟨m, hm, rfl⟩ := hmain
    obtain ⟨live', hlook', hlabel, -⟩ := (h.main m hm).managed
    cases hlook.symm.trans hlook'
    exact hlabel
  · have hf := ((h.former id).mp hid).resolve_right hmain
    exact (hw.former id hf).2 live
      ((h.mem_or_before ho (former_main hw h hc hid) hlook).resolve_left hmain)

/-- A managed object is one of the commit's, or it is kept. -/
theorem managed_why {id : ObjId sc} (hid : Managed cfg t.cluster id) :
    FormerlyApplied cfg t id ∧
      ((∃ k ∈ ResourceKey.keysOf c.main, k.denotes sc cfg.namespace = id) ∨
        Kept t.cluster id) := by
  rw [h.former]
  by_cases hmain : ∃ m ∈ c.main, m.ident sc cfg = id
  · obtain ⟨m, hm, rfl⟩ := hmain
    exact ⟨.inr ⟨m, hm, rfl⟩, .inl ⟨_, List.mem_map.mpr ⟨m, hm, rfl⟩, rfl⟩⟩
  -- It was kept before the sweep, and the sweep did not change it.
  · obtain ⟨hf, hkept⟩ := ((h.managed id).mp hid).resolve_left hmain
    refine ⟨.inl hf, .inr ?_⟩
    obtain ⟨live, hlook, -⟩ := hid
    have hbefore := (h.mem_or_before ho (hw.former id hf).1 hlook).resolve_left hmain
    exact (kept_congr (hlook.trans hbefore.symm)).mpr hkept

/-- With the commit's keys and its revision persisted, a reconciled world is settled. -/
theorem settled {sha : String} {applied : List ResourceKey}
    (hdesired : desired env sha cfg applied = .ok c) {u : World sc}
    (hcluster : u.cluster = t.cluster)
    (hformer : ∀ id, FormerlyApplied cfg u id ↔ FormerlyApplied cfg t id) {s : State}
    (hstored : u.stored = some s) (hsha : s.lastSha = some sha)
    (happlied : s.applied = ResourceKey.keysOf c.main) : Settled env cfg u := by
  have hc : Declares env cfg c := ⟨sha, applied, hdesired⟩
  -- The keys that are stored are those of the set.
  have hprev : prevApplied u.stored = ResourceKey.keysOf c.main := by
    rw [hstored]
    exact happlied
  refine ⟨?_, ?_, fun id hid => ?_, fun id hid => ?_, fun k hk => ?_, fun sha' hsome => ?_⟩
  -- Each clause is about the cluster of the prune's end, which is the one of this state.
  · rw [hcluster]
    exact h.hooks
  · rw [hcluster]
    exact mainsPlain ho hw h
  · rw [hformer] at hid
    rw [hcluster]
    exact ⟨former_main hw h hc hid, fun live => former_labelled ho hw h hc hid⟩
  · rw [hcluster] at hid ⊢
    rw [hprev, hformer]
    exact managed_why ho hw h hid
  · rw [hprev] at hk
    obtain ⟨m, hm, rfl⟩ := List.mem_map.mp hk
    exact ⟨ho.asServed c hc m hm, (hformer _).mpr ((h.former _).mpr (.inr ⟨m, hm, rfl⟩))⟩
  -- The recorded commit is this one.
  · rw [hstored, Option.bind_some, hsha] at hsome
    cases hsome
    exact ⟨applied, c, hdesired, hprev, fun m hm => by rw [hcluster]; exact h.main m hm⟩

end Reconciled

end Reconcile

end LeanCd
