import LeanCd.Proofs.PruneSpec

/-!
# `LeanCd.Proofs.PruneTurns`: what `prune` finds and what it passes over

What is known of the two loops of `prune` for any frame that the other clients respect:

* `after_safetyNet_finds`: a key that the safety net finds is that of an object which carries the
  managed label in a world of the run, and its kind was discovered and listed there.
* `after_getObject_live`, `after_getObject_served`: an object that is read is live, and the call
  was served.
* `keeps_deleteKey_exempt`: a target whose object is exempt throughout is read and passed over.
* `keeps_turns`: what every turn keeps, the turns keep.

`ServedIn` is how the results speak of a call that was served at some point of the run.

A result of a call is turned into a fact about some world of the run, which `ServedIn` and `Found`
hold on to, since by the time it is used the others may have changed the object. The frame says
what they can have changed.
-/

set_option autoImplicit false

namespace LeanCd.Prune

open Act

variable {sc : Scopes} {env : Env sc} {cfg : Config}

/-- A managed object is live there. -/
def ManagedAt (cfg : Config) (c : Cluster sc) (id : ObjId sc) : Prop :=
  ∃ live, c.lookup id = some live ∧ live.object.labelled cfg.selector = true

/-! ### Calls that were served -/

/-- Somewhere in the run the call is answered. -/
def ServedIn (env : Env sc) (F : Frame (World sc)) (w : World sc) (req : Request sc) : Prop :=
  ∃ u, F.rel w u ∧ env.fault u.step req = .none

section
variable {F : Frame (World sc)} (hin : Interacts env F) {w t : World sc} (hwt : F.rel w t)
include hin hwt

/-- The discovery cache holds only kinds whose discovery was served. -/
theorem after_getOrResolve_served {cache : KubeUtil.DiscoveryCache}
    (hcache : ∀ g ∈ cache, ServedIn env F w (.discover g)) (g : GvkKey) :
    After (KubeUtil.getOrResolve env cache g) t fun res u => F.rel w u ∧
      ∀ cache', res = .ok cache' → ServedIn env F w (.discover g) ∧
        ∀ g ∈ cache', ServedIn env F w (.discover g) := by
  refine (((keeps_getOrResolve hin cache g).after t).mono fun _ _ h => F.trans hwt h).and ?_
  unfold KubeUtil.getOrResolve
  rw [after_ite]
  split
  -- The kind was resolved before, so the cache has the call that was served.
  next hmem =>
    intro cache' hres
    cases hres
    exact ⟨hcache g hmem, hcache⟩
  next =>
    rw [after_bind, KubeUtil.resolve, after_bind, after_attempt, after_call]
    -- The call was served now, and the cache gains the kind.
    cases hfault : env.fault t.step (.discover g) with
    | none =>
        have hserved : ServedIn env F w (.discover g) := ⟨t, hwt, hfault⟩
        intro cache' hres
        cases hres
        exact ⟨hserved, List.forall_mem_cons.mpr ⟨hserved, hcache⟩⟩
    | refused e | lost e =>
        intro cache' hres
        cases hres

/-- A list that returns was served. -/
theorem after_listAll_served (g : GvkKey) (sel : String × String) :
    After (KubeUtil.listAll env g sel) t fun res u => F.rel w u ∧
      ∀ live, res = .ok live → ServedIn env F w (.list g) ∧ live = u.cluster.list g sel := by
  refine (((keeps_listAll hin g sel).after t).mono fun _ _ h => F.trans hwt h).and ?_
  rw [KubeUtil.after_listAll]
  cases hfault : env.fault t.step (.list g) with
  | none =>
      intro live hlive
      cases hlive
      exact ⟨⟨t, hwt, hfault⟩, rfl⟩
  | refused e | lost e =>
      intro live hlive
      cases hlive

end

/-- An object that is read was read by a served call. -/
theorem after_getObject_served (g : GvkKey) (ns : Option String) (name : String) (t : World sc) :
    After (KubeUtil.getObject env cfg.namespace g ns name) t fun res _ =>
      ∀ obj, res = .ok (some obj) →
        env.fault t.step (.get g (apiFor sc g ns cfg.namespace name)) = .none := by
  -- A failure reads as no object, or is passed on.
  have hcode : ∀ (e : KubeError) (u : World sc) (R : Prop), After
      (if e.code = some 404 then return none else throw (.kube e) : Pass sc _) u
      fun res _ => ∀ obj : DynamicObject, res = .ok (some obj) → R := by
    intro e u R
    rw [after_ite]
    split
    · intro obj hobj
      cases hobj
    · intro obj hobj
      cases hobj
  rw [KubeUtil.getObject, after_bind, after_attempt, after_call]
  cases hfault : env.fault t.step (.get g (apiFor sc g ns cfg.namespace name)) with
  | none => exact After.of_forall fun _ _ _ _ => rfl
  | refused e => exact hcode _ _ _
  | lost e =>
      rw [after_serveGet]
      cases (t.called env (.get g (apiFor sc g ns cfg.namespace name))).cluster.lookup
          (apiFor sc g ns cfg.namespace name) with
      | none => exact hcode _ _ _
      | some live => exact hcode _ _ _

/-! ### The safety net -/

/-- What is known of a key that the safety net found between two worlds. -/
structure Found (env : Env sc) (cfg : Config) (F : Frame (World sc)) (w t : World sc)
    (k : ResourceKey) : Prop where
  discovered : ServedIn env F w (.discover k.gvk)
  listed : ServedIn env F w (.list k.gvk)
  managed : ∃ u, F.rel w u ∧ F.rel u t ∧ LabelledLive cfg u.cluster k

/-- What was found in a part of a run was found in more of it. -/
theorem Found.mono {F : Frame (World sc)} {w t t' : World sc} {k : ResourceKey}
    (h : Found env cfg F w t k) (ht : F.rel t t') : Found env cfg F w t' k where
  discovered := h.discovered
  listed := h.listed
  managed := by
    obtain ⟨u, hwu, hut, hlabelled⟩ := h.managed
    exact ⟨u, hwu, F.trans hut ht, hlabelled⟩

/-- What is known of the result of the safety net. -/
def Finds (env : Env sc) (cfg : Config) (F : Frame (World sc)) (w t : World sc)
    (res : Except Error (List ResourceKey × KubeUtil.DiscoveryCache)) : Prop :=
  F.rel w t ∧ ∀ found cache, res = .ok (found, cache) →
    (∀ g ∈ cache, ServedIn env F w (.discover g)) ∧ ∀ k ∈ found, Found env cfg F w t k

/-- Nothing was found where nothing was looked for. -/
theorem finds_nil {F : Frame (World sc)} {w t : World sc} (hwt : F.rel w t)
    {cache : KubeUtil.DiscoveryCache} (hcache : ∀ g ∈ cache, ServedIn env F w (.discover g)) :
    Finds env cfg F w t (.ok ([], cache)) := by
  refine ⟨hwt, ?_⟩
  intro found cache' hres
  cases hres
  exact ⟨hcache, List.forall_mem_nil _⟩

/-- A failed safety net has found nothing. -/
theorem finds_error {F : Frame (World sc)} {w t : World sc} (hwt : F.rel w t) (e : Error) :
    Finds env cfg F w t (.error e) := by
  refine ⟨hwt, ?_⟩
  intro found cache hres
  cases hres

section
variable {F : Frame (World sc)} (hin : Interacts env F) (current : List ResourceKey)
include hin

/-- A kind of the safety net, with the calls that it made. -/
theorem after_safetyNetKind_finds {w t : World sc} (hwt : F.rel w t)
    {cache : KubeUtil.DiscoveryCache} (hcache : ∀ g ∈ cache, ServedIn env F w (.discover g))
    (g : GvkKey) :
    After (safetyNetKind env cfg current cache g) t fun res u => Finds env cfg F w u res := by
  rw [safetyNetKind, after_bind, after_attempt]
  refine (after_getOrResolve_served hin hwt hcache g).mono ?_
  intro res u hu
  cases res with
  | error e => exact finds_nil hu.1 hcache
  | ok cache' =>
      obtain ⟨hdiscovered, hcache'⟩ := hu.2 cache' rfl
      dsimp only
      rw [after_bind, after_attempt]
      refine (after_listAll_served hin hu.1 g cfg.selector).mono ?_
      intro res v hv
      cases res with
      | error e => exact finds_nil hv.1 hcache'
      | ok live =>
          obtain ⟨hlisted, rfl⟩ := hv.2 live rfl
          refine ⟨hv.1, ?_⟩
          intro found cache'' hres
          cases hres
          refine ⟨hcache', fun k hk => ?_⟩
          -- A listed object carries the label in the world of the list.
          obtain ⟨hkind, hlabelled⟩ := mem_list_keys.mp (List.mem_filter.mp hk).1
          exact ⟨hkind ▸ hdiscovered, hkind ▸ hlisted, v, hv.1, F.refl v, hlabelled⟩

/-- The safety net finds keys of kinds that were discovered and listed, whose object carries the
label at some point of the run. -/
theorem after_safetyNet_finds (gvks : List GvkKey) {w t : World sc} (hwt : F.rel w t)
    {cache : KubeUtil.DiscoveryCache} (hcache : ∀ g ∈ cache, ServedIn env F w (.discover g)) :
    After (safetyNet env cfg current gvks cache) t fun res u => Finds env cfg F w u res := by
  induction gvks generalizing cache t with
  | nil => exact finds_nil hwt hcache
  | cons g rest ih =>
      rw [safetyNet, after_bind]
      refine (after_safetyNetKind_finds hin current hwt hcache g).mono ?_
      intro res u hu
      cases res with
      | error e => exact finds_error hu.1 e
      | ok first =>
          obtain ⟨hcache', hfirst⟩ := hu.2 first.1 first.2 rfl
          dsimp only
          rw [after_bind]
          refine ((ih hu.1 hcache').and ((keeps_safetyNet hin current rest first.2).after u)).mono
            ?_
          intro res v hv
          obtain ⟨hv, huv⟩ := hv
          cases res with
          | error e => exact finds_error hv.1 e
          | ok more =>
              obtain ⟨hcache'', hmore⟩ := hv.2 more.1 more.2 rfl
              refine ⟨hv.1, ?_⟩
              intro found last hres
              cases hres
              refine ⟨hcache'', fun k hk => ?_⟩
              -- What was found first is still true after the other kinds.
              rcases List.mem_append.mp hk with hk | hk
              · exact (hfirst k hk).mono huv
              · exact hmore k hk

end

/-! ### The turns -/

/-- What `get` finds is live. -/
theorem after_getObject_live (g : GvkKey) (ns : Option String) (name : String) (w : World sc) :
    After (KubeUtil.getObject env cfg.namespace g ns name) w fun r t =>
      ∀ obj, r = .ok (some obj) → ∃ live,
        t.cluster.lookup (apiFor sc g ns cfg.namespace name) = some live ∧
        obj = serve (apiFor sc g ns cfg.namespace name) live := by
  -- A 404 means no object. Any other error ends the function.
  have hcode : ∀ (e : KubeError) (t : World sc), After
      (if e.code = some 404 then return none else throw (.kube e) : Pass sc _) t
      fun r t => ∀ obj, r = .ok (some obj) → ∃ live,
        t.cluster.lookup (apiFor sc g ns cfg.namespace name) = some live ∧
        obj = serve (apiFor sc g ns cfg.namespace name) live := by
    intro e t
    rw [after_ite]
    split
    · intro obj hobj
      cases hobj
    · intro obj hobj
      cases hobj
  rw [KubeUtil.getObject, after_bind, after_attempt, after_call]
  cases env.fault w.step (.get g (apiFor sc g ns cfg.namespace name)) with
  | none =>
      rw [after_serveGet]
      cases hl : (w.called env (.get g (apiFor sc g ns cfg.namespace name))).cluster.lookup
          (apiFor sc g ns cfg.namespace name) with
      | none => exact hcode _ _
      | some live =>
          intro obj hobj
          cases hobj
          exact ⟨live, hl, rfl⟩
  | refused e => exact hcode _ _
  -- The answer was lost. The caller learns of an error.
  | lost e =>
      rw [after_serveGet]
      cases (w.called env (.get g (apiFor sc g ns cfg.namespace name))).cluster.lookup
          (apiFor sc g ns cfg.namespace name) with
      | none => exact hcode _ _
      | some live => exact hcode _ _

/-- The turn of a key ends with the read when the object it denotes is exempt. -/
theorem keeps_deleteKey_exempt {P : World sc → Prop} (hin : Interacts env (.preserves P))
    {key : ResourceKey} (hexempt : ∀ t, P t → ∀ live,
      t.cluster.lookup (key.denotes sc cfg.namespace) = some live →
        shouldSkipDeletion live.object = true)
    (cache : KubeUtil.DiscoveryCache) :
    Keeps (.preserves P) (deleteKey env cfg cache key) := by
  intro t ht
  have hall : After (deleteKey env cfg cache key) t fun res u =>
      ∃ gone cache', res = .ok (gone, cache') ∧ P u := by
    -- The object is exempt wherever the read saw it, so no delete is sent.
    refine after_deleteKey_of (Q := fun _ _ u => P u) ?_
    refine ((keeps_getOrResolve hin cache key.gvk).after t).mono ?_
    intro res u hu
    refine ⟨fun _ _ => hu ht, fun cache' _ => ?_⟩
    refine (((keeps_getObject hin cfg.namespace key.gvk key.ns key.name).after u).and
      (after_getObject_live key.gvk key.ns key.name u)).mono ?_
    intro res v hv
    have hkept : P v := hv.1 (hu ht)
    refine ⟨fun _ => hkept, fun obj hobj hskip => ?_⟩
    obtain ⟨live, hlook, rfl⟩ := hv.2 obj hobj
    rw [shouldSkipDeletion_serve, hexempt v hkept live hlook] at hskip
    cases hskip
  obtain ⟨_, _, -, hkept⟩ := hall
  exact hkept

/-- What every turn keeps, the turns keep. -/
theorem keeps_turns {F : Frame (World sc)} {keys : List ResourceKey}
    (hturn : ∀ k ∈ keys, ∀ cache, Keeps F (deleteKey env cfg cache k))
    (cache : KubeUtil.DiscoveryCache) : Keeps F (deleteKeys env cfg keys cache) := by
  induction keys generalizing cache with
  | nil => exact Keeps.pure _
  | cons key rest ih =>
      refine (hturn key List.mem_cons_self cache).bind fun r => ?_
      exact (ih (fun k hk => hturn k (List.mem_cons_of_mem key hk)) r.2).bind fun _ => Keeps.pure _

end LeanCd.Prune
