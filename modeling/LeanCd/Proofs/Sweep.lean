import LeanCd.Proofs.PassFrames

/-!
# `LeanCd.Proofs.Sweep`: the cluster after `prune`

Where every call is served and a delete removes the object at once, `prune` is a sweep
over its targets: an object that a target denotes is gone, unless it is exempt, and
every other object is as it was. Other clients may change the objects of a set `H`,
about which nothing is said.

`after_prune` is the sweep, with what is known of the targets.

The sweep follows the targets one by one: each turn takes its object away or leaves it because it
is exempt, and the others stay as they were. Two targets may denote one object, and then the
second finds it gone.
-/

set_option autoImplicit false

namespace LeanCd

open Act

variable {sc : Scopes} {env : Env sc} {cfg : Config} {α : Type} {H : ObjId sc → Prop}

/-- Every call is served. -/
def Env.Served (env : Env sc) : Prop := ∀ n req, env.fault n req = .none

/-- A delete removes the object at once. -/
def Env.Erases (env : Env sc) : Prop := ∀ n id live, env.onDelete n id live = none

/-- Nobody else changes an object outside the set. -/
def Env.QuietOutside (env : Env sc) (H : ObjId sc → Prop) : Prop :=
  ∀ n c id, ¬ H id → (env.others n c).lookup id = c.lookup id

/-- The objects outside the set are as they were. -/
def outside (H : ObjId sc → Prop) : Frame (World sc) where
  rel w t := ∀ id, ¬ H id → t.cluster.lookup id = w.cluster.lookup id
  refl _ _ _ := rfl
  trans h₁ h₂ id hid := (h₂ id hid).trans (h₁ id hid)

/-- Where the others keep to a set of objects, an interaction leaves the rest as it is. -/
theorem Env.QuietOutside.benign (hq : env.QuietOutside H) : Benign env (outside H) where
  tick w id hid := hq w.step w.cluster id hid
  transmit _ _ _ _ := rfl
  sleep _ _ _ _ := rfl
  lease _ _ _ _ _ := rfl

/-- A served call does what the server does. -/
theorem Env.Served.after_call (hs : env.Served) {req : Request sc} {act : Pass sc α}
    {w : World sc} {Q : Except Error α → World sc → Prop} :
    After (call env req act) w Q ↔ After act (w.called env req) Q := by
  rw [LeanCd.after_call, hs]

/-- A served discovery succeeds. -/
theorem Env.Served.after_getOrResolve (hs : env.Served) (cache : KubeUtil.DiscoveryCache)
    (g : GvkKey) (w : World sc) :
    After (KubeUtil.getOrResolve env cache g) w fun r _ => ∃ cache', r = .ok cache' := by
  unfold KubeUtil.getOrResolve
  rw [after_ite]
  split
  · exact ⟨cache, rfl⟩
  · rw [after_bind, KubeUtil.resolve, after_bind, after_attempt, hs.after_call]
    exact ⟨g :: cache, rfl⟩

/-- A served attempt to apply notes its start, patches the object that it sends, and does not
fail. -/
theorem Env.Served.after_attemptApply (hs : env.Served) {m : RawManifest} {o : DynamicObject}
    {id : ObjId sc} (hsends : Sends env cfg m o id) {cache : KubeUtil.DiscoveryCache}
    {F : Frame (World sc)} (hresolve : Keeps F (KubeUtil.getOrResolve env cache m.gvk))
    {w : World sc} {Q : Except Error (Bool × KubeUtil.DiscoveryCache) → World sc → Prop}
    (h : ∀ t cache', F.rel w t → After (KubeUtil.servePatch env id o false)
      ({ t with trace := .applyStarted (.fromManifest m) :: t.trace }.called env
        (.patch m.gvk id false))
      fun _ u => Q (.ok (false, cache')) u) :
    After (Reconcile.attemptApply env cfg false m cache) w Q := by
  -- The body decodes and has a name, so the patch is sent.
  obtain ⟨value, name, hvalue, hdecoded, hname, rfl⟩ := hsends
  rw [Reconcile.attemptApply, after_bind, after_attempt]
  refine ((hs.after_getOrResolve cache m.gvk w).and (hresolve.after w)).mono ?_
  rintro _ t ⟨⟨cache', rfl⟩, hwt⟩
  dsimp only
  rw [hvalue]
  dsimp only
  rw [after_bind, note, after_modify]
  dsimp only
  rw [after_bind, after_attempt, KubeUtil.apply, hdecoded]
  dsimp only
  rw [hname]
  dsimp only
  -- All calls are served, so the state after the patch is the server's.
  rw [hs.after_call]
  exact h t cache' hwt

/-- A served read returns the object, if there is one. -/
theorem Env.Served.after_getObject (hs : env.Served) {defaultNs : String} {g : GvkKey}
    {ns : Option String} {name : String} {w : World sc}
    {Q : Except Error (Option DynamicObject) → World sc → Prop} :
    After (KubeUtil.getObject env defaultNs g ns name) w Q ↔
      Q (.ok (((w.called env (.get g (apiFor sc g ns defaultNs name))).cluster.lookup
        (apiFor sc g ns defaultNs name)).map (serve (apiFor sc g ns defaultNs name))))
        (w.called env (.get g (apiFor sc g ns defaultNs name))) := by
  rw [KubeUtil.getObject, after_bind, after_attempt, hs.after_call, after_serveGet]
  cases (w.called env (.get g (apiFor sc g ns defaultNs name))).cluster.lookup
    (apiFor sc g ns defaultNs name) <;> rfl

/-- A delete that does not remove the object at once marks it, and changes neither its
labels nor its annotations. -/
def Env.MarksOnly (env : Env sc) : Prop :=
  ∀ n id live marked, env.onDelete n id live = some marked →
    marked.object.metadata.labels = live.object.metadata.labels ∧
    marked.object.metadata.annotations = live.object.metadata.annotations

/-- What is live after a delete was live before, as it is or before it was marked. -/
theorem live_before_delete (id : ObjId sc) (w : World sc) :
    After (KubeUtil.serveDelete env id) w fun _ t => t.step = w.step ∧ ∀ id' live',
      t.cluster.lookup id' = some live' → ∃ live, w.cluster.lookup id' = some live ∧
        (live' = live ∨ env.onDelete w.step id live = some live') := by
  rw [Prune.after_serveDelete]
  -- Nothing is there to delete.
  cases hlook : w.cluster.lookup id with
  | none => exact ⟨rfl, fun id' live' hlive' => ⟨live', hlive', .inl rfl⟩⟩
  | some live =>
      refine ⟨rfl, ?_⟩
      intro id' live' hlive'
      dsimp only at hlive'
      cases hmark : env.onDelete w.step id live with
      -- Without finalizers it goes.
      | none =>
          rw [hmark] at hlive'
          by_cases hid : id' = id
          · rw [hid, AList.lookup_erase] at hlive'
            cases hlive'
          · rw [AList.lookup_erase_ne hid] at hlive'
            exact ⟨live', hlive', .inl rfl⟩
      | some marked =>
          -- With finalizers it stays, marked, and the others are as they were.
          rw [hmark] at hlive'
          by_cases hid : id' = id
          · rw [hid, AList.lookup_insert] at hlive'
            obtain rfl := Option.some.inj hlive'
            exact ⟨live, hid ▸ hlook, .inr hmark⟩
          · rw [AList.lookup_insert_ne hid] at hlive'
            exact ⟨live', hlive', .inl rfl⟩

/-- A mark leaves the labels and annotations as they are, so whether the object is exempt or
managed stays the same. -/
theorem Env.MarksOnly.same (h : env.MarksOnly) (cfg : Config) {n : Nat} {id : ObjId sc}
    {live live' : Live} (hmark : live' = live ∨ env.onDelete n id live = some live') :
    Prune.shouldSkipDeletion live'.object = Prune.shouldSkipDeletion live.object ∧
      live'.object.labelled cfg.selector = live.object.labelled cfg.selector := by
  rcases hmark with rfl | hmark
  · exact ⟨rfl, rfl⟩
  · obtain ⟨hlabels, hannos⟩ := h _ _ _ _ hmark
    constructor
    · simp only [Prune.shouldSkipDeletion, DynamicObject.annotation, hannos]
    · simp only [DynamicObject.labelled, DynamicObject.label, hlabels]

namespace Prune

/-- No key denotes the object, or it is exempt. -/
def spared (sc : Scopes) (cfg : Config) (keys : List ResourceKey) (id : ObjId sc)
    (live : Live) : Bool :=
  shouldSkipDeletion live.object || !keys.any fun k => k.denotes sc cfg.namespace = id

/-- Outside the set, exactly the spared objects are left. -/
def Swept (cfg : Config) (H : ObjId sc → Prop) (keys : List ResourceKey) (w t : World sc) :
    Prop :=
  ∀ id, ¬ H id → t.cluster.lookup id = (w.cluster.lookup id).filter (spared sc cfg keys id)

/-- One sweep after another. -/
theorem Swept.trans {key : ResourceKey} {keys : List ResourceKey} {w t u : World sc}
    (h : Swept cfg H [key] w t) (h' : Swept cfg H keys t u) : Swept cfg H (key :: keys) w u := by
  intro id hid
  rw [h' id hid, h id hid, Option.filter_filter]
  congr 1
  funext live
  simp only [spared, List.any_cons, List.any_nil]
  -- An exempt object passes both filters. Any other passes both when neither the key nor
  -- the keys denote it.
  cases shouldSkipDeletion live.object <;> simp

/-- A sweep that finds nothing. -/
theorem swept_of_outside {key : ResourceKey} {w t : World sc} (h : (outside H).rel w t)
    (hspared : ¬ H (key.denotes sc cfg.namespace) → ∀ live,
      w.cluster.lookup (key.denotes sc cfg.namespace) = some live →
        shouldSkipDeletion live.object = true) : Swept cfg H [key] w t := by
  intro id hid
  rw [h id hid]
  cases hlook : w.cluster.lookup id with
  | none => rfl
  | some live =>
      rw [Option.filter_some, if_pos]
      by_cases heq : key.denotes sc cfg.namespace = id
      · subst heq
        simp [spared, hspared hid live hlook]
      · simp [spared, heq]

/-- A sweep that finds an object, and erases it. -/
theorem swept_of_erase {key : ResourceKey} {w t u : World sc} (h : (outside H).rel w t)
    (hfound : ¬ H (key.denotes sc cfg.namespace) → ∃ live,
      w.cluster.lookup (key.denotes sc cfg.namespace) = some live ∧
        shouldSkipDeletion live.object = false)
    (hu : u.cluster = t.cluster.erase (key.denotes sc cfg.namespace)) :
    Swept cfg H [key] w u := by
  intro id hid
  rw [hu]
  by_cases heq : key.denotes sc cfg.namespace = id
  · subst heq
    obtain ⟨live, hlook, hskip⟩ := hfound hid
    rw [hlook, Option.filter_some, if_neg (by simp [spared, hskip])]
    exact AList.lookup_erase _ _
  · rw [AList.lookup_erase_ne fun h => heq h.symm, h id hid]
    cases w.cluster.lookup id with
    | none => rfl
    | some live => rw [Option.filter_some, if_pos (by simp [spared, heq])]

section
variable (hs : env.Served) (he : env.Erases) (hq : env.QuietOutside H)
include hs he hq

/-- Deleting one key. -/
theorem after_deleteKey (cache : KubeUtil.DiscoveryCache) (key : ResourceKey) (w : World sc) :
    After (deleteKey env cfg cache key) w fun r t => ∃ gone cache', r = .ok (gone, cache') ∧
      Swept cfg H [key] w t := by
  have hB := hq.benign
  refine after_deleteKey_of (((hs.after_getOrResolve cache key.gvk w).and
    ((keeps_getOrResolve hB.toInteracts cache key.gvk).after w)).mono ?_)
  intro r t h
  obtain ⟨⟨cache', rfl⟩, hwt⟩ := h
  refine ⟨by simp, ?_⟩
  intro cache'' _
  have hwt' := (outside H).trans hwt (hB.called (.get key.gvk (key.denotes sc cfg.namespace)) t)
  rw [hs.after_getObject]
  -- Nobody else changes the object between the read and the delete, so what the two calls
  -- see is the object of before.
  constructor
  · intro hno
    refine swept_of_outside hwt' ?_
    intro hid live hlive
    rw [← shouldSkipDeletion_serve (key.denotes sc cfg.namespace)]
    exact hno _ (congrArg (fun found => Except.ok (Option.map _ found)) ((hwt' _ hid).trans hlive))
  · intro obj hobj hskip
    rw [KubeUtil.delete, hs.after_call, after_serveDelete]
    have hwu := (outside H).trans hwt' (hB.called
      (.delete key.gvk (key.denotes sc cfg.namespace)) _)
    cases hthen : ((t.called env (.get key.gvk (apiFor sc key.gvk key.ns cfg.namespace
        key.name))).called env (.delete key.gvk (apiFor sc key.gvk key.ns cfg.namespace
        key.name))).cluster.lookup (apiFor sc key.gvk key.ns cfg.namespace key.name) with
    | none =>
        refine swept_of_outside hwu ?_
        intro hid live hlive
        rw [← hwu _ hid] at hlive
        cases hthen.symm.trans hlive
    | some live' =>
        obtain ⟨live, hlook, rfl⟩ := Option.map_eq_some_iff.mp (Except.ok.inj hobj)
        refine swept_of_erase hwu ?_ ?_
        · intro hid
          -- The object that was read is the one of before the sweep.
          exact ⟨live, (hwt' _ hid).symm.trans hlook, by simpa using hskip⟩
        · dsimp only
          rw [he]
          rfl

/-- Deleting the keys in turn. -/
theorem after_deleteKeys (cache : KubeUtil.DiscoveryCache) (keys : List ResourceKey)
    (w : World sc) :
    After (deleteKeys env cfg keys cache) w fun _ t => Swept cfg H keys w t := by
  induction keys generalizing cache w with
  | nil =>
      -- Nothing is deleted, so every object is spared.
      intro id _
      show w.cluster.lookup id = _
      cases w.cluster.lookup id with
      | none => rfl
      | some live =>
          rw [Option.filter_some, if_pos (by simp [spared])]
  | cons key rest ih =>
      rw [deleteKeys, after_bind]
      refine (after_deleteKey hs he hq cache key w).mono ?_
      rintro _ t ⟨gone, cache', rfl, ht⟩
      dsimp only
      rw [after_bind]
      refine (ih cache' t).mono ?_
      intro r u hu
      cases r with
      | ok deleted => exact ht.trans hu
      | error e => exact ht.trans hu

/-- `prune` sweeps over candidates, among them every key that left Git. -/
theorem after_prune (prev current : List ResourceKey) (w : World sc) :
    After (prune env cfg prev current) w fun _ t => ∃ targets,
      (∀ k ∈ targets, Candidate sc prev current k) ∧ (∀ k ∈ prev, k ∉ current → k ∈ targets) ∧
        Swept cfg H targets w t := by
  have hB := hq.benign
  rw [prune, after_bind]
  refine (((returns_hashGvks _).after w).and
    (((keeps_hashGvks hB.toInteracts _).after w).and ((total_hashGvks _).after w))).mono ?_
  rintro _ t ⟨hgvks, hwt, gvks, rfl⟩
  dsimp only
  rw [after_bind]
  refine (((returns_safetyNet current gvks []).after t).and
    (((keeps_safetyNet hB.toInteracts current gvks []).after t).and
      ((total_safetyNet current gvks []).after t))).mono ?_
  rintro _ u ⟨hfound, htu, found, rfl⟩
  dsimp only
  rw [after_bind]
  refine (((returns_hashKeys _).after u).and
    (((keeps_hashKeys hB.toInteracts _).after u).and ((total_hashKeys _).after u))).mono ?_
  rintro _ v ⟨htargets, huv, targets, rfl⟩
  refine (after_deleteKeys hs he hq found.2 targets v).mono ?_
  intro _ x hx
  have hmem := htargets targets rfl
  refine ⟨targets, fun k hk => ?_, fun k hk hgone => ?_, fun id hid => ?_⟩
  -- A target left the applied set, or was found by the safety net.
  · rcases List.mem_append.mp ((hmem k).mp hk) with hk | hk
    · obtain ⟨hprev, hgone⟩ := List.mem_filter.mp hk
      exact ⟨by simpa using hgone, .inl hprev⟩
    · obtain ⟨hgone, hg, hserved⟩ := hfound found rfl k hk
      exact ⟨hgone, .inr ⟨(hgvks gvks rfl _).mp hg, hserved⟩⟩
  · exact (hmem k).mpr (List.mem_append_left _ (List.mem_filter.mpr ⟨hk, by simpa using hgone⟩))
  · rw [hx id hid, (outside H).trans hwt ((outside H).trans htu huv) id hid]

end

end Prune

end LeanCd
