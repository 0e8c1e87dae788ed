import LeanCd.Lib.Transition
import LeanCd.Proofs.PlainCrates
import LeanCd.Proofs.Settled
import LeanCd.Proofs.WholePass

/-!
# `LeanCd.Proofs.Orphans`: what the next `prune` can still find

`prune` finds an orphan by its key or by its kind, and both come from the persisted
applied set, which every pass replaces by the keys of its commit. A delete that fails is
tried again as long as the kind is still declared. When the last resource of a kind
leaves Git, nothing of the kind is persisted any more, whether or not the deletes went
through.

`Tracked` says that every orphan can be found. `tracked_of_reachable` proves it for every
run in which the calls about an object go through in the pass that stops declaring its
kind, and `teardown_forgets` is a run of two passes in which they do not.

`Clears` is what the condition asks of one pass about one object: the calls about it are served
and its delete goes through. The list call is asked for only where no persisted key denotes the
object, since a key that is persisted is taken up without the list. That the object comes back to
life as an orphan between two passes is excluded by `Clearing`.
-/

set_option autoImplicit false

namespace LeanCd

open Act

variable {sc : Scopes} {env : Env sc} {cfg : Config}

namespace Prune

/-! ### Orphans -/

/-- A live object that carries the managed label and is not exempt. -/
def Prunable (cfg : Config) (c : Cluster sc) (id : ObjId sc) : Prop :=
  ∃ live, c.lookup id = some live ∧ live.object.labelled cfg.selector = true ∧
    shouldSkipDeletion live.object = false

/-- The key is of the kind of the object. -/
def SameKind (k : ResourceKey) (id : ObjId sc) : Prop := k.group = id.group ∧ k.kind = id.kind

/-- The kind of an object under a version. -/
def gvkOf (id : ObjId sc) (version : String) : GvkKey := ⟨id.group, version, id.kind⟩

/-- A key of the applied set is that of the object. -/
def Keyed (cfg : Config) (prev : List ResourceKey) (id : ObjId sc) : Prop :=
  ∃ k ∈ prev, k.denotes sc cfg.namespace = id

/-- The calls about an object go through, under every version of its kind, and a delete
removes it at once. Its kind need not be listed where the applied set has its key. -/
structure Clears (env : Env sc) (cfg : Config) (prev : List ResourceKey) (id : ObjId sc) :
    Prop where
  discover : ∀ n v, env.fault n (.discover (gvkOf id v)) = .none
  list : ¬ Keyed cfg prev id → ∀ n v, env.fault n (.list (gvkOf id v)) = .none
  get : ∀ n v, env.fault n (.get (gvkOf id v) id) = .none
  delete : ∀ n v, env.fault n (.delete (gvkOf id v) id) = .none
  erases : ∀ n live, env.onDelete n id live = none

/-- The object does not become prunable. -/
def fades (cfg : Config) (id : ObjId sc) : Frame (World sc) where
  rel w t := Prunable cfg t.cluster id → Prunable cfg w.cluster id
  refl _ h := h
  trans h₁ h₂ h := h₁ (h₂ h)

/-- A key of an object's kind has that kind in some version. -/
theorem SameKind.gvk {k : ResourceKey} {id : ObjId sc} (h : SameKind k id) :
    k.gvk = gvkOf id k.version := by
  rw [gvkOf, ← h.1, ← h.2]
  rfl

/-- A key that denotes an object is of its kind. -/
theorem sameKind_of_denotes {k : ResourceKey} {id : ObjId sc}
    (h : k.denotes sc cfg.namespace = id) : SameKind k id := by
  rw [← h]
  exact ⟨rfl, rfl⟩

/-- A delete makes nothing prunable. -/
theorem keeps_serveDelete_fades (hm : env.MarksOnly) (id id' : ObjId sc) :
    Keeps (fades cfg id) (KubeUtil.serveDelete env id') := by
  intro w
  rintro ⟨live', hlook', hlabel', hskip'⟩
  obtain ⟨live, hlook, hmark⟩ := (@live_before_delete _ env id' w).2 id live' hlook'
  obtain ⟨hskip, hlabel⟩ := hm.same cfg hmark
  exact ⟨live, hlook, hlabel ▸ hlabel', hskip ▸ hskip'⟩

/-! ### Deleting it -/

section
variable {id : ObjId sc} {prev : List ResourceKey} (hc : Clears env cfg prev id)
include hc

/-- A kind whose discovery goes through is resolved. -/
theorem Clears.after_getOrResolve (cache : KubeUtil.DiscoveryCache) (v : String) (w : World sc) :
    After (KubeUtil.getOrResolve env cache (gvkOf id v)) w fun r _ => ∃ cache', r = .ok cache' := by
  unfold KubeUtil.getOrResolve
  rw [after_ite]
  split
  · exact ⟨cache, rfl⟩
  · rw [after_bind, KubeUtil.resolve, after_bind, after_attempt, after_call, hc.discover]
    exact ⟨gvkOf id v :: cache, rfl⟩

/-- A candidate that denotes the object leaves it gone or exempt. -/
theorem Clears.after_deleteKey {key : ResourceKey} (hkey : key.denotes sc cfg.namespace = id)
    (cache : KubeUtil.DiscoveryCache) (w : World sc) :
    After (deleteKey env cfg cache key) w fun _ t => ¬ Prunable cfg t.cluster id := by
  have hgvk : key.gvk = gvkOf id key.version := (sameKind_of_denotes hkey).gvk
  have hid : apiFor sc key.gvk key.ns cfg.namespace key.name = id := hkey
  rw [deleteKey, after_bind, after_attempt, hgvk]
  refine (hc.after_getOrResolve cache key.version w).mono ?_
  rintro _ t ⟨cache', rfl⟩
  dsimp only
  rw [after_bind, after_attempt, KubeUtil.getObject, ← hgvk, hid, after_bind, after_attempt,
    after_call, hgvk, hc.get, after_serveGet]
  cases hlook : (t.called env (.get (gvkOf id key.version) id)).cluster.lookup id with
  -- The object was gone before, and stays so.
  | none =>
      rintro ⟨live, hlive, -⟩
      cases hlook.symm.trans hlive
  | some live =>
      dsimp only
      rw [after_pure]
      dsimp only
      rw [shouldSkipDeletion_serve, after_ite]
      split
      -- An exempt object is not `Prunable` to begin with.
      · rename_i hskip
        rintro ⟨live', hlive, -, hskip'⟩
        cases hlook.symm.trans hlive
        rw [hskip] at hskip'
        cases hskip'
      · rw [after_bind, after_attempt, KubeUtil.delete, ← hgvk, hid, after_call, hgvk, hc.delete,
          after_serveDelete]
        cases hlook' : ((t.called env (.get (gvkOf id key.version) id)).called env
            (.delete (gvkOf id key.version) id)).cluster.lookup id with
        -- It went between the read and the delete.
        | none =>
            rintro ⟨live', hlive, -⟩
            cases hlook'.symm.trans hlive
        -- The delete was served and erases at once.
        | some live' =>
            dsimp only
            rw [hc.erases]
            rintro ⟨live'', hlive, -⟩
            cases (AList.lookup_erase _ _).symm.trans hlive

/-- A list of its kind finds a prunable object that Git does not declare. -/
theorem Clears.after_safetyNetKind (hkeyed : ¬ Keyed cfg prev id) (current : List ResourceKey)
    (hcurrent : ∀ k ∈ current, k.denotes sc cfg.namespace ≠ id)
    (cache : KubeUtil.DiscoveryCache) (v : String)
    (w : World sc) :
    After (safetyNetKind env cfg current cache (gvkOf id v)) w fun r t =>
      ∀ found cache', r = .ok (found, cache') → Prunable cfg t.cluster id →
        ∃ k ∈ found, k.denotes sc cfg.namespace = id := by
  rw [safetyNetKind, after_bind, after_attempt]
  refine (hc.after_getOrResolve cache v w).mono ?_
  rintro _ t ⟨cache', rfl⟩
  dsimp only
  rw [after_bind, after_attempt, KubeUtil.after_listAll, hc.list hkeyed]
  rintro found cache'' hr ⟨live, hlook, hlabel, -⟩
  cases hr
  have hid : (ResourceKey.fromDynamic (serve id live) (gvkOf id v)).denotes sc cfg.namespace =
      id := ObjId.ext rfl rfl (Scope.place_eq_self id.fits _) rfl
  refine ⟨_, List.mem_filter.mpr ⟨List.mem_map.mpr ⟨serve id live, ?_, rfl⟩, ?_⟩, hid⟩
  · exact Cluster.mem_list.mpr ⟨id, live, hlook, rfl, rfl, hlabel, rfl⟩
  · -- No declared key denotes the object, so the listed key is none of them.
    rw [decide_eq_true_eq]
    exact fun hmem => hcurrent _ hmem hid

variable (hin : Interacts env (fades cfg id))
include hin

/-- The safety net finds an orphan when its list call is served: the object is labelled, and no
current key denotes it. -/
theorem Clears.after_safetyNet (hkeyed : ¬ Keyed cfg prev id) (current : List ResourceKey)
    (hcurrent : ∀ k ∈ current, k.denotes sc cfg.namespace ≠ id) {v : String} (gvks : List GvkKey)
    (hv : gvkOf id v ∈ gvks) (cache : KubeUtil.DiscoveryCache) (w : World sc) :
    After (safetyNet env cfg current gvks cache) w fun r t =>
      ∀ found cache', r = .ok (found, cache') → Prunable cfg t.cluster id →
        ∃ k ∈ found, k.denotes sc cfg.namespace = id := by
  induction gvks generalizing cache w with
  | nil => cases hv
  | cons g rest ih =>
      rw [safetyNet]
      refine After.bind_ok (by simp) ?_
      by_cases hg : g = gvkOf id v
      -- Its own kind comes up. What follows lists other kinds and creates nothing.
      · subst hg
        refine (hc.after_safetyNetKind hkeyed current hcurrent cache v w).mono ?_
        rintro r t ht first rfl
        refine After.bind_ok (by simp) ?_
        refine ((keeps_safetyNet hin current rest first.2).after t).mono ?_
        rintro _ u hu more rfl found cache' hr hp
        cases hr
        obtain ⟨k, hk, hid⟩ := ht first.1 first.2 rfl (hu hp)
        exact ⟨k, List.mem_append_left _ hk, hid⟩
      -- Another kind: the object will come up in the rest.
      · have hrest : gvkOf id v ∈ rest := (List.mem_cons.mp hv).resolve_left (Ne.symm hg)
        refine After.of_forall fun r t first hfirst => After.bind_ok (by simp) ?_
        refine (ih hrest first.2 t).mono ?_
        rintro r u hu more rfl found cache' hr hp
        cases hr
        obtain ⟨k, hk, hid⟩ := hu more.1 more.2 rfl hp
        exact ⟨k, List.mem_append_right _ hk, hid⟩

variable (hm : env.MarksOnly)
include hm

/-- Once the candidates have been tried, an object that one of them denotes is gone or
exempt. -/
theorem Clears.after_deleteKeys (keys : List ResourceKey) (cache : KubeUtil.DiscoveryCache)
    (w : World sc)
    (hkeys : Prunable cfg w.cluster id → ∃ k ∈ keys, k.denotes sc cfg.namespace = id) :
    After (deleteKeys env cfg keys cache) w fun _ t => ¬ Prunable cfg t.cluster id := by
  have hdelete : ∀ id', Keeps (fades cfg id) (KubeUtil.serveDelete env id') :=
    keeps_serveDelete_fades hm id
  induction keys generalizing cache w with
  | nil =>
      intro hp
      obtain ⟨k, hk, -⟩ := hkeys hp
      cases hk
  | cons key rest ih =>
      rw [deleteKeys, after_bind]
      -- Its own key comes up. The rest of the deletions cannot bring the object back.
      by_cases hkey : key.denotes sc cfg.namespace = id
      · refine (hc.after_deleteKey hkey cache w).mono ?_
        intro r t ht
        cases r with
        | error e => exact ht
        | ok first =>
            dsimp only
            rw [after_bind]
            refine ((keeps_deleteKeys hin (fun _ _ => hdelete _) first.2).after t).mono ?_
            intro r u hu
            cases r with
            | error e => exact fun hp => ht (hu hp)
            | ok deleted => exact fun hp => ht (hu hp)
      · refine (((keeps_deleteKey hin (hdelete _) cache).after w).and
          ((total_deleteKey cache key).after w)).mono ?_
        rintro _ t ⟨ht, first, rfl⟩
        -- The next key is not its own, so the rest still holds one.
        have hrest : Prunable cfg t.cluster id → ∃ k ∈ rest, k.denotes sc cfg.namespace = id := by
          intro hp
          obtain ⟨k, hk, hid⟩ := hkeys (ht hp)
          rcases List.mem_cons.mp hk with rfl | hk
          · exact absurd hid hkey
          · exact ⟨k, hk, hid⟩
        dsimp only
        rw [after_bind]
        refine (ih first.2 t hrest).mono ?_
        intro r u hu
        cases r with
        | error e => exact hu
        | ok deleted => exact hu

/-- `prune` leaves an object of a kind that was applied gone or exempt, when it is no longer
declared and the calls about it go through. -/
theorem Clears.after_prune (current : List ResourceKey)
    (hprev : ∃ k ∈ prev, SameKind k id)
    (hcurrent : ∀ k ∈ current, k.denotes sc cfg.namespace ≠ id)
    (w : World sc) :
    After (prune env cfg prev current) w fun _ t => ¬ Prunable cfg t.cluster id := by
  obtain ⟨k, hk, hkind⟩ := hprev
  rw [prune, after_bind, after_hashGvks]
  dsimp only
  have hmem : gvkOf id k.version ∈ (env.gvkOrder w.step).run (prev.map ResourceKey.gvk).dedup := by
    rw [Shuffle.mem_run, List.mem_dedup, ← hkind.gvk]
    exact List.mem_map_of_mem hk
  rw [after_bind]
  by_cases hkeyed : Keyed cfg prev id
  · -- Its key is a candidate, whatever the safety net finds.
    refine ((total_safetyNet current _ []).after (w.ticked env)).mono ?_
    rintro _ t ⟨found, rfl⟩
    dsimp only
    rw [after_bind, after_hashKeys]
    dsimp only
    refine hc.after_deleteKeys hin hm _ found.2 (t.ticked env) fun _ => ?_
    obtain ⟨key, hkey, hid⟩ := hkeyed
    refine ⟨key, ?_, hid⟩
    rw [Shuffle.mem_run, List.mem_dedup]
    refine List.mem_append_left _ (List.mem_filter.mpr ⟨hkey, ?_⟩)
    simpa using fun hmem => hcurrent key hmem hid
  -- Without a key in the applied set the safety net has to find it.
  · refine ((hc.after_safetyNet hin hkeyed current hcurrent _ hmem [] (w.ticked env)).and
      ((total_safetyNet current _ []).after (w.ticked env))).mono ?_
    rintro _ t ⟨hfound, found, rfl⟩
    dsimp only
    rw [after_bind, after_hashKeys]
    dsimp only
    refine hc.after_deleteKeys hin hm _ found.2 (t.ticked env) ?_
    intro hp
    obtain ⟨key, hkey, hid⟩ := hfound found.1 found.2 rfl (hin.tick t hp)
    refine ⟨key, ?_, hid⟩
    rw [Shuffle.mem_run, List.mem_dedup]
    exact List.mem_append_right _ hkey

end

end Prune

namespace Reconcile

open Prune

/-! ### One pass -/

/-- The crates, the server and its answers are as documented. A read of the state that
fails does not say that there is none. -/
structure Documented (env : Env sc) : Prop where
  yaml : env.yaml.RoundTrips
  kube : env.kube.Reads
  merge : Merges env.merge
  marks : env.MarksOnly
  stateGet : ∀ n e, env.fault n .stateGet = .refused e ∨ env.fault n .stateGet = .lost e →
    e.code ≠ some 404

/-- The next `prune` finds the object: by a key of the applied set, or by its kind, which
is listed under any version. -/
def Findable (cfg : Config) (applied : List ResourceKey) (id : ObjId sc) : Prop :=
  ∃ k ∈ applied, k.denotes sc cfg.namespace = id ∨ SameKind k id

/-- Every live object that was applied, carries the managed label and is not exempt can
be found by the next `prune`. -/
def Tracked (cfg : Config) (w : World sc) : Prop :=
  ∀ id, FormerlyApplied cfg w id → Prunable cfg w.cluster id →
    Findable cfg (prevApplied w.stored) id

/-- The condition on a pass: no other client makes an object prunable again that was
applied, and where Git stops declaring the kind of a prunable object, the calls about
the object go through. -/
structure Clearing (env : Env sc) (r : Reconciler) (w : World sc) : Prop where
  others : ∀ id, FormerlyApplied r.cfg w id → ∀ n c,
    Prunable r.cfg (env.others n c) id → Prunable r.cfg c id
  cleared : ∀ (x : Started env r w) (c : Classified),
    desired env x.sync.sha r.cfg (prevApplied x.prev) = .ok c →
    ∀ id, FormerlyApplied r.cfg w id → Prunable r.cfg w.cluster id →
      (∃ k ∈ prevApplied x.prev, SameKind k id) →
      (∀ k ∈ ResourceKey.keysOf c.main, ¬ SameKind k id) →
        Clears env r.cfg (prevApplied x.prev) id

/-- In a documented environment the state that a pass reads is the one that is stored. -/
theorem Documented.prev_eq (hd : Documented env) {r : Reconciler} {w : World sc}
    (x : Started env r w) : x.prev = w.stored := x.prev_eq hd.stateGet

/-! ### The frames of a pass -/

/-- The applies that were started are those of the manifests. -/
def startsOf (sc : Scopes) (c : Classified) : Frame (World sc) :=
  adds fun e => ∀ k, e = .applyStarted k → k ∈ ResourceKey.keysOf c.main

/-- The applies of a pass start for manifests of the commit only. -/
theorem allowsApply_startsOf (c : Classified) :
    AllowsApply env cfg (startsOf sc c) false c.main :=
  allowsApply_adds (fun _ hm k hk => by cases hk; exact List.mem_map_of_mem hm)
    fun _ _ _ _ _ => nofun

/-- A delete starts no apply. -/
theorem keeps_serveDelete_startsOf (c : Classified) (id : ObjId sc) :
    Keeps (startsOf sc c) (KubeUtil.serveDelete env id) :=
  keeps_serveDelete_adds (fun _ => nofun) id

/-- Hooks start no apply of a main manifest. -/
theorem allowsHooks_startsOf (c : Classified) (hooks : List HookInfo) :
    AllowsHooks env cfg (startsOf sc c) hooks :=
  allowsHooks_adds (fun _ => nofun) (fun _ _ _ _ _ => nofun) fun _ => nofun

/-- What was applied when, after a pass. -/
theorem formerlyApplied_of_startsOf {c : Classified} {w t : World sc}
    (h : (startsOf sc c).rel w t) {id : ObjId sc} (hid : FormerlyApplied cfg t id) :
    FormerlyApplied cfg w id ∨
      ∃ k ∈ ResourceKey.keysOf c.main, k.denotes sc cfg.namespace = id := by
  obtain ⟨k, hk, hdenotes⟩ := hid
  obtain ⟨new, ht, hnew⟩ := h
  rw [ht] at hk
  rcases List.mem_append.mp hk with hk | hk
  · exact .inr ⟨k, hnew _ hk k rfl, hdenotes⟩
  · exact .inl ⟨k, hk, hdenotes⟩

section
variable {id : ObjId sc}

/-- The others do not make the object prunable again, as the condition on the pass says. -/
theorem benign_fades
    (h : ∀ n c, Prunable cfg (env.others n c) id → Prunable cfg c id) :
    Benign env (fades cfg id) where
  tick w := h w.step w.cluster
  transmit _ _ hp := hp
  sleep _ _ hp := hp
  lease _ _ _ hp := hp

/-- A patch of another object. -/
theorem keeps_servePatch_fades {id' : ObjId sc} (hne : id ≠ id') (o : DynamicObject) :
    Keeps (fades cfg id) (KubeUtil.servePatch env id' o false) := by
  rintro w ⟨live, hlook, hrest⟩
  exact ⟨live, (AList.lookup_insert_ne hne).symm.trans hlook, hrest⟩

/-- An apply of a manifest of another kind leaves the object as it is. -/
theorem allowsApply_fades {c : Classified}
    (hmain : ∀ k ∈ ResourceKey.keysOf c.main, ¬ SameKind k id) :
    AllowsApply env cfg (fades cfg id) false c.main where
  start _ _ _ hp := hp
  patch m hm o id' hsends := by
    obtain ⟨value, name, -, -, -, rfl⟩ := hsends
    refine keeps_servePatch_fades (fun heq => ?_) o
    exact hmain _ (List.mem_map_of_mem hm) (by rw [heq]; exact ⟨rfl, rfl⟩)

/-- A hook's patch stores an exempt object. -/
theorem Documented.allowsHooks_fades (hd : Documented env) {sha : String}
    {applied : List ResourceKey} {c : Classified} (hc : desired env sha cfg applied = .ok c) :
    AllowsHooks env cfg (fades cfg id) c.hooks where
  start _ _ _ hp := hp
  patch i hi o id' hsends := by
    obtain ⟨hparsed, hannotated⟩ := (desired_sorted hc).hooks i hi
    obtain ⟨-, hvalues⟩ := hparsed.sends hd.yaml hd.kube hsends
    obtain ⟨s, hs⟩ := Option.isSome_iff_exists.mp hannotated
    -- A hook's patch may replace the object, and then with a hook annotation, which exempts it.
    by_cases hid : id = id'
    · subst hid
      rintro w ⟨live, hlook, -, hskip⟩
      have hlook : (w.cluster.insert id _).lookup id = some live := hlook
      rw [AList.lookup_insert] at hlook
      cases hlook
      have hstored : DynamicObject.annotation
          (env.merge ((w.cluster.lookup id).map (·.object)) o) hookAnnotation = some s :=
        hd.merge.annotation ((hvalues hookAnnotation).trans hs)
      simp [shouldSkipDeletion, hstored] at hskip
    · exact keeps_servePatch_fades hid o
  delete _ _ := keeps_serveDelete_fades hd.marks id _

/-! ### The prune of a pass -/

/-- Where the kind of an object leaves Git and the calls about the object go through, a
branch that completes leaves it gone or exempt. -/
theorem Documented.after_branch_cleared (hd : Documented env)
    (hothers : ∀ n c, Prunable cfg (env.others n c) id → Prunable cfg c id)
    {sha : String} {prev : Option State} {c : Classified}
    (hclears : Clears env cfg (prevApplied prev) id)
    (hc : desired env sha cfg (prevApplied prev) = .ok c)
    (hprev : ∃ k ∈ prevApplied prev, SameKind k id)
    (hmain : ∀ k ∈ ResourceKey.keysOf c.main, ¬ SameKind k id) (guard : LeaseGuard)
    (sync : SyncOutcome) (w : World sc) :
    After (branch env cfg guard prev sync c) w fun res t =>
      (∃ outcome, res = .ok outcome) → ¬ Prunable cfg t.cluster id := by
  have hB : Benign env (fades cfg id) := benign_fades hothers
  have hhooks : AllowsHooks env cfg (fades cfg id) c.hooks := hd.allowsHooks_fades hc
  have hcurrent : ∀ k ∈ ResourceKey.keysOf c.main, k.denotes sc cfg.namespace ≠ id :=
    fun k hk hid => hmain k hk (sameKind_of_denotes hid)
  have hprune := hclears.after_prune hB.toInteracts hd.marks _ hprev hcurrent
  rw [branch, after_ite]
  split
  -- The prune comes before the hooks after a delete, which only exempt what they touch.
  · rw [teardownBranch]
    refine After.bind_ok (by simp) (.of_forall fun res t _ _ => ?_)
    refine After.bind_ok (by simp) ((hprune t).mono fun res u hgone deleted _ => ?_)
    refine After.bind_ok (by simp) ?_
    have hpost := hhooks.sub fun i hi => Classified.mem_hooks.mpr (.inr (.inr (.inr hi)))
    exact ((hB.postHooks hpost guard "post-delete").after u).mono
      fun _ v hv _ _ _ hp => hgone (hv hp)
  -- In a pass without a teardown the prune is the last thing.
  · refine After.bind_ok (by simp) (.of_forall fun res t outcome _ => ?_)
    exact After.bind_ok (by simp) ((hprune t).mono fun res u hgone deleted _ _ => hgone)

/-- What is left prunable by the part of a pass that changes the cluster, of a kind that
Git does not declare, was so before, and its kind was not in the applied set. -/
theorem Documented.after_execute_fades (hd : Documented env)
    (hothers : ∀ n c, Prunable cfg (env.others n c) id → Prunable cfg c id)
    {sha : String} {prev : Option State} {c : Classified}
    (hc : desired env sha cfg (prevApplied prev) = .ok c)
    (hmain : ∀ k ∈ ResourceKey.keysOf c.main, ¬ SameKind k id) (guard : LeaseGuard)
    (sync : SyncOutcome) {w : World sc}
    (hclears : Prunable cfg w.cluster id → (∃ k ∈ prevApplied prev, SameKind k id) →
      Clears env cfg (prevApplied prev) id) :
    After (execute env cfg guard prev sync c) w fun res t => res = .ok () →
      Prunable cfg t.cluster id →
        Prunable cfg w.cluster id ∧ ¬ ∃ k ∈ prevApplied prev, SameKind k id := by
  have hB : Benign env (fades cfg id) := benign_fades hothers
  have hbranch := hB.branch (allowsApply_fades hmain) (hd.allowsHooks_fades hc)
    (keeps_serveDelete_fades hd.marks id) guard prev sync
  -- What the branch does, in case the object was there before it.
  have hcleared : After (branch env cfg guard prev sync c) w fun res t =>
      (∃ outcome, res = .ok outcome) → Prunable cfg t.cluster id →
        Prunable cfg w.cluster id ∧ ¬ ∃ k ∈ prevApplied prev, SameKind k id := by
    by_cases hgone : Prunable cfg w.cluster id ∧ ∃ k ∈ prevApplied prev, SameKind k id
    · refine (hd.after_branch_cleared hothers (hclears hgone.1 hgone.2) hc hgone.2 hmain guard
        sync w).mono ?_
      intro res t ht hok hp
      exact absurd hp (ht hok)
    · refine (hbranch.after w).mono ?_
      intro res t ht _ hp
      exact ⟨ht hp, fun hprev => hgone ⟨ht hp, hprev⟩⟩
  refine hB.after_execute_ok (fun _ _ _ => hB.stateWrite fun _ hp => hp) (fun _ _ hp => hp) ?_
  exact hcleared.mono fun res t ht outcome hok u _ _ hu _ hp => ht ⟨outcome, hok⟩ (hu hp)

end

/-- A pass that completes has written the keys of its manifests, and has started only
their applies. -/
theorem after_execute_writes (guard : LeaseGuard) (prev : Option State) (sync : SyncOutcome)
    (c : Classified) (w : World sc) :
    After (execute env cfg guard prev sync c) w fun res t =>
      (startsOf sc c).rel w t ∧
        (res = .ok () → prevApplied t.stored = ResourceKey.keysOf c.main) := by
  have hB : Benign env (startsOf sc c) := benign_adds
  have hwrite : ∀ outcome health epoch, Keeps (startsOf sc c)
      (State.write env (newState prev sync c outcome health epoch)) := fun _ _ _ =>
    hB.stateWrite fun w => adds_cons rfl fun _ => nofun
  have hgvks : ∀ (w : World sc) gvks, (startsOf sc c).rel w { w with lastGvks := gvks } :=
    fun _ _ => adds_of_untouched rfl
  refine After.and (hB.execute hwrite hgvks (hB.branch (allowsApply_startsOf c)
    (allowsHooks_startsOf c c.hooks) (keeps_serveDelete_startsOf c) guard prev sync) w) ?_
  refine hB.after_execute_ok hwrite hgvks (.of_forall fun _ _ outcome _ u health epoch _ hu => ?_)
  rw [World.stored_of_stateCm hu]
  rfl

/-- An object that was applied can be found, or it was applied before the world `w` and is
gone or exempt. -/
def FoundOrGone (cfg : Config) (w t : World sc) : Prop :=
  ∀ id, FormerlyApplied cfg t id → Findable cfg (prevApplied t.stored) id ∨
    (FormerlyApplied cfg w id ∧ ¬ Prunable cfg t.cluster id)

/-- It stays so while nothing is applied or written and nothing becomes prunable. -/
theorem FoundOrGone.kept {w t u : World sc} (h : FoundOrGone cfg w t) (htrace : u.trace = t.trace)
    (hstateCm : u.stateCm = t.stateCm)
    (hfades : ∀ id, FormerlyApplied cfg w id → (fades cfg id).rel t u) : FoundOrGone cfg w u := by
  intro id hid
  have hid' : FormerlyApplied cfg t id := by
    obtain ⟨k, hk, hdenotes⟩ := hid
    exact ⟨k, htrace ▸ hk, hdenotes⟩
  rw [World.stored, hstateCm]
  exact (h id hid').imp_right fun hgone => ⟨hgone.1, fun hp => hgone.2 (hfades id hgone.1 hp)⟩

/-- Steps in which nothing is patched do not make the object prunable either. -/
theorem Clearing.uneventful {r : Reconciler} {w t u : World sc} (h : Clearing env r w)
    (htu : Uneventful env t u) {id : ObjId sc} (hid : FormerlyApplied r.cfg w id) :
    (fades r.cfg id).rel t u := htu _ (benign_fades (h.others id hid))

/-- The part of a pass that changes the cluster, in a world in which every orphan can be
found. -/
theorem Documented.after_execute_tracked (hd : Documented env) {r : Reconciler} {w : World sc}
    (hw : Tracked r.cfg w) (hclear : Clearing env r w) (x : Started env r w) {c : Classified}
    (hstart : Uneventful env w x.start)
    (hc : desired env x.sync.sha r.cfg (prevApplied x.prev) = .ok c) :
    After (execute env r.cfg x.guard x.prev x.sync c) x.start fun res t =>
      res = .ok () → FoundOrGone r.cfg w t := by
  have hformer : ∀ id, FormerlyApplied r.cfg x.start id → FormerlyApplied r.cfg w id := by
    rintro id ⟨k, hk, hdenotes⟩
    exact ⟨k, hstart.trace ▸ hk, hdenotes⟩
  have hfades : After (execute env r.cfg x.guard x.prev x.sync c) x.start fun res t =>
      ∀ id, FormerlyApplied r.cfg w id → (∀ k ∈ ResourceKey.keysOf c.main, ¬ SameKind k id) →
        res = .ok () → Prunable r.cfg t.cluster id →
          Prunable r.cfg x.start.cluster id ∧ ¬ ∃ k ∈ prevApplied x.prev, SameKind k id :=
    fun id hid hmain => hd.after_execute_fades (hclear.others id hid) hc hmain x.guard x.sync
      fun hp hprev => hclear.cleared x c hc id hid (hclear.uneventful hstart hid hp) hprev hmain
  refine ((after_execute_writes x.guard x.prev x.sync c x.start).and hfades).mono ?_
  rintro res t ⟨⟨hstarts, hwritten⟩, hfades⟩ hok id hid
  rw [hwritten hok]
  by_cases hkind : ∃ k ∈ ResourceKey.keysOf c.main, SameKind k id
  · obtain ⟨k, hk, hsame⟩ := hkind
    exact .inl ⟨k, hk, .inr hsame⟩
  · have hmain : ∀ k ∈ ResourceKey.keysOf c.main, ¬ SameKind k id :=
      fun k hk hsame => hkind ⟨k, hk, hsame⟩
    have hbefore : FormerlyApplied r.cfg w id := by
      rcases formerlyApplied_of_startsOf hstarts hid with hbefore | ⟨k, hk, hdenotes⟩
      · exact hformer id hbefore
      · exact absurd (sameKind_of_denotes hdenotes) (hmain k hk)
    refine .inr ⟨hbefore, fun hp => ?_⟩
    -- Left over, it was there before with a kind that was not persisted: not tracked.
    obtain ⟨hp, hprev⟩ := hfades id hbefore hmain hok hp
    obtain ⟨k, hk, hfound⟩ := hw id hbefore (hclear.uneventful hstart hbefore hp)
    rw [← hd.prev_eq x] at hk
    exact hprev ⟨k, hk, hfound.elim sameKind_of_denotes fun hsame => hsame⟩

/-- A pass that completes under the condition keeps every orphan tracked. -/
theorem tracked_of_pass (hd : Documented env) {r : Reconciler} (hdry : r.cfg.dryRun = false)
    {w : World sc} (hw : Tracked r.cfg w) (hclear : Clearing env r w) :
    After (runOnce env r) w fun res t => res = .ok () → Tracked r.cfg t := by
  have hpass : After (runOnce env r) w fun res t => res = .ok () → FoundOrGone r.cfg w t := by
    have hbefore : FoundOrGone r.cfg w w := by
      intro id hid
      by_cases hp : Prunable r.cfg w.cluster id
      · exact .inl (hw id hid hp)
      · exact .inr ⟨hid, hp⟩
    refine after_pass hdry (fun t now ht => ?_) (fun t ht => ?_) fun x c hstart hc => ?_
    · exact ht.kept rfl rfl fun id hid => hclear.others id hid t.step t.cluster
    · exact hbefore.kept ht.trace ht.stateCm fun id hid => hclear.uneventful ht hid
    · refine (hd.after_execute_tracked hw hclear x hstart hc).mono ?_
      intro res t ht hok u htu
      exact (ht hok).kept htu.trace htu.stateCm fun id hid => hclear.uneventful htu hid
  refine hpass.mono ?_
  intro res t ht hok id hid hp
  exact (ht hok id hid).resolve_right fun hgone => hgone.2 hp

/-! ### The runs -/

/-- The runs of passes that complete, each in an environment of its own. -/
def completedPasses (sc : Scopes) (cfg : Config)
    (P : Env sc → Reconciler → World sc → Prop) : Transition.System (World sc) where
  init w := w.stateCm = none ∧ w.trace = []
  step w t := ∃ (env : Env sc) (r : Reconciler), Documented env ∧ r.cfg = cfg ∧
    cfg.dryRun = false ∧ P env r w ∧ runOnce env r w = .ok () t

/-- In every run of completed passes in which the calls about an object go through when
its kind leaves Git, every object that was applied, is live, carries the managed label and
is not exempt can be found by the next `prune`. -/
theorem tracked_of_reachable {w : World sc} (hw : (completedPasses sc cfg Clearing).Reachable w) :
    Tracked cfg w := by
  have hinv : (completedPasses sc cfg Clearing).Invariant (Tracked cfg) := by
    refine ⟨fun hinit id hid _ => ?_, fun _ hs hstep => ?_⟩
    · obtain ⟨k, hk, -⟩ := hid
      rw [hinit.2] at hk
      cases hk
    · obtain ⟨env, r, hd, rfl, hdry, hclear, hrun⟩ := hstep
      exact (tracked_of_pass hd hdry hs hclear).of_run hrun rfl
  exact hinv.holds hw

/-! ### A teardown -/

/-- The repository after the one document was removed, at the commit `c2`. -/
def emptiedEnv : Env .namespacedOnly :=
  .calm _ (.table [] []) (gitAt "c2") fun _ => .bare

/-- The same, while the API server refuses deletes. -/
def refusingEnv : Env .namespacedOnly :=
  { emptiedEnv with
    fault := fun _ req =>
      match req with
      | .delete _ _ => .refused ⟨some 500, "internal error"⟩
      | _ => .none }

/-- The world after the document was applied to an empty cluster. -/
def appliedWorld : World .namespacedOnly :=
  Act.state (runOnce syncedEnv (syncedPass .off) (.fresh ∅ none))

/-- The calm environment does what the crates and the server document, for a table of distinct
documents. -/
theorem documented_calm {texts : List (String × List Value)} {docs : List (String × Value)}
    (hdocs : (docs.map Prod.fst).Nodup) (git : Nat → GitCommand → GitOutcome)
    (tree : String → WorkTree) : Documented (.calm sc (.table texts docs) git tree) where
  yaml := Yaml.table_roundTrips _ hdocs
  kube := KubeCrate.plain_reads
  merge := merges_replace
  marks _ _ _ _ h := nomatch h
  stateGet _ _ h := by rcases h with h | h <;> cases h

/-- So does the environment that refuses the delete. -/
theorem documented_refusing : Documented refusingEnv where
  yaml := @Yaml.table_roundTrips [] [] List.nodup_nil
  kube := KubeCrate.plain_reads
  merge := merges_replace
  marks _ _ _ _ h := nomatch h
  stateGet _ _ h := by rcases h with h | h <;> cases h

/-- A pass of a completed run. -/
theorem step_of_isOk {P : Env sc → Reconciler → World sc → Prop} (hd : Documented env)
    {r : Reconciler} (hdry : r.cfg.dryRun = false) {w : World sc} (hP : P env r w)
    (hok : (Act.value (runOnce env r w)).isOk = true) :
    (completedPasses sc r.cfg P).step w (Act.state (runOnce env r w)) := by
  obtain ⟨_, hrun⟩ := Act.run_eq_of_isOk hok
  exact ⟨env, r, hd, rfl, hdry, hP, hrun⟩

/-- The world after the first pass is reachable. -/
theorem appliedWorld_reachable (P : Env .namespacedOnly → Reconciler → World .namespacedOnly → Prop)
    (hP : P syncedEnv (syncedPass .off) (.fresh ∅ none)) :
    (completedPasses .namespacedOnly (syncedPass .off).cfg P).Reachable appliedWorld := by
  have hinit :
      (completedPasses .namespacedOnly (syncedPass .off).cfg P).Reachable (.fresh ∅ none) :=
    .init ⟨rfl, rfl⟩
  have hdocs : [("settings", syncedValue)].map Prod.fst = ["settings"] := rfl
  exact hinit.step (step_of_isOk (documented_calm (hdocs ▸ List.nodup_singleton _) _ _) rfl hP
    (by decide +kernel))

/-- The document is applied, then leaves Git, and the delete of its object is refused. Both
passes complete. The object is live and managed, and nothing in the new state leads to
it. -/
theorem teardown_forgets :
    (completedPasses .namespacedOnly (syncedPass .off).cfg fun _ _ _ => True).Reachable
        (Act.state (runOnce refusingEnv (syncedPass .off) appliedWorld)) ∧
      ¬ Tracked (syncedPass .off).cfg
        (Act.state (runOnce refusingEnv (syncedPass .off) appliedWorld)) := by
  refine ⟨(appliedWorld_reachable _ trivial).step
    (step_of_isOk documented_refusing rfl trivial (by decide +kernel)), fun h => ?_⟩
  have hstarted : .applyStarted (.fromManifest (settings (some "default"))) ∈
      (Act.state (runOnce refusingEnv (syncedPass .off) appliedWorld)).trace := by decide +kernel
  have hmanaged : ((Act.state (runOnce refusingEnv (syncedPass .off) appliedWorld)).cluster.lookup
      ((settings (some "default")).ident _ (syncedPass .off).cfg)).any (fun live =>
        live.object.labelled (syncedPass .off).cfg.selector &&
          !shouldSkipDeletion live.object) = true := by
    decide +kernel
  have happlied : prevApplied (World.stored
      (Act.state (runOnce refusingEnv (syncedPass .off) appliedWorld))) = [] := by decide +kernel
  -- The object is there, labelled and not exempt, and its key is in no applied set.
  obtain ⟨live, hlook, hlive⟩ := Option.any_eq_true _ _ |>.mp hmanaged
  obtain ⟨hlabel, hskip⟩ := Bool.and_eq_true_iff.mp hlive
  obtain ⟨k, hk, -⟩ := h _ ⟨_, hstarted, rfl⟩ ⟨live, hlook, hlabel, by simpa using hskip⟩
  rw [happlied] at hk
  cases hk

/-- In a calm environment every pass meets the condition. -/
theorem clearing_calm {yaml : Yaml} {git : Nat → GitCommand → GitOutcome}
    {tree : String → WorkTree} (r : Reconciler) (w : World sc) :
    Clearing (.calm sc yaml git tree) r w where
  others _ _ _ _ h := h
  cleared _ _ _ _ _ _ _ _ :=
    ⟨fun _ _ => rfl, fun _ _ _ => rfl, fun _ _ => rfl, fun _ _ => rfl, fun _ _ => rfl⟩

/-- The two passes with every call served. -/
theorem tracked_of_reachable_emptied :
    Tracked (syncedPass .off).cfg
      (Act.state (runOnce emptiedEnv (syncedPass .off) appliedWorld)) :=
  tracked_of_reachable ((appliedWorld_reachable _ (clearing_calm _ _)).step
    (step_of_isOk (@documented_calm _ [] [] List.nodup_nil _ _) rfl (clearing_calm _ _)
      (by decide +kernel)))

end Reconcile

end LeanCd
