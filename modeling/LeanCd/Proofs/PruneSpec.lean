import LeanCd.Proofs.Calls

/-!
# `LeanCd.Proofs.PruneSpec`: what `prune` deletes

`prune_deletes_candidates` holds for every environment: an object that `prune`
deletes is denoted by a candidate key, that is a key outside the current set which
was applied before, or which a live object of a previously applied kind would have.

`deletions_prune` is exact, for steady runs: an object is deleted if and only if
some candidate key denotes it and the calls for that key go through.

Every result about deletions goes through the trace: `World.deletions` are the deleted
identifiers, newest first. The upper bound is a frame (`deletesOnly`), proved along the text of
`prune`. The exact set needs the calls to be predictable, and is proved by following the run.
-/

set_option autoImplicit false

namespace LeanCd

open Act

/-- The namespace of the key is one a live object of its kind has. -/
def ResourceKey.AsServed (sc : Scopes) (k : ResourceKey) : Prop :=
  (sc k.group k.kind).Fits k.ns

namespace Prune

variable {sc : Scopes} {env : Env sc} {cfg : Config}

/-- A key that `prune` may try to delete. -/
structure Candidate (sc : Scopes) (prev current : List ResourceKey) (k : ResourceKey) :
    Prop where
  gone : k ∉ current
  source : k ∈ prev ∨ (k.gvk ∈ prev.map ResourceKey.gvk ∧ k.AsServed sc)

/-- The process did nothing but delete objects of a kind. -/
abbrev deletesOnly (P : ObjId sc → Prop) : Frame (World sc) :=
  adds fun e => ∃ id, P id ∧ e = .deleted id

/-- Untouched steps delete nothing. -/
theorem deletions_of_untouched {w t : World sc} (h : untouched.rel w t) :
    t.deletions = w.deletions := by
  have htrace : t.trace = w.trace := (Prod.mk.inj h).1
  simp only [World.deletions, htrace]

/-- What is exempt from deletion: the policy is to keep the object, or it has a hook annotation,
whatever the annotation says. -/
theorem shouldSkipDeletion_iff {o : DynamicObject} :
    shouldSkipDeletion o = true ↔ o.annotation "helm.sh/resource-policy" = some "keep" ∨
      ∃ hook, o.annotation "helm.sh/hook" = some hook := by
  rw [shouldSkipDeletion, Bool.or_eq_true, beq_iff_eq, Option.isSome_iff_exists]
  rfl

/-! ### Every environment -/

section
variable {P : ObjId sc → Prop}

/-- The server deletes the named object, or answers that there is none. -/
theorem after_serveDelete {id : ObjId sc} {w : World sc}
    {Q : Except Error Unit → World sc → Prop} :
    After (KubeUtil.serveDelete env id) w Q ↔
      match w.cluster.lookup id with
      | none => Q (.error (.kube notFound)) w
      | some live =>
          Q (.ok ()) { w with
            cluster :=
              match env.onDelete w.step id live with
              | none => w.cluster.erase id
              | some marked => w.cluster.insert id marked
            trace := .deleted id :: w.trace } := by
  unfold After KubeUtil.serveDelete
  cases w.cluster.lookup id <;> rfl

/-- A delete of an object of the set stays in the set. -/
theorem keeps_serveDelete {id : ObjId sc} (hid : P id) :
    Keeps (deletesOnly P) (KubeUtil.serveDelete env id) := by
  intro w
  refine (after_serveDelete (Q := fun _ t => (deletesOnly P).rel w t)).mpr ?_
  cases w.cluster.lookup id with
  | none => exact (deletesOnly P).refl w
  | some live => exact ⟨[.deleted id], rfl, by simpa using hid⟩

end

/-- The turn of a candidate. Its kind does not resolve; or nothing is read that may be
deleted; or the delete is tried. -/
theorem after_deleteKey_of {cache : KubeUtil.DiscoveryCache} {key : ResourceKey} {w : World sc}
    {Q : Bool → KubeUtil.DiscoveryCache → World sc → Prop}
    (h : After (KubeUtil.getOrResolve env cache key.gvk) w fun r t =>
      (∀ e, r = .error e → Q false cache t) ∧ ∀ cache', r = .ok cache' →
        After (KubeUtil.getObject env cfg.namespace key.gvk key.ns key.name) t fun r u =>
          ((∀ obj, r = .ok (some obj) → shouldSkipDeletion obj = true) → Q false cache' u) ∧
          ∀ obj, r = .ok (some obj) → shouldSkipDeletion obj = false →
            After (KubeUtil.delete env cfg.namespace key.gvk key.ns key.name) u fun r v =>
              Q r.isOk cache' v) :
    After (deleteKey env cfg cache key) w fun r t =>
      ∃ gone cache', r = .ok (gone, cache') ∧ Q gone cache' t := by
  rw [deleteKey, after_bind, after_attempt]
  refine h.mono ?_
  intro r t ht
  -- One case for each way a deletion ends: the kind, the read, the exemption and the delete.
  cases r with
  | error e => exact ⟨false, cache, rfl, ht.1 e rfl⟩
  | ok cache' =>
      dsimp only
      rw [after_bind, after_attempt]
      refine (ht.2 cache' rfl).mono ?_
      intro r u hu
      cases r with
      | error e => exact ⟨false, cache', rfl, hu.1 (by simp)⟩
      | ok found =>
          cases found with
          | none => exact ⟨false, cache', rfl, hu.1 (by simp)⟩
          | some obj =>
              dsimp only
              rw [after_ite]
              split
              next hskip => exact ⟨false, cache', rfl, hu.1 (by simp [hskip])⟩
              next hskip =>
                rw [after_bind, after_attempt]
                refine (hu.2 obj rfl (by simpa using hskip)).mono ?_
                intro r v hv
                cases r with
                | ok x => exact ⟨true, cache', rfl, hv⟩
                | error e => exact ⟨false, cache', rfl, hv⟩

section
variable {F : Frame (World sc)}

/-- One key: only its own object is deleted. -/
theorem keeps_deleteKey (hin : Interacts env F) {key : ResourceKey}
    (hdelete : Keeps F (KubeUtil.serveDelete env (key.denotes sc cfg.namespace)))
    (cache : KubeUtil.DiscoveryCache) : Keeps F (deleteKey env cfg cache key) := by
  refine (keeps_getOrResolve hin cache key.gvk).attempt.bind ?_
  intro r
  split
  · exact Keeps.pure _
  · refine (keeps_getObject hin _ _ _ _).attempt.bind ?_
    intro got
    split
    · exact Keeps.pure _
    · exact Keeps.pure _
    · split
      · exact Keeps.pure _
      -- The one write: the delete of the object the key denotes.
      · refine (keeps_call hin hdelete).attempt.bind ?_
        intro r
        split
        · exact Keeps.pure _
        · exact Keeps.pure _

/-- Keys: only their objects are deleted. -/
theorem keeps_deleteKeys (hin : Interacts env F) {keys : List ResourceKey}
    (hdelete : ∀ k ∈ keys, Keeps F (KubeUtil.serveDelete env (k.denotes sc cfg.namespace)))
    (cache : KubeUtil.DiscoveryCache) : Keeps F (deleteKeys env cfg keys cache) := by
  induction keys generalizing cache with
  | nil => exact Keeps.pure _
  | cons key rest ih =>
      have hrest : ∀ k ∈ rest,
          Keeps F (KubeUtil.serveDelete env (k.denotes sc cfg.namespace)) := fun k hk =>
        hdelete k (List.mem_cons_of_mem _ hk)
      refine (keeps_deleteKey hin (hdelete key List.mem_cons_self) cache).bind ?_
      intro r
      exact (ih hrest r.2).bind fun _ => Keeps.pure _

end

/-- The key of a listed object has the namespace of a live object. -/
theorem returns_listAll (g : GvkKey) (sel : String × String) :
    Returns (KubeUtil.listAll env g sel) fun live =>
      ∀ o ∈ live, (ResourceKey.fromDynamic o g).AsServed sc := by
  have hget : Returns (get : Pass sc (World sc)) fun _ => True := .any _
  have hact : Returns (do return (← get).cluster.list g sel : Pass sc (List DynamicObject))
      fun live => ∀ o ∈ live, (ResourceKey.fromDynamic o g).AsServed sc := by
    refine hget.bind fun w _ => .pure ?_
    intro o ho
    -- A served object has its identity's namespace, which fits the scope of the kind.
    obtain ⟨id, lv, -, hg, hk, -, rfl⟩ := Cluster.mem_list.mp ho
    have hfits := id.fits
    rw [hg, hk] at hfits
    exact hfits
  refine (returns_call hact).bind fun live hlive => ?_
  exact (Returns.any _).bind fun _ _ => .pure hlive

/-- A key the safety net may find at the kinds `gvks`. -/
def Orphan (sc : Scopes) (current : List ResourceKey) (gvks : List GvkKey) (k : ResourceKey) :
    Prop :=
  k ∉ current ∧ k.gvk ∈ gvks ∧ k.AsServed sc

/-- What the safety net finds of a kind are orphans of that kind. -/
theorem returns_safetyNetKind (current : List ResourceKey) (cache : KubeUtil.DiscoveryCache)
    (g : GvkKey) :
    Returns (safetyNetKind env cfg current cache g) fun found =>
      ∀ k ∈ found.1, Orphan sc current [g] k := by
  refine (Returns.any _).bind ?_
  intro r _
  split
  · exact .pure (List.forall_mem_nil _)
  · refine (returns_listAll g cfg.selector).attempt.bind ?_
    intro r hr
    split
    · exact .pure (List.forall_mem_nil _)
    · rename_i live
      refine .pure ?_
      intro k hk
      obtain ⟨hmem, hgone⟩ := List.mem_filter.mp hk
      obtain ⟨o, ho, rfl⟩ := List.mem_map.mp hmem
      exact ⟨by simpa using hgone, List.mem_singleton.mpr rfl, hr live rfl o ho⟩

/-- What it finds are orphans of the kinds it looks at. -/
theorem returns_safetyNet (current : List ResourceKey) (gvks : List GvkKey)
    (cache : KubeUtil.DiscoveryCache) :
    Returns (safetyNet env cfg current gvks cache) fun found =>
      ∀ k ∈ found.1, Orphan sc current gvks k := by
  induction gvks generalizing cache with
  | nil => exact .pure (List.forall_mem_nil _)
  | cons g rest ih =>
      refine (returns_safetyNetKind current cache g).bind ?_
      intro r hr
      refine (ih r.2).bind fun more hmore => .pure ?_
      intro k hk
      rcases List.mem_append.mp hk with hk | hk
      · obtain ⟨hgone, hg, hserved⟩ := hr k hk
        exact ⟨hgone, List.mem_cons.mpr (.inl (List.mem_singleton.mp hg)), hserved⟩
      · obtain ⟨hgone, hg, hserved⟩ := hmore k hk
        exact ⟨hgone, List.mem_cons_of_mem g hg, hserved⟩

section
variable {F : Frame (World sc)}

/-- It only reads, one kind at a time. -/
theorem keeps_safetyNetKind (hin : Interacts env F) (current : List ResourceKey)
    (cache : KubeUtil.DiscoveryCache) (g : GvkKey) :
    Keeps F (safetyNetKind env cfg current cache g) := by
  refine (keeps_getOrResolve hin cache g).attempt.bind ?_
  intro r
  split
  · exact Keeps.pure _
  · refine (keeps_listAll hin g cfg.selector).attempt.bind ?_
    intro r
    split
    · exact Keeps.pure _
    · exact Keeps.pure _

/-- So it only reads. -/
theorem keeps_safetyNet (hin : Interacts env F) (current : List ResourceKey)
    (gvks : List GvkKey) (cache : KubeUtil.DiscoveryCache) :
    Keeps F (safetyNet env cfg current gvks cache) := by
  induction gvks generalizing cache with
  | nil => exact Keeps.pure _
  | cons g rest ih =>
      refine (keeps_safetyNetKind hin current cache g).bind ?_
      intro r
      exact (ih r.2).bind fun _ => Keeps.pure _

end

/-- A frame that an interaction and every delete respect is respected by `prune`. -/
theorem keeps_prune {F : Frame (World sc)} (hin : Interacts env F)
    (hdelete : ∀ id, Keeps F (KubeUtil.serveDelete env id)) (prev current : List ResourceKey) :
    Keeps F (prune env cfg prev current) :=
  (keeps_hashGvks hin _).bind fun _ => (keeps_safetyNet hin current _ []).bind fun _ =>
    (keeps_hashKeys hin _).bind fun _ => keeps_deleteKeys hin (fun _ _ => hdelete _) _

/-- Every object `prune` deletes is denoted by a candidate key. -/
theorem prune_deletes_candidates (prev current : List ResourceKey) :
    Keeps (deletesOnly fun id => ∃ k, Candidate sc prev current k ∧
      k.denotes sc cfg.namespace = id) (prune env cfg prev current) := by
  refine Keeps.bind_returns (keeps_hashGvks interacts_adds _) (returns_hashGvks _)
    fun gvks hgvks => ?_
  refine Keeps.bind_returns (keeps_safetyNet interacts_adds current gvks [])
    (returns_safetyNet current gvks []) ?_
  intro found hfound
  refine Keeps.bind_returns (keeps_hashKeys interacts_adds _) (returns_hashKeys _)
    fun targets htargets => ?_
  refine keeps_deleteKeys interacts_adds
    (fun k hk => keeps_serveDelete ⟨k, ?_, rfl⟩) found.2
  -- A target is a key that left Git, or one the safety net found.
  rcases List.mem_append.mp ((htargets k).mp hk) with hk | hk
  · obtain ⟨hprev, hgone⟩ := List.mem_filter.mp hk
    exact ⟨by simpa using hgone, .inl hprev⟩
  · obtain ⟨hgone, hg, hserved⟩ := hfound k hk
    exact ⟨hgone, .inr ⟨(hgvks _).mp hg, hserved⟩⟩

/-! ### `prune` does not fail -/

/-- The safety net does not fail: a kind that cannot be read is left out. -/
theorem total_safetyNet (current : List ResourceKey) (gvks : List GvkKey)
    (cache : KubeUtil.DiscoveryCache) : Total (safetyNet env cfg current gvks cache) := by
  induction gvks generalizing cache with
  | nil => exact .pure _
  | cons g rest ih =>
      refine Total.bind ?_ fun r => (ih r.2).bind fun _ => .pure _
      refine (Total.attempt _).bind ?_
      intro r
      split
      · exact .pure _
      · refine (Total.attempt _).bind ?_
        intro r
        split
        · exact .pure _
        · exact .pure _

/-- A deletion does not fail as a computation. Its failures are logged. -/
theorem total_deleteKey (cache : KubeUtil.DiscoveryCache) (key : ResourceKey) :
    Total (deleteKey env cfg cache key) := by
  refine (Total.attempt _).bind ?_
  intro r
  split
  · exact .pure _
  refine (Total.attempt _).bind ?_
  intro r
  split
  · exact .pure _
  · exact .pure _
  · split
    · exact .pure _
    refine (Total.attempt _).bind ?_
    intro r
    split
    · exact .pure _
    · exact .pure _

/-- Nor do many. -/
theorem total_deleteKeys (keys : List ResourceKey) (cache : KubeUtil.DiscoveryCache) :
    Total (deleteKeys env cfg keys cache) := by
  induction keys generalizing cache with
  | nil => exact .pure _
  | cons key rest ih =>
      exact (total_deleteKey cache key).bind fun r => (ih r.2).bind fun _ => .pure _

/-- No failing call makes `prune` fail. -/
theorem total_prune (prev current : List ResourceKey) : Total (prune env cfg prev current) :=
  (total_hashGvks _).bind fun _ => (total_safetyNet current _ []).bind fun _ =>
    (total_hashKeys _).bind fun _ => total_deleteKeys _ _

/-! ### Steady runs -/

/-- A live labelled object has this key. -/
def LabelledLive (cfg : Config) (c : Cluster sc) (k : ResourceKey) : Prop :=
  k.AsServed sc ∧ ∃ live, c.lookup (k.denotes sc cfg.namespace) = some live ∧
    live.object.labelled cfg.selector = true

/-- A key that `prune` tries to delete in a steady run. -/
structure SteadyCandidate (env : Env sc) (cfg : Config) (c : Cluster sc)
    (prev current : List ResourceKey) (k : ResourceKey) : Prop where
  gone : k ∉ current
  source : k ∈ prev ∨ (k.gvk ∈ prev.map ResourceKey.gvk ∧ env.serves (.discover k.gvk) ∧
    env.serves (.list k.gvk) ∧ LabelledLive cfg c k)

/-- The calls for a key go through. A delete whose response is lost has gone through. -/
structure Reachable (env : Env sc) (cfg : Config) (k : ResourceKey) : Prop where
  resolves : env.serves (.discover k.gvk)
  reads : env.serves (.get k.gvk (k.denotes sc cfg.namespace))
  deletes : ∀ e, env.fault 0 (.delete k.gvk (k.denotes sc cfg.namespace)) ≠ .refused e

/-- The calls for a key go through, and the object it denotes is live and not exempt. -/
structure Deletable (env : Env sc) (cfg : Config) (c : Cluster sc) (k : ResourceKey) :
    Prop extends Reachable env cfg k where
  live : ∃ live, c.lookup (k.denotes sc cfg.namespace) = some live ∧
    shouldSkipDeletion live.object = false

/-- The keys of the listed objects are those of the labelled live ones. -/
theorem mem_list_keys {c : Cluster sc} {g : GvkKey} {k : ResourceKey} :
    k ∈ (c.list g cfg.selector).map (ResourceKey.fromDynamic · g) ↔
      k.gvk = g ∧ LabelledLive cfg c k := by
  rw [List.mem_map]
  constructor
  · rintro ⟨o, ho, rfl⟩
    obtain ⟨id, live, hlook, hg, hk, hl, rfl⟩ := Cluster.mem_list.mp ho
    have hfits := id.fits
    rw [hg, hk] at hfits
    -- The listed key denotes the very object it was read from.
    have hid : (ResourceKey.fromDynamic (serve id live) g).denotes sc cfg.namespace = id :=
      ObjId.ext hg.symm hk.symm (Scope.place_eq_self hfits _) rfl
    exact ⟨rfl, hfits, live, by rw [hid]; exact hlook, hl⟩
  · rintro ⟨rfl, hserved, live, hlook, hl⟩
    refine ⟨serve _ live, Cluster.mem_list.mpr ⟨_, live, hlook, rfl, rfl, hl, rfl⟩, ?_⟩
    have hns : (k.denotes sc cfg.namespace).ns = k.ns := Scope.place_eq_self hserved _
    simp only [ResourceKey.fromDynamic, serve_ns, serve_name, hns]
    rfl

/-- An object the other candidates leave alone is as deletable as before. -/
theorem deletable_congr {c c' : Cluster sc} {k : ResourceKey}
    (h : c'.lookup (k.denotes sc cfg.namespace) = c.lookup (k.denotes sc cfg.namespace)) :
    Deletable env cfg c' k ↔ Deletable env cfg c k := by
  constructor
  · exact fun ⟨hr, live, hl, hn⟩ => ⟨hr, live, h ▸ hl, hn⟩
  · exact fun ⟨hr, live, hl, hn⟩ => ⟨hr, live, h ▸ hl, hn⟩

/-- What a candidate leaves behind: its object is deleted if it is deletable, and nothing
changes otherwise. -/
def Handled (env : Env sc) (cfg : Config) (key : ResourceKey) (w t : World sc) : Prop :=
  (Deletable env cfg w.cluster key ∧
      t.deletions = key.denotes sc cfg.namespace :: w.deletions ∧
      ∀ id ≠ key.denotes sc cfg.namespace, t.cluster.lookup id = w.cluster.lookup id) ∨
    (¬ Deletable env cfg w.cluster key ∧ still.rel w t)

section Steady
variable (hs : env.Steady)
include hs

/-- The safety net at one kind, in a steady run. -/
theorem steady_safetyNetKind (current : List ResourceKey) {cache : KubeUtil.DiscoveryCache}
    (hcache : ∀ g ∈ cache, env.serves (.discover g)) (g : GvkKey) (w : World sc) :
    After (safetyNetKind env cfg current cache g) w fun r t => still.rel w t ∧
      ∃ found cache', r = .ok (found, cache') ∧
        (∀ g ∈ cache', env.serves (.discover g)) ∧
        ∀ k, k ∈ found ↔ k ∉ current ∧ k.gvk = g ∧ env.serves (.discover g) ∧
          env.serves (.list g) ∧ LabelledLive cfg w.cluster k := by
  refine After.and (keeps_safetyNetKind hs.interacts current cache g w) ?_
  simp only [safetyNetKind, after_bind, after_attempt]
  refine (hs.after_getOrResolve hcache w).mono ?_
  rintro r t ⟨ht, hr⟩
  cases r with
  | error e =>
      -- Nothing is found. What the right side asks for, the discovery has refused.
      refine ⟨[], cache, rfl, hcache, fun k => iff_of_false List.not_mem_nil ?_⟩
      rintro ⟨-, -, hdiscover, -⟩
      exact hr hdiscover
  | ok cache' =>
      simp only [after_bind, after_attempt]
      refine (hs.after_listAll g cfg.selector t).mono ?_
      rintro r u ⟨hu, hr'⟩
      have hc : t.cluster = w.cluster := cluster_of_still ht
      cases r with
      | error e =>
          -- Nothing is found, as the list was refused.
          refine ⟨[], cache', rfl, hr.2, fun k => iff_of_false List.not_mem_nil ?_⟩
          rintro ⟨-, -, -, hlist, -⟩
          exact hr' hlist
      | ok live =>
          -- What is found are the listed objects whose key is not current.
          refine ⟨_, cache', rfl, hr.2, fun k => ?_⟩
          obtain ⟨hlist, rfl⟩ := hr'
          rw [List.mem_filter, mem_list_keys, hc, decide_eq_true_eq]
          constructor
          · rintro ⟨⟨hg, hl⟩, hgone⟩
            exact ⟨hgone, hg, hr.1, hlist, hl⟩
          · rintro ⟨hgone, hg, -, -, hl⟩
            exact ⟨⟨hg, hl⟩, hgone⟩

/-- The safety net, in a steady run. -/
theorem steady_safetyNet (current : List ResourceKey) (gvks : List GvkKey)
    {cache : KubeUtil.DiscoveryCache} (hcache : ∀ g ∈ cache, env.serves (.discover g))
    (w : World sc) :
    After (safetyNet env cfg current gvks cache) w fun r t => still.rel w t ∧
      ∃ found cache', r = .ok (found, cache') ∧
        (∀ g ∈ cache', env.serves (.discover g)) ∧
        ∀ k, k ∈ found ↔ k ∉ current ∧ k.gvk ∈ gvks ∧ env.serves (.discover k.gvk) ∧
          env.serves (.list k.gvk) ∧ LabelledLive cfg w.cluster k := by
  induction gvks generalizing cache w with
  | nil => exact ⟨rfl, [], cache, rfl, hcache, by simp⟩
  | cons g rest ih =>
      rw [safetyNet, after_bind]
      refine (steady_safetyNetKind hs current hcache g w).mono ?_
      rintro _ t ⟨ht, found, cache', rfl, hcache', hfound⟩
      dsimp only
      rw [after_bind]
      refine (ih hcache' t).mono ?_
      rintro _ u ⟨hu, more, cache'', rfl, hcache'', hmore⟩
      -- The safety net has deleted nothing, so the rest sees the same cluster.
      have hc : t.cluster = w.cluster := cluster_of_still ht
      rw [hc] at hmore
      refine ⟨still.trans ht hu, found ++ more, cache'', rfl, hcache'', fun k => ?_⟩
      rw [List.mem_append, hfound, hmore, List.mem_cons]
      constructor
      · rintro (⟨hgone, rfl, h⟩ | ⟨hgone, hg, h⟩)
        · exact ⟨hgone, .inl rfl, h⟩
        · exact ⟨hgone, .inr hg, h⟩
      · rintro ⟨hgone, rfl | hg, h⟩
        · exact .inl ⟨hgone, rfl, h⟩
        · exact .inr ⟨hgone, hg, h⟩

omit hs in
/-- Calls that change nothing came before. -/
theorem Handled.of_still {key : ResourceKey} {w t u : World sc} (h : Handled env cfg key t u)
    (ht : still.rel w t) : Handled env cfg key w u := by
  unfold Handled at h ⊢
  rw [cluster_of_still ht, deletions_of_untouched (untouched_of_still ht)] at h
  exact h.imp_right fun hno => ⟨hno.1, still.trans ht hno.2⟩

/-- The delete of a live object that is not exempt, in a steady run. -/
theorem steady_delete {key : ResourceKey} {w : World sc} {live : Live}
    (hresolves : env.serves (.discover key.gvk))
    (hreads : env.serves (.get key.gvk (key.denotes sc cfg.namespace)))
    (hlive : w.cluster.lookup (key.denotes sc cfg.namespace) = some live)
    (hskip : shouldSkipDeletion live.object = false) :
    After (KubeUtil.delete env cfg.namespace key.gvk key.ns key.name) w fun _ t =>
      Handled env cfg key w t := by
  have hact : After (KubeUtil.serveDelete env (key.denotes sc cfg.namespace))
      (w.called env (.delete key.gvk (key.denotes sc cfg.namespace)))
      fun _ t => t.deletions = key.denotes sc cfg.namespace :: w.deletions ∧
        ∀ id ≠ key.denotes sc cfg.namespace, t.cluster.lookup id = w.cluster.lookup id := by
    rw [after_serveDelete, hs.cluster_called, hlive]
    refine ⟨rfl, fun id hid => ?_⟩
    dsimp only
    split
    · exact AList.lookup_erase_ne hid
    · exact AList.lookup_insert_ne hid
  have hdeletable : (∀ e, env.fault 0 (.delete key.gvk (key.denotes sc cfg.namespace)) ≠
      .refused e) → Deletable env cfg w.cluster key := fun hdeletes =>
    ⟨⟨hresolves, hreads, hdeletes⟩, live, hlive, hskip⟩
  simp only [KubeUtil.delete, after_call, hs.fault w.step]
  rw [show apiFor sc key.gvk key.ns cfg.namespace key.name = key.denotes sc cfg.namespace from rfl]
  cases hf : env.fault 0 (.delete key.gvk (key.denotes sc cfg.namespace)) with
  | none =>
      have hyes := hdeletable fun e => by rw [hf]; simp
      exact hact.mono fun _ _ h => .inl ⟨hyes, h⟩
  | refused e => exact .inr ⟨fun h => h.deletes e hf, hs.interacts.called _ w⟩
  | lost e =>
      -- A lost response counts as a failure to the caller, and deletes all the same.
      have hyes := hdeletable fun e => by rw [hf]; simp
      exact hact.mono fun _ _ h => .inl ⟨hyes, h⟩

/-- One candidate, in a steady run: it is deleted exactly when it is deletable. -/
theorem steady_deleteKey {cache : KubeUtil.DiscoveryCache}
    (hcache : ∀ g ∈ cache, env.serves (.discover g)) (key : ResourceKey) (w : World sc) :
    After (deleteKey env cfg cache key) w fun r t => ∃ gone cache', r = .ok (gone, cache') ∧
      (∀ g ∈ cache', env.serves (.discover g)) ∧ Handled env cfg key w t := by
  refine after_deleteKey_of ((hs.after_getOrResolve hcache w).mono ?_)
  intro r t h
  obtain ⟨ht, hr⟩ := h
  constructor
  · intro e he
    rw [he] at hr
    -- The kind is not resolved.
    exact ⟨hcache, .inr ⟨fun h => hr h.resolves, ht⟩⟩
  · intro cache' hok
    rw [hok] at hr
    obtain ⟨hresolves, hcache'⟩ := hr
    refine (hs.after_getObject cfg.namespace key.gvk key.ns key.name t).mono ?_
    intro r u h
    obtain ⟨hu, hget⟩ := h
    have htu : still.rel w u := still.trans ht hu
    rw [cluster_of_still ht] at hget
    constructor
    -- The object is not there, exempt, or not to be read.
    · intro hno
      refine ⟨hcache', .inr ⟨?_, htu⟩⟩
      intro hdel
      obtain ⟨live, hlive, hskip⟩ := hdel.live
      have hexempt := hno _ ((hget _).mpr ⟨hdel.reads, live, hlive, rfl⟩)
      rw [shouldSkipDeletion_serve, hskip] at hexempt
      cases hexempt
    -- The object is there and not exempt, so the delete is sent.
    · intro obj hobj hskip
      obtain ⟨hreads, live, hlive, rfl⟩ := (hget obj).mp hobj
      rw [shouldSkipDeletion_serve] at hskip
      rw [← cluster_of_still htu] at hlive
      refine (steady_delete hs hresolves hreads hlive hskip).mono ?_
      intro r v hv
      exact ⟨hcache', hv.of_still htu⟩

/-- The candidates in turn, in a steady run: the objects deleted are those that a
deletable candidate denotes. A second key of a deleted object changes nothing. -/
theorem steady_deleteKeys {cache : KubeUtil.DiscoveryCache}
    (hcache : ∀ g ∈ cache, env.serves (.discover g)) (keys : List ResourceKey) (w : World sc) :
    After (deleteKeys env cfg keys cache) w fun _ t => ∃ ids, t.deletions = ids ++ w.deletions ∧
      ∀ id, id ∈ ids ↔
        ∃ k ∈ keys, k.denotes sc cfg.namespace = id ∧ Deletable env cfg w.cluster k := by
  induction keys generalizing cache w with
  | nil => exact ⟨[], rfl, by simp⟩
  | cons key rest ih =>
      rw [deleteKeys, after_bind]
      refine (steady_deleteKey hs hcache key w).mono ?_
      rintro _ t ⟨gone, cache', rfl, hcache', hstep⟩
      dsimp only
      rw [after_bind]
      refine (ih hcache' t).mono ?_
      intro r u hu
      obtain ⟨ids, hids, hmem⟩ := hu
      have hall : ∃ ids, u.deletions = ids ++ w.deletions ∧ ∀ id, id ∈ ids ↔
          ∃ k ∈ key :: rest, k.denotes sc cfg.namespace = id ∧
            Deletable env cfg w.cluster k := by
        rcases hstep with ⟨hdel, hdels, hother⟩ | ⟨hno, hstill⟩
        · refine ⟨ids ++ [key.denotes sc cfg.namespace], by simp [hids, hdels], fun id => ?_⟩
          rw [List.mem_append, List.mem_singleton, hmem]
          -- Another key of the same object adds nothing; for other objects nothing changed.
          by_cases hid : key.denotes sc cfg.namespace = id
          · exact iff_of_true (.inr hid.symm) ⟨key, List.mem_cons_self, hid, hdel⟩
          · have hsame : ∀ k, k.denotes sc cfg.namespace = id →
                (Deletable env cfg t.cluster k ↔ Deletable env cfg w.cluster k) :=
              fun k hk => deletable_congr (hother _ (by rw [hk]; exact Ne.symm hid))
            rw [or_iff_left (Ne.symm hid), List.exists_mem_cons_iff,
              or_iff_right (fun h => hid h.1)]
            exact exists_congr fun k => and_congr_right fun _ =>
              and_congr_right fun hk => hsame k hk
        · refine ⟨ids, by rw [hids, deletions_of_untouched (untouched_of_still hstill)],
            fun id => ?_⟩
          rw [hmem, cluster_of_still hstill, List.exists_mem_cons_iff]
          rw [or_iff_right (a := _ ∧ Deletable env cfg w.cluster key) fun h => hno h.2]
      cases r with
      | ok deleted => exact hall
      | error e => exact hall

/-- In a steady run, `prune` deletes exactly the objects that a deletable candidate
denotes. -/
theorem deletions_prune (prev current : List ResourceKey) (w : World sc) :
    ∃ ids, (state (prune env cfg prev current w)).deletions = ids ++ w.deletions ∧
      ∀ id, id ∈ ids ↔ ∃ k, SteadyCandidate env cfg w.cluster prev current k ∧
        k.denotes sc cfg.namespace = id ∧ Deletable env cfg w.cluster k := by
  have h : After (prune env cfg prev current) w fun _ t => ∃ ids,
      t.deletions = ids ++ w.deletions ∧ ∀ id, id ∈ ids ↔
        ∃ k, SteadyCandidate env cfg w.cluster prev current k ∧
          k.denotes sc cfg.namespace = id ∧ Deletable env cfg w.cluster k := by
    rw [prune, after_bind, after_hashGvks]
    dsimp only
    rw [after_bind]
    refine (steady_safetyNet hs current _ (List.forall_mem_nil _)
      (w.ticked env)).mono ?_
    rintro _ t ⟨ht, found, cache, rfl, hcache, hfound⟩
    dsimp only
    rw [after_bind, after_hashKeys]
    refine (steady_deleteKeys hs hcache _ (t.ticked env)).mono ?_
    intro r u hu
    obtain ⟨ids, hids, hmem⟩ := hu
    -- Nothing is deleted before the deletions, which is why the candidates are about the cluster
    -- as the prune found it.
    have hwt : still.rel w (t.ticked env) :=
      still.trans (hs.interacts.tick w) (still.trans ht (hs.interacts.tick t))
    have hc : (w.ticked env).cluster = w.cluster := hs.quiet _ _
    refine ⟨ids, by rw [hids, deletions_of_untouched (untouched_of_still hwt)], fun id => ?_⟩
    rw [hmem, cluster_of_still hwt]
    refine exists_congr fun k => ?_
    rw [Shuffle.mem_run, List.mem_dedup, List.mem_append, hfound k, Shuffle.mem_run,
      List.mem_dedup, deletionTargets, List.mem_filter, decide_eq_true_eq, hc]
    -- A key of either source is a candidate unless it is current.
    constructor
    · rintro ⟨⟨hprev, hgone⟩ | ⟨hgone, hsource⟩, h⟩
      · exact ⟨⟨hgone, .inl hprev⟩, h⟩
      · exact ⟨⟨hgone, .inr hsource⟩, h⟩
    · rintro ⟨⟨hgone, hprev | hsource⟩, h⟩
      · exact ⟨.inl ⟨hprev, hgone⟩, h⟩
      · exact ⟨.inr ⟨hgone, hsource⟩, h⟩
  exact h

/-- In a steady run the deleted objects are those of the deletable candidates, and those that were
deleted before. -/
theorem mem_deletions_prune (prev current : List ResourceKey) (w : World sc) (id : ObjId sc) :
    id ∈ (state (prune env cfg prev current w)).deletions ↔ id ∈ w.deletions ∨
      ∃ k, SteadyCandidate env cfg w.cluster prev current k ∧
        k.denotes sc cfg.namespace = id ∧ Deletable env cfg w.cluster k := by
  obtain ⟨ids, hids, hmem⟩ := deletions_prune hs prev current w
  rw [hids, List.mem_append, hmem, or_comm]

end Steady

end Prune

end LeanCd
