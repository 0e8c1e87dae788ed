import LeanCd.Calm
import LeanCd.Proofs.PruneTurns
import LeanCd.Proofs.Sweep

/-!
# `LeanCd.Proofs.Isolation`: whose objects `prune` deletes

The manual says that pruning filters by the managed label, so that instances with different label
values are isolated. The safety net does filter. A key that is in the applied set and has left Git
is a candidate whatever it denotes: an object that another instance has taken over since, one that
somebody has relabelled, or one that no apply of this instance ever reached.

Two things are known of a deleted object. It was read before the delete, and the labels that it
carried then are what the filter could have seen. It was live when the server deleted it, and the
ghost field `Live.appliedBy` says who had applied it last at that moment. `deletions` runs as
`prune` does and records both (`Deletion`), and `Deletion.Isolated` is the property of one record.

The condition has two parts, one for each way in which it can fail:

* `OnlyOwn` is about the cluster in which the prune starts. Every object that the prune takes up
  is exempt or the instance's own (`TakenUp`, `Own`).
* `LeftAlone` is about the other clients while the prune runs. They put nothing else at these
  objects, replace none of the instance's own, and make no other object one that is taken up.

The results:

* `isolated_of_onlyOwn`: the two together are enough, whatever the API calls answer.
* `isolated_iff`: the first is necessary, too. Where it fails, a prune that nobody disturbs and
  whose calls are all served deletes an object that is not the instance's own.

Both are about one prune. `LeanCd.Proofs.Instances` takes them to the runs of an instance among
others.
-/

set_option autoImplicit false

namespace LeanCd

open Act

/-- No client applies an object in the name of another: what the client with this name applied
last it had applied last before. -/
def Unforged {sc : Scopes} (me : String) (c c' : Cluster sc) : Prop :=
  ∀ id live', c'.lookup id = some live' → live'.appliedBy = some me →
    ∃ live, c.lookup id = some live ∧ live.appliedBy = some me

/-- What is on record about who applied an object last: nobody applies in the name of the process,
and a delete that marks an object applies nothing. -/
structure Env.Recorded {sc : Scopes} (env : Env sc) : Prop where
  others : ∀ n c, Unforged env.client c (env.others n c)
  marks : ∀ n id live marked, env.onDelete n id live = some marked →
    marked.appliedBy = live.appliedBy

/-- What is live after a delete was applied last by whoever had applied it last before. -/
theorem Env.Recorded.same {sc : Scopes} {env : Env sc} (h : env.Recorded) {n : Nat}
    {id : ObjId sc} {live live' : Live}
    (hmark : live' = live ∨ env.onDelete n id live = some live') :
    live'.appliedBy = live.appliedBy := by
  rcases hmark with rfl | hmark
  · rfl
  · exact h.marks _ _ _ _ hmark

namespace Prune

variable {sc : Scopes} {env : Env sc} {cfg : Config}

/-! ### What was read of the objects that are deleted -/

/-- A deleted object: as it was live when it was read, and as it was when the server deleted it.
Other clients may have acted in between. -/
structure Deletion (sc : Scopes) where
  id : ObjId sc
  read : Live
  removed : Live
deriving DecidableEq

/-- The deletion of an object that is read in one world and deleted in a later one. -/
def Deletion.of (id : ObjId sc) (w t : World sc) : Option (Deletion sc) := do
  return ⟨id, ← w.cluster.lookup id, ← t.cluster.lookup id⟩

section
variable (env cfg)

/-- `deleteKey`, with what was live when it read the object that the server then
deleted. -/
def deletionOf (cache : KubeUtil.DiscoveryCache) (key : ResourceKey) :
    Pass sc (List (Deletion sc) × KubeUtil.DiscoveryCache) := do
  match ← Act.attempt (δ := Error) (KubeUtil.getOrResolve env cache key.gvk) with
  | .error _ => return ([], cache)
  | .ok cache =>
      match ← Act.attempt (δ := Error)
          (KubeUtil.getObject env cfg.namespace key.gvk key.ns key.name) with
      | .error _ => return ([], cache)
      | .ok none => return ([], cache)
      | .ok (some obj) =>
          if shouldSkipDeletion obj then return ([], cache)
          else
            let id := key.denotes sc cfg.namespace
            let before ← get
            let _ ← Act.attempt (δ := Error)
              (KubeUtil.delete env cfg.namespace key.gvk key.ns key.name)
            if (← get).deletions = before.deletions then return ([], cache)
            else
              return ((Deletion.of id before (before.called env (.delete key.gvk id))).toList,
                cache)

/-- `deleteKeys`, with what was read. -/
def deletionsOf : List ResourceKey → KubeUtil.DiscoveryCache → Pass sc (List (Deletion sc))
  | [], _ => return []
  | key :: rest, cache => do
      let (first, cache) ← deletionOf env cfg cache key
      let others ← deletionsOf rest cache
      return first ++ others

/-- `prune`, with what was read. -/
def deletions (prev current : List ResourceKey) : Pass sc (List (Deletion sc)) := do
  let gvks ← hashGvks env (prev.map ResourceKey.gvk)
  let (orphans, cache) ← safetyNet env cfg current gvks []
  let targets ← hashKeys env (deletionTargets prev current ++ orphans)
  deletionsOf env cfg targets cache

end

/-- The server deletes what it is asked to if it is live, and nothing else. -/
theorem deletions_of_delete (g : GvkKey) (ns : Option String) (name : String) (w : World sc) :
    After (KubeUtil.delete env cfg.namespace g ns name) w fun _ t =>
      t.deletions = w.deletions ∨
        (t.deletions = apiFor sc g ns cfg.namespace name :: w.deletions ∧
          ∃ live, (w.called env (.delete g (apiFor sc g ns cfg.namespace name))).cluster.lookup
            (apiFor sc g ns cfg.namespace name) = some live) := by
  have hact : After (KubeUtil.serveDelete env (apiFor sc g ns cfg.namespace name))
      (w.called env (.delete g (apiFor sc g ns cfg.namespace name))) fun _ t =>
        t.deletions = w.deletions ∨
          (t.deletions = apiFor sc g ns cfg.namespace name :: w.deletions ∧
            ∃ live, (w.called env (.delete g (apiFor sc g ns cfg.namespace name))).cluster.lookup
              (apiFor sc g ns cfg.namespace name) = some live) := by
    rw [after_serveDelete]
    cases hlook : (w.called env (.delete g (apiFor sc g ns cfg.namespace name))).cluster.lookup
      (apiFor sc g ns cfg.namespace name) with
    -- Nothing is under the identity. The server answers that it is not there.
    | none => exact .inl rfl
    | some live => exact .inr ⟨rfl, live, rfl⟩
  rw [KubeUtil.delete, after_call]
  cases env.fault w.step (.delete g (apiFor sc g ns cfg.namespace name)) with
  | none => exact hact
  | refused e => exact .inl rfl
  -- A lost answer hides what the delete has done. The object may be gone all the same.
  | lost e => exact hact

/-! ### `deletions` runs as `prune` does -/

/-- One key: the reading computation and `delete_key` go the same way and end in the same world. -/
theorem deletionOf_run (cache : KubeUtil.DiscoveryCache) (key : ResourceKey) (w : World sc) :
    ∃ ds gone cache' t, deletionOf env cfg cache key w = .ok (ds, cache') t ∧
      deleteKey env cfg cache key w = .ok (gone, cache') t := by
  unfold deletionOf deleteKey
  rw [bind_ok (attempt_run _ _), bind_ok (attempt_run _ _)]
  -- Both functions make the same calls one after the other. They differ in what they return, so
  -- every case is closed by the run of the other.
  generalize KubeUtil.getOrResolve env cache key.gvk w = resolved
  cases value resolved with
  | error e => exact ⟨_, _, _, _, rfl, rfl⟩
  | ok cache' =>
      dsimp only
      rw [bind_ok (attempt_run _ _), bind_ok (attempt_run _ _)]
      generalize KubeUtil.getObject env cfg.namespace key.gvk key.ns key.name (state resolved) = got
      cases value got with
      | error e => exact ⟨_, _, _, _, rfl, rfl⟩
      | ok found =>
          cases found with
          | none => exact ⟨_, _, _, _, rfl, rfl⟩
          | some obj =>
              dsimp only
              split
              -- An exempt object is left where it is.
              · exact ⟨_, _, _, _, rfl, rfl⟩
              · have hget : (get : Pass sc (World sc)) (state got) =
                    .ok (state got) (state got) := rfl
                rw [bind_ok hget, bind_ok (attempt_run _ _), bind_ok (attempt_run _ _)]
                generalize KubeUtil.delete env cfg.namespace key.gvk key.ns key.name
                  (state got) = done
                have hget' : (get : Pass sc (World sc)) (state done) =
                    .ok (state done) (state done) := rfl
                rw [bind_ok hget']
                cases value done with
                | error e =>
                    split
                    · exact ⟨_, _, _, _, rfl, rfl⟩
                    · exact ⟨_, _, _, _, rfl, rfl⟩
                | ok a =>
                    split
                    · exact ⟨_, _, _, _, rfl, rfl⟩
                    · exact ⟨_, _, _, _, rfl, rfl⟩

/-- The same of a list of keys, by induction along it. -/
theorem deletionsOf_run (keys : List ResourceKey) (cache : KubeUtil.DiscoveryCache)
    (w : World sc) : ∃ ds gone t, deletionsOf env cfg keys cache w = .ok ds t ∧
      deleteKeys env cfg keys cache w = .ok gone t := by
  induction keys generalizing cache w with
  | nil => exact ⟨[], [], w, rfl, rfl⟩
  | cons key rest ih =>
      obtain ⟨ds, gone, cache', t, hds, hgone⟩ := @deletionOf_run _ env cfg cache key w
      obtain ⟨ds', gone', u, hds', hgone'⟩ := ih cache' t
      unfold deletionsOf deleteKeys
      rw [bind_ok hds, bind_ok hgone]
      dsimp only
      rw [bind_ok hds', bind_ok hgone']
      exact ⟨_, _, _, rfl, rfl⟩

/-- The steps of the two before the first delete. -/
structure Chosen (env : Env sc) (cfg : Config) (prev current : List ResourceKey)
    (w : World sc) (targets : List ResourceKey) (cache : KubeUtil.DiscoveryCache)
    (v : World sc) : Prop where
  run : ∃ gvks t orphans u, hashGvks env (prev.map ResourceKey.gvk) w = .ok gvks t ∧
    safetyNet env cfg current gvks [] t = .ok (orphans, cache) u ∧
    hashKeys env (deletionTargets prev current ++ orphans) u = .ok targets v

/-- The same of a whole prune: both take up the targets that the safety net and the applied set
give. -/
theorem deletions_run (prev current : List ResourceKey) (w : World sc) :
    ∃ targets cache v, Chosen env cfg prev current w targets cache v ∧
      deletions env cfg prev current w = deletionsOf env cfg targets cache v ∧
      prune env cfg prev current w = deleteKeys env cfg targets cache v := by
  obtain ⟨gvks, t, hgvks⟩ := @total_hashGvks _ env (prev.map ResourceKey.gvk) w
  obtain ⟨⟨orphans, cache⟩, u, hnet⟩ := @total_safetyNet _ env cfg current gvks [] t
  obtain ⟨targets, v, htargets⟩ :=
    @total_hashKeys _ env (deletionTargets prev current ++ orphans) u
  refine ⟨targets, cache, v, ⟨gvks, t, orphans, u, hgvks, hnet, htargets⟩, ?_, ?_⟩
  · unfold deletions
    rw [bind_ok hgvks, bind_ok hnet]
    dsimp only
    rw [bind_ok htargets]
  · unfold prune
    rw [bind_ok hgvks, bind_ok hnet]
    dsimp only
    rw [bind_ok htargets]

/-- The two end in the same world. -/
theorem state_deletions (prev current : List ResourceKey) (w : World sc) :
    state (deletions env cfg prev current w) = state (prune env cfg prev current w) := by
  obtain ⟨targets, cache, v, -, hdeletions, hprune⟩ :=
    @deletions_run _ env cfg prev current w
  obtain ⟨ds, gone, t, hds, hgone⟩ := @deletionsOf_run _ env cfg targets cache v
  rw [hdeletions, hprune, hds, hgone]
  rfl

/-- Choosing the candidates respects what an interaction respects. -/
theorem Chosen.keeps {F : Frame (World sc)} (hin : Interacts env F)
    {prev current targets : List ResourceKey} {cache : KubeUtil.DiscoveryCache} {w v : World sc}
    (h : Chosen env cfg prev current w targets cache v) : F.rel w v := by
  obtain ⟨gvks, t, orphans, u, hgvks, hnet, htargets⟩ := h.run
  exact F.trans ((keeps_hashGvks hin _).of_ok hgvks)
    (F.trans ((keeps_safetyNet hin current gvks []).of_ok hnet)
      ((keeps_hashKeys hin _).of_ok htargets))

/-- What is known of a target: it was applied and has left Git, or the safety net found it. -/
theorem Chosen.mem_targets {F : Frame (World sc)} (hin : Interacts env F)
    {prev current targets : List ResourceKey} {cache : KubeUtil.DiscoveryCache} {w v : World sc}
    (h : Chosen env cfg prev current w targets cache v) {k : ResourceKey} (hk : k ∈ targets) :
    k ∉ current ∧ (k ∈ prev ∨ (k.gvk ∈ prev.map ResourceKey.gvk ∧ Found env cfg F w v k)) := by
  obtain ⟨gvks, t, orphans, u, hgvks, hnet, htargets⟩ := h.run
  have hwt := (keeps_hashGvks hin _).of_ok hgvks
  have huv := (keeps_hashKeys hin _).of_ok htargets
  have hk := ((returns_hashKeys _) u targets (by rw [htargets]; rfl) k).mp hk
  rcases List.mem_append.mp hk with hk | hk
  · obtain ⟨hprev, hgone⟩ := List.mem_filter.mp hk
    exact ⟨by simpa using hgone, .inl hprev⟩
  · have hnet' : After (safetyNet env cfg current gvks []) t fun res u =>
        Finds env cfg F w u res :=
      after_safetyNet_finds hin current gvks hwt (List.forall_mem_nil _)
    have hfinds := hnet'.of_run hnet
    obtain ⟨hgone, hkind, -⟩ := (returns_safetyNet current gvks []) t (orphans, cache)
      (by rw [hnet]; rfl) k hk
    have hkind := ((returns_hashGvks _) w gvks (by rw [hgvks]; rfl) k.gvk).mp hkind
    exact ⟨hgone, .inr ⟨hkind, ((hfinds.2 orphans cache rfl).2 k hk).mono huv⟩⟩

/-! ### What a deletion was about -/

/-- The deleted object is one a key denotes. It was read in a world of the run, and was not
exempt; it was deleted as the next interaction found it. -/
structure ReadIn (env : Env sc) (F : Frame (World sc)) (cfg : Config) (keys : List ResourceKey)
    (w t : World sc) (d : Deletion sc) : Prop where
  key : ∃ k ∈ keys, k.denotes sc cfg.namespace = d.id
  chosen : shouldSkipDeletion d.read.object = false
  live : ∃ u req, F.rel w u ∧ F.rel (u.called env req) t ∧ u.cluster.lookup d.id = some d.read ∧
    (u.called env req).cluster.lookup d.id = some d.removed

section
variable {F : Frame (World sc)}

/-- A reading stays one when more keys are looked at and the frame covers more of the run. -/
theorem ReadIn.mono {keys keys' : List ResourceKey} {w w' t t' : World sc} {d : Deletion sc}
    (h : ReadIn env F cfg keys w t d) (hkeys : ∀ k ∈ keys, k ∈ keys') (hw : F.rel w' w)
    (ht : F.rel t t') : ReadIn env F cfg keys' w' t' d where
  key := by
    obtain ⟨k, hk, hid⟩ := h.key
    exact ⟨k, hkeys k hk, hid⟩
  chosen := h.chosen
  live := by
    obtain ⟨u, req, hu, hut, hread, hremoved⟩ := h.live
    exact ⟨u, req, F.trans hw hu, F.trans hut ht, hread, hremoved⟩

/-- The deletions of a stretch of the run, next to the frame it respects. -/
def Records (env : Env sc) (F : Frame (World sc)) (cfg : Config) (keys : List ResourceKey)
    (w : World sc) (ds : List (Deletion sc)) (t : World sc) : Prop :=
  F.rel w t ∧ (∀ d ∈ ds, ReadIn env F cfg keys w t d) ∧
    ∀ id, id ∈ t.deletions ↔ id ∈ w.deletions ∨ ∃ d ∈ ds, d.id = id

/-- Steps that do not touch the trace record nothing. -/
theorem records_nil {keys : List ResourceKey} {w t : World sc} (hF : F.rel w t)
    (h : untouched.rel w t) : Records env F cfg keys w [] t :=
  ⟨hF, List.forall_mem_nil _, fun id => by simp [deletions_of_untouched h]⟩

variable (hin : Interacts env F) (hdelete : ∀ id, Keeps F (KubeUtil.serveDelete env id))
include hin hdelete

/-- The delete of an object that was read. -/
theorem after_delete_records {key : ResourceKey} {w u : World sc} {live : Live}
    (hwu : F.rel w u) (htouch : untouched.rel w u)
    (hlook : u.cluster.lookup (key.denotes sc cfg.namespace) = some live)
    (hskip : shouldSkipDeletion live.object = false) :
    After (KubeUtil.delete env cfg.namespace key.gvk key.ns key.name) u fun _ v =>
      Records env F cfg [key] w (if v.deletions = u.deletions then [] else
        (Deletion.of (key.denotes sc cfg.namespace) u
          (u.called env (.delete key.gvk (key.denotes sc cfg.namespace)))).toList) v := by
  -- The frame holds from the world in which the server acts, too.
  have hserved : After (KubeUtil.delete env cfg.namespace key.gvk key.ns key.name) u fun _ v =>
      F.rel (u.called env (.delete key.gvk (key.denotes sc cfg.namespace))) v := by
    rw [KubeUtil.delete, after_call]
    cases env.fault u.step
        (.delete key.gvk (apiFor sc key.gvk key.ns cfg.namespace key.name)) with
    | none => exact (hdelete _).after _
    | refused e => exact F.refl _
    | lost e => exact (hdelete _).after _
  refine (hserved.and (deletions_of_delete key.gvk key.ns key.name u)).mono ?_
  intro _ v hv
  obtain ⟨hserved, hdels⟩ := hv
  have hwv : F.rel w v := F.trans hwu (F.trans (hin.called _ u) hserved)
  have hbefore : u.deletions = w.deletions := deletions_of_untouched htouch
  by_cases hsame : v.deletions = u.deletions
  · rw [if_pos hsame]
    exact ⟨hwv, List.forall_mem_nil _, fun id => by simp [hsame, hbefore]⟩
  · obtain ⟨hdels, found, hfound⟩ := hdels.resolve_left hsame
    have hfound : (u.called env (.delete key.gvk (key.denotes sc cfg.namespace))).cluster.lookup
        (key.denotes sc cfg.namespace) = some found := hfound
    have hof : Deletion.of (key.denotes sc cfg.namespace) u
        (u.called env (.delete key.gvk (key.denotes sc cfg.namespace))) =
          some ⟨key.denotes sc cfg.namespace, live, found⟩ := by
      simp [Deletion.of, hlook, hfound]
    rw [if_neg hsame, hof]
    refine ⟨hwv, ?_, fun id => ?_⟩
    · intro d hd
      obtain rfl := List.mem_singleton.mp hd
      exact ⟨⟨key, List.mem_cons_self, rfl⟩, hskip, u, _, hwu, hserved, hlook, hfound⟩
    · rw [hdels, List.mem_cons, hbefore]
      simp [ResourceKey.denotes, eq_comm, or_comm]

/-- What is read of one key, in every environment that a frame covers. -/
theorem after_deletionOf (cache : KubeUtil.DiscoveryCache) (key : ResourceKey) (w : World sc) :
    After (deletionOf env cfg cache key) w fun r t => ∃ ds cache', r = .ok (ds, cache') ∧
      Records env F cfg [key] w ds t := by
  rw [deletionOf, after_bind, after_attempt]
  refine ((keeps_getOrResolve hin cache key.gvk).after w).and
    ((keeps_getOrResolve interacts_untouched cache key.gvk).after w) |>.mono ?_
  rintro r t ⟨ht, htouch⟩
  cases r with
  -- Without discovery nothing was removed, and the records are empty.
  | error e => exact ⟨[], cache, rfl, records_nil ht htouch⟩
  | ok cache' =>
      dsimp only
      rw [after_bind, after_attempt]
      refine ((((keeps_getObject hin cfg.namespace key.gvk key.ns key.name).after t).and
        ((keeps_getObject interacts_untouched cfg.namespace key.gvk key.ns key.name).after
          t)).and (after_getObject_live key.gvk key.ns key.name t)).mono ?_
      rintro r u ⟨⟨hu, hutouch⟩, hlive⟩
      have hwu := F.trans ht hu
      have hnil : Records env F cfg [key] w [] u :=
        records_nil hwu (untouched.trans htouch hutouch)
      cases r with
      -- The read failed, so no delete is sent.
      | error e => exact ⟨[], cache', rfl, hnil⟩
      | ok found =>
          cases found with
          | none => exact ⟨[], cache', rfl, hnil⟩
          | some obj =>
              obtain ⟨live, hlook, rfl⟩ := hlive obj rfl
              dsimp only
              rw [shouldSkipDeletion_serve, after_ite]
              split
              -- The policy or a hook annotation protects the object.
              · exact ⟨[], cache', rfl, hnil⟩
              · rename_i hskip
                simp only [after_bind, after_get, after_attempt]
                refine (after_delete_records hin hdelete hwu (untouched.trans htouch hutouch)
                  hlook (by simpa using hskip)).mono ?_
                intro r v hv
                rw [after_ite]
                -- Only a delete that lengthened the list of deletions is recorded.
                split at hv
                next hsame =>
                  rw [if_pos hsame]
                  exact ⟨[], cache', rfl, hv⟩
                next hmore =>
                  rw [if_neg hmore]
                  exact ⟨_, cache', rfl, hv⟩

/-- The readings of a list of keys, by induction along it. -/
theorem after_deletionsOf (keys : List ResourceKey) (cache : KubeUtil.DiscoveryCache)
    (w : World sc) :
    After (deletionsOf env cfg keys cache) w fun r t => ∃ ds, r = .ok ds ∧
      Records env F cfg keys w ds t := by
  induction keys generalizing cache w with
  -- The records of no key are none.
  | nil => exact ⟨[], rfl, records_nil (F.refl w) (untouched.refl w)⟩
  | cons key rest ih =>
      rw [deletionsOf, after_bind]
      refine (after_deletionOf hin hdelete cache key w).mono ?_
      rintro _ t ⟨ds, cache', rfl, hwt, hread, hdels⟩
      dsimp only
      rw [after_bind]
      refine (ih cache' t).mono ?_
      rintro _ u ⟨ds', rfl, htu, hread', hdels'⟩
      -- What the rest records is about its own keys, and lies after what the first one has done.
      refine after_pure.mpr ⟨ds ++ ds', rfl, F.trans hwt htu, fun d hd => ?_, fun id => ?_⟩
      · rcases List.mem_append.mp hd with hd | hd
        · refine (hread d hd).mono (fun k hk => ?_) (F.refl w) htu
          rw [List.mem_singleton.mp hk]
          exact List.mem_cons_self
        · exact (hread' d hd).mono (fun k hk => List.mem_cons_of_mem _ hk) hwt (F.refl u)
      · rw [hdels', hdels]
        simp only [List.mem_append, or_and_right, exists_or, or_assoc]

end

/-- What a run of `prune` reads before it deletes. -/
def readings (env : Env sc) (cfg : Config) (prev current : List ResourceKey) (w : World sc) :
    List (Deletion sc) :=
  match value (deletions env cfg prev current w) with
  | .ok ds => ds
  | .error _ => []

/-- What is read by a run of `prune`, after the steps that choose the candidates. -/
theorem readings_records {F : Frame (World sc)} (hin : Interacts env F)
    (hdelete : ∀ id, Keeps F (KubeUtil.serveDelete env id)) (prev current : List ResourceKey)
    (w : World sc) :
    ∃ targets cache v, Chosen env cfg prev current w targets cache v ∧
      Records env F cfg targets v (readings env cfg prev current w)
        (state (prune env cfg prev current w)) := by
  obtain ⟨targets, cache, v, hchosen, hrun, -⟩ := @deletions_run _ env cfg prev current w
  obtain ⟨ds, hds, hrecords⟩ : After (deletionsOf env cfg targets cache) v fun r t =>
      ∃ ds, r = .ok ds ∧ Records env F cfg targets v ds t :=
    after_deletionsOf hin hdelete targets cache v
  refine ⟨targets, cache, v, hchosen, ?_⟩
  rw [← state_deletions, readings, hrun, hds]
  exact hrecords

/-- What is read by a run of `prune`. -/
theorem readIn_of_readings {F : Frame (World sc)} (hin : Interacts env F)
    (hdelete : ∀ id, Keeps F (KubeUtil.serveDelete env id)) {prev current : List ResourceKey}
    {w : World sc} {d : Deletion sc} (hd : d ∈ readings env cfg prev current w) :
    ∃ keys, ReadIn env F cfg keys w (state (prune env cfg prev current w)) d := by
  obtain ⟨targets, cache, v, hchosen, -, hread, -⟩ :=
    @readings_records _ env cfg F hin hdelete prev current w
  exact ⟨targets, (hread d hd).mono (fun _ hk => hk) (hchosen.keeps hin) (F.refl _)⟩

/-! ### The property -/

/-- An object is the instance's own: it carries the managed label, and the instance applied it
last. -/
structure Own (cfg : Config) (me : String) (live : Live) : Prop where
  managed : live.object.labelled cfg.selector = true
  last : live.appliedBy = some me

/-- The deletion keeps to the objects of the instance: when the object was read it carried the
managed label, and when it was deleted the instance had applied it last. -/
structure Deletion.Isolated (cfg : Config) (me : String) (d : Deletion sc) : Prop where
  managed : d.read.object.labelled cfg.selector = true
  last : d.removed.appliedBy = some me

/-! ### The condition -/

/-- Whatever is live there is exempt from deletion, or the instance's own. -/
def OwnAt (cfg : Config) (me : String) (c : Cluster sc) (id : ObjId sc) : Prop :=
  ∀ live, c.lookup id = some live → shouldSkipDeletion live.object = true ∨ Own cfg me live

/-- A prune takes the object up on this cluster: a key that is not current denotes it, and the key
was applied before, or the object carries the label and its kind was applied before. -/
def TakenUp (cfg : Config) (prev current : List ResourceKey) (c : Cluster sc) (id : ObjId sc) :
    Prop :=
  ∃ k, k ∉ current ∧ (k ∈ prev ∨ (k.gvk ∈ prev.map ResourceKey.gvk ∧ LabelledLive cfg c k)) ∧
    k.denotes sc cfg.namespace = id

/-- Every object that a prune takes up is exempt or the instance's own. -/
def OnlyOwn (cfg : Config) (me : String) (prev current : List ResourceKey) (c : Cluster sc) :
    Prop :=
  ∀ id, TakenUp cfg prev current c id → OwnAt cfg me c id

/-- A moment between two steps. -/
def Between (start stop n : Nat) : Prop := start ≤ n ∧ n < stop

/-- What the other clients leave alone while a prune runs. -/
structure LeftAlone (env : Env sc) (cfg : Config) (prev current : List ResourceKey)
    (w t : World sc) : Prop where
  /-- They put nothing at the objects that the prune takes up that is neither exempt nor the
  instance's own. -/
  own : ∀ n, Between w.step t.step n → ∀ (c : Cluster sc) (id : ObjId sc),
    TakenUp cfg prev current w.cluster id → OwnAt cfg env.client c id →
      OwnAt cfg env.client (env.others n c) id
  /-- They replace none that is the instance's own. -/
  held : ∀ n, Between w.step t.step n → ∀ (c : Cluster sc) (id : ObjId sc) (live live' : Live),
    TakenUp cfg prev current w.cluster id → c.lookup id = some live → Own cfg env.client live →
      (env.others n c).lookup id = some live' → Own cfg env.client live'
  /-- They make no other object one that the prune takes up. -/
  others : ∀ n, Between w.step t.step n → ∀ (c : Cluster sc) (id : ObjId sc),
    ¬ TakenUp cfg prev current w.cluster id → ¬ TakenUp cfg prev current c id →
      ¬ TakenUp cfg prev current (env.others n c) id

/-! ### When it holds -/

section
variable {me : String} {prev current : List ResourceKey} {mine : ObjId sc → Prop}

/-- What stays so while the others leave a prune alone. -/
def ownKept (cfg : Config) (me : String) (prev current : List ResourceKey)
    (mine : ObjId sc → Prop) : Frame (World sc) where
  rel w t := (∀ id, mine id → OwnAt cfg me w.cluster id → OwnAt cfg me t.cluster id) ∧
    ∀ id, ¬ mine id → ¬ TakenUp cfg prev current w.cluster id →
      ¬ TakenUp cfg prev current t.cluster id
  refl _ := ⟨fun _ _ h => h, fun _ _ h => h⟩
  trans h₁ h₂ :=
    ⟨fun id hid h => h₂.1 id hid (h₁.1 id hid h), fun id hid h => h₂.2 id hid (h₁.2 id hid h)⟩

/-- The deletes of the prune itself leave it so. -/
theorem keeps_serveDelete_ownKept (hmarks : env.MarksOnly) (hrecord : env.Recorded)
    (start stop : Nat) (id : ObjId sc) :
    Keeps (within start stop (ownKept cfg me prev current mine)) (KubeUtil.serveDelete env id) := by
  intro w
  obtain ⟨hstep, hbefore⟩ := @live_before_delete _ env id w
  refine ⟨hstep.ge, fun _ _ => ⟨fun id' _ hown live' hlook' => ?_, fun id' _ hnone htaken => ?_⟩⟩
  · obtain ⟨live, hlook, hmark⟩ := hbefore id' live' hlook'
    obtain ⟨hskip, hlabel⟩ := hmarks.same cfg hmark
    rw [hskip]
    refine (hown live hlook).imp_right fun hmine => ⟨hlabel ▸ hmine.managed, ?_⟩
    rw [hrecord.same hmark]
    exact hmine.last
  · obtain ⟨k, hgone, hsource, hid⟩ := htaken
    refine hnone ⟨k, hgone, hsource.imp_right fun h => ⟨h.1, h.2.1, ?_⟩, hid⟩
    obtain ⟨-, -, live', hlook', hlabel'⟩ := h
    obtain ⟨live, hlook, hmark⟩ := hbefore _ live' hlook'
    exact ⟨live, hlook, (hmarks.same cfg hmark).2 ▸ hlabel'⟩

/-- So does what comes in between. -/
theorem LeftAlone.interacts {w t : World sc} (h : LeftAlone env cfg prev current w t) :
    Interacts env (within w.step t.step (ownKept cfg env.client prev current
      (TakenUp cfg prev current w.cluster))) where
  tick u := by
    refine ⟨Nat.le_succ _, fun hstart hstop => ?_⟩
    have hbetween : Between w.step t.step u.step := ⟨hstart, hstop⟩
    exact ⟨h.own u.step hbetween u.cluster, h.others u.step hbetween u.cluster⟩
  transmit _ _ := ⟨le_rfl, fun _ _ => (ownKept _ _ _ _ _).refl _⟩

/-- A prune that is left alone, and finds only the instance's own objects to take up, keeps to
them. -/
theorem isolated_of_onlyOwn (hmarks : env.MarksOnly) (hrecord : env.Recorded) {w : World sc}
    (hleft : LeftAlone env cfg prev current w (state (prune env cfg prev current w)))
    (hown : OnlyOwn cfg env.client prev current w.cluster) {d : Deletion sc}
    (hd : d ∈ readings env cfg prev current w) : d.Isolated cfg env.client := by
  have hin := hleft.interacts
  obtain ⟨targets, cache, v, hchosen, hend, hread, -⟩ := @readings_records _ env cfg _ hin
    (keeps_serveDelete_ownKept hmarks hrecord _ _) prev current w
  obtain ⟨⟨k, hk, hid⟩, hskip, u, req, hvu, hut, hlook, hremoved⟩ := hread d hd
  have hwv := hchosen.keeps hin
  have hwu := (within _ _ _).trans hwv hvu
  have hstop : u.step + 1 ≤ (state (prune env cfg prev current w)).step := hut.1
  -- Every target denotes an object that was taken up when the prune started.
  have hmine : TakenUp cfg prev current w.cluster d.id := by
    obtain ⟨hgone, hsource⟩ := hchosen.mem_targets hin hk
    rcases hsource with hprev | ⟨hkind, hfound⟩
    · exact ⟨k, hgone, .inl hprev, hid⟩
    · obtain ⟨x, hwx, hxv, hlabelled⟩ := hfound.managed
      have hxstop : x.step ≤ (state (prune env cfg prev current w)).step :=
        hxv.1.trans (hvu.1.trans (Nat.le_of_succ_le hstop))
      by_contra hnot
      refine (hwx.2 le_rfl hxstop).2 d.id hnot ?_ ⟨k, hgone, .inr ⟨hkind, hlabelled⟩, hid⟩
      exact hnot
  have hownu := (hwu.2 le_rfl (Nat.le_of_succ_le hstop)).1 d.id hmine (hown d.id hmine)
  have hownd : Own cfg env.client d.read := by
    refine (hownu d.read hlook).resolve_left fun hexempt => ?_
    rw [hskip] at hexempt
    cases hexempt
  exact ⟨hownd.managed, (hleft.held u.step ⟨hwu.1, hstop⟩ u.cluster d.id _ _ hmine hlook hownd
    hremoved).last⟩

end

/-! ### When it does not -/

/-- Every live object was live before, as it is. -/
def fewer (sc : Scopes) : Frame (World sc) where
  rel w t := ∀ id live, t.cluster.lookup id = some live → w.cluster.lookup id = some live
  refl _ _ _ h := h
  trans h₁ h₂ id live h := h₁ id live (h₂ id live h)

/-- The environment in which every call is served and nobody else acts, for a client. -/
def aloneEnv (sc : Scopes) (me : String) : Env sc := { Env.idle sc with client := me }

/-- In the environment of the counterexample the others do nothing, and each call has one answer. -/
theorem steady_alone (sc : Scopes) (me : String) : (aloneEnv sc me).Steady :=
  ⟨fun _ _ => rfl, fun _ _ => rfl⟩

/-- Its deletes remove at once, so no object is ever marked. -/
theorem marksOnly_alone (sc : Scopes) (me : String) : (aloneEnv sc me).MarksOnly := by
  intro n id live marked hmark
  cases hmark

/-- Who applied an object last changes with an apply only. -/
theorem recorded_alone (sc : Scopes) (me : String) : (aloneEnv sc me).Recorded where
  others _ _ _ live hlook hlast := ⟨live, hlook, hlast⟩
  marks n id live marked hmark := by cases hmark

/-- Where nobody else acts, everything is left alone. -/
theorem leftAlone_of_quiet (hquiet : ∀ n c, env.others n c = c) (prev current : List ResourceKey)
    (w t : World sc) : LeftAlone env cfg prev current w t where
  own n _ c id _ h := by rwa [hquiet n c]
  held n _ c id live live' _ hlook hown hlook' := by
    rw [hquiet n c] at hlook'
    cases hlook.symm.trans hlook'
    exact hown
  others n _ c id _ h := by rwa [hquiet n c]

/-- Between calls it only loses objects. -/
theorem interacts_fewer (me : String) : Interacts (aloneEnv sc me) (fewer sc) :=
  ⟨fun _ _ _ h => h, fun _ _ _ _ h => h⟩

/-- A delete only loses one. -/
theorem keeps_serveDelete_fewer (me : String) (id : ObjId sc) :
    Keeps (fewer sc) (KubeUtil.serveDelete (aloneEnv sc me) id) := by
  intro w id' live' hlook'
  obtain ⟨live, hlook, hmark⟩ := (@live_before_delete _ (aloneEnv sc me) id w).2 id' live' hlook'
  rcases hmark with rfl | hmark
  · exact hlook
  · cases hmark

/-- Where every call is served and nobody else acts, an object that is taken up is deleted as it
is, unless it is exempt. -/
theorem mem_readings_alone {me : String} {prev current : List ResourceKey} {c : Cluster sc}
    {id : ObjId sc} (htaken : TakenUp cfg prev current c id) {live : Live}
    (hlook : c.lookup id = some live) (hskip : shouldSkipDeletion live.object = false) :
    ⟨id, live, live⟩ ∈ readings (aloneEnv sc me) cfg prev current (.fresh c none) := by
  obtain ⟨k, hgone, hsource, hid⟩ := htaken
  have hdeleted : id ∈
      (state (prune (aloneEnv sc me) cfg prev current (.fresh c none))).deletions := by
    refine (mem_deletions_prune (steady_alone sc me) prev current _ _).mpr (.inr ⟨k, ?_, hid, ?_⟩)
    · exact ⟨hgone, hsource.imp_right fun h => ⟨h.1, rfl, rfl, h.2⟩⟩
    · refine ⟨⟨rfl, rfl, fun e he => ?_⟩, live, hid ▸ hlook, hskip⟩
      cases he
  obtain ⟨targets, cache, v, hchosen, -, hread, hids⟩ :=
    @readings_records _ (aloneEnv sc me) cfg _ (interacts_fewer me) (keeps_serveDelete_fewer me)
      prev current (.fresh c none)
  have hwv := hchosen.keeps (interacts_fewer me)
  rw [hids, deletions_of_untouched (hchosen.keeps interacts_untouched)] at hdeleted
  obtain ⟨d, hd, rfl⟩ := hdeleted.resolve_left List.not_mem_nil
  obtain ⟨-, -, u, req, hvu, -, hlook', hremoved⟩ := hread d hd
  -- Nothing but deletes changes the cluster, so the object is as it was both times.
  have hbefore := (fewer sc).trans hwv hvu _ _ hlook'
  have hbefore' := (fewer sc).trans hwv ((fewer sc).trans hvu
    ((interacts_fewer me).called req u)) _ _ hremoved
  have hlive : d.read = live := Option.some.inj (hbefore.symm.trans hlook)
  have hlive' : d.removed = live := Option.some.inj (hbefore'.symm.trans hlook)
  obtain ⟨_, _, _⟩ := d
  cases hlive
  cases hlive'
  exact hd

/-- The condition is exact for a prune on a cluster: whatever calls fail and whatever the other
clients do elsewhere, each prune that they leave alone keeps to the instance's own objects exactly
when every object that it takes up is exempt or the instance's own. -/
theorem isolated_iff (sc : Scopes) (cfg : Config) (me : String) (prev current : List ResourceKey)
    (c : Cluster sc) :
    (∀ (env : Env sc) (w : World sc), env.client = me → env.MarksOnly → env.Recorded →
      w.cluster = c →
      LeftAlone env cfg prev current w (state (prune env cfg prev current w)) →
      ∀ d ∈ readings env cfg prev current w, d.Isolated cfg me) ↔
      OnlyOwn cfg me prev current c := by
  constructor
  · intro h id htaken live hlook
    by_cases hskip : shouldSkipDeletion live.object = true
    · exact .inl hskip
    · have hisolated := h (aloneEnv sc me) (.fresh c none) rfl (marksOnly_alone sc me)
        (recorded_alone sc me) rfl (leftAlone_of_quiet (fun _ _ => rfl) prev current _ _) _
        (mem_readings_alone htaken hlook (by simpa using hskip))
      exact .inr ⟨hisolated.managed, hisolated.last⟩
  · rintro hown env w rfl hmarks hrecord rfl hleft d hd
    exact isolated_of_onlyOwn hmarks hrecord hleft hown hd

end Prune

end LeanCd
