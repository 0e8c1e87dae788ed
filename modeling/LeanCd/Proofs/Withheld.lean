import LeanCd.Proofs.PassPrune
import LeanCd.Proofs.PruneTurns

/-!
# `LeanCd.Proofs.Withheld`: what keeps an object out of the hands of `prune`

`prune` decides by keys. It deletes an object when a key that denotes it is a candidate, the
calls for that key go through, and the object that is read is not exempt. Whether this comes
about can be told before the prune starts, from the two key sets, the live objects, and what the
environment has in store:

* `Stays`: something is so of the live object, and the other clients leave it so. An object that
  stays gone or exempt is never deleted.
* `OutOfReach`: the calls for a key fail. Its kind is never discovered, its object is never read,
  or the server always refuses the delete.
* `Unlisted`: the safety net does not find the key. Its kind is never discovered or never listed,
  or the object stays without the managed label. This spares the keys that were not applied.

`Withheld` puts the three together. `spared_of_withheld` holds in every environment, whatever
fails and whatever the other clients do in between. `withheld_iff` is the converse for steady
runs: there the condition is exact. `PrunePoint.not_mem_pruned` and `not_mem_pruned_iff` are the
two for the prune of a pass.

The proofs follow the two loops of `prune`. What a call returns says that the call was served
somewhere in the run (`ServedIn`); the safety net passes this on for each key that it finds, and
the turn of a key that is out of reach ends before the delete is carried out.
-/

set_option autoImplicit false

namespace LeanCd

open Act

variable {sc : Scopes} {env : Env sc} {cfg : Config}

/-- From a step on, no response to the call arrives. -/
def Env.FailsFrom (env : Env sc) (n : Nat) (req : Request sc) : Prop :=
  ∀ m, n ≤ m → env.fault m req ≠ .none

/-- From a step on, the call fails before the server acts. -/
def Env.RefusesFrom (env : Env sc) (n : Nat) (req : Request sc) : Prop :=
  ∀ m, n ≤ m → ∃ e, env.fault m req = .refused e

namespace Prune

/-! ### The condition -/

/-- Nothing is live there that may be deleted. -/
def GoneOrExempt (found : Option Live) : Prop :=
  ∀ live, found = some live → shouldSkipDeletion live.object = true

/-- Nothing is live there that carries the managed label. -/
def Unlabelled (cfg : Config) (found : Option Live) : Prop :=
  ∀ live, found = some live → live.object.labelled cfg.selector = false

/-- Something is so of the live object, and the other clients leave it so. -/
structure Stays (env : Env sc) (w : World sc) (id : ObjId sc) (S : Option Live → Prop) : Prop where
  now : S (w.cluster.lookup id)
  later : ∀ m, w.step ≤ m → ∀ c : Cluster sc, S (c.lookup id) → S ((env.others m c).lookup id)

/-- The calls for a key fail. -/
def OutOfReach (env : Env sc) (cfg : Config) (w : World sc) (k : ResourceKey) : Prop :=
  env.FailsFrom w.step (.discover k.gvk) ∨
    env.FailsFrom w.step (.get k.gvk (k.denotes sc cfg.namespace)) ∨
    env.RefusesFrom w.step (.delete k.gvk (k.denotes sc cfg.namespace))

/-- The safety net does not find a key. -/
def Unlisted (env : Env sc) (cfg : Config) (w : World sc) (k : ResourceKey) : Prop :=
  env.FailsFrom w.step (.discover k.gvk) ∨ env.FailsFrom w.step (.list k.gvk) ∨
    Stays env w (k.denotes sc cfg.namespace) (Unlabelled cfg)

/-- A key does not cost its object: the calls for it fail, or it was not applied and is not
found. -/
def Harmless (env : Env sc) (cfg : Config) (prev : List ResourceKey) (w : World sc)
    (k : ResourceKey) : Prop :=
  OutOfReach env cfg w k ∨ (k ∉ prev ∧ Unlisted env cfg w k)

/-- An object is out of the hands of a prune from the world `w`: it stays gone or exempt, or no
candidate key that denotes it can cost it. -/
def Withheld (env : Env sc) (cfg : Config) (prev current : List ResourceKey) (w : World sc)
    (id : ObjId sc) : Prop :=
  Stays env w id GoneOrExempt ∨
    ∀ k, Candidate sc prev current k → k.denotes sc cfg.namespace = id →
      Harmless env cfg prev w k

/-! ### One object during a prune -/

/-- An object during a prune from the world `w`: it was not deleted, and something is so of it. -/
structure Undeleted (w : World sc) (id : ObjId sc) (S : Option Live → Prop) (t : World sc) :
    Prop where
  later : w.step ≤ t.step
  state : S (t.cluster.lookup id)
  events : (adds (· ≠ .deleted id)).rel w t

variable {w : World sc} {id : ObjId sc} {S : Option Live → Prop}

/-- At the start of a run nothing was deleted. -/
theorem undeleted_start (h : S (w.cluster.lookup id)) : Undeleted w id S w :=
  ⟨le_rfl, h, (adds _).refl w⟩

/-- An interaction keeps what the other clients leave so. -/
theorem Stays.interacts (h : Stays env w id S) : Interacts env (.preserves (Undeleted w id S)) :=
  ⟨fun _ ht => ⟨ht.later.trans (Nat.le_succ _), h.later _ ht.later _ ht.state, ht.events⟩,
    fun _ _ ht => ⟨ht.later, ht.state, ht.events⟩⟩

/-- The delete of another object keeps it. -/
theorem keeps_serveDelete_undeleted {id' : ObjId sc} (hne : id' ≠ id) :
    Keeps (.preserves (Undeleted w id S)) (KubeUtil.serveDelete env id') := by
  intro t ht
  have hall : After (KubeUtil.serveDelete env id') t fun _ u => Undeleted w id S u := by
    rw [after_serveDelete]
    -- Nothing is there.
    cases t.cluster.lookup id' with
    | none => exact ht
    | some live =>
        have hevent : (Event.deleted id' : Event sc) ≠ .deleted id := by simp [hne]
        refine ⟨ht.later, ?_, (adds _).trans ht.events (adds_cons rfl hevent)⟩
        dsimp only
        -- Whatever the server does, it is with another object.
        cases env.onDelete t.step id' live with
        | none =>
            rw [AList.lookup_erase_ne hne.symm]
            exact ht.state
        | some marked =>
            rw [AList.lookup_insert_ne hne.symm]
            exact ht.state
  exact hall

/-- A call that was served in the run was served at a later step. -/
theorem ServedIn.not_failsFrom {req : Request sc}
    (h : ServedIn env (.preserves (Undeleted w id S)) w req) (hstart : S (w.cluster.lookup id)) :
    ¬ env.FailsFrom w.step req := by
  obtain ⟨u, hu, hfault⟩ := h
  exact fun hfails => hfails u.step (hu (undeleted_start hstart)).later hfault

/-- The turn of a key that is out of reach deletes nothing. -/
theorem keeps_deleteKey_outOfReach (hstays : Stays env w id S) {key : ResourceKey}
    (hreach : OutOfReach env cfg w key) {cache : KubeUtil.DiscoveryCache}
    (hcache : ∀ g ∈ cache, ServedIn env (.preserves (Undeleted w id S)) w (.discover g))
    {t : World sc} (ht : Undeleted w id S t) :
    After (deleteKey env cfg cache key) t fun res u => ∃ gone cache', res = .ok (gone, cache') ∧
      Undeleted w id S u ∧
        ∀ g ∈ cache', ServedIn env (.preserves (Undeleted w id S)) w (.discover g) := by
  have hin := hstays.interacts
  have hwt : (Frame.preserves (Undeleted w id S)).rel w t := fun _ => ht
  refine after_deleteKey_of (Q := fun _ cache' u => Undeleted w id S u ∧
    ∀ g ∈ cache', ServedIn env (.preserves (Undeleted w id S)) w (.discover g)) ?_
  refine (after_getOrResolve_served hin hwt hcache key.gvk).mono ?_
  intro res u hu
  have hu' := hu.1 (undeleted_start hstays.now)
  refine ⟨fun _ _ => ⟨hu', hcache⟩, fun cache' hres => ?_⟩
  obtain ⟨hdiscovered, hcache'⟩ := hu.2 cache' hres
  refine (((keeps_getObject hin cfg.namespace key.gvk key.ns key.name).after u).and
    (after_getObject_served key.gvk key.ns key.name u)).mono ?_
  intro res v hv
  have hv' := hv.1 hu'
  refine ⟨fun _ => ⟨hv', hcache'⟩, fun obj hobj _ => ?_⟩
  -- The kind was discovered and the object was read, so it is the delete that is refused.
  rcases hreach with hfails | hfails | hrefuses
  · exact absurd hfails (hdiscovered.not_failsFrom hstays.now)
  · exact absurd (hv.2 obj hobj) (hfails u.step hu'.later)
  · obtain ⟨e, he⟩ := hrefuses v.step hv'.later
    rw [KubeUtil.delete, after_call]
    have hfault : env.fault v.step
        (.delete key.gvk (apiFor sc key.gvk key.ns cfg.namespace key.name)) = .refused e := he
    rw [hfault]
    exact ⟨hin.called _ v hv', hcache'⟩

/-- The turns of the targets, where the keys of the object are out of reach. -/
theorem after_deleteKeys_outOfReach (hstays : Stays env w id S) {keys : List ResourceKey}
    (hkeys : ∀ k ∈ keys, k.denotes sc cfg.namespace = id → OutOfReach env cfg w k)
    {cache : KubeUtil.DiscoveryCache}
    (hcache : ∀ g ∈ cache, ServedIn env (.preserves (Undeleted w id S)) w (.discover g))
    {t : World sc} (ht : Undeleted w id S t) :
    After (deleteKeys env cfg keys cache) t fun _ u => Undeleted w id S u := by
  induction keys generalizing cache t with
  | nil => exact ht
  | cons key rest ih =>
      rw [deleteKeys, after_bind]
      have hrest := fun k hk => hkeys k (List.mem_cons_of_mem key hk)
      -- A turn with this key sends no delete, and one with another key is another object's.
      have hturn : After (deleteKey env cfg cache key) t fun res u =>
          ∃ gone cache', res = .ok (gone, cache') ∧ Undeleted w id S u ∧
            ∀ g ∈ cache', ServedIn env (.preserves (Undeleted w id S)) w (.discover g) := by
        by_cases hkey : key.denotes sc cfg.namespace = id
        · exact keeps_deleteKey_outOfReach hstays (hkeys key List.mem_cons_self hkey) hcache ht
        · -- The key of another object.
          refine after_deleteKey_of (Q := fun _ cache' u => Undeleted w id S u ∧
            ∀ g ∈ cache', ServedIn env (.preserves (Undeleted w id S)) w (.discover g)) ?_
          refine (after_getOrResolve_served hstays.interacts (fun _ => ht) hcache key.gvk).mono ?_
          intro res u hu
          have hu' := hu.1 (undeleted_start hstays.now)
          refine ⟨fun _ _ => ⟨hu', hcache⟩, fun cache' hres => ?_⟩
          have hcache' := (hu.2 cache' hres).2
          refine ((keeps_getObject hstays.interacts cfg.namespace key.gvk key.ns key.name).after
            u).mono ?_
          intro res v hv
          refine ⟨fun _ => ⟨hv hu', hcache'⟩, fun obj _ _ => ?_⟩
          have hdelete : Keeps (.preserves (Undeleted w id S))
              (KubeUtil.delete env cfg.namespace key.gvk key.ns key.name) :=
            keeps_call hstays.interacts (keeps_serveDelete_undeleted hkey)
          exact (hdelete.after v).mono fun _ _ h => ⟨h (hv hu'), hcache'⟩
      refine hturn.mono ?_
      intro res u hu
      obtain ⟨gone, cache', rfl, hu', hcache'⟩ := hu
      dsimp only
      rw [after_bind]
      refine (ih hrest hcache' hu').mono ?_
      intro res v hv
      cases res with
      | ok deleted => exact hv
      | error e => exact hv

/-! ### The two directions -/

/-- The safety net finds a key whatever is said of its object, so it finds no unlisted key. -/
theorem not_unlisted_of_found {t : World sc} {k : ResourceKey}
    (h : ∀ S, Stays env w (k.denotes sc cfg.namespace) S →
      Found env cfg (.preserves (Undeleted w (k.denotes sc cfg.namespace) S)) w t k) :
    ¬ Unlisted env cfg w k := by
  have hany : Stays env w (k.denotes sc cfg.namespace) fun _ => True :=
    ⟨trivial, fun _ _ _ _ => trivial⟩
  intro hunlisted
  rcases hunlisted with hfails | hfails | hstays
  · exact (h _ hany).discovered.not_failsFrom trivial hfails
  · exact (h _ hany).listed.not_failsFrom trivial hfails
  · obtain ⟨u, hu, -, -, live, hlook, hlabelled⟩ := (h _ hstays).managed
    have hnone := (hu (undeleted_start hstays.now)).state live hlook
    rw [hlabelled] at hnone
    cases hnone

/-- No turn touches an object that stays gone or exempt. -/
theorem keeps_prune_exempt (hstays : Stays env w id GoneOrExempt)
    (prev current : List ResourceKey) :
    Keeps (.preserves (Undeleted w id GoneOrExempt)) (prune env cfg prev current) := by
  have hin := hstays.interacts
  refine (keeps_hashGvks hin _).bind fun _ => (keeps_safetyNet hin current _ []).bind fun _ =>
    (keeps_hashKeys hin _).bind fun _ => keeps_turns (fun k _ cache => ?_) _
  by_cases hkey : k.denotes sc cfg.namespace = id
  · refine keeps_deleteKey_exempt hin ?_ cache
    rw [hkey]
    exact fun t ht => ht.state
  · exact keeps_deleteKey hin (keeps_serveDelete_undeleted hkey) cache

/-- An object is not deleted when no candidate key that denotes it can cost it. -/
theorem after_prune_harmless {prev current : List ResourceKey}
    (h : ∀ k, Candidate sc prev current k → k.denotes sc cfg.namespace = id →
      Harmless env cfg prev w k) :
    After (prune env cfg prev current) w fun _ t => (adds (· ≠ .deleted id)).rel w t := by
  have hany : Stays env w id fun _ => True := ⟨trivial, fun _ _ _ _ => trivial⟩
  rw [prune, after_bind, after_hashGvks]
  dsimp only
  rw [after_bind]
  -- What the safety net finds, whatever is said of whichever object.
  have hfinds : After (safetyNet env cfg current
      ((env.gvkOrder w.step).run (prev.map ResourceKey.gvk).dedup) []) (w.ticked env) fun res u =>
        ∀ id S, Stays env w id S →
          Finds env cfg (.preserves (Undeleted w id S)) w u res := fun id S hS =>
    after_safetyNet_finds hS.interacts current _ (hS.interacts.tick w) (List.forall_mem_nil _)
  have horphans := (@returns_safetyNet _ env cfg current
    ((env.gvkOrder w.step).run (prev.map ResourceKey.gvk).dedup) []).after (w.ticked env)
  refine (hfinds.and horphans).mono ?_
  intro res t ht
  obtain ⟨ht, horphans⟩ := ht
  have hkept := (ht id _ hany).1 (undeleted_start trivial)
  cases res with
  | error e => exact hkept.events
  | ok found =>
      have hcache := ((ht id _ hany).2 found.1 found.2 rfl).1
      dsimp only
      rw [after_bind, after_hashKeys]
      dsimp only
      refine (after_deleteKeys_outOfReach hany ?_ hcache (hany.interacts.tick t hkept)).mono
        fun _ _ hu => hu.events
      intro k hk hid
      rw [Shuffle.mem_run, List.mem_dedup, List.mem_append, deletionTargets, List.mem_filter,
        decide_eq_true_eq] at hk
      rcases hk with ⟨hprev, hgone⟩ | hfound
      · exact (h k ⟨hgone, .inl hprev⟩ hid).resolve_right fun hnew => hnew.1 hprev
      · obtain ⟨hgone, hkind, hserved⟩ := horphans found rfl k hfound
        have hkind : k.gvk ∈ prev.map ResourceKey.gvk := by
          rwa [Shuffle.mem_run, List.mem_dedup] at hkind
        refine (h k ⟨hgone, .inr ⟨hkind, hserved⟩⟩ hid).resolve_right fun hnew => ?_
        refine @not_unlisted_of_found _ env cfg w t k (fun S hS => ?_) hnew.2
        exact ((ht _ S hS).2 found.1 found.2 rfl).2 k hfound

/-- **An object that is withheld from a prune survives it**, whatever fails and whatever the
other clients do. -/
theorem spared_of_withheld {prev current : List ResourceKey}
    (h : Withheld env cfg prev current w id) :
    ∃ ids, (state (prune env cfg prev current w)).deletions = ids ++ w.deletions ∧ id ∉ ids := by
  have hevents : (adds (· ≠ .deleted id)).rel w (state (prune env cfg prev current w)) := by
    rcases h with hstays | hharmless
    · exact (keeps_prune_exempt hstays prev current w (undeleted_start hstays.now)).events
    · exact after_prune_harmless hharmless
  obtain ⟨new, htrace, hnew⟩ := hevents
  have hids : (state (prune env cfg prev current w)).deletions =
      { w with trace := new }.deletions ++ w.deletions := by
    unfold World.deletions
    rw [htrace, List.filterMap_append]
  exact ⟨_, hids, fun hmem => hnew _ (World.mem_deletions.mp hmem) rfl⟩

/-! ### Steady runs -/

section Steady
variable (hs : env.Steady)
include hs

/-- In a steady run a call fails from a step on, or it is served. -/
theorem failsFrom_iff (n : Nat) (req : Request sc) : env.FailsFrom n req ↔ ¬ env.serves req := by
  unfold Env.FailsFrom Env.serves
  simp only [hs.fault _ req]
  exact ⟨fun h => h n le_rfl, fun h _ _ => h⟩

/-- In a steady environment a call that is refused once is refused always. -/
theorem refusesFrom_iff (n : Nat) (req : Request sc) :
    env.RefusesFrom n req ↔ ∃ e, env.fault 0 req = .refused e := by
  unfold Env.RefusesFrom
  simp only [hs.fault _ req]
  exact ⟨fun h => h n le_rfl, fun h _ _ => h⟩

/-- In a steady run the live objects stay as they are. -/
theorem stays_iff (S : Option Live → Prop) : Stays env w id S ↔ S (w.cluster.lookup id) := by
  refine ⟨Stays.now, fun h => ⟨h, fun m _ c hc => ?_⟩⟩
  rw [hs.quiet]
  exact hc

/-- In a steady environment a key is out of reach exactly when its calls are not served. -/
theorem outOfReach_iff {k : ResourceKey} : OutOfReach env cfg w k ↔ ¬ Reachable env cfg k := by
  unfold OutOfReach
  rw [failsFrom_iff hs, failsFrom_iff hs, refusesFrom_iff hs]
  constructor
  · intro h hreach
    rcases h with hfails | hfails | ⟨e, he⟩
    · exact hfails hreach.resolves
    · exact hfails hreach.reads
    · exact hreach.deletes e he
  · intro h
    by_contra hnone
    push Not at hnone
    exact h ⟨hnone.1, hnone.2.1, hnone.2.2⟩

/-- In a steady environment a key is unlisted exactly when its kind cannot be listed, or its object
is not there with the label. -/
theorem unlisted_iff {k : ResourceKey} (hserved : k.AsServed sc) :
    Unlisted env cfg w k ↔
      ¬ (env.serves (.discover k.gvk) ∧ env.serves (.list k.gvk) ∧
        LabelledLive cfg w.cluster k) := by
  unfold Unlisted
  rw [failsFrom_iff hs, failsFrom_iff hs, stays_iff hs]
  have hlabelled : Unlabelled cfg (w.cluster.lookup (k.denotes sc cfg.namespace)) ↔
      ¬ LabelledLive cfg w.cluster k := by
    constructor
    · intro h hlive
      obtain ⟨-, live, hlook, hlabel⟩ := hlive
      rw [h live hlook] at hlabel
      cases hlabel
    · intro h live hlook
      exact Bool.eq_false_iff.mpr fun hlabel => h ⟨hserved, live, hlook, hlabel⟩
  rw [hlabelled]
  tauto

/-- In a steady run a candidate is harmless exactly when the prune does not come upon it, or comes
upon it and is refused one of its calls. -/
theorem harmless_iff {prev current : List ResourceKey} {k : ResourceKey}
    (hk : Candidate sc prev current k) :
    Harmless env cfg prev w k ↔
      ¬ (SteadyCandidate env cfg w.cluster prev current k ∧ Reachable env cfg k) := by
  unfold Harmless
  rw [outOfReach_iff hs]
  constructor
  · rintro h ⟨hfound, hreach⟩
    obtain ⟨hnew, hunlisted⟩ := h.resolve_left fun hout => hout hreach
    have hlisted := (hfound.source.resolve_left hnew).2
    exact (unlisted_iff hs hlisted.2.2.1).mp hunlisted hlisted
  · intro h
    by_contra hharm
    push Not at hharm
    refine h ⟨⟨hk.gone, ?_⟩, hharm.1⟩
    -- A key that was applied is found by itself. A new one has to be listed, as it is served.
    by_cases hprev : k ∈ prev
    · exact .inl hprev
    · obtain ⟨hkind, hserved⟩ := hk.source.resolve_left hprev
      have hfound := hharm.2 hprev
      rw [unlisted_iff hs hserved, not_not] at hfound
      exact .inr ⟨hkind, hfound⟩

omit hs in
/-- What the prune comes upon in a steady run is a candidate. -/
theorem SteadyCandidate.candidate {prev current : List ResourceKey} {c : Cluster sc}
    {k : ResourceKey} (h : SteadyCandidate env cfg c prev current k) :
    Candidate sc prev current k :=
  ⟨h.gone, h.source.imp_right fun h => ⟨h.1, h.2.2.2.1⟩⟩

/-- In a steady run an object is withheld exactly when no deletable candidate denotes it. -/
theorem withheld_iff (prev current : List ResourceKey) :
    Withheld env cfg prev current w id ↔
      ¬ ∃ k, SteadyCandidate env cfg w.cluster prev current k ∧
        k.denotes sc cfg.namespace = id ∧ Deletable env cfg w.cluster k := by
  unfold Withheld
  rw [stays_iff hs]
  constructor
  · rintro h ⟨k, hk, rfl, hreach, live, hlook, hskip⟩
    rcases h with hexempt | hharmless
    · rw [hexempt live hlook] at hskip
      cases hskip
    · exact (harmless_iff hs hk.candidate).mp (hharmless k hk.candidate rfl) ⟨hk, hreach⟩
  · intro h
    by_cases hexempt : GoneOrExempt (w.cluster.lookup id)
    · exact .inl hexempt
    -- The object is there and not exempt, so a key that reaches it would delete it.
    · obtain ⟨live, hlook, hskip⟩ : ∃ live, w.cluster.lookup id = some live ∧
          shouldSkipDeletion live.object = false := by
        unfold GoneOrExempt at hexempt
        push Not at hexempt
        exact hexempt.imp fun live hlive => ⟨hlive.1, Bool.eq_false_iff.mpr hlive.2⟩
      refine .inr fun k hk hid => (harmless_iff hs hk).mpr ?_
      rintro ⟨hfound, hreach⟩
      exact h ⟨k, hfound, hid, hreach, live, hid ▸ hlook, hskip⟩

end Steady

end Prune

/-! ### The prune of a pass -/

namespace Reconcile.PrunePoint

open Prune

variable {r : Reconciler} {w : World sc} {id : ObjId sc} (x : PrunePoint env r w)

/-- What the prune of a pass deletes, by what its deletions are before and after. -/
theorem pruned_eq {ids : List (ObjId sc)} (h : x.after.deletions = ids ++ x.before.deletions) :
    x.pruned = ids := by
  rw [pruned, h]
  simp

/-- An object that is withheld from the prune of a pass survives it. -/
theorem not_mem_pruned (h : Withheld env r.cfg (prevApplied x.prev) x.current x.before id) :
    id ∉ x.pruned := by
  obtain ⟨ids, hids, hnot⟩ := spared_of_withheld h
  rwa [x.pruned_eq hids]

/-- In a steady run, only such an object does. -/
theorem not_mem_pruned_iff (hs : env.Steady) :
    id ∉ x.pruned ↔ Withheld env r.cfg (prevApplied x.prev) x.current x.before id := by
  obtain ⟨ids, hids, hmem⟩ := deletions_prune hs (prevApplied x.prev) x.current x.before
  rw [x.pruned_eq hids, hmem, withheld_iff hs]

end Reconcile.PrunePoint

end LeanCd
