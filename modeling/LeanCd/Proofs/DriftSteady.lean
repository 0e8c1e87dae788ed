import LeanCd.Calm
import LeanCd.Proofs.DriftIdentity
import LeanCd.Proofs.PassStart
import LeanCd.Proofs.Totality

/-!
# `LeanCd.Proofs.DriftSteady`: a pass over a cluster in the desired state

`InSync` says that for every main manifest a live labelled object of its kind, name
and namespace satisfies it. A pass over an unchanged commit has nothing to do then. Whether
it knows so depends on what its drift check can see, which is what `Sees` is about:

* outside cache mode, every kind of a main manifest is discovered and listed in the very calls
  that the check makes (`ServedFrom`);
* in cache mode, the stores at hand when the check begins hold the object of every main
  manifest (`Cached`): in full and satisfying the manifest, or by its key alone. A one-shot
  pass has no stores, and a controller has none yet in its first pass.

What the check does not see it reports as missing, and the pass applies everything again.

`listAnswers` is what the API server answers when it is asked for the kinds one by one. The
lists of `detect` are those answers (`after_detect_answers`), and `servedFrom_iff` reads off
the calls whether a list is missing. On both paths the check of an `InSync` cluster reports
nothing exactly when it sees everything (`detect_free_iff`, `detectFromLw_free_iff`).

`pass_leavesAlone_iff` puts them together for a whole pass: it reports no manifest, starts no
apply and no hook, deletes at most what `prune` finds, and records a drift count of zero,
exactly when its drift check sees the objects. `not_seen_reapplies` has two passes that do not
see them: a one-shot pass in cache mode, and a pass whose list is refused.

The pass is cut at its checkout. Before it the pass only reads, so the cluster is still in sync
where the drift check starts (`Started.rel`). After it the branch is that of a drift check without
drifts, which does nothing but prune, assess the health, and write the state (`execute_inSync`).
-/

set_option autoImplicit false

namespace LeanCd.Drift

open Act

variable {sc : Scopes} {env : Env sc} {cfg : Config} {main : List RawManifest}

/-- A live labelled object of the manifest's kind, name and namespace satisfies it. -/
def Satisfied (env : Env sc) (cfg : Config) (c : Cluster sc) (m : RawManifest) : Prop :=
  ∃ o ∈ c.list m.gvk cfg.selector, o.metadata.name = some m.name ∧ o.metadata.ns = m.ns ∧
    specsDiffer (manifestValue env.yaml m) (env.kube.toValue o) = false

instance (env : Env sc) (cfg : Config) (c : Cluster sc) (m : RawManifest) :
    Decidable (Satisfied env cfg c m) :=
  inferInstanceAs (Decidable (∃ o ∈ c.list m.gvk cfg.selector, _))

/-- Every main manifest is satisfied. -/
def InSync (env : Env sc) (cfg : Config) (main : List RawManifest) (c : Cluster sc) : Prop :=
  ∀ m ∈ main, Satisfied env cfg c m

instance (env : Env sc) (cfg : Config) (main : List RawManifest) (c : Cluster sc) :
    Decidable (InSync env cfg main c) :=
  inferInstanceAs (Decidable (∀ m ∈ main, Satisfied env cfg c m))

/-- The manifest finds its match in a list, and the match satisfies it. -/
def Matched (env : Env sc) (m : RawManifest) (live : List DynamicObject) : Prop :=
  driftAgainst env.yaml env.kube m (findLiveMatch m live) = none

/-- The store holds the manifest's object: a body that satisfies it, or the key alone. -/
def Cached (env : Env sc) (s : LightweightStore) (m : RawManifest) : Prop :=
  (∃ o, s.smallGet (m.name, m.ns) = some o ∧
    specsDiffer (manifestValue env.yaml m) (env.kube.toValue o) = false) ∨
  s.tierOf (m.name, m.ns) = .large

/-- Stores that hold the object of every main manifest. -/
def Stocked (env : Env sc) (main : List RawManifest) (stores : CacheStores) : Prop :=
  ∀ m ∈ main, ∃ s, stores.lookup m.gvk = some (.ready s) ∧ Cached env s m

/-- From an interaction on, the kinds are discovered and listed without a failure. -/
def ServedFrom (env : Env sc) : Nat → List GvkKey → Prop
  | _, [] => True
  | n, g :: rest => env.fault n (.discover g) = .none ∧ env.fault (n + 1) (.list g) = .none ∧
      ServedFrom env (n + 2) rest

/-- A drift check that begins at an interaction sees the live objects: the calls that it makes
about the kinds are served, in the order of the hash set of kinds, or the stores that it finds
hold them. -/
structure Sees (env : Env sc) (cfg : Config) (main : List RawManifest) (n : Nat) : Prop where
  lists : cfg.watchMode ≠ .cache →
    ServedFrom env (n + 1) ((env.gvkOrder n).run (main.map RawManifest.gvk).dedup)
  stores : cfg.watchMode = .cache → Stocked env main (env.cacheStores n)

/-- Two listed objects of one name and namespace are one object. -/
theorem list_unique {c : Cluster sc} {g : GvkKey} {sel : String × String}
    {o o' : DynamicObject} (ho : o ∈ c.list g sel) (ho' : o' ∈ c.list g sel)
    (hname : o.metadata.name = o'.metadata.name) (hns : o.metadata.ns = o'.metadata.ns) :
    o = o' := by
  obtain ⟨id, live, hlook, hg, hk, -, rfl⟩ := Cluster.mem_list.mp ho
  obtain ⟨id', live', hlook', hg', hk', -, rfl⟩ := Cluster.mem_list.mp ho'
  have hid : id = id' :=
    ObjId.ext (hg.trans hg'.symm) (hk.trans hk'.symm) hns (Option.some.inj hname)
  subst hid
  rw [Option.some.inj (hlook.symm.trans hlook')]

/-- A satisfied manifest finds its match in the list of its kind. -/
theorem Satisfied.matched {c : Cluster sc} {m : RawManifest} (h : Satisfied env cfg c m) :
    Matched env m (c.list m.gvk cfg.selector) := by
  obtain ⟨o, ho, hname, hns, hsame⟩ := h
  -- `find` may stop at another object of the list, but a name and a namespace belong to
  -- one object only.
  obtain ⟨o', hfind, -⟩ := exists_findLiveMatch ho hname hns
  obtain ⟨hmem, hname', hns'⟩ := findLiveMatch_some hfind
  have heq : o' = o := list_unique hmem ho (hname'.trans hname.symm) (hns'.trans hns.symm)
  unfold Matched driftAgainst
  rw [hfind, heq]
  simp [hsame]

/-! ### What the API server answers -/

/-- What the API server answers when the kinds are discovered and listed in this order. -/
def listAnswers (env : Env sc) (cfg : Config) : List GvkKey → World sc → LiveByGvk
  | [], _ => []
  | g :: rest, w =>
      let asked := w.called env (.discover g)
      if env.fault w.step (.discover g) = .none then
        if env.fault asked.step (.list g) = .none then
          (g, (asked.called env (.list g)).cluster.list g cfg.selector) ::
            listAnswers env cfg rest (asked.listed env g cfg.selector)
        else listAnswers env cfg rest (asked.called env (.list g))
      else listAnswers env cfg rest asked

/-- The lists of a drift check are the answers of the server, kind by kind. One case for each way in
which the two calls about a kind can go. -/
theorem after_listKinds_answers (gvks : List GvkKey) (w : World sc) :
    After (listKinds env cfg gvks) w fun res _ => res = .ok (listAnswers env cfg gvks w) := by
  induction gvks generalizing w with
  | nil => rfl
  | cons g rest ih =>
      have hrest : ∀ (live : Option (List DynamicObject)) (t : World sc),
          After (do
            let more ← listKinds env cfg rest
            return (live.map fun l => (g, l)).toList ++ more) t fun res _ =>
              res = .ok ((live.map fun l => (g, l)).toList ++ listAnswers env cfg rest t) := by
        intro live t
        rw [after_bind]
        refine (ih t).mono ?_
        rintro _ u rfl
        rfl
      rw [listKinds, after_bind, listKind, after_bind, after_attempt, KubeUtil.resolve,
        after_bind, after_attempt, after_call, listAnswers]
      cases env.fault w.step (.discover g) with
      | refused e => exact hrest none _
      | lost e => exact hrest none _
      | none =>
          rw [if_pos rfl, after_pure]
          dsimp only
          rw [after_pure]
          dsimp only
          rw [after_bind, after_attempt, KubeUtil.after_listAll]
          cases env.fault (w.called env (.discover g)).step (.list g) with
          | refused e => exact hrest none _
          | lost e => exact hrest none _
          | none => exact hrest (some _) _

/-- `detect` compares with the answers, in the order of a hash set. -/
theorem after_detect_answers (manifests : List RawManifest) (w : World sc) :
    After (detect env cfg manifests) w fun r _ => ∃ live, r = .ok (computeDrifts env.yaml env.kube
      manifests (listAnswers env cfg
        ((env.gvkOrder w.step).run (manifests.map RawManifest.gvk).dedup) (w.ticked env)),
      live) := by
  rw [detect, after_bind, after_hashGvks]
  dsimp only
  rw [after_bind]
  refine (after_listKinds_answers _ _).mono ?_
  rintro _ t rfl
  dsimp only
  rw [after_bind, after_hashGvks]
  exact ⟨_, rfl⟩

/-- A kind that was not asked for is not among the answers. -/
theorem lookup_eq_none_of_sublist {lists : LiveByGvk} {gvks : List GvkKey} {g : GvkKey}
    (h : (lists.map (·.1)).Sublist gvks) (hg : g ∉ gvks) : lists.lookup g = none := by
  refine List.lookup_eq_none_iff.mpr ?_
  intro p hp
  have hne : p.1 ≠ g := fun heq => hg (heq ▸ h.subset (List.mem_map_of_mem hp))
  simpa using Ne.symm hne

/-- Where every call is served, so are those about the kinds. -/
theorem servedFrom_of_forall (hs : ∀ n req, env.fault n req = .none) (gvks : List GvkKey)
    (n : Nat) : ServedFrom env n gvks := by
  induction gvks generalizing n with
  | nil => trivial
  | cons g rest ih => exact ⟨hs _ _, hs _ _, ih _⟩

/-- The answers are about kinds that were asked for, in that order, without those whose calls
failed. -/
theorem sublist_listAnswers (gvks : List GvkKey) (w : World sc) :
    ((listAnswers env cfg gvks w).map (·.1)).Sublist gvks := by
  induction gvks generalizing w with
  | nil => exact .slnil
  | cons g rest ih =>
      rw [listAnswers]
      split
      · split
        · exact (ih _).cons_cons g
        · exact (ih _).cons g
      · exact (ih _).cons g

/-- Every kind is read exactly when every call of the fallback is served. -/
theorem servedFrom_iff {gvks : List GvkKey} (hnodup : gvks.Nodup) (w : World sc) :
    ServedFrom env w.step gvks ↔
      ∀ g ∈ gvks, ∃ live, (listAnswers env cfg gvks w).lookup g = some live := by
  induction gvks generalizing w with
  | nil => exact iff_of_true trivial (List.forall_mem_nil _)
  | cons g rest ih =>
      obtain ⟨hg, hnodup⟩ := List.nodup_cons.mp hnodup
      -- A kind that is not read now is not read later: it is asked for once.
      have hskip : ∀ u : World sc, ¬ ∃ live, (listAnswers env cfg rest u).lookup g = some live := by
        rintro u ⟨live, hlive⟩
        rw [lookup_eq_none_of_sublist (sublist_listAnswers rest u) hg] at hlive
        cases hlive
      have hne : ∀ g' ∈ rest, (g' == g) = false := fun g' hg' =>
        beq_eq_false_iff_ne.mpr fun heq => hg (heq ▸ hg')
      rw [ServedFrom, listAnswers, List.forall_mem_cons]
      by_cases hd : env.fault w.step (.discover g) = .none
      · rw [if_pos hd]
        by_cases hl : env.fault (w.called env (.discover g)).step (.list g) = .none
        · rw [if_pos hl]
          have hrest := ih hnodup ((w.called env (.discover g)).listed env g cfg.selector)
          refine (and_iff_right hd).trans ((and_iff_right hl).trans (hrest.trans ?_))
          simp only [List.lookup_cons, beq_self_eq_true, Option.some.injEq, exists_eq', true_and]
          refine forall₂_congr ?_
          intro g' hg'
          rw [hne g' hg']
        · rw [if_neg hl]
          exact iff_of_false (fun h => hl h.2.1) fun h => hskip _ h.1
      · rw [if_neg hd]
        exact iff_of_false (fun h => hd h.1) fun h => hskip _ h.1

/-! ### Detection from lists -/

section
variable {I : Cluster sc → Prop} (hothers : ∀ n c, I c → I (env.others n c))
include hothers

/-- Where every kind is served, each is answered with the list of a cluster of the pass. -/
theorem lookup_listAnswers {gvks : List GvkKey} (hserved : ∀ g ∈ gvks, ∀ n,
      env.fault n (.discover g) = .none ∧ env.fault n (.list g) = .none)
    {w : World sc} (hw : I w.cluster) : ∀ g ∈ gvks, ∃ c, I c ∧
      (listAnswers env cfg gvks w).lookup g = some (c.list g cfg.selector) := by
  induction gvks generalizing w with
  | nil => exact List.forall_mem_nil _
  | cons g rest ih =>
      have hcalls := hserved g List.mem_cons_self
      -- Two calls were made, and the other clients may have acted before each of them.
      have hlisted : I ((w.called env (.discover g)).listed env g cfg.selector).cluster :=
        hothers _ _ (hothers _ _ hw)
      intro g' hg'
      rw [listAnswers, if_pos (hcalls _).1, if_pos (hcalls _).2, List.lookup_cons]
      by_cases hgg : g' = g
      · subst hgg
        exact ⟨_, hlisted, by rw [beq_self_eq_true]; rfl⟩
      · rw [beq_eq_false_iff_ne.mpr hgg]
        dsimp only
        exact ih (fun g hg => hserved g (List.mem_cons_of_mem _ hg)) hlisted g'
          ((List.mem_cons.mp hg').resolve_left hgg)

/-- Where every kind is served, `detect` compares with lists of clusters of the pass. -/
theorem after_detect_served {manifests : List RawManifest}
    (hv : ∀ m ∈ manifests, ∀ n,
      env.fault n (.discover m.gvk) = .none ∧ env.fault n (.list m.gvk) = .none)
    {w : World sc} (hw : I w.cluster) :
    After (detect env cfg manifests) w fun r _ => ∃ lists live,
      r = .ok (computeDrifts env.yaml env.kube manifests lists, live) ∧
      ∀ m ∈ manifests, ∃ c, I c ∧ lists.lookup m.gvk = some (c.list m.gvk cfg.selector) := by
  refine (after_detect_answers manifests w).mono ?_
  rintro _ t ⟨live, rfl⟩
  -- The kinds come in the order of a hash set, and all of them come.
  have hmem : ∀ g, g ∈ (env.gvkOrder w.step).run (manifests.map RawManifest.gvk).dedup ↔
      ∃ m ∈ manifests, m.gvk = g := fun g => by
    rw [Shuffle.mem_run, List.mem_dedup, List.mem_map]
  refine ⟨_, _, rfl, ?_⟩
  intro m hm
  refine lookup_listAnswers hothers ?_ (hothers _ _ hw) m.gvk ((hmem m.gvk).mpr ⟨m, hm, rfl⟩)
  intro g hg n
  obtain ⟨m', hm', rfl⟩ := (hmem g).mp hg
  exact hv m' hm' n

end

section
variable (hothers : ∀ n c, InSync env cfg main c → InSync env cfg main (env.others n c))
include hothers

/-- A kind whose list was read shows a cluster that is in sync. -/
theorem lookup_inSync {gvks : List GvkKey} {w : World sc} (hw : InSync env cfg main w.cluster)
    {g : GvkKey} {live : List DynamicObject}
    (hlook : (listAnswers env cfg gvks w).lookup g = some live) :
    ∃ c, InSync env cfg main c ∧ live = c.list g cfg.selector := by
  induction gvks generalizing w with
  | nil => cases hlook
  | cons g' rest ih =>
      rw [listAnswers] at hlook
      split at hlook
      · split at hlook
        · rw [List.lookup_cons] at hlook
          split at hlook
          next heq =>
            rw [eq_of_beq heq]
            exact ⟨_, hothers _ _ (hothers _ _ hw), (Option.some.inj hlook).symm⟩
          next => exact ih (hothers _ _ (hothers _ _ hw)) hlook
        · exact ih (hothers _ _ (hothers _ _ hw)) hlook
      · exact ih (hothers _ _ hw) hlook

/-- The lists of the kinds show no drift exactly when the list of every kind was read. -/
theorem computeDrifts_nil_iff {w : World sc} (hw : InSync env cfg main w.cluster)
    {gvks : List GvkKey} (hmem : ∀ g, g ∈ gvks ↔ g ∈ main.map RawManifest.gvk) :
    computeDrifts env.yaml env.kube main (listAnswers env cfg gvks w) = [] ↔
      ∀ g ∈ gvks, ∃ live, (listAnswers env cfg gvks w).lookup g = some live := by
  refine List.filterMap_eq_nil_iff.trans ⟨fun h g hg => ?_, fun h m hm => ?_⟩
  -- A kind that was not read has its manifests reported.
  · obtain ⟨m, hm, rfl⟩ := List.mem_map.mp ((hmem g).mp hg)
    cases hlook : (listAnswers env cfg gvks w).lookup m.gvk with
    | none =>
        have hdrift := h m hm
        rw [hlook] at hdrift
        cases hdrift
    | some live => exact ⟨live, rfl⟩
  -- One that was read matches all of them.
  · obtain ⟨live, hlook⟩ := h m.gvk ((hmem _).mpr (List.mem_map_of_mem hm))
    obtain ⟨c, hc, rfl⟩ := lookup_inSync hothers hw hlook
    rw [hlook, Option.getD_some]
    exact (hc m hm).matched

/-- The check from lists reports nothing exactly when it reads the list of every kind. -/
theorem detect_free_iff {w : World sc} (hw : InSync env cfg main w.cluster) :
    (After (detect env cfg main) w fun r _ => ∃ live, r = .ok ([], live)) ↔
      ServedFrom env (w.step + 1)
        ((env.gvkOrder w.step).run (main.map RawManifest.gvk).dedup) := by
  have hnodup : ((env.gvkOrder w.step).run (main.map RawManifest.gvk).dedup).Nodup :=
    ((env.gvkOrder w.step).perm _).nodup_iff.mpr (List.nodup_dedup _)
  have hmem : ∀ g, g ∈ (env.gvkOrder w.step).run (main.map RawManifest.gvk).dedup ↔
      g ∈ main.map RawManifest.gvk := by
    intro g
    rw [Shuffle.mem_run, List.mem_dedup]
  have hread := @servedFrom_iff _ env cfg _ hnodup (w.ticked env)
  have hnil := computeDrifts_nil_iff hothers (w := w.ticked env) (hothers _ _ hw) hmem
  refine Iff.trans ?_ (hnil.trans hread.symm)
  constructor
  · intro h
    obtain ⟨⟨live, hres⟩, live', hres'⟩ :=
      After.and h (@after_detect_answers _ env cfg main w)
    rw [hres] at hres'
    exact (Prod.mk.inj (Except.ok.inj hres')).1.symm
  · intro h
    refine (after_detect_answers main w).mono ?_
    rintro _ t ⟨live, rfl⟩
    exact ⟨live, by rw [h]⟩

/-! ### Detection from stores -/

/-- Large manifests under their own kinds. -/
def LargeOf (main : List RawManifest) (items : List (GvkKey × List RawManifest)) : Prop :=
  ∀ item ∈ items, ∀ m ∈ item.2, m ∈ main ∧ m.gvk = item.1

/-- A list that was served shows the cluster as it was at the call, which was in sync. -/
theorem after_listAll_inSync (g : GvkKey) {w : World sc} (hw : InSync env cfg main w.cluster) :
    After (KubeUtil.listAll env g cfg.selector) w fun r t => InSync env cfg main t.cluster ∧
      ∀ live, r = .ok live → ∃ c, InSync env cfg main c ∧ live = c.list g cfg.selector := by
  have hB := benign_preserves hothers
  refine After.and (keeps_listAll hB.toInteracts g cfg.selector w hw) ?_
  rw [KubeUtil.after_listAll]
  cases env.fault w.step (.list g) with
  | none =>
      intro live hlive
      cases hlive
      exact ⟨_, hothers _ _ hw, rfl⟩
  | refused e | lost e =>
      intro live hlive
      cases hlive

/-- The list fallback reports no drift: a list that succeeds matches, a list that fails
reports nothing. -/
theorem after_largeFallback {items : List (GvkKey × List RawManifest)}
    (hitems : LargeOf main items) (cache : KubeUtil.DiscoveryCache) {w : World sc}
    (hw : InSync env cfg main w.cluster) :
    After (largeFallback env cfg items cache) w fun r _ => ∃ live, r = .ok ([], live) := by
  have hB := benign_preserves hothers
  induction items generalizing cache w with
  | nil => exact ⟨[], rfl⟩
  | cons item rest ih =>
      obtain ⟨g, ms⟩ := item
      have hrest : LargeOf main rest := fun item hi => hitems item (List.mem_cons_of_mem _ hi)
      rw [largeFallback, after_bind, after_attempt]
      refine ((keeps_getOrResolve hB.toInteracts cache g).after w).mono ?_
      intro r t ht
      cases r with
      | error e => exact ih hrest cache (ht hw)
      | ok cache' =>
          dsimp only
          rw [after_bind, after_attempt]
          refine (after_listAll_inSync hothers g (ht hw)).mono ?_
          intro r u h
          obtain ⟨hu, hlisted⟩ := h
          cases r with
          | error e => exact ih hrest cache' hu
          | ok live =>
              dsimp only
              obtain ⟨c, hc, rfl⟩ := hlisted live rfl
              -- The large manifests of the kind match what was listed.
              have hnone : ms.filterMap (fun m => driftAgainst env.yaml env.kube m
                  (findLiveMatch m (c.list g cfg.selector))) = [] := by
                refine List.filterMap_eq_nil_iff.mpr ?_
                intro m hm
                obtain ⟨hmain, rfl⟩ := hitems (g, ms) List.mem_cons_self m hm
                exact (hc m hmain).matched
              rw [hnone, after_bind]
              refine (ih hrest cache' hu).mono ?_
              rintro _ v ⟨lives, rfl⟩
              exact ⟨_, rfl⟩

omit hothers in
/-- A store reports no drift for a manifest exactly when it holds its object. -/
theorem cached_iff {s : LightweightStore} {m : RawManifest} :
    (cacheVerdict env.yaml env.kube s m).1 = none ↔ Cached env s m := by
  unfold cacheVerdict Cached
  cases htier : s.tierOf (m.name, m.ns) with
  | large => exact iff_of_true rfl (.inr rfl)
  | absent =>
      -- The tier is decided by the bodies first, so there is none.
      have hnone : s.smallGet (m.name, m.ns) = none := by
        cases hget : s.smallGet (m.name, m.ns) with
        | none => rfl
        | some o =>
            have hsmall : s.tiers.small.lookup (m.name, m.ns) = some o := hget
            simp [LightweightStore.tierOf, hsmall] at htier
      simp [hnone]
  | small =>
      cases hget : s.smallGet (m.name, m.ns) with
      | none => simp [driftAgainst]
      | some o => simp [driftAgainst]

omit hothers in
/-- The stores report no drift exactly when they hold the object of every main manifest. -/
theorem driftFromCache_nil_iff {stores : CacheStores} {gvks : List GvkKey}
    (hgvks : ∀ m ∈ main, m.gvk ∈ gvks) :
    (driftFromCache env.yaml env.kube main stores gvks).1 = [] ↔ Stocked env main stores := by
  have hverdict : ∀ m, storeVerdict env.yaml env.kube (stores.lookup m.gvk) m = none ↔
      ∃ s, stores.lookup m.gvk = some (.ready s) ∧ Cached env s m := by
    intro m
    unfold storeVerdict
    rcases stores.lookup m.gvk with _ | _ | s <;> simp [cached_iff]
  constructor
  · intro hnil m hm
    refine (hverdict m).mp (Option.eq_none_iff_forall_ne_some.mpr fun d hd => ?_)
    have hmem := mem_driftFromCache.mpr ⟨m, hm, hgvks m hm, hd⟩
    rw [hnil] at hmem
    cases hmem
  · intro h
    refine List.eq_nil_iff_forall_not_mem.mpr fun d hd => ?_
    obtain ⟨m, hm, -, hsome⟩ := mem_driftFromCache.mp hd
    rw [(hverdict m).mpr (h m hm)] at hsome
    cases hsome

omit hothers in
/-- Only manifests of the main set are left to the fallback. -/
theorem largeOf_driftFromCache (yaml : Yaml) (kube : KubeCrate) (stores : CacheStores)
    (gvks : List GvkKey) : LargeOf main (driftFromCache yaml kube main stores gvks).2 := by
  intro item hitem m hm
  obtain ⟨r, hr, rfl⟩ := List.mem_map.mp (List.mem_filter.mp hitem).1
  obtain ⟨g, -, rfl⟩ := List.mem_map.mp hr
  have hgroup : m ∈ main.filter (·.gvk = g) := by
    dsimp only [driftFromStore] at hm
    split at hm
    · cases hm
    · cases hm
    · exact (List.mem_filter.mp hm).1
  obtain ⟨hmain, hsame⟩ := List.mem_filter.mp hgroup
  exact ⟨hmain, of_decide_eq_true hsame⟩

/-- The check from stores reports what the stores report, and no more: the fallback for the
large objects finds them in sync. -/
theorem after_detectFromLw (stores : CacheStores) {w : World sc}
    (hw : InSync env cfg main w.cluster) :
    After (detectFromLw env cfg main stores) w fun r _ => ∃ live,
      r = .ok ((driftFromCache env.yaml env.kube main stores
        ((env.gvkOrder w.step).run (main.map RawManifest.gvk).dedup)).1, live) := by
  rw [detectFromLw, after_bind, after_hashGvks]
  dsimp only
  have hlarge := @largeOf_driftFromCache main env.yaml env.kube stores
    ((env.gvkOrder w.step).run (main.map RawManifest.gvk).dedup)
  rw [after_ite]
  split
  · exact ⟨_, rfl⟩
  · rw [after_bind, after_hashGvks]
    dsimp only
    rw [after_bind]
    refine (after_largeFallback hothers ?_ [] (w := (w.ticked env).ticked env)
      (hothers _ _ (hothers _ _ hw))).mono ?_
    · intro item hitem m hm
      obtain ⟨g, -, rfl⟩ := List.mem_map.mp hitem
      dsimp only at hm ⊢
      -- The fallback asks for the manifests of a kind by a lookup, which finds an entry.
      generalize (driftFromCache env.yaml env.kube main stores
        ((env.gvkOrder w.step).run (main.map RawManifest.gvk).dedup)).2 = large at hlarge hm
      cases hlook : large.lookup g with
      | none => rw [hlook] at hm; cases hm
      | some ms =>
          rw [hlook] at hm
          obtain ⟨before, after, rfl, -⟩ := List.lookup_eq_some_iff.mp hlook
          exact hlarge (g, ms) (List.mem_append_right before List.mem_cons_self) m hm
    · rintro _ t ⟨live, rfl⟩
      exact ⟨_, congrArg _ (congrArg (·, _) (List.append_nil _))⟩

/-- The check from stores reports nothing exactly when they hold every main manifest's
object. -/
theorem detectFromLw_free_iff {stores : CacheStores} {w : World sc}
    (hw : InSync env cfg main w.cluster) :
    (After (detectFromLw env cfg main stores) w fun r _ => ∃ live, r = .ok ([], live)) ↔
      Stocked env main stores := by
  have hgvks : ∀ m ∈ main, m.gvk ∈ (env.gvkOrder w.step).run (main.map RawManifest.gvk).dedup := by
    intro m hm
    rw [Shuffle.mem_run, List.mem_dedup]
    exact List.mem_map_of_mem hm
  rw [← driftFromCache_nil_iff hgvks]
  constructor
  · intro h
    obtain ⟨⟨live, hres⟩, live', hres'⟩ := After.and h (after_detectFromLw hothers stores hw)
    rw [hres] at hres'
    exact (Prod.mk.inj (Except.ok.inj hres')).1.symm
  · intro h
    refine (after_detectFromLw hothers stores hw).mono ?_
    rintro _ t ⟨live, rfl⟩
    exact ⟨live, by rw [h]⟩

/-- The drift check of every watch mode reports nothing exactly when it sees the objects. -/
theorem detectDrift_free_iff {w : World sc} (hw : InSync env cfg main w.cluster) :
    (After (Reconcile.detectDrift env cfg main) w fun r _ => ∃ live, r = .ok ([], live)) ↔
      Sees env cfg main w.step := by
  unfold Reconcile.detectDrift
  rw [after_ite]
  split
  next hmode =>
    rw [after_bind, after_tick]
    dsimp only
    rw [detectFromLw_free_iff hothers (w := w.ticked env) (hothers _ _ hw)]
    exact ⟨fun h => ⟨fun hlists => absurd hmode hlists, fun _ => h⟩, fun h => h.stores hmode⟩
  next hmode =>
    rw [detect_free_iff hothers hw]
    exact ⟨fun h => ⟨fun _ => h, fun hcache => absurd hcache hmode⟩, fun h => h.lists hmode⟩

end

end LeanCd.Drift

namespace LeanCd.Reconcile

open Act Drift

variable {sc : Scopes} {env : Env sc} {cfg : Config}

/-- Deletes, and state writes that record no drift. -/
def QuietEvent : Event sc → Prop
  | .deleted _ => True
  | .stateWritten v => ∃ s : State, v = s.toData ∧ s.driftCount = 0
  | _ => False

/-- The drift check of a world reports no manifest. -/
def ReportsNone (env : Env sc) (cfg : Config) (main : List RawManifest) (w : World sc) : Prop :=
  After (detectDrift env cfg main) w fun r _ => ∃ live, r = .ok ([], live)

section
variable {c : Classified} {w : World sc} (hfree : ReportsNone env cfg c.main w)
include hfree

/-- The drift-check branch does nothing. -/
theorem driftBranch_inSync (guard : LeaseGuard) :
    After (driftBranch env cfg guard c) w fun r t => untouched.rel w t ∧
      ∃ live, r = .ok ⟨[], [], none, live⟩ := by
  rw [driftBranch, after_bind]
  refine (((benign_untouched.detectDrift c.main).after w).and hfree).mono ?_
  rintro _ t ⟨ht, live, rfl⟩
  exact ⟨ht, live, rfl⟩

/-- The branch of the pass only prunes. -/
theorem branch_inSync (guard : LeaseGuard) (prev : State) {sync : SyncOutcome}
    (hsame : sync.changed = false) (hne : c.main ≠ []) :
    After (branch env cfg guard (some prev) sync c) w fun r t => (adds QuietEvent).rel w t ∧
      ∃ outcome, r = .ok outcome ∧ outcome.drifts = [] := by
  -- Some main resource is left, so this is no teardown; the commit is unchanged, so it is
  -- no full apply.
  have hkeep : isTeardown c (prevApplied (some prev)) = false := by
    rw [isTeardown, List.isEmpty_eq_false_iff.mpr hne]
    rfl
  have hdrift : shouldFullApply (some prev).isSome sync.changed = false := by
    rw [hsame]
    rfl
  rw [branch, after_ite, hkeep, if_neg (by decide), after_bind, syncBranch, hdrift,
    if_neg (by decide)]
  refine (driftBranch_inSync hfree guard).mono ?_
  rintro _ t ⟨ht, live, rfl⟩
  dsimp only
  rw [after_bind]
  have hprune :
      Keeps _ (Prune.prune env cfg (prevApplied (some prev)) (ResourceKey.keysOf c.main)) :=
    Prune.prune_deletes_candidates (prevApplied (some prev)) (ResourceKey.keysOf c.main)
  refine ((hprune.after t).and ((Prune.total_prune _ _).after t)).mono ?_
  rintro _ u ⟨hu, deleted, rfl⟩
  refine ⟨(adds _).trans (adds_of_untouched ht) (adds_mono ?_ hu), _, rfl, rfl⟩
  -- Whatever `prune` deletes, a delete is all it does.
  rintro e ⟨id, -, rfl⟩
  trivial

/-- A pass over an unchanged commit whose drift check reports nothing starts no apply and no
hook, and records a drift count of zero. -/
theorem execute_inSync (guard : LeaseGuard) (prev : State) {sync : SyncOutcome}
    (hsame : sync.changed = false) (hne : c.main ≠ []) :
    After (execute env cfg guard (some prev) sync c) w fun r t =>
      (adds QuietEvent).rel w t ∧
      (r = .ok () → ∃ s : State, t.stateCm = some s.toData ∧ s.driftCount = 0) := by
  have hB : Benign env (adds (QuietEvent : Event sc → Prop)) := benign_adds
  rw [execute, after_bind]
  refine (branch_inSync hfree guard prev hsame hne).mono ?_
  rintro _ t ⟨ht, outcome, rfl, hnone⟩
  dsimp only
  rw [after_bind]
  refine (((hB.nextState guard (some prev) sync c outcome).after t).and
    ((Benign.returns_nextState guard (some prev) sync c outcome).after t)).mono ?_
  rintro r u ⟨hu, hstate⟩
  have hwu := (adds _).trans ht hu
  cases r with
  | error e => exact ⟨hwu, nofun⟩
  | ok s =>
      obtain ⟨health, epoch, rfl⟩ := hstate s rfl
      -- The state counts the drifts of the outcome, and there are none.
      have hcount : (newState (some prev) sync c outcome health epoch).driftCount = 0 := by
        simp [newState, count, hnone]
      dsimp only
      rw [after_bind]
      refine (Benign.after_stateWrite _ u).mono fun r v ⟨hv, hstored⟩ => ?_
      have hwv := (adds _).trans hwu (adds_mono (Q := QuietEvent)
        (fun e he => he ▸ ⟨_, rfl, hcount⟩) hv)
      cases r with
      | error e => exact ⟨hwv, nofun⟩
      | ok _ => exact ⟨hwv, fun _ => ⟨_, hstored rfl, hcount⟩⟩

end

/-- A steady pass leaves the cluster alone: its drift check, which runs where the pass begins
to look at the files, reports no manifest. The pass starts no apply and no hook, and the state
that it records counts no drift. -/
structure LeavesAlone (env : Env sc) (r : Reconciler) (main : List RawManifest)
    (w start : World sc) : Prop where
  reports : ReportsNone env r.cfg main start
  quiet : After (reconcile env r) w fun res t => (adds QuietEvent).rel w t ∧
    (res = .ok () → ∃ s : State, t.stateCm = some s.toData ∧ s.driftCount = 0)

/-- A pass with a prior state, over an unchanged commit with main resources that are all in
sync, leaves the cluster alone exactly when its drift check sees the objects. -/
theorem pass_leavesAlone_iff {r : Reconciler} {w : World sc} (x : Started env r w)
    {c : Classified} (hdesired : desired env x.sync.sha r.cfg (prevApplied x.prev) = .ok c)
    (hdry : r.cfg.dryRun = false) (hprev : x.prev.isSome) (hsame : x.sync.changed = false)
    (hne : c.main ≠ [])
    (hothers : ∀ n k, InSync env r.cfg c.main k → InSync env r.cfg c.main (env.others n k))
    (hw : InSync env r.cfg c.main w.cluster) :
    LeavesAlone env r c.main w x.start ↔ Sees env r.cfg c.main x.start.step := by
  obtain ⟨prev, hprev⟩ := Option.isSome_iff_exists.mp hprev
  have hstart : InSync env r.cfg c.main x.start.cluster := x.rel (benign_preserves hothers) hw
  have hquiet : (adds QuietEvent).rel w x.start := x.rel benign_adds
  have hiff : ReportsNone env r.cfg c.main x.start ↔ Sees env r.cfg c.main x.start.step :=
    detectDrift_free_iff hothers hstart
  refine ⟨fun h => hiff.mp h.reports, fun h => ⟨hiff.mpr h, ?_⟩⟩
  -- The checkout left the cluster in sync; after it comes the branch of the pass, and then
  -- the release of the Lease.
  refine x.after_reconcile ?_ ?_
  · rw [converge, hdesired, after_bind, after_ofExcept]
    dsimp only
    rw [after_ite, hdry, if_neg (by decide), hprev]
    refine (execute_inSync (hiff.mpr h) x.guard prev hsame hne).mono ?_
    rintro res t ⟨ht, hstate⟩
    exact ⟨(adds _).trans hquiet ht, hstate⟩
  · rintro res t u htu ⟨ht, hstate⟩
    refine ⟨(adds _).trans ht (adds_of_untouched htu), fun hres => ?_⟩
    obtain ⟨s, hs, hcount⟩ := hstate hres
    exact ⟨s, (Prod.mk.inj htu).2.trans hs, hcount⟩

/-- The same repository, where listing is forbidden. -/
def unlistedEnv : Env .namespacedOnly :=
  { syncedEnv with
    fault := fun _ req =>
      match req with
      | .list _ => .refused ⟨some 403, "forbidden"⟩
      | _ => .none }

/-- A pass with a prior state over an unchanged commit that finds its one resource in
sync, and yet applies it again and records a drift. -/
def Reapplies (env : Env .namespacedOnly) (mode : WatchMode) : Prop :=
  ∃ x ∈ Started.run env (syncedPass mode) syncedWorld,
    desired env x.sync.sha (syncedPass mode).cfg (prevApplied x.prev) =
      .ok ⟨[], [settings (some "default")], [], [], []⟩ ∧
    x.prev.isSome ∧ x.sync.changed = false ∧
    InSync env (syncedPass mode).cfg [settings (some "default")] syncedWorld.cluster ∧
    .applyStarted (.fromManifest (settings (some "default"))) ∈
      (Act.state (reconcile env (syncedPass mode) syncedWorld)).trace ∧
    (Act.state (reconcile env (syncedPass mode) syncedWorld)).stateCm.map
      (fun v => (State.fromData v).driftCount) = some 1

instance (env : Env .namespacedOnly) (mode : WatchMode) : Decidable (Reapplies env mode) :=
  inferInstanceAs (Decidable (∃ x ∈ Started.run env (syncedPass mode) syncedWorld, _))

/-- A one-shot pass in cache mode has no stores, and a pass in trigger mode may be
refused the list. Both take the resource for missing. -/
theorem not_seen_reapplies :
    Reapplies syncedEnv .cache ∧ Reapplies unlistedEnv .trigger := by
  decide +kernel

/-- The same pass without a watch sees the object, and leaves the cluster alone. -/
theorem pass_leavesAlone_off : ∃ x : Started syncedEnv (syncedPass .off) syncedWorld,
    LeavesAlone syncedEnv (syncedPass .off) [settings (some "default")] syncedWorld x.start ∧
      Sees syncedEnv (syncedPass .off).cfg [settings (some "default")] x.start.step := by
  have hstart : ∃ x ∈ Started.run syncedEnv (syncedPass .off) syncedWorld,
      desired syncedEnv x.sync.sha (syncedPass .off).cfg
        (prevApplied x.prev) = .ok ⟨[], [settings (some "default")], [], [], []⟩ ∧
      x.prev.isSome ∧ x.sync.changed = false := by decide +kernel
  obtain ⟨x, -, hdesired, hprev, hsame⟩ := hstart
  have hsees : Sees syncedEnv (syncedPass .off).cfg [settings (some "default")] x.start.step :=
    ⟨fun _ => ⟨rfl, rfl, trivial⟩, nofun⟩
  exact ⟨x, (pass_leavesAlone_iff x hdesired rfl hprev hsame (by decide) (fun _ _ h => h)
    (by decide +kernel)).mpr hsees, hsees⟩

end LeanCd.Reconcile
