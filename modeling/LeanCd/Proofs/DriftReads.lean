import LeanCd.Lib.Grouping
import LeanCd.Proofs.DriftSteady
import LeanCd.Proofs.StoreRefinement
import LeanCd.Proofs.Totality

/-!
# `LeanCd.Proofs.DriftReads`: what a detection that reports nothing has read

A manifest that no detection reports counts as in sync, so it should have been seen.
`detectReading` and `detectFromLwReading` are the two detections, which also return the
lists they read. `FailsSafe` says that a manifest that is not reported was found in what
was read, and does not differ.

The detection from lists fails safe whatever calls fail. The one from the stores does
exactly when the list fallback for large objects is served: a kind whose fallback fails
is skipped, and its large manifests are neither read nor reported.

The readings are functions of their own, since a detection returns no trace of what it has read.
`detectReading_run` and `detectFromLwReading_run` say that they run as the detections do. What a run
reads is then a value, about which the property is a statement without runs.
-/

set_option autoImplicit false

namespace LeanCd.Drift

open Act Grouping

variable {sc : Scopes} {env : Env sc} {cfg : Config} {yaml : Yaml} {kube : KubeCrate}

/-- What a detection reports, the live objects it returns, and the lists it read. -/
structure Detection where
  drifts : List DriftItem
  live : List DynamicObject
  lists : LiveByGvk
deriving DecidableEq

section
variable (env cfg)

/-- `detect`, with the lists it read. -/
def detectReading (manifests : List RawManifest) : Pass sc Detection := do
  let lists ← listKinds env cfg (← hashGvks env (manifests.map RawManifest.gvk))
  let order ← hashGvks env (lists.map (·.1))
  return ⟨computeDrifts env.yaml env.kube manifests lists,
    order.flatMap fun g => (lists.lookup g).getD [], lists⟩

/-- The lists the fallback for large manifests reads. -/
def fallbackLists : List GvkKey → KubeUtil.DiscoveryCache → Pass sc LiveByGvk
  | [], _ => return []
  | g :: rest, cache => do
      match ← Act.attempt (δ := Error) (KubeUtil.getOrResolve env cache g) with
      | .error _ => fallbackLists rest cache
      | .ok cache =>
          match ← Act.attempt (δ := Error) (KubeUtil.listAll env g cfg.selector) with
          | .error _ => fallbackLists rest cache
          | .ok live =>
              let lists ← fallbackLists rest cache
              return (g, live) :: lists

end

/-- The drifts of the large manifests of the kinds that were read. -/
def fallbackDrifts (yaml : Yaml) (kube : KubeCrate) (items : List (GvkKey × List RawManifest))
    (lists : LiveByGvk) : List DriftItem :=
  items.flatMap fun item =>
    match lists.lookup item.1 with
    | none => []
    | some live => item.2.filterMap fun m => driftAgainst yaml kube m (findLiveMatch m live)

/-- The large manifests, under the kinds of an order. -/
def fallbackItems (large : List (GvkKey × List RawManifest)) (order : List GvkKey) :
    List (GvkKey × List RawManifest) :=
  order.map fun g => (g, (large.lookup g).getD [])

/-- `detect_from_lw`, with the lists it read. -/
def detectFromLwReading (env : Env sc) (cfg : Config) (manifests : List RawManifest)
    (stores : CacheStores) : Pass sc Detection := do
  let gvks ← hashGvks env (manifests.map RawManifest.gvk)
  let (drifts, large) := driftFromCache env.yaml env.kube manifests stores gvks
  let live := collectCachedLive manifests stores
  if large.isEmpty then return ⟨drifts, live, []⟩
  else
    let order ← hashGvks env (large.map (·.1))
    let lists ← fallbackLists env cfg order []
    return ⟨drifts ++ fallbackDrifts env.yaml env.kube (fallbackItems large order) lists,
      live ++ lists.flatMap (·.2), lists⟩

/-! ### The lists of the fallback -/

/-- The lists of the fallback never fail as a whole: a kind that cannot be listed is left out. -/
theorem total_fallbackLists (gvks : List GvkKey) (cache : KubeUtil.DiscoveryCache) :
    Total (fallbackLists env cfg gvks cache) := by
  induction gvks generalizing cache with
  | nil => exact .pure _
  | cons g rest ih =>
      refine (Total.attempt _).bind ?_
      intro r
      split
      · exact ih cache
      refine (Total.attempt _).bind ?_
      intro r
      split
      · exact ih _
      · exact (ih _).bind fun _ => .pure _

/-- The fallback reads lists of the kinds it is asked for, each once. -/
theorem returns_fallbackLists (gvks : List GvkKey) (cache : KubeUtil.DiscoveryCache) :
    Returns (fallbackLists env cfg gvks cache) fun lists => (lists.map (·.1)).Sublist gvks := by
  induction gvks generalizing cache with
  | nil => exact .pure .slnil
  | cons g rest ih =>
      refine (Returns.any _).bind ?_
      intro r _
      split
      · exact fun s a ha => (ih cache s a ha).cons g
      refine (Returns.any _).bind ?_
      intro r _
      split
      · exact fun s a ha => (ih _ s a ha).cons g
      · exact (ih _).bind fun lists hlists => .pure (hlists.cons_cons g)

/-- A kind without a list in the answers adds no drift of its own. -/
theorem fallbackDrifts_cons_unread {item : GvkKey × List RawManifest}
    {rest : List (GvkKey × List RawManifest)} {lists : LiveByGvk}
    (h : lists.lookup item.1 = none) :
    fallbackDrifts yaml kube (item :: rest) lists = fallbackDrifts yaml kube rest lists := by
  rw [fallbackDrifts, List.flatMap_cons, h]
  rfl

/-- The list of a kind that is asked for once says nothing of the other kinds. -/
theorem fallbackDrifts_cons_read {g : GvkKey} {ms : List RawManifest}
    {rest : List (GvkKey × List RawManifest)} {lists : LiveByGvk} (live : List DynamicObject)
    (h : g ∉ rest.map (·.1)) :
    fallbackDrifts yaml kube ((g, ms) :: rest) ((g, live) :: lists) =
      (ms.filterMap fun m => driftAgainst yaml kube m (findLiveMatch m live)) ++
        fallbackDrifts yaml kube rest lists := by
  rw [fallbackDrifts, List.flatMap_cons, List.lookup_cons, beq_self_eq_true]
  refine congrArg _ (List.flatMap_congr fun item hitem => ?_)
  have hne : (item.1 == g) = false :=
    beq_eq_false_iff_ne.mpr fun heq => h (heq ▸ List.mem_map_of_mem hitem)
  rw [List.lookup_cons, hne]

/-- The fallback is determined by the lists it reads. -/
theorem largeFallback_run {items : List (GvkKey × List RawManifest)}
    (hnodup : (items.map (·.1)).Nodup) {cache : KubeUtil.DiscoveryCache} {w t : World sc}
    {lists : LiveByGvk} (h : fallbackLists env cfg (items.map (·.1)) cache w = .ok lists t) :
    largeFallback env cfg items cache w =
      .ok (fallbackDrifts env.yaml env.kube items lists, lists.flatMap (·.2)) t := by
  induction items generalizing cache w t lists with
  | nil => cases h; rfl
  | cons item rest ih =>
      obtain ⟨g, ms⟩ := item
      obtain ⟨hg, hnodup⟩ := List.nodup_cons.mp hnodup
      -- What is read after this kind does not contain it.
      have hunread : ∀ {cache w t lists}, fallbackLists env cfg (rest.map (·.1)) cache w =
          .ok lists t → lists.lookup g = none := fun hrun =>
        lookup_eq_none_of_sublist (returns_fallbackLists _ _ _ _ (congrArg value hrun)) hg
      rw [List.map_cons, fallbackLists, bind_ok (attempt_run _ _)] at h
      rw [largeFallback, bind_ok (attempt_run _ _)]
      generalize KubeUtil.getOrResolve env cache g w = resolved at h ⊢
      cases resolved with
      | error e u =>
          rw [fallbackDrifts_cons_unread (hunread h)]
          exact ih hnodup h
      | ok cache' u =>
          dsimp only [value, state] at h ⊢
          rw [bind_ok (attempt_run _ _)] at h ⊢
          generalize KubeUtil.listAll env g cfg.selector u = listed at h ⊢
          cases listed with
          | error e v =>
              rw [fallbackDrifts_cons_unread (hunread h)]
              exact ih hnodup h
          | ok live v =>
              dsimp only [value, state] at h ⊢
              obtain ⟨more, x, hmore⟩ := total_fallbackLists (rest.map (·.1)) cache' v
              rw [bind_ok hmore] at h
              cases h
              rw [bind_ok (ih hnodup hmore), fallbackDrifts_cons_read live hg]
              rfl

/-- The fallback asks in the same way, once for each kind. -/
theorem after_fallbackLists_answers {gvks : List GvkKey} (hnodup : gvks.Nodup)
    {cache : KubeUtil.DiscoveryCache} (hcache : ∀ g ∈ gvks, g ∉ cache) (w : World sc) :
    After (fallbackLists env cfg gvks cache) w fun res _ =>
      res = .ok (listAnswers env cfg gvks w) := by
  induction gvks generalizing cache w with
  | nil => rfl
  | cons g rest ih =>
      obtain ⟨hg, hnodup⟩ := List.nodup_cons.mp hnodup
      have hrest : ∀ g' ∈ rest, g' ∉ cache := fun g' hg' => hcache g' (List.mem_cons_of_mem _ hg')
      have hresolved : ∀ g' ∈ rest, g' ∉ g :: cache := by
        intro g' hg' hmem
        rcases List.mem_cons.mp hmem with rfl | hmem
        · exact hg hg'
        · exact hrest g' hg' hmem
      rw [fallbackLists, KubeUtil.getOrResolve, if_neg (hcache g List.mem_cons_self), after_bind,
        after_attempt, after_bind, KubeUtil.resolve, after_bind, after_attempt, after_call,
        listAnswers]
      -- The discovery is the first call of the round. When it fails the list is not tried.
      cases env.fault w.step (.discover g) with
      | refused e => exact ih hnodup hrest _
      | lost e => exact ih hnodup hrest _
      -- The kind is now in the discovery cache, which is why the rest has to avoid it.
      | none =>
          rw [if_pos rfl, after_pure]
          dsimp only
          rw [after_pure]
          dsimp only
          rw [after_pure]
          dsimp only
          rw [after_bind, after_attempt, KubeUtil.after_listAll]
          -- The second call of the round is the list.
          cases env.fault (w.called env (.discover g)).step (.list g) with
          | refused e => exact ih hnodup hresolved _
          | lost e => exact ih hnodup hresolved _
          | none =>
              rw [if_pos rfl]
              dsimp only
              rw [after_bind]
              refine (ih hnodup hresolved _).mono ?_
              rintro _ u rfl
              rfl

/-! ### The detections are their readings -/

/-- `detect` is its reading, and reports what the lists show. -/
theorem detectReading_run (manifests : List RawManifest) (w : World sc) :
    ∃ d t, detectReading env cfg manifests w = .ok d t ∧
      detect env cfg manifests w = .ok (d.drifts, d.live) t ∧
      d.drifts = computeDrifts env.yaml env.kube manifests d.lists := by
  obtain ⟨gvks, u, hgvks⟩ := @total_hashGvks _ env (manifests.map RawManifest.gvk) w
  obtain ⟨lists, v, hlists⟩ := @total_listKinds _ env cfg gvks u
  obtain ⟨order, x, horder⟩ := @total_hashGvks _ env (lists.map (·.1)) v
  refine ⟨⟨computeDrifts env.yaml env.kube manifests lists,
    order.flatMap fun g => (lists.lookup g).getD [], lists⟩, x, ?_, ?_, rfl⟩
  · rw [detectReading, bind_ok hgvks, bind_ok hlists, bind_ok horder]
    rfl
  · rw [detect, bind_ok hgvks, bind_ok hlists]
    exact bind_ok horder

/-- What the stores say of the manifests, kind by kind in the order of an interaction. -/
def fromStores (env : Env sc) (manifests : List RawManifest) (stores : CacheStores) (n : Nat) :
    List DriftItem × List (GvkKey × List RawManifest) :=
  driftFromCache env.yaml env.kube manifests stores
    ((env.gvkOrder n).run (manifests.map RawManifest.gvk).dedup)

/-- The kinds with large manifests, in the order in which the fallback asks for them. -/
def fallbackKinds (env : Env sc) (manifests : List RawManifest) (stores : CacheStores)
    (n : Nat) : List GvkKey :=
  (env.gvkOrder (n + 1)).run ((fromStores env manifests stores n).2.map (·.1)).dedup

/-- The fallback asks for every kind once, since its kinds are collected in a hash set. -/
theorem nodup_fallbackKinds (manifests : List RawManifest) (stores : CacheStores) (n : Nat) :
    (fallbackKinds env manifests stores n).Nodup :=
  ((env.gvkOrder (n + 1)).perm _).nodup_iff.mpr (List.nodup_dedup _)

/-- The items of the fallback come in the order in which the kinds are listed. -/
@[simp] theorem map_fallbackItems (large : List (GvkKey × List RawManifest))
    (order : List GvkKey) : (fallbackItems large order).map (·.1) = order := by
  simp only [fallbackItems, List.map_map]
  exact List.map_id' order

/-- `detect_from_lw` is its reading. It reports what the stores show, and of the large
manifests what the lists of the fallback show. -/
theorem detectFromLwReading_run (manifests : List RawManifest) (stores : CacheStores)
    (w : World sc) :
    ∃ d t u, detectFromLwReading env cfg manifests stores w = .ok d t ∧
      detectFromLw env cfg manifests stores w = .ok (d.drifts, d.live) t ∧
      d.drifts = (fromStores env manifests stores w.step).1 ++
        fallbackDrifts env.yaml env.kube
          (fallbackItems (fromStores env manifests stores w.step).2
            (fallbackKinds env manifests stores w.step)) d.lists ∧
      fallbackLists env cfg (fallbackKinds env manifests stores w.step) []
        ((w.ticked env).ticked env) = .ok d.lists u := by
  have hgvks : hashGvks env (manifests.map RawManifest.gvk) w = .ok _ (w.ticked env) := rfl
  rw [detectFromLwReading, bind_ok hgvks, detectFromLw, bind_ok hgvks]
  rw [show driftFromCache env.yaml env.kube manifests stores
    ((env.gvkOrder w.step).run (manifests.map RawManifest.gvk).dedup) =
      fromStores env manifests stores w.step from rfl]
  have hkinds : hashGvks env ((fromStores env manifests stores w.step).2.map (·.1))
      (w.ticked env) =
        .ok (fallbackKinds env manifests stores w.step) ((w.ticked env).ticked env) := rfl
  have hnodup := @nodup_fallbackKinds _ env manifests stores w.step
  unfold fallbackKinds at hkinds hnodup ⊢
  generalize fromStores env manifests stores w.step = fs at hkinds hnodup ⊢
  obtain ⟨drifts, large⟩ := fs
  dsimp only at hkinds hnodup ⊢
  cases large with
  | nil =>
      -- Without large manifests there is no fallback.
      have hnil : (env.gvkOrder (w.step + 1)).run
          (([] : List (GvkKey × List RawManifest)).map (·.1)).dedup = [] :=
        List.perm_nil.mp ((env.gvkOrder (w.step + 1)).perm [])
      rw [hnil]
      exact ⟨_, _, _, rfl, rfl, (List.append_nil _).symm, rfl⟩
  | cons item rest =>
      generalize hlarge : item :: rest = large at hkinds hnodup ⊢
      have hsome : large.isEmpty = false := by rw [← hlarge]; rfl
      rw [hsome, if_neg (by decide), if_neg (by decide), bind_ok hkinds, bind_ok hkinds]
      generalize (env.gvkOrder (w.step + 1)).run (large.map (·.1)).dedup = order at hnodup ⊢
      obtain ⟨lists, t, hlists⟩ := @total_fallbackLists _ env cfg order []
        ((w.ticked env).ticked env)
      have hrun := @largeFallback_run _ env cfg (fallbackItems large order)
        (by rwa [map_fallbackItems]) _ _ _ _ (by rwa [map_fallbackItems])
      rw [show (order.map fun g => (g, (large.lookup g).getD [])) = fallbackItems large order
        from rfl, bind_ok hlists, bind_ok hrun]
      exact ⟨_, _, _, rfl, rfl, rfl, hlists⟩

/-! ### Large manifests -/

section
variable {manifests : List RawManifest} {stores : CacheStores} {n : Nat} {m : RawManifest}

/-- The store of the manifest's kind holds its object by key only. -/
def LargeIn (stores : CacheStores) (m : RawManifest) : Prop :=
  ∃ s, stores.lookup m.gvk = some (.ready s) ∧ s.tierOf (m.name, m.ns) = .large

/-- Whether a manifest has a large object in the stores depends on its key only. -/
theorem LargeIn.of_key {m' : RawManifest} (h : LargeIn stores m)
    (hkey : ResourceKey.fromManifest m' = .fromManifest m) : LargeIn stores m' := by
  obtain ⟨-, -, -, hns, hname⟩ := ResourceKey.mk.inj hkey
  unfold LargeIn
  rwa [gvk_eq_of_key hkey, hns, hname]

/-- The large manifests of a kind are those its store holds by key only. -/
theorem mem_large {g : GvkKey} :
    m ∈ (driftFromStore yaml kube (stores.lookup g) (manifests.filter (·.gvk = g))).2 ↔
      m ∈ manifests ∧ m.gvk = g ∧ LargeIn stores m := by
  unfold driftFromStore
  constructor
  · intro hm
    split at hm
    · cases hm
    · cases hm
    -- Only a kind with a synced store leaves anything to the fallback.
    · rename_i s hs
      obtain ⟨hmem, hlarge⟩ := List.mem_filter.mp hm
      obtain ⟨hmain, hg⟩ := List.mem_filter.mp hmem
      have hg := of_decide_eq_true hg
      refine ⟨hmain, hg, s, hg.symm ▸ hs, ?_⟩
      unfold cacheVerdict at hlarge
      cases htier : s.tierOf (m.name, m.ns) with
      | large => rfl
      | small | absent => rw [htier] at hlarge; cases hlarge
  · rintro ⟨hmain, rfl, s, hs, hlarge⟩
    rw [hs]
    refine List.mem_filter.mpr ⟨List.mem_filter.mpr ⟨hmain, decide_eq_true rfl⟩, ?_⟩
    rw [cacheVerdict, hlarge]

/-- A hash order of the kinds of some manifests holds exactly those kinds. -/
theorem mem_gvkOrder {g : GvkKey} :
    g ∈ (env.gvkOrder n).run (manifests.map RawManifest.gvk).dedup ↔
      ∃ m ∈ manifests, m.gvk = g := by
  rw [Shuffle.mem_run, List.mem_dedup, List.mem_map]

/-- It holds each of them once. -/
theorem nodup_gvkOrder (n : Nat) :
    ((env.gvkOrder n).run (manifests.map RawManifest.gvk).dedup).Nodup :=
  ((env.gvkOrder n).perm _).nodup_iff.mpr (List.nodup_dedup _)

/-- The large manifests of a kind. -/
def largeOf (env : Env sc) (manifests : List RawManifest) (stores : CacheStores) (g : GvkKey) :
    List RawManifest :=
  (driftFromStore env.yaml env.kube (stores.lookup g) (manifests.filter (·.gvk = g))).2

/-- The stores put off the kinds with large manifests. -/
theorem fromStores_snd : (fromStores env manifests stores n).2 =
    deferred (largeOf env manifests stores)
      ((env.gvkOrder n).run (manifests.map RawManifest.gvk).dedup) := by
  rw [fromStores, driftFromCache]
  dsimp only
  rw [List.map_map]
  rfl

/-- The deferred kinds are those with a large manifest. -/
theorem mem_fallbackKinds {g : GvkKey} :
    g ∈ fallbackKinds env manifests stores n ↔
      ∃ m ∈ manifests, m.gvk = g ∧ LargeIn stores m := by
  rw [fallbackKinds, Shuffle.mem_run, List.mem_dedup, fromStores_snd, mem_keys_deferred,
    mem_gvkOrder]
  constructor
  · rintro ⟨-, hne⟩
    obtain ⟨m, hm⟩ := List.exists_mem_of_ne_nil _ hne
    exact ⟨m, mem_large.mp hm⟩
  · rintro ⟨m, hm, hg, hlarge⟩
    exact ⟨⟨m, hm, hg⟩, List.ne_nil_of_mem (mem_large.mpr ⟨hm, hg, hlarge⟩)⟩

/-- The fallback is asked for every large manifest, and for no other. -/
theorem mem_fallbackItems {item : GvkKey × List RawManifest}
    (hitem : item ∈ fallbackItems (fromStores env manifests stores n).2
      (fallbackKinds env manifests stores n)) :
    m ∈ item.2 ↔ m ∈ manifests ∧ m.gvk = item.1 ∧ LargeIn stores m := by
  obtain ⟨g, hg, rfl⟩ := List.mem_map.mp hitem
  obtain ⟨m', hm', hg', -⟩ := mem_fallbackKinds.mp hg
  dsimp only
  rw [fromStores_snd, lookup_deferred, if_pos (mem_gvkOrder.mpr ⟨m', hm', hg'⟩)]
  exact mem_large

/-! ### Failing safe -/

/-- Some item of the report is about the manifest. -/
def Reported (drifts : List DriftItem) (m : RawManifest) : Prop :=
  ∃ d ∈ drifts, d.key = .fromManifest m

/-- The object was read, from a list of the manifest's kind or from its store. -/
def WasRead (stores : CacheStores) (lists : LiveByGvk) (m : RawManifest) (o : DynamicObject) :
    Prop :=
  (∃ live, lists.lookup m.gvk = some live ∧ o ∈ live) ∨
  ∃ s key, stores.lookup m.gvk = some (.ready s) ∧ s.smallGet key = some o

/-- For a manifest that is not reported, an object of its kind, name and namespace was
read that does not differ. -/
def FailsSafe (env : Env sc) (manifests : List RawManifest) (stores : CacheStores)
    (d : Detection) : Prop :=
  ∀ m ∈ manifests, ¬ Reported d.drifts m → ∃ o, WasRead stores d.lists m o ∧
    LightweightStore.keyOf o = (m.name, m.ns) ∧
    specsDiffer (manifestValue env.yaml m) (env.kube.toValue o) = false

/-- A comparison that reports nothing has found an object that does not differ. -/
theorem driftAgainst_eq_none {found : Option DynamicObject} :
    driftAgainst yaml kube m found = none ↔
      ∃ o, found = some o ∧ specsDiffer (manifestValue yaml m) (kube.toValue o) = false := by
  unfold driftAgainst
  cases found with
  | none => simp
  | some o => simp

/-- A comparison that is part of a report and shows nothing has found its object. -/
theorem driftAgainst_of_not_reported (found : Option DynamicObject) {drifts : List DriftItem}
    (hpart : ∀ d, driftAgainst yaml kube m found = some d → d ∈ drifts)
    (hno : ¬ Reported drifts m) :
    ∃ o, found = some o ∧ specsDiffer (manifestValue yaml m) (kube.toValue o) = false := by
  refine driftAgainst_eq_none.mp (Option.eq_none_iff_forall_ne_some.mpr fun d hd => ?_)
  exact hno ⟨d, hpart d hd, key_of_driftAgainst hd⟩

/-- A match in a list that was read. -/
theorem wasRead_of_match {lists : LiveByGvk} {live : List DynamicObject} {o : DynamicObject}
    (hlook : lists.lookup m.gvk = some live) (hfound : findLiveMatch m live = some o) :
    WasRead stores lists m o ∧ LightweightStore.keyOf o = (m.name, m.ns) := by
  obtain ⟨hmem, hname, hns⟩ := findLiveMatch_some hfound
  refine ⟨.inl ⟨live, hlook, hmem⟩, ?_⟩
  rw [LightweightStore.keyOf, hname, hns]
  rfl

/-- The detection from lists fails safe. A kind that was not read has an empty list, in
which no manifest finds a match. -/
theorem failsSafe_of_computeDrifts {d : Detection}
    (h : d.drifts = computeDrifts env.yaml env.kube manifests d.lists) :
    FailsSafe env manifests ∅ d := by
  intro m hm hno
  obtain ⟨o, hfound, hsame⟩ := driftAgainst_of_not_reported _ (fun item hitem => by
    rw [h]
    exact List.mem_filterMap.mpr ⟨m, hm, hitem⟩) hno
  cases hlook : d.lists.lookup m.gvk with
  | none =>
      rw [hlook] at hfound
      cases hfound
  | some live =>
      rw [hlook] at hfound
      obtain ⟨hread, hkey⟩ := wasRead_of_match hlook hfound
      exact ⟨o, hread, hkey, hsame⟩

/-- The items from the stores are what the store of each manifest's kind says of it. -/
theorem mem_fromStores {d : DriftItem} :
    d ∈ (fromStores env manifests stores n).1 ↔
      ∃ m ∈ manifests, storeVerdict env.yaml env.kube (stores.lookup m.gvk) m = some d := by
  rw [fromStores, mem_driftFromCache]
  refine exists_congr fun m => and_congr_right fun hm => and_iff_right ?_
  exact mem_gvkOrder.mpr ⟨m, hm, rfl⟩

/-- The stores say nothing of a large manifest. -/
theorem storeVerdict_of_large (h : LargeIn stores m) :
    storeVerdict yaml kube (stores.lookup m.gvk) m = none := by
  obtain ⟨s, hready, hlarge⟩ := h
  unfold storeVerdict cacheVerdict
  rw [hready]
  dsimp only
  rw [hlarge]

/-- A store that says nothing of a manifest holds a body that does not differ, or the key
alone. -/
theorem storeVerdict_none (h : storeVerdict yaml kube (stores.lookup m.gvk) m = none) :
    LargeIn stores m ∨ ∃ s o, stores.lookup m.gvk = some (.ready s) ∧
      s.smallGet (m.name, m.ns) = some o ∧
      specsDiffer (manifestValue yaml m) (kube.toValue o) = false := by
  unfold storeVerdict at h
  split at h
  · cases h
  · cases h
  · rename_i s hs
    unfold cacheVerdict at h
    cases htier : s.tierOf (m.name, m.ns) with
    | small =>
        rw [htier] at h
        obtain ⟨o, ho, hsame⟩ := driftAgainst_eq_none.mp h
        exact .inr ⟨s, o, hs, ho, hsame⟩
    | large => exact .inl ⟨s, hs, htier⟩
    | absent => rw [htier] at h; cases h

/-- An item of the fallback is about a large manifest of a kind that was read. -/
theorem read_of_mem_fallbackDrifts {lists : LiveByGvk} {d : DriftItem}
    (h : d ∈ fallbackDrifts env.yaml env.kube (fallbackItems (fromStores env manifests stores n).2
      (fallbackKinds env manifests stores n)) lists) :
    ∃ m live, d.key = .fromManifest m ∧ lists.lookup m.gvk = some live := by
  obtain ⟨item, hitem, hd⟩ := List.mem_flatMap.mp h
  cases hlook : lists.lookup item.1 with
  | none =>
      rw [hlook] at hd
      cases hd
  | some live =>
      rw [hlook] at hd
      obtain ⟨m, hm, hdrift⟩ := List.mem_filterMap.mp hd
      obtain ⟨-, hg, -⟩ := (mem_fallbackItems hitem).mp hm
      exact ⟨m, live, key_of_driftAgainst hdrift, hg ▸ hlook⟩

/-- A kind with a large manifest that was not read makes the detection unsafe: no item is
about the manifest, and its store holds no body for it. -/
theorem not_failsSafe_of_unread {d : Detection}
    (hfilled : ∀ g s, stores.lookup g = some (.ready s) → s.Filled env.kube)
    (hd : d.drifts = (fromStores env manifests stores n).1 ++ fallbackDrifts env.yaml env.kube
      (fallbackItems (fromStores env manifests stores n).2 (fallbackKinds env manifests stores n))
      d.lists)
    (hm : m ∈ manifests) (hlarge : LargeIn stores m) (hunread : d.lists.lookup m.gvk = none) :
    ¬ FailsSafe env manifests stores d := by
  intro hsafe
  -- The manifest is silent: the stores say nothing of a large body, and its kind was not read.
  have hno : ¬ Reported d.drifts m := by
    rintro ⟨item, hitem, hkey⟩
    rw [hd] at hitem
    rcases List.mem_append.mp hitem with hstore | hlist
    · obtain ⟨m', -, hverdict⟩ := mem_fromStores.mp hstore
      have hkey' := key_of_storeVerdict hverdict
      rw [storeVerdict_of_large (hlarge.of_key (hkey'.symm.trans hkey))] at hverdict
      cases hverdict
    · obtain ⟨m', live, hkey', hlook⟩ := read_of_mem_fallbackDrifts hlist
      rw [gvk_eq_of_key (hkey'.symm.trans hkey), hunread] at hlook
      cases hlook
  obtain ⟨o, ⟨live, hlook, -⟩ | ⟨s, key, hs, hbody⟩, hkey, -⟩ := hsafe m hm hno
  -- Neither a list nor a body can show that it was compared.
  · rw [hunread] at hlook
    cases hlook
  · -- A body under the manifest's key would put the key in the other tier.
    rw [← (hfilled _ s hs).keyOf_eq hbody, hkey] at hbody
    obtain ⟨s', hs', htier⟩ := hlarge
    cases hs.symm.trans hs'
    unfold LightweightStore.tierOf at htier
    rw [show s.tiers.small.lookup (m.name, m.ns) = some o from hbody] at htier
    cases htier

/-- The detection from the stores fails safe exactly when the fallback is served. -/
theorem detectFromLw_failsSafe_iff (manifests : List RawManifest) {stores : CacheStores}
    (hfilled : ∀ g s, stores.lookup g = some (.ready s) → s.Filled env.kube) (w : World sc) :
    ∃ d t, detectFromLwReading env cfg manifests stores w = .ok d t ∧
      detectFromLw env cfg manifests stores w = .ok (d.drifts, d.live) t ∧
      (FailsSafe env manifests stores d ↔
        ServedFrom env (w.step + 2) (fallbackKinds env manifests stores w.step)) := by
  obtain ⟨d, t, u, hreading, hrun, hd, hlists⟩ :=
    @detectFromLwReading_run _ env cfg manifests stores w
  refine ⟨d, t, hreading, hrun, ?_⟩
  have hread := (after_of_ok hlists).mp (after_fallbackLists_answers
    (nodup_fallbackKinds manifests stores w.step) (fun _ _ => List.not_mem_nil) _)
  rw [show w.step + 2 = ((w.ticked env).ticked env).step from rfl,
    @servedFrom_iff _ _ cfg _ (nodup_fallbackKinds manifests stores w.step),
    ← Except.ok.inj hread]
  constructor
  -- A large manifest of a kind that was not read would be silent without a comparison.
  · intro hsafe g hg
    obtain ⟨m, hm, rfl, hlarge⟩ := mem_fallbackKinds.mp hg
    cases hlook : d.lists.lookup m.gvk with
    | none => exact absurd hsafe (not_failsSafe_of_unread hfilled hd hm hlarge hlook)
    | some live => exact ⟨live, rfl⟩
  · intro hall m hm hno
    have hquiet : storeVerdict env.yaml env.kube (stores.lookup m.gvk) m = none := by
      refine Option.eq_none_iff_forall_ne_some.mpr ?_
      intro item hitem
      refine hno ⟨item, ?_, key_of_storeVerdict hitem⟩
      rw [hd]
      exact List.mem_append_left _ (mem_fromStores.mpr ⟨m, hm, hitem⟩)
    rcases storeVerdict_none hquiet with hlarge | ⟨s, o, hs, ho, hsame⟩
    · -- A large manifest was compared with the list of its kind.
      have hkind : m.gvk ∈ fallbackKinds env manifests stores w.step :=
        mem_fallbackKinds.mpr ⟨m, hm, rfl, hlarge⟩
      obtain ⟨live, hlook⟩ := hall m.gvk hkind
      have hitem := List.mem_map_of_mem
        (f := fun g => (g, ((fromStores env manifests stores w.step).2.lookup g).getD [])) hkind
      obtain ⟨o, hfound, hsame⟩ := driftAgainst_of_not_reported
        (findLiveMatch m live) (fun item hdrift => by
          rw [hd]
          refine List.mem_append_right _ (List.mem_flatMap.mpr ⟨_, hitem, ?_⟩)
          rw [hlook]
          exact List.mem_filterMap.mpr
            ⟨m, (mem_fallbackItems hitem).mpr ⟨hm, rfl, hlarge⟩, hdrift⟩) hno
      obtain ⟨hread, hkey⟩ := wasRead_of_match hlook hfound
      exact ⟨o, hread, hkey, hsame⟩
    · exact ⟨o, .inr ⟨s, _, hs, ho⟩, (hfilled _ s hs).keyOf_eq ho, hsame⟩

/-- Whatever stores the watch drivers have filled and whatever calls fail: the detection
from lists fails safe, and the one from the stores exactly when the fallback for large
manifests is served. -/
theorem failsSafe_iff (env : Env sc) (cfg : Config) (manifests : List RawManifest)
    (stores : CacheStores)
    (hfilled : ∀ g s, stores.lookup g = some (.ready s) → s.Filled env.kube) (w : World sc) :
    (∃ d t, detectReading env cfg manifests w = .ok d t ∧
      detect env cfg manifests w = .ok (d.drifts, d.live) t ∧ FailsSafe env manifests ∅ d) ∧
    (∃ d t, detectFromLwReading env cfg manifests stores w = .ok d t ∧
      detectFromLw env cfg manifests stores w = .ok (d.drifts, d.live) t ∧
      (FailsSafe env manifests stores d ↔
        ServedFrom env (w.step + 2) (fallbackKinds env manifests stores w.step))) := by
  obtain ⟨d, t, hreading, hrun, hd⟩ := @detectReading_run _ env cfg manifests w
  exact ⟨⟨d, t, hreading, hrun, failsSafe_of_computeDrifts hd⟩,
    detectFromLw_failsSafe_iff manifests hfilled w⟩

end

/-- A store of one ConfigMap, with a bound below the size of the object. -/
def largeStore : LightweightStore :=
  (LightweightStore.new 0).run .plain
    ((syncedWorld.cluster.list (settings (some "default")).gvk settingsCfg.selector).map .apply)

/-- The stores of cache mode, with the ConfigMap in the large tier. -/
def largeStores : CacheStores :=
  AList.insert (settings (some "default")).gvk (.ready largeStore) ∅

/-- The store of the example was filled by the events of a watch. -/
theorem filled_largeStores {g : GvkKey} {s : LightweightStore}
    (h : largeStores.lookup g = some (.ready s)) : s.Filled .plain := by
  unfold largeStores at h
  by_cases hg : g = (settings (some "default")).gvk
  · subst hg
    rw [AList.lookup_insert] at h
    cases h
    exact ⟨_, _, rfl⟩
  · rw [AList.lookup_insert_ne hg] at h
    cases h

/-- Where listing is forbidden, the large ConfigMap is not reported, and nothing was read. -/
theorem large_unread_unreported :
    ∃ d t, detectFromLwReading Reconcile.unlistedEnv settingsCfg [settings (some "default")]
        largeStores syncedWorld = .ok d t ∧
      detectFromLw Reconcile.unlistedEnv settingsCfg [settings (some "default")] largeStores
        syncedWorld = .ok (d.drifts, d.live) t ∧
      d.drifts = [] ∧ d.lists = [] ∧
      ¬ FailsSafe Reconcile.unlistedEnv [settings (some "default")] largeStores d := by
  obtain ⟨d, t, -, hreading, hrun, hd, -⟩ :=
    @detectFromLwReading_run _ Reconcile.unlistedEnv settingsCfg
      [settings (some "default")] largeStores syncedWorld
  have hnone : value (detectFromLwReading Reconcile.unlistedEnv settingsCfg
      [settings (some "default")] largeStores syncedWorld) = .ok ⟨[], [], []⟩ := by
    decide +kernel
  rw [hreading] at hnone
  cases hnone
  refine ⟨_, t, hreading, hrun, rfl, rfl, ?_⟩
  exact not_failsSafe_of_unread (fun _ _ => filled_largeStores) hd List.mem_cons_self
    ⟨largeStore, rfl, by decide +kernel⟩ rfl

/-- Where the list is served, the same detection fails safe. -/
theorem failsSafe_largeStores :
    ∃ d t, detectFromLwReading syncedEnv settingsCfg [settings (some "default")] largeStores
      syncedWorld = .ok d t ∧ FailsSafe syncedEnv [settings (some "default")] largeStores d := by
  obtain ⟨d, t, hreading, -, hiff⟩ := (failsSafe_iff syncedEnv settingsCfg
    [settings (some "default")] largeStores (fun _ _ => filled_largeStores) syncedWorld).2
  have hserved : ∀ n gvks, ServedFrom syncedEnv n gvks := by
    intro n gvks
    induction gvks generalizing n with
    | nil => trivial
    | cons g rest ih => exact ⟨rfl, rfl, ih (n + 2)⟩
  exact ⟨d, t, hreading, hiff.mpr (hserved _ _)⟩

end LeanCd.Drift
