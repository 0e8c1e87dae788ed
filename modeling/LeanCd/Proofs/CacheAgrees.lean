import LeanCd.Proofs.DriftReads
import Mathlib.Data.List.Find

/-!
# `LeanCd.Proofs.CacheAgrees`: cache mode reports what list mode reports

`detect` compares every manifest with the list of its kind. `detect_from_lw` groups the
manifests by kind, looks each up in a store by name and namespace, and compares those
whose object is too large for the store with a list in a second pass.
`detectFromLw_perm_detect`: where the stores hold the listed objects and the calls are
served, both report the same items, each as often.

`agreed` is what the two agree on: one comparison for each manifest, with the object of
its kind, name and namespace.

The order of what is reported depends on hash orders on both paths, so the result is a
permutation. The grouping by kind comes from `LeanCd.Lib.Grouping`. Two manifests of one key may
both be there, which a permutation counts.
-/

set_option autoImplicit false

namespace LeanCd.Drift

open Act Grouping

variable {sc : Scopes} {env : Env sc} {cfg : Config} {yaml : Yaml} {kube : KubeCrate}
  {manifests : List RawManifest} {stores : CacheStores} {fam : GvkKey → List DynamicObject}

/-- The lists of the manifests' kinds show the objects of a family, in some order. -/
def Shows (cfg : Config) (manifests : List RawManifest) (fam : GvkKey → List DynamicObject)
    (c : Cluster sc) : Prop :=
  ∀ m ∈ manifests, (c.list m.gvk cfg.selector).Perm (fam m.gvk)

/-- The object of a list under a key. -/
def byKey (live : List DynamicObject) (key : ObjKey) : Option DynamicObject :=
  live.find? fun o => LightweightStore.keyOf o = key

/-- The drift of a manifest against the family. -/
def agreed (yaml : Yaml) (kube : KubeCrate) (fam : GvkKey → List DynamicObject)
    (m : RawManifest) : Option DriftItem :=
  driftAgainst yaml kube m (findLiveMatch m (fam m.gvk))

/-! ### The objects of a kind -/

/-- In every order, a list shows a manifest the same match. -/
theorem Shows.findLiveMatch_eq {c : Cluster sc} (h : Shows cfg manifests fam c)
    {m : RawManifest} (hm : m ∈ manifests) :
    findLiveMatch m (c.list m.gvk cfg.selector) = findLiveMatch m (fam m.gvk) := by
  refine find?_eq_of_perm (h m hm) fun o ho o' ho' hp hp' => ?_
  simp only [Bool.and_eq_true, beq_iff_eq] at hp hp'
  exact list_unique ho ho' (hp.1.trans hp'.1.symm) (hp.2.trans hp'.2.symm)

/-- Listed objects have names, so the key of a manifest finds what its name and namespace
find. -/
theorem Shows.byKey_eq {c : Cluster sc} (h : Shows cfg manifests fam c) {m : RawManifest}
    (hm : m ∈ manifests) : byKey (fam m.gvk) (m.name, m.ns) = findLiveMatch m (fam m.gvk) := by
  refine List.find?_congr fun o ho => ?_
  obtain ⟨id, live, -, -, -, -, rfl⟩ := Cluster.mem_list.mp ((h m hm).mem_iff.mpr ho)
  rw [LightweightStore.keyOf, serve_name, serve_ns, Option.getD_some]
  rw [Bool.eq_iff_iff]
  simp [Prod.ext_iff]

/-! ### Both detections -/

/-- The comparison with lists of the family. -/
theorem computeDrifts_eq_agreed {lists : LiveByGvk}
    (h : ∀ m ∈ manifests, ∃ c : Cluster sc, Shows cfg manifests fam c ∧
      lists.lookup m.gvk = some (c.list m.gvk cfg.selector)) :
    computeDrifts yaml kube manifests lists = manifests.filterMap (agreed yaml kube fam) := by
  refine List.filterMap_congr ?_
  intro m hm
  obtain ⟨c, hc, hlook⟩ := h m hm
  rw [hlook, Option.getD_some, hc.findLiveMatch_eq hm, agreed]

/-- What a store of the family says of a manifest: the agreed drift, or that the object is
large. -/
theorem cacheVerdict_of_hold {c : Cluster sc} (h : Shows cfg manifests fam c) {m : RawManifest}
    (hm : m ∈ manifests) {s : LightweightStore} {maxBytes : Nat}
    (hs : s.tiers.Hold kube maxBytes (byKey (fam m.gvk))) :
    cacheVerdict yaml kube s m =
      if s.tierOf (m.name, m.ns) = .large then (none, true)
      else (agreed yaml kube fam m, false) := by
  have hfound := h.byKey_eq hm
  have htier := LightweightStore.tierOf_of_hold hs (m.name, m.ns)
  have hbody := LightweightStore.smallGet_of_hold hs (m.name, m.ns)
  rw [hfound] at htier hbody
  unfold cacheVerdict agreed
  cases hmatch : findLiveMatch m (fam m.gvk) with
  -- No live object: the key is in neither tier.
  | none =>
      rw [hmatch] at htier
      rw [htier]
      rfl
  -- A live object: the size decides in which tier the store looks.
  | some o =>
      rw [hmatch] at htier hbody
      dsimp only at htier
      by_cases hsize : kube.size o ≤ maxBytes
      · rw [if_pos hsize] at htier
        rw [htier, hbody, Option.filter_some, if_pos (decide_eq_true hsize)]
        rfl
      · rw [if_neg hsize] at htier
        rw [htier]
        rfl

/-- The drifts of a kind from its store and, for its large manifests, from the list, are
the agreed ones. -/
theorem perm_kind {c : Cluster sc} (h : Shows cfg manifests fam c) {g : GvkKey}
    {s : LightweightStore} {maxBytes : Nat} (hs : s.tiers.Hold kube maxBytes (byKey (fam g))) :
    ((driftFromStore yaml kube (some (.ready s)) (manifests.filter (·.gvk = g))).1 ++
      (driftFromStore yaml kube (some (.ready s)) (manifests.filter (·.gvk = g))).2.filterMap
        (agreed yaml kube fam)).Perm
      ((manifests.filter (·.gvk = g)).filterMap (agreed yaml kube fam)) := by
  have hverdict : ∀ m ∈ manifests.filter (·.gvk = g), cacheVerdict yaml kube s m =
      if s.tierOf (m.name, m.ns) = .large then (none, true)
      else (agreed yaml kube fam m, false) := by
    intro m hm
    obtain ⟨hmain, hg⟩ := List.mem_filter.mp hm
    have hg := of_decide_eq_true hg
    subst hg
    exact cacheVerdict_of_hold h hmain hs
  dsimp only [driftFromStore]
  generalize manifests.filter (·.gvk = g) = ms at hverdict ⊢
  -- The large ones are put off, the others compared at once.
  have hlarge : ms.filter (fun m => (cacheVerdict yaml kube s m).2) =
      ms.filter fun m => decide (s.tierOf (m.name, m.ns) = .large) := by
    refine List.filter_congr ?_
    intro m hm
    rw [hverdict m hm]
    split <;> simp_all
  have hsmall : ms.filterMap (fun m => (cacheVerdict yaml kube s m).1) =
      (ms.filter fun m => !decide (s.tierOf (m.name, m.ns) = .large)).filterMap
        (agreed yaml kube fam) := by
    rw [List.filterMap_filter]
    refine List.filterMap_congr ?_
    intro m hm
    rw [hverdict m hm]
    split <;> simp_all
  rw [hlarge, hsmall, ← List.filterMap_append]
  exact (List.perm_append_comm.trans (List.filter_append_perm _ ms)).filterMap _

/-- The drifts of the fallback, kind by kind. -/
theorem fallbackDrifts_eq_agreed {n : Nat} {lists : LiveByGvk}
    (hlists : ∀ g ∈ fallbackKinds env manifests stores n,
      ∃ c : Cluster sc, Shows cfg manifests fam c ∧ lists.lookup g = some (c.list g cfg.selector)) :
    fallbackDrifts env.yaml env.kube
      (fallbackItems (fromStores env manifests stores n).2 (fallbackKinds env manifests stores n))
      lists = (fallbackKinds env manifests stores n).flatMap fun g =>
        (largeOf env manifests stores g).filterMap (agreed env.yaml env.kube fam) := by
  rw [fallbackDrifts, fallbackItems, List.flatMap_map]
  refine List.flatMap_congr ?_
  intro g hg
  obtain ⟨c, hc, hlook⟩ := hlists g hg
  obtain ⟨m, hm, rfl, -⟩ := mem_fallbackKinds.mp hg
  dsimp only
  rw [hlook, fromStores_snd, lookup_deferred, if_pos (mem_gvkOrder.mpr ⟨m, hm, rfl⟩)]
  refine List.filterMap_congr ?_
  intro m' hm'
  obtain ⟨hmain, hsame, -⟩ := mem_large.mp hm'
  rw [agreed, ← hc.findLiveMatch_eq hmain, hsame]

/-- The kinds without large manifests can be visited as well, and in any order. -/
theorem perm_fallbackKinds (f : RawManifest → Option DriftItem) (n : Nat) :
    ((fallbackKinds env manifests stores n).flatMap fun g =>
        (largeOf env manifests stores g).filterMap f).Perm
      (((env.gvkOrder n).run (manifests.map RawManifest.gvk).dedup).flatMap fun g =>
        (largeOf env manifests stores g).filterMap f) := by
  have hskip := flatMap_filter_of_nil (p := fun g => !(largeOf env manifests stores g).isEmpty)
    (f := fun g => (largeOf env manifests stores g).filterMap f)
    ((env.gvkOrder n).run (manifests.map RawManifest.gvk).dedup)
    fun g _ hg => by
      have hnil : largeOf env manifests stores g = [] := by simpa using hg
      rw [hnil]
      rfl
  rw [← hskip]
  refine List.Perm.flatMap_right _ ((List.perm_ext_iff_of_nodup
    (nodup_fallbackKinds manifests stores n) ((nodup_gvkOrder n).filter _)).mpr ?_)
  intro g
  rw [fallbackKinds, Shuffle.mem_run, List.mem_dedup, fromStores_snd, mem_keys_deferred,
    List.mem_filter]
  simp

/-- The kinds come in some order, and the large manifests in another. Together they make
up the agreed drifts. -/
theorem perm_agreed {n : Nat} {c : Cluster sc} (h : Shows cfg manifests fam c) {maxBytes : Nat}
    (hstores : ∀ m ∈ manifests, ∃ s, stores.lookup m.gvk = some (.ready s) ∧
      s.tiers.Hold env.kube maxBytes (byKey (fam m.gvk)))
    {lists : LiveByGvk} (hlists : ∀ g ∈ fallbackKinds env manifests stores n,
      ∃ c : Cluster sc, Shows cfg manifests fam c ∧ lists.lookup g = some (c.list g cfg.selector)) :
    ((fromStores env manifests stores n).1 ++ fallbackDrifts env.yaml env.kube
      (fallbackItems (fromStores env manifests stores n).2 (fallbackKinds env manifests stores n))
      lists).Perm (manifests.filterMap (agreed env.yaml env.kube fam)) := by
  rw [fallbackDrifts_eq_agreed hlists, fromStores, driftFromCache_fst]
  refine ((perm_fallbackKinds _ n).append_left _).trans ?_
  refine (List.flatMap_append_perm _ _ _).trans ?_
  -- Within a kind the small and the large manifests make up the group.
  refine (List.Perm.flatMap_left _ (g := fun g => (manifests.filter (·.gvk = g)).filterMap
    (agreed env.yaml env.kube fam)) fun g hg => ?_).trans ?_
  · obtain ⟨m, hm, rfl⟩ := mem_gvkOrder.mp hg
    obtain ⟨s, hs, hhold⟩ := hstores m hm
    rw [largeOf, hs]
    exact perm_kind h hhold
  · rw [← List.filterMap_flatMap]
    exact (flatMap_group_perm (nodup_gvkOrder n) fun m hm =>
      mem_gvkOrder.mpr ⟨m, hm, rfl⟩).filterMap _

/-- Where every discovery and list of the manifests' kinds is served, the lists show a
family of objects, and the stores hold the family split by any size, the two detections
report the same items, each as often. -/
theorem detectFromLw_perm_detect (env : Env sc) (cfg : Config) (manifests : List RawManifest)
    (fam : GvkKey → List DynamicObject) (maxBytes : Nat) (stores : CacheStores)
    (hstores : ∀ m ∈ manifests, ∃ s, stores.lookup m.gvk = some (.ready s) ∧
      s.tiers.Hold env.kube maxBytes (byKey (fam m.gvk)))
    (hserved : ∀ m ∈ manifests, ∀ n,
      env.fault n (.discover m.gvk) = .none ∧ env.fault n (.list m.gvk) = .none)
    (hothers : ∀ n c, Shows cfg manifests fam c → Shows cfg manifests fam (env.others n c))
    (w w' : World sc) (hw : Shows cfg manifests fam w.cluster)
    (hw' : Shows cfg manifests fam w'.cluster) :
    ∃ drifts live t drifts' live' t', detect env cfg manifests w = .ok (drifts, live) t ∧
      detectFromLw env cfg manifests stores w' = .ok (drifts', live') t' ∧
      drifts'.Perm drifts := by
  obtain ⟨d, t, -, hrun, hd⟩ := @detectReading_run _ env cfg manifests w
  obtain ⟨d', t', u, -, hrun', hd', hlists'⟩ :=
    @detectFromLwReading_run _ env cfg manifests stores w'
  refine ⟨_, _, t, _, _, t', hrun, hrun', ?_⟩
  -- From lists, the agreed drifts in the order of the manifests.
  have hdetect : d.drifts = manifests.filterMap (agreed env.yaml env.kube fam) := by
    have hafter : After (detect env cfg manifests) w _ := after_detect_served hothers hserved hw
    obtain ⟨lists, live, heq, hlists⟩ := (after_of_ok hrun).mp hafter
    rw [(Prod.mk.inj (Except.ok.inj heq)).1]
    exact computeDrifts_eq_agreed hlists
  have hread := (after_of_ok hlists').mp (after_fallbackLists_answers
    (nodup_fallbackKinds manifests stores w'.step) (fun _ _ => List.not_mem_nil) _)
  have hlists := @lookup_listAnswers _ env cfg _ hothers
    (fallbackKinds env manifests stores w'.step) (fun g hg n => by
      obtain ⟨m, hm, rfl, -⟩ := mem_fallbackKinds.mp hg
      exact hserved m hm n) ((w'.ticked env).ticked env) (hothers _ _ (hothers _ _ hw'))
  rw [← Except.ok.inj hread] at hlists
  rw [hdetect, hd']
  exact perm_agreed hw' hstores hlists

/-- Two copies of the ConfigMap's manifest and one of a namespace without it, against a
store that is too small for the object: both detections report the third manifest once. -/
theorem detectFromLw_perm_detect_large :
    ∃ drifts live t drifts' live' t',
      detect syncedEnv settingsCfg
        [settings (some "default"), settings (some "other"), settings (some "default")]
        syncedWorld = .ok (drifts, live) t ∧
      detectFromLw syncedEnv settingsCfg
        [settings (some "default"), settings (some "other"), settings (some "default")]
        largeStores syncedWorld = .ok (drifts', live') t' ∧ drifts'.Perm drifts := by
  have hhold : largeStore.tiers.Hold .plain 0
      (byKey (syncedWorld.cluster.list (settings (some "default")).gvk settingsCfg.selector)) := by
    have hrun := ((LightweightStore.refines_new .plain 0).run
      ((syncedWorld.cluster.list (settings (some "default")).gvk settingsCfg.selector).map
        .apply)).tiers
    rw [LightweightStore.maxBytes_run] at hrun
    refine cast (congrArg _ (funext fun key => ?_)) hrun
    -- The one object is what the stream writes and what the list holds.
    obtain ⟨o, ho⟩ : ∃ o, syncedWorld.cluster.list (settings (some "default")).gvk
        settingsCfg.selector = [o] := List.length_eq_one_iff.mp (by decide +kernel)
    rw [ho]
    by_cases hkey : key = LightweightStore.keyOf o
    · subst hkey
      simp [Reflector.run, Reflector.step, WatchEvent.stream, byKey]
    · simp [Reflector.run, Reflector.step, WatchEvent.stream, byKey, hkey, Ne.symm hkey,
        Reflector.empty]
  refine detectFromLw_perm_detect syncedEnv settingsCfg _
    (fun g => syncedWorld.cluster.list g settingsCfg.selector) 0 largeStores ?_
    (fun _ _ _ => ⟨rfl, rfl⟩) (fun _ _ h => h) syncedWorld syncedWorld
    (fun _ _ => .refl _) (fun _ _ => .refl _)
  intro m hm
  have hgvk : m.gvk = (settings (some "default")).gvk := by
    simp only [List.mem_cons, List.not_mem_nil, or_false] at hm
    rcases hm with rfl | rfl | rfl <;> rfl
  rw [hgvk]
  exact ⟨largeStore, rfl, hhold⟩

end LeanCd.Drift
