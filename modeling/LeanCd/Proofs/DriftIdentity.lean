import LeanCd.Drift
import LeanCd.Calm
import LeanCd.Proofs.PlainCrates

/-!
# `LeanCd.Proofs.DriftIdentity`: apply and detection look for the same object

`apply` sends a manifest to the object its key denotes: the namespace follows from
the scope and the default. Both detections compare the namespace the manifest names
with the one of the live object, and both see labelled objects only. The list selects by the
managed label, and the stores are filled from watches that do.

`detectionFinds_iff` says that they find what was applied exactly when the two namespaces are
equal and the live object carries the label. The namespace fails for every namespaced manifest
that leaves it to the default. The label is there when the labels of the document are absent
or a mapping (`JustApplied.labelled`): only then does the pass put it in.

`mem_driftFromCache` reads the report of the stores manifest by manifest (`storeVerdict`).

The two conditions are independent, and each is a comparison of what the manifest says with what
the server has made of it. `JustApplied` is the situation of the theorem: the object is live as a
served apply of this manifest has left it.
-/

set_option autoImplicit false

namespace LeanCd.Drift

variable {sc : Scopes} {env : Env sc} {yaml : Yaml} {kube : KubeCrate} {cfg : Config}
  {c : Cluster sc} {m : RawManifest}

/-- A manifest was just applied. The server merged the object that is sent for it into what was
there before, the result is live, and it satisfies the manifest. -/
structure JustApplied (env : Env sc) (cfg : Config) (c : Cluster sc) (m : RawManifest) :
    Prop where
  live : ∃ sent before live,
    Sends env cfg m sent ((ResourceKey.fromManifest m).denotes sc cfg.namespace) ∧
    c.lookup ((ResourceKey.fromManifest m).denotes sc cfg.namespace) = some live ∧
    live.object = env.merge before sent ∧
    specsDiffer (manifestValue env.yaml m) (env.kube.toValue
      (serve ((ResourceKey.fromManifest m).denotes sc cfg.namespace) live)) = false

/-- The live object of a manifest carries the managed label. -/
def LiveLabelled (cfg : Config) (c : Cluster sc) (m : RawManifest) : Prop :=
  ∃ live, c.lookup ((ResourceKey.fromManifest m).denotes sc cfg.namespace) = some live ∧
    live.object.labelled cfg.selector = true

/-- What was just applied carries the label when the labels of its document are absent or a
mapping: it was sent with it, and the server keeps what it is sent. -/
theorem JustApplied.labelled (h : JustApplied env cfg c m) (hparsed : Parsed env.yaml m)
    (hyaml : env.yaml.RoundTrips) (hkube : env.kube.Reads) (hmerge : Merges env.merge)
    (hlabels : ∀ v, env.yaml.fromSlice m.data = .ok v → v.LabelsMapping) :
    LiveLabelled cfg c m := by
  obtain ⟨sent, before, live, hsends, hlook, hmerged, -⟩ := h.live
  refine ⟨live, hlook, ?_⟩
  have hsent := hparsed.sends_labelled hyaml hkube hlabels hsends
  rw [DynamicObject.labelled, beq_iff_eq] at hsent ⊢
  rw [hmerged]
  exact hmerge.label hsent

/-- A store that holds exactly the objects of a list: it knows the key of each and no
other, and a body it holds is the object of that key. -/
structure Mirrors (s : LightweightStore) (live : List DynamicObject) : Prop where
  known : ∀ key, s.tierOf key ≠ .absent ↔ ∃ o ∈ live, LightweightStore.keyOf o = key
  body : ∀ key o, s.smallGet key = some o → o ∈ live ∧ LightweightStore.keyOf o = key

/-- The manifest reported missing. -/
def missing (m : RawManifest) : DriftItem := ⟨.fromManifest m, missingReason⟩

/-- Neither detection reports the manifest missing: not the one from the lists, given
the labelled objects of its kind, and not the one from the stores, given a store that
holds exactly these. -/
structure DetectionFinds (yaml : Yaml) (kube : KubeCrate) (cfg : Config) (c : Cluster sc)
    (m : RawManifest) : Prop where
  fromLists : ∀ (manifests : List RawManifest) (live : LiveByGvk),
    live.lookup m.gvk = some (c.list m.gvk cfg.selector) →
    missing m ∉ computeDrifts yaml kube manifests live
  fromStores : ∀ (manifests : List RawManifest) (stores : CacheStores) (gvks : List GvkKey)
    (s : LightweightStore), stores.lookup m.gvk = some (.ready s) →
    Mirrors s (c.list m.gvk cfg.selector) →
    missing m ∉ (driftFromCache yaml kube manifests stores gvks).1

/-- An object of a list that the manifest's name and namespace fit. -/
theorem exists_findLiveMatch {live : List DynamicObject} {o : DynamicObject} (ho : o ∈ live)
    (hname : o.metadata.name = some m.name) (hns : o.metadata.ns = m.ns) :
    ∃ o', findLiveMatch m live = some o' ∧ o' ∈ live := by
  cases hfind : findLiveMatch m live with
  | none => exact absurd (List.find?_eq_none.mp hfind o ho) (by simp [hname, hns])
  | some o' => exact ⟨o', rfl, List.mem_of_find?_eq_some hfind⟩

/-- What is found has the manifest's name and namespace. -/
theorem findLiveMatch_some {live : List DynamicObject} {o : DynamicObject}
    (h : findLiveMatch m live = some o) :
    o ∈ live ∧ o.metadata.name = some m.name ∧ o.metadata.ns = m.ns := by
  have hp := List.find?_some h
  simp only [Bool.and_eq_true, beq_iff_eq] at hp
  exact ⟨List.mem_of_find?_eq_some h, hp⟩

/-- A found object is never reported missing. -/
theorem driftAgainst_ne_missing (m' : RawManifest) (o : DynamicObject) :
    driftAgainst yaml kube m' (some o) ≠ some (missing m) := by
  unfold driftAgainst missing
  dsimp only
  split
  · simp [differsReason, missingReason]
  · exact nofun

/-- Two manifests of one key are matched alike. -/
theorem findLiveMatch_congr {m' : RawManifest}
    (hkey : ResourceKey.fromManifest m' = .fromManifest m) (live : List DynamicObject) :
    findLiveMatch m' live = findLiveMatch m live := by
  obtain ⟨-, -, -, hns, hname⟩ := ResourceKey.mk.inj hkey
  simp only [findLiveMatch, hns, hname]

/-- Manifests of one key are of one kind, for the key holds group, version and kind. -/
theorem gvk_eq_of_key {m' : RawManifest}
    (hkey : ResourceKey.fromManifest m' = .fromManifest m) : m'.gvk = m.gvk :=
  congrArg ResourceKey.gvk hkey

/-- A drift is reported under the key of the manifest that it was found for. -/
theorem key_of_driftAgainst {m' : RawManifest} {found : Option DynamicObject} {d : DriftItem}
    (h : driftAgainst yaml kube m' found = some d) : d.key = .fromManifest m' := by
  unfold driftAgainst at h
  split at h
  · cases h; rfl
  · split at h
    · cases h; rfl
    · cases h

/-- Where the lists show an object that fits, the manifest is not reported missing. -/
theorem missing_notMem_computeDrifts {manifests : List RawManifest} {live : LiveByGvk}
    {objects : List DynamicObject} (hlive : live.lookup m.gvk = some objects)
    {o : DynamicObject} (hfound : findLiveMatch m objects = some o) :
    missing m ∉ computeDrifts yaml kube manifests live := by
  intro hmem
  obtain ⟨m', -, hdrift⟩ := List.mem_filterMap.mp hmem
  have hkey : ResourceKey.fromManifest m' = .fromManifest m :=
    (key_of_driftAgainst hdrift).symm
  rw [findLiveMatch_congr hkey, gvk_eq_of_key hkey, hlive, Option.getD_some, hfound] at hdrift
  exact driftAgainst_ne_missing m' o hdrift

/-- What a store says of one manifest of its kind. -/
def storeVerdict (yaml : Yaml) (kube : KubeCrate) (store : Option CacheStore) (m : RawManifest) :
    Option DriftItem :=
  match store with
  | none => some ⟨.fromManifest m, missingReason⟩
  | some .poisoned => some ⟨.fromManifest m, unavailableReason⟩
  | some (.ready s) => (cacheVerdict yaml kube s m).1

/-- The drifts from a store are the verdicts of its manifests one by one, without those that have
none. -/
theorem driftFromStore_fst (store : Option CacheStore) (ms : List RawManifest) :
    (driftFromStore yaml kube store ms).1 = ms.filterMap (storeVerdict yaml kube store) := by
  unfold driftFromStore storeVerdict
  rcases store with _ | _ | s
  · exact (congrFun List.filterMap_eq_map ms).symm
  · exact (congrFun List.filterMap_eq_map ms).symm
  · rfl

/-- The stores report kind by kind. -/
theorem driftFromCache_fst (manifests : List RawManifest) (stores : CacheStores)
    (gvks : List GvkKey) : (driftFromCache yaml kube manifests stores gvks).1 =
      gvks.flatMap fun g =>
        (driftFromStore yaml kube (stores.lookup g) (manifests.filter (·.gvk = g))).1 := by
  rw [driftFromCache]
  dsimp only
  rw [List.flatMap_map]

/-- The items from the stores are what the store of each manifest's kind says of it. -/
theorem mem_driftFromCache {manifests : List RawManifest} {stores : CacheStores}
    {gvks : List GvkKey} {d : DriftItem} :
    d ∈ (driftFromCache yaml kube manifests stores gvks).1 ↔ ∃ m ∈ manifests,
      m.gvk ∈ gvks ∧ storeVerdict yaml kube (stores.lookup m.gvk) m = some d := by
  rw [driftFromCache_fst]
  simp only [List.mem_flatMap, driftFromStore_fst, List.mem_filterMap, List.mem_filter,
    decide_eq_true_eq]
  constructor
  · rintro ⟨g, hg, m, ⟨hm, rfl⟩, hd⟩
    exact ⟨m, hm, hg, hd⟩
  · rintro ⟨m, hm, hg, hd⟩
    exact ⟨m.gvk, hg, m, ⟨hm, rfl⟩, hd⟩

/-- What a store says of a manifest is about its key. -/
theorem key_of_storeVerdict {store : Option CacheStore} {d : DriftItem}
    (h : storeVerdict yaml kube store m = some d) : d.key = .fromManifest m := by
  unfold storeVerdict cacheVerdict at h
  -- Three tiers, as in `cacheVerdict`: without a store and in no tier the manifest is missing, a
  -- small body is compared, and a large one is left to the fallback.
  rcases store with _ | _ | s
  · cases h
    rfl
  · cases h
    rfl
  · dsimp only at h
    cases htier : s.tierOf (m.name, m.ns) with
    | small =>
        rw [htier] at h
        exact key_of_driftAgainst h
    | large =>
        rw [htier] at h
        cases h
    | absent =>
        rw [htier] at h
        cases h
        rfl

/-- The body of an object in the small tier. -/
theorem smallGet_of_small {s : LightweightStore} {key : ObjKey} (h : s.tierOf key = .small) :
    ∃ o, s.smallGet key = some o := by
  unfold LightweightStore.tierOf at h
  split at h
  next hsome => exact Option.isSome_iff_exists.mp hsome
  next => split at h <;> cases h

/-- Where the store of its kind knows its key, the manifest is not reported missing. -/
theorem missing_notMem_driftFromCache {manifests : List RawManifest} {stores : CacheStores}
    {gvks : List GvkKey} {s : LightweightStore} (hstore : stores.lookup m.gvk = some (.ready s))
    (hknown : s.tierOf (m.name, m.ns) ≠ .absent) :
    missing m ∉ (driftFromCache yaml kube manifests stores gvks).1 := by
  intro hmem
  obtain ⟨m', -, -, hverdict⟩ := mem_driftFromCache.mp hmem
  -- The item carries the manifest's own key, so it comes from its own store.
  have hkey : ResourceKey.fromManifest m' = .fromManifest m := (key_of_storeVerdict hverdict).symm
  obtain ⟨-, -, -, hns, hname⟩ := ResourceKey.mk.inj hkey
  rw [gvk_eq_of_key hkey, hstore] at hverdict
  unfold storeVerdict cacheVerdict at hverdict
  dsimp only at hverdict
  cases htier : s.tierOf (m'.name, m'.ns) with
  | large =>
      rw [htier] at hverdict
      cases hverdict
  | absent =>
      rw [hns, hname] at htier
      exact hknown htier
  | small =>
      rw [htier] at hverdict
      dsimp only at hverdict
      obtain ⟨o, ho⟩ := smallGet_of_small htier
      rw [ho] at hverdict
      exact driftAgainst_ne_missing m' o hverdict

/-- An object of the list that the manifest's name and namespace fit is the manifest's own
object, and the manifest names the namespace that the server assigns. -/
theorem found_iff : (∃ o, findLiveMatch m (c.list m.gvk cfg.selector) = some o) ↔
    m.ns = ((ResourceKey.fromManifest m).denotes sc cfg.namespace).ns ∧ LiveLabelled cfg c m := by
  constructor
  · rintro ⟨o, hfind⟩
    obtain ⟨hmem, hname, hns⟩ := findLiveMatch_some hfind
    obtain ⟨id, live, hlook, hg, hk, hlabel, rfl⟩ := Cluster.mem_list.mp hmem
    have hid : id.ns = m.ns := hns
    have hidname : id.name = m.name := Option.some.inj hname
    have hfits := id.fits
    rw [hg, hk, hid] at hfits
    -- Listed objects have namespaces the server assigns, and this one has the manifest's.
    have hassigned : m.ns = ((ResourceKey.fromManifest m).denotes sc cfg.namespace).ns :=
      (Scope.place_eq_self hfits cfg.namespace).symm
    have hown : id = (ResourceKey.fromManifest m).denotes sc cfg.namespace :=
      ObjId.ext hg hk (hid.trans hassigned) hidname
    exact ⟨hassigned, live, hown ▸ hlook, hlabel⟩
  · rintro ⟨hns, live, hlook, hlabel⟩
    have hlisted : serve ((ResourceKey.fromManifest m).denotes sc cfg.namespace) live ∈
        c.list m.gvk cfg.selector :=
      Cluster.mem_list.mpr ⟨_, live, hlook, rfl, rfl, hlabel, rfl⟩
    obtain ⟨o, ho, -⟩ := exists_findLiveMatch hlisted rfl hns.symm
    exact ⟨o, ho⟩

/-- In every cluster, both detections find the object that a manifest was applied to exactly
when the manifest names the namespace the server assigns, and the object carries the label. -/
theorem finds_iff : DetectionFinds yaml kube cfg c m ↔
    m.ns = ((ResourceKey.fromManifest m).denotes sc cfg.namespace).ns ∧ LiveLabelled cfg c m := by
  constructor
  · intro hfinds
    rw [← found_iff]
    -- Were nothing found, a list that holds the very answer of the server would report it
    -- missing.
    by_contra hnot
    have hnone : findLiveMatch m (c.list m.gvk cfg.selector) = none :=
      Option.eq_none_iff_forall_ne_some.mpr fun o ho => hnot ⟨o, ho⟩
    refine hfinds.fromLists [m] [(m.gvk, c.list m.gvk cfg.selector)] (by simp) ?_
    refine List.mem_filterMap.mpr ⟨m, List.mem_cons_self, ?_⟩
    rw [List.lookup_cons, beq_self_eq_true, Option.getD_some, hnone]
    rfl
  · intro hcond
    obtain ⟨hns, live, hlook, hlabel⟩ := hcond
    have hlisted : serve ((ResourceKey.fromManifest m).denotes sc cfg.namespace) live ∈
        c.list m.gvk cfg.selector :=
      Cluster.mem_list.mpr ⟨_, live, hlook, rfl, rfl, hlabel, rfl⟩
    -- One half for the lists, one for the cache, and both find the object under its own key.
    refine ⟨fun manifests lists hlists => ?_, fun manifests stores gvks s hstore hmirror => ?_⟩
    · obtain ⟨o, ho, -⟩ := exists_findLiveMatch hlisted rfl hns.symm
      exact missing_notMem_computeDrifts hlists ho
    · refine missing_notMem_driftFromCache hstore ((hmirror.known _).mpr ⟨_, hlisted, ?_⟩)
      rw [LightweightStore.keyOf, serve_name, serve_ns, Option.getD_some, hns]
      rfl

/-- Both detections find the object that was just applied exactly when the manifest names the
namespace the server assigns (some namespace for a namespaced kind, none for a cluster-scoped
one), and the live object carries the managed label. It carries the label when the labels of
the document are absent or a mapping. -/
theorem detectionFinds_iff (hparsed : Parsed env.yaml m) (hyaml : env.yaml.RoundTrips)
    (hkube : env.kube.Reads) (hmerge : Merges env.merge) (h : JustApplied env cfg c m) :
    (DetectionFinds env.yaml env.kube cfg c m ↔
      m.ns = ((ResourceKey.fromManifest m).denotes sc cfg.namespace).ns ∧
        LiveLabelled cfg c m) ∧
    ((∀ v, env.yaml.fromSlice m.data = .ok v → v.LabelsMapping) → LiveLabelled cfg c m) :=
  ⟨finds_iff, h.labelled hparsed hyaml hkube hmerge⟩

/-- A store that holds the labelled objects of the cluster. -/
def settingsStore (c : Cluster .namespacedOnly) : LightweightStore :=
  (c.list (settings none).gvk settingsCfg.selector).foldl
    (fun s o => s.applyEvent .plain (.apply o)) (.new 12288)

/-- The environment in which the one manifest is applied. -/
def settingsEnv (fields : List (String × Value)) : Env .namespacedOnly :=
  .calm _ (settingsYaml fields) (fun _ _ => .exited true "" "") fun _ => .bare

/-- The manifest was just applied, and both detections report it missing. -/
structure ReportedMissing (ns : Option String) (fields : List (String × Value)) : Prop where
  applied : JustApplied (settingsEnv fields) settingsCfg (settingsCluster ns fields) (settings ns)
  fromLists : missing (settings ns) ∈ computeDrifts (settingsYaml fields) .plain [settings ns]
    [((settings ns).gvk,
      (settingsCluster ns fields).list (settings ns).gvk settingsCfg.selector)]
  fromStores : missing (settings ns) ∈ (driftFromCache (settingsYaml fields) .plain [settings ns]
    (AList.singleton (settings ns).gvk
      (.ready (settingsStore (settingsCluster ns fields)))) [(settings ns).gvk]).1

/-- A manifest that names no namespace is reported missing, and so is one that writes its
namespace and an explicit `labels: null`. -/
theorem settings_reported_missing :
    ReportedMissing none [] ∧
      ReportedMissing (some "default") [("namespace", .string "default"), ("labels", .null)] :=
  ⟨⟨⟨_, none, _, ⟨_, _, rfl, rfl, rfl, rfl⟩, rfl, rfl, by decide⟩, by decide, by decide⟩,
    ⟨⟨_, none, _, ⟨_, _, rfl, rfl, rfl, rfl⟩, rfl, rfl, by decide⟩, by decide, by decide⟩⟩

/-- The manifest with its namespace written is found by both, and its object is labelled. -/
theorem detectionFinds_settings :
    DetectionFinds (settingsYaml [("namespace", .string "default")]) .plain settingsCfg
      (settingsCluster (some "default") [("namespace", .string "default")])
      (settings (some "default")) := by
  have hparsed : Parsed (settingsYaml [("namespace", .string "default")])
      (settings (some "default")) := ⟨syncedValue, by decide +kernel⟩
  have happlied : JustApplied (settingsEnv [("namespace", .string "default")]) settingsCfg
      (settingsCluster (some "default") [("namespace", .string "default")])
      (settings (some "default")) :=
    ⟨_, none, _, ⟨_, _, rfl, rfl, rfl, rfl⟩, rfl, rfl, by decide⟩
  have hfound := detectionFinds_iff hparsed (Yaml.table_roundTrips _ (by simp))
    KubeCrate.plain_reads merges_replace happlied
  refine hfound.1.mpr ⟨rfl, hfound.2 fun v hv => ?_⟩
  have hdoc : (settingsYaml [("namespace", .string "default")]).fromSlice "settings" =
      .ok syncedValue := by decide +kernel
  cases hdoc.symm.trans hv
  exact .inl rfl

end LeanCd.Drift
