import LeanCd.Calm
import LeanCd.Proofs.InPlace

/-!
# `LeanCd.Proofs.PlainCrates`: the calm environment behaves as documented

The field-by-field client decodes metadata by name, a table of documents reads back what
it wrote, and a server that stores what it is sent merges it. So a calm environment whose
manifests can be told apart is `Orderly`.

Hypotheses about the crates stand in many theorems. Here is the proof that they can all be had
together, with functions that behave as the crates do on the inputs of the examples.
-/

set_option autoImplicit false

namespace LeanCd

namespace KubeCrate

/-- What decoding an optional text yields. -/
theorem optStr_ok {v : Option Value} {s : Option String} (h : optStr v = .ok s) :
    s = v.bind Value.asStr := by
  unfold optStr at h
  cases v with
  | none =>
      cases h
      rfl
  | some v =>
      cases v with
      | null | string =>
          cases h
          rfl
      | bool | number | array | object => cases h

/-- What decoding an optional map yields. -/
theorem optMap_ok {v : Option Value} {m : Option (List (String × String))}
    (h : optMap v = .ok m) :
    m.getD [] = ((v.bind Value.asObject).map Manifest.stringEntries).getD [] := by
  unfold optMap at h
  cases v with
  -- Absent and null mean no entry. Everything but an object is an error.
  | none =>
      cases h
      rfl
  | some v =>
      cases v with
      | null =>
          cases h
          rfl
      | object fields =>
          dsimp only at h
          split at h
          · cases h
            rfl
          · cases h
      | bool | number | array | string => cases h

/-- The decoded metadata, field by field. -/
theorem plainMeta_ok {fields : List (String × Value)} {o : ObjectMeta}
    (h : plainMeta (some (.object fields)) = .ok o) :
    optStr (Value.field fields "name") = .ok o.name ∧
      optStr (Value.field fields "namespace") = .ok o.ns ∧
      optMap (Value.field fields "labels") = .ok o.labels ∧
      optMap (Value.field fields "annotations") = .ok o.annotations := by
  unfold plainMeta at h
  dsimp only at h
  -- Every field has to decode, and each that does is what the object holds.
  cases hname : optStr (Value.field fields "name") <;> rw [hname] at h
  · cases h
  cases hns : optStr (Value.field fields "namespace") <;> rw [hns] at h
  · cases h
  cases hlabels : optMap (Value.field fields "labels") <;> rw [hlabels] at h
  · cases h
  cases hannotations : optMap (Value.field fields "annotations") <;> rw [hannotations] at h
  · cases h
  cases hgeneration : optInt (Value.field fields "generation") <;> rw [hgeneration] at h
  · cases h
  cases hdeletion : optStr (Value.field fields "deletionTimestamp") <;> rw [hdeletion] at h
  · cases h
  cases h
  exact ⟨rfl, rfl, rfl, rfl⟩

/-- A decoded value is an object, and its metadata was decoded. -/
theorem plainFrom_ok {v : Value} {o : DynamicObject} (h : plain.fromValue v = .ok o) :
    plainMeta (v.get "metadata") = .ok o.metadata := by
  change plainFrom v = .ok o at h
  unfold plainFrom at h
  cases v with
  | object fields =>
      dsimp only at h
      cases hmeta : plainMeta (Value.field fields "metadata") <;> rw [hmeta] at h
      · cases h
      cases h
      exact hmeta
  | null | bool | number | string | array => cases h

/-- The field-by-field client decodes metadata by name. -/
theorem plain_reads : plain.Reads := by
  -- Without metadata, or with one that is no mapping, there is nothing to read.
  have hread : ∀ {v : Value} {o : DynamicObject}, plain.fromValue v = .ok o →
      optStr (v.metaField "name") = .ok o.metadata.name ∧
        optStr (v.metaField "namespace") = .ok o.metadata.ns ∧
        optMap (v.metaField "labels") = .ok o.metadata.labels ∧
        optMap (v.metaField "annotations") = .ok o.metadata.annotations := by
    intro v o h
    have hmeta := plainFrom_ok h
    unfold Value.metaField
    cases hget : v.get "metadata" with
    | none =>
        rw [hget] at hmeta
        change Except.ok _ = Except.ok _ at hmeta
        rw [← Except.ok.inj hmeta]
        exact ⟨rfl, rfl, rfl, rfl⟩
    | some m =>
        rw [hget] at hmeta
        cases m with
        | object fields => exact plainMeta_ok hmeta
        | null | bool | number | string | array => cases hmeta
  refine ⟨fun h => optStr_ok (hread h).1, fun h => optStr_ok (hread h).2.1, fun h k => ?_,
    fun h k => ?_⟩
  · rw [DynamicObject.label, optMap_ok (hread h).2.2.1]
    rfl
  · rw [DynamicObject.annotation, optMap_ok (hread h).2.2.2]
    rfl

end KubeCrate

/-- Under different texts, every document is found. -/
theorem Yaml.lookup_of_mem {docs : List (String × Value)} (h : (docs.map Prod.fst).Nodup)
    {d : String × Value} (hd : d ∈ docs) : docs.lookup d.1 = some d.2 := by
  obtain ⟨text, v⟩ := d
  induction docs with
  | nil => cases hd
  | cons e rest ih =>
      obtain ⟨text', v'⟩ := e
      obtain ⟨hfirst, hrest⟩ := List.nodup_cons.mp h
      -- The table is searched from its front, and no earlier text is this one.
      rcases List.mem_cons.mp hd with heq | hd
      · cases heq
        simp
      · have hne : (text == text') = false := by
          refine beq_eq_false_iff_ne.mpr fun heq => hfirst ?_
          exact List.mem_map.mpr ⟨(text, v), hd, heq⟩
        rw [List.lookup_cons, hne]
        exact ih hrest hd

/-- A table of documents under different texts reads back what it wrote. -/
theorem Yaml.table_roundTrips (texts : List (String × List Value))
    {docs : List (String × Value)} (h : (docs.map Prod.fst).Nodup) :
    (Yaml.table texts docs).RoundTrips := by
  intro v s hwritten
  unfold Yaml.table at hwritten ⊢
  dsimp only at hwritten ⊢
  cases hfind : docs.find? fun d => d.2 = v with
  | none =>
      rw [hfind] at hwritten
      cases hwritten
  | some d =>
      rw [hfind] at hwritten
      cases hwritten
      -- What was written is the text of the first entry with this document.
      have hv : d.2 = v := by simpa using List.find?_some hfind
      have hlook := lookup_of_mem h (List.mem_of_find?_eq_some hfind)
      rw [hlook, hv]

/-- A server that stores what it is sent merges it. -/
theorem merges_replace : Merges fun _ sent => sent := ⟨id, id, .inl⟩

/-- A calm environment is orderly, when its documents have different texts and its commits
are in order. -/
theorem orderly_calm {sc : Scopes} {texts : List (String × List Value)}
    {docs : List (String × Value)} {git : Nat → GitCommand → GitOutcome}
    {tree : String → WorkTree} {cfg : Config} (hdocs : (docs.map Prod.fst).Nodup)
    (hdry : cfg.dryRun = false) {c : Classified}
    (hone : ∀ c', Declares (.calm sc (.table texts docs) git tree) cfg c' → c' = c)
    (hsendable : ∀ m ∈ c.main, Sendable (.calm sc (.table texts docs) git tree) cfg m)
    (hserved : ∀ m ∈ c.main, (ResourceKey.fromManifest m).AsServed sc)
    (hdistinct : (c.main.map (RawManifest.ident sc cfg)).Nodup)
    (hapart : ∀ h ∈ c.hooks, ∀ m ∈ c.main, h.ident sc cfg ≠ m.ident sc cfg) :
    Orderly (.calm sc (.table texts docs) git tree) cfg where
  yaml := Yaml.table_roundTrips texts hdocs
  kube := KubeCrate.plain_reads
  merge := merges_replace
  served _ _ := rfl
  erases _ _ _ := rfl
  quiet _ _ _ _ := rfl
  hooksStay _ _ h := h
  notDryRun := hdry
  sendable c' hc' := hone c' hc' ▸ hsendable
  asServed c' hc' := hone c' hc' ▸ hserved
  distinct c' hc' := by
    rw [hone c' hc']
    refine List.Nodup.of_map (fun k : ResourceKey => k.denotes sc cfg.namespace) ?_
    rw [ResourceKey.keysOf, List.map_map]
    exact hdistinct
  -- There is one commit up to its name, so equal fields make an equal object, and objects
  -- are distinct.
  version c₁ c₂ h₁ h₂ := by
    rw [hone c₁ h₁, hone c₂ h₂]
    intro m hm m' hm' hg hk hns hn
    have hident : m.ident sc cfg = m'.ident sc cfg := by
      refine ObjId.ext hg hk ?_ hn
      show (sc m.group m.kind).place m.ns cfg.namespace =
        (sc m'.group m'.kind).place m'.ns cfg.namespace
      rw [hg, hk, hns]
    rw [List.inj_on_of_nodup_map hdistinct hm hm' hident]
  apart id := by
    rintro ⟨c₁, h₁, h, hh, rfl⟩ ⟨c₂, h₂, m, hm, heq⟩
    rw [hone c₁ h₁] at hh
    rw [hone c₂ h₂] at hm
    exact hapart h hh m hm heq.symm

end LeanCd
