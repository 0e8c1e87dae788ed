import LeanCd.Proofs.Overlay
import LeanCd.Proofs.PlainCrates

/-!
# `LeanCd.Proofs.ManagedLabel`: the label on what is sent

`apply_all` and `run_one` hand the same value to `kube_util::apply`: the document of the
manifest with the managed label put in. `Relabelled` says what the value should be, next
to the document. It is that exactly when the labels of the document are absent or a
mapping. An explicit `labels: null` is neither, and the client reads it as no labels.

`inject_managed_label_value` goes down to `metadata.labels` and makes the mappings that are
missing on the way. It does nothing where something else stands in its place. The equivalence is
for every document, with what its labels are as the only condition.
-/

set_option autoImplicit false

namespace LeanCd

namespace Value

/-- One label of a document. -/
def labelField (v : Value) (key : String) : Option Value := (v.metaField "labels").bind (·.get key)

end Value

namespace Manifest

/-- `after` is `before` with one label, and is unchanged everywhere else. -/
structure Relabelled (before after : Value) (key text : String) : Prop where
  label : after.labelField key = some (.string text)
  labels : ∀ k, k ≠ key → after.labelField k = before.labelField k
  metadata : ∀ k, k ≠ "labels" → after.metaField k = before.metaField k
  rest : ∀ k, k ≠ "metadata" → after.get k = before.get k

section
variable {fields metaFields : List (String × Value)} {key text : String}

/-- The label is put among the labels there are. -/
theorem inject_of_mapping {labels : List (String × Value)}
    (hmeta : fields.lookup "metadata" = some (.object metaFields))
    (hlabels : (metaFields.lookup "labels").getD (.object []) = .object labels) :
    injectManagedLabelValue (.object fields) key text =
      .object (Value.setField fields "metadata" (.object
        (Value.setField metaFields "labels" (.object
          (Value.setField labels key (.string text)))))) := by
  simp [injectManagedLabelValue, Value.field, hmeta, hlabels]

/-- Labels that are there and no mapping leave the document as it is. -/
theorem inject_of_not_mapping {v : Value}
    (hmeta : fields.lookup "metadata" = some (.object metaFields))
    (hlabels : metaFields.lookup "labels" = some v) (hv : v.asObject = none) :
    injectManagedLabelValue (.object fields) key text = .object fields := by
  cases v with
  | object ls => simp [Value.asObject] at hv
  | _ =>
      simp [injectManagedLabelValue, Value.field, hmeta, hlabels,
        Value.setField_of_lookup hmeta]

/-- Where the labels of a document are absent or a mapping, the injection sets the one label and
nothing else. -/
theorem relabelled_of_mapping {labels : List (String × Value)}
    (hmeta : fields.lookup "metadata" = some (.object metaFields))
    (hlabels : (metaFields.lookup "labels").getD (.object []) = .object labels) :
    Relabelled (.object fields) (injectManagedLabelValue (.object fields) key text) key text := by
  -- The document before the label, field by field.
  have hget : ∀ k, (Value.object fields).metaField k = metaFields.lookup k := by
    intro k
    simp [Value.metaField, hmeta]
  have hlabel : ∀ k, (Value.object fields).labelField k = labels.lookup k := by
    intro k
    rw [Value.labelField, hget]
    cases hl : metaFields.lookup "labels" with
    | none =>
        rw [hl] at hlabels
        cases hlabels
        rfl
    | some v =>
        rw [hl] at hlabels
        cases hlabels
        rfl
  rw [inject_of_mapping hmeta hlabels]
  -- The label that was asked for.
  constructor
  · simp [Value.labelField, Value.metaField, Value.lookup_setField_self]
  -- The other labels.
  · intro k hk
    rw [hlabel]
    simp [Value.labelField, Value.metaField, Value.lookup_setField_self,
      Value.lookup_setField_of_ne _ _ hk]
  -- The other fields of the metadata.
  · intro k hk
    rw [hget]
    simp [Value.metaField, Value.lookup_setField_self, Value.lookup_setField_of_ne _ _ hk]
  -- The fields outside the metadata.
  · intro k hk
    simp [Value.lookup_setField_of_ne _ _ hk]

end

/-- The document of a manifest is an object with a `metadata` object. -/
theorem metadata_of_valueToManifest {yaml : Yaml} {v : Value} {m : RawManifest}
    (h : valueToManifest yaml v = .ok (some m)) :
    ∃ fields metaFields, v = .object fields ∧
      fields.lookup "metadata" = some (.object metaFields) := by
  obtain ⟨w, hw, -⟩ := Option.bind_eq_some_iff.mp (valueToManifest_some h).1
  obtain ⟨metadata, hmeta, hname⟩ := Option.bind_eq_some_iff.mp hw
  cases v with
  | object fields =>
      cases metadata with
      | object metaFields => exact ⟨fields, metaFields, rfl, hmeta⟩
      | _ => simp [Value.get, Value.asObject] at hname
  | _ => simp [Value.get, Value.asObject] at hmeta

/-- The label is injected exactly when the labels of the document are absent or a mapping. -/
theorem relabelled_inject_iff {yaml : Yaml} {v : Value} {m : RawManifest}
    (h : valueToManifest yaml v = .ok (some m)) (key text : String) :
    Relabelled v (injectManagedLabelValue v key text) key text ↔ v.LabelsMapping := by
  obtain ⟨fields, metaFields, rfl, hmeta⟩ := metadata_of_valueToManifest h
  have hget : (Value.object fields).metaField "labels" = metaFields.lookup "labels" := by
    simp [Value.metaField, hmeta]
  rw [Value.LabelsMapping, hget]
  constructor
  · intro hrel
    cases hl : metaFields.lookup "labels" with
    | none => exact .inl rfl
    | some v =>
        cases hv : v.asObject with
        | some ls =>
            cases v with
            | object ls' => exact .inr ⟨ls', rfl⟩
            | _ => simp [Value.asObject] at hv
        | none =>
            -- Nothing was written, and there is no label in what is no mapping.
            have hlabel := hrel.label
            rw [inject_of_not_mapping hmeta hl hv, Value.labelField, hget, hl] at hlabel
            simp [Value.get, hv] at hlabel
  · intro hmapping
    rcases hmapping with hnone | ⟨ls, hls⟩
    · exact relabelled_of_mapping hmeta (by rw [hnone]; rfl)
    · exact relabelled_of_mapping hmeta (by rw [hls]; rfl)

end Manifest

namespace Hooks

variable {sc : Scopes}

/-- **What is handed to the API client carries the managed label**, and is the document
everywhere else, exactly when the labels of the document are absent or a mapping. -/
theorem labelledValue_relabelled_iff (env : Env sc) (cfg : Config)
    (hyaml : env.yaml.RoundTrips) {v : Value} {m : RawManifest}
    (hv : Manifest.valueToManifest env.yaml v = .ok (some m)) :
    (∃ v', labelledValue env cfg m = .ok v' ∧
      Manifest.Relabelled v v' cfg.managedLabelKey cfg.managedLabelValue) ↔
      v.LabelsMapping := by
  rw [← Manifest.relabelled_inject_iff hv cfg.managedLabelKey cfg.managedLabelValue,
    Parsed.labelledValue hyaml hv]
  simp

/-- The YAML of one ConfigMap whose metadata has these fields next to its name. -/
def oneConfigMap (more : List (String × Value)) : Value :=
  .object [("apiVersion", .string "v1"), ("kind", .string "ConfigMap"),
    ("metadata", .object (("name", .string "settings") :: more))]

/-- An environment with that one document. -/
def oneConfigMapEnv (more : List (String × Value)) : Env .namespacedOnly :=
  .calm _ (.table [("all", [oneConfigMap more])] [("settings", oneConfigMap more)])
    (gitAt "c1") fun _ => .bare

/-- The document of the example survives being printed and parsed. -/
theorem oneConfigMapEnv_roundTrips (more : List (String × Value)) :
    (oneConfigMapEnv more).yaml.RoundTrips :=
  Yaml.table_roundTrips _ (by simp)

/-- The manifest of the document. -/
def oneConfigMapManifest : RawManifest :=
  ⟨"", "v1", "ConfigMap", "settings", none, "settings", []⟩

/-- A manifest that has labels of its own keeps them beside the managed one. -/
theorem labelledValue_relabelled_iff_populated :
    ∃ v', labelledValue (oneConfigMapEnv [("labels", .object [("app", .string "web")])])
        settingsCfg oneConfigMapManifest = .ok v' ∧
      Manifest.Relabelled (oneConfigMap [("labels", .object [("app", .string "web")])]) v'
        settingsCfg.managedLabelKey settingsCfg.managedLabelValue :=
  (labelledValue_relabelled_iff (oneConfigMapEnv _) settingsCfg (oneConfigMapEnv_roundTrips _)
    (by decide +kernel)).mpr (.inr ⟨_, rfl⟩)

/-- The client takes a document with `labels: null` for an object, and what is handed to it
carries no label. -/
theorem labelledValue_nullLabels :
    ¬ ∀ (env : Env .namespacedOnly) (cfg : Config) (v : Value) (m : RawManifest),
      env.yaml.RoundTrips → Manifest.valueToManifest env.yaml v = .ok (some m) →
      (∃ o, env.kube.fromValue v = .ok o) →
      ∃ v', labelledValue env cfg m = .ok v' ∧
        Manifest.Relabelled v v' cfg.managedLabelKey cfg.managedLabelValue := by
  intro h
  obtain ⟨v', hv', hrel⟩ := h (oneConfigMapEnv [("labels", .null)]) settingsCfg
    (oneConfigMap [("labels", .null)]) oneConfigMapManifest (oneConfigMapEnv_roundTrips _)
    (by decide +kernel) ⟨_, rfl⟩
  have hsame : labelledValue (oneConfigMapEnv [("labels", .null)]) settingsCfg
      oneConfigMapManifest = .ok (oneConfigMap [("labels", .null)]) := by decide +kernel
  cases hsame.symm.trans hv'
  have hnone : (oneConfigMap [("labels", .null)]).labelField settingsCfg.managedLabelKey =
      none := rfl
  cases hnone.symm.trans hrel.label

end Hooks

end LeanCd
