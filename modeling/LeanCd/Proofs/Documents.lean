import LeanCd.Proofs.PassFrames

/-!
# `LeanCd.Proofs.Documents`: from a document to the object that is sent

A manifest goes to the API server as the object its document decodes to, with the
managed label put in. Three crates take part: the YAML crate writes the document out and
reads it back (`Yaml.RoundTrips`), the Kubernetes client decodes it
(`KubeCrate.Reads`), and the server merges what it is sent (`Merges`). With what they
document, `Parsed.sends` says that the object has the identity the manifest's key
denotes and the manifest's annotations, and `Parsed.sends_labelled` that it carries the
managed label.

`desired_sorted` says which manifests a pass works on: parsed ones, the main resources
without a hook annotation and the hooks with one.

`Parsed` is the link between the two halves: a manifest whose fields were read off the document it
carries. Everything a pass sends is parsed in this sense, and `Sends` names the object that a
manifest is sent as. The modules about live objects build on these two and never look at a
document again.
-/

set_option autoImplicit false

namespace LeanCd

/-! ### The fields of the metadata -/

namespace Value

/-- A field of the metadata. -/
def metaField (v : Value) (key : String) : Option Value :=
  (v.get "metadata").bind (·.get key)

/-- The texts of a mapping in the metadata. -/
def metaTexts (v : Value) (key : String) : List (String × String) :=
  (((v.metaField key).bind asObject).map Manifest.stringEntries).getD []

/-- The labels are absent or a mapping. -/
def LabelsMapping (v : Value) : Prop :=
  v.metaField "labels" = none ∨ ∃ ls, v.metaField "labels" = some (.object ls)

end Value

/-- A document that was written out is read back. -/
def Yaml.RoundTrips (yaml : Yaml) : Prop :=
  ∀ v s, yaml.toText v = .ok s → yaml.fromSlice s = .ok v

/-- The client decodes the metadata by field name. -/
structure KubeCrate.Reads (kube : KubeCrate) : Prop where
  name {v o} : kube.fromValue v = .ok o →
    o.metadata.name = (v.metaField "name").bind Value.asStr
  ns {v o} : kube.fromValue v = .ok o →
    o.metadata.ns = (v.metaField "namespace").bind Value.asStr
  label {v o} : kube.fromValue v = .ok o → ∀ k, o.label k = (v.metaTexts "labels").lookup k
  annotation {v o} : kube.fromValue v = .ok o →
    ∀ k, o.annotation k = (v.metaTexts "annotations").lookup k

/-- A forced server-side apply: what is sent is stored, and an annotation that is not sent
is dropped or stays as it was. -/
structure Merges (merge : Option DynamicObject → DynamicObject → DynamicObject) : Prop where
  label {live sent k s} : sent.label k = some s → (merge live sent).label k = some s
  annotation {live sent k s} : sent.annotation k = some s →
    DynamicObject.annotation (merge live sent) k = some s
  other {live sent k} : sent.annotation k = none →
    DynamicObject.annotation (merge live sent) k = none ∨
      DynamicObject.annotation (merge live sent) k = live.bind fun o => o.annotation k

/-! ### The managed label -/

namespace Manifest

/-- The texts of a mapping into which a text was written. -/
theorem lookup_stringEntries_setField (fields : List (String × Value)) (key s : String) :
    (stringEntries (Value.setField fields key (.string s))).lookup key = some s := by
  induction fields with
  | nil => simp [Value.setField, stringEntries, Value.asStr]
  | cons f rest ih =>
      -- The text replaces the first entry of the key, and no entry before it has that key.
      obtain ⟨k, v⟩ := f
      unfold Value.setField
      by_cases h : k = key
      · simp [h, stringEntries, Value.asStr]
      · have hne : (key == k) = false := by simpa using fun e => h e.symm
        rw [if_neg h, stringEntries, List.filterMap_cons]
        cases hv : v.asStr with
        | none => simpa [hv, stringEntries] using ih
        | some t => simpa [hv, List.lookup_cons, hne, stringEntries] using ih

/-- The injected label changes no other field of the metadata. -/
theorem metaField_inject (v : Value) (label s : String) {key : String} (hkey : key ≠ "labels") :
    (injectManagedLabelValue v label s).metaField key = v.metaField key := by
  unfold injectManagedLabelValue
  split
  next fields =>
    split
    next metaFields hmeta =>
      -- The label goes below `metadata.labels`, so any other field is looked up as before.
      have hbefore : (Value.object fields).metaField key = metaFields.lookup key := by
        unfold Value.metaField
        rw [Value.get_object]
        unfold Value.field at hmeta
        cases hf : fields.lookup "metadata" with
        | none =>
            rw [hf] at hmeta
            cases hmeta
            rfl
        | some m =>
            rw [hf] at hmeta
            cases hmeta
            rfl
      -- The labels are extended where they are a mapping and added where they are absent.
      split
      · rw [hbefore, Value.metaField, Value.get_object, Value.lookup_setField_self]
        exact Value.lookup_setField_of_ne _ _ hkey
      · rw [hbefore, Value.metaField, Value.get_object, Value.lookup_setField_self]
        rfl
    next => rfl
  next => rfl

/-- The label is in the injected document, when there is metadata and the labels are absent
or a mapping. -/
theorem metaTexts_inject {v : Value} {key : String} {w : Value} (hmeta : v.metaField key = some w)
    (hlabels : v.LabelsMapping) (label s : String) :
    ((injectManagedLabelValue v label s).metaTexts "labels").lookup label = some s := by
  cases v with
  | object fields =>
      unfold Value.LabelsMapping at hlabels
      unfold Value.metaField at hmeta hlabels
      rw [Value.get_object] at hmeta hlabels
      cases hf : fields.lookup "metadata" with
      | none =>
          rw [hf] at hmeta
          cases hmeta
      | some m =>
          rw [hf] at hmeta hlabels
          cases m with
          | object metaFields =>
              change metaFields.lookup "labels" = none ∨
                ∃ ls, metaFields.lookup "labels" = some (.object ls) at hlabels
              unfold injectManagedLabelValue Value.field
              dsimp only
              rw [hf, Option.getD_some]
              dsimp only
              -- Whatever labels there are, the text is put among them.
              have hwritten : ∀ ls, (((Value.object (Value.setField fields "metadata" (.object
                  (Value.setField metaFields "labels" (.object
                    (Value.setField ls label (.string s))))))).metaTexts
                      "labels").lookup label) = some s := by
                intro ls
                rw [Value.metaTexts, Value.metaField, Value.get_object,
                  Value.lookup_setField_self]
                show (((((Value.setField metaFields "labels" (.object
                  (Value.setField ls label (.string s)))).lookup "labels").bind
                    Value.asObject).map stringEntries).getD []).lookup label = some s
                rw [Value.lookup_setField_self]
                exact lookup_stringEntries_setField ls label s
              rcases hlabels with hnone | ⟨ls, hls⟩
              · rw [hnone, Option.getD_none]
                exact hwritten []
              · rw [hls, Option.getD_some]
                exact hwritten ls
          | null | bool | number | string | array => cases hmeta
  | null | bool | number | string | array => cases hmeta

end Manifest

/-! ### Parsed manifests -/

/-- The manifest is the parse of a document. -/
def Parsed (yaml : Yaml) (m : RawManifest) : Prop :=
  ∃ v, Manifest.valueToManifest yaml v = .ok (some m)

/-- The parse of a document has its name, namespace and annotations, and the text the
document was written out as. -/
theorem Manifest.valueToManifest_some {yaml : Yaml} {v : Value} {m : RawManifest}
    (h : valueToManifest yaml v = .ok (some m)) :
    (v.metaField "name").bind Value.asStr = some m.name ∧
      (v.metaField "namespace").bind Value.asStr = m.ns ∧
      v.metaTexts "annotations" = m.annotations ∧ yaml.toText v = .ok m.data := by
  unfold valueToManifest at h
  cases v with
  | object fields =>
      dsimp only [Value.asObject] at h
      split at h
      · cases h
      · split at h
        · cases h
        · split at h
          · cases h
          · rename_i name hname
            split at h
            · cases h
            · rename_i data hdata
              cases h
              -- Every field was read where `valueToManifest_some` says.
              exact ⟨hname, rfl, rfl, hdata⟩
  | null | bool | number | string | array => cases h

section
variable {sc : Scopes} {env : Env sc} {cfg : Config} {m : RawManifest}

/-- A parsed manifest is sent as the object its labelled document decodes to. -/
theorem Parsed.labelledValue (hyaml : env.yaml.RoundTrips)
    {v : Value} (hv : Manifest.valueToManifest env.yaml v = .ok (some m)) :
    Hooks.labelledValue env cfg m =
      .ok (Manifest.injectManagedLabelValue v cfg.managedLabelKey cfg.managedLabelValue) := by
  unfold Hooks.labelledValue
  rw [hyaml v m.data (Manifest.valueToManifest_some hv).2.2.2]

/-- The object sent for a parsed manifest goes where the manifest's key says, and carries
the manifest's annotations. -/
theorem Parsed.sends (h : Parsed env.yaml m) (hyaml : env.yaml.RoundTrips)
    (hkube : env.kube.Reads) {o : DynamicObject} {id : ObjId sc} (hsends : Sends env cfg m o id) :
    id = (ResourceKey.fromManifest m).denotes sc cfg.namespace ∧
      ∀ k, o.annotation k = Manifest.annotation m k := by
  obtain ⟨v, hv⟩ := h
  obtain ⟨hname, hns, hannotations, -⟩ := Manifest.valueToManifest_some hv
  obtain ⟨value, name, hvalue, ho, honame, rfl⟩ := hsends
  rw [labelledValue hyaml hv] at hvalue
  cases hvalue
  have hmeta {key : String} (hkey : key ≠ "labels") :=
    Manifest.metaField_inject v cfg.managedLabelKey cfg.managedLabelValue hkey
  -- The name and the namespace of the object are those of the document, since the label is
  -- the only field that was written.
  rw [hkube.name ho, hmeta (by decide), hname] at honame
  cases honame
  refine ⟨?_, fun k => ?_⟩
  · rw [hkube.ns ho, hmeta (by decide), hns]
    rfl
  · rw [hkube.annotation ho, Value.metaTexts, hmeta (by decide), Manifest.annotation,
      ← hannotations]
    rfl

/-- It carries the managed label, when the labels of the document are absent or a
mapping. -/
theorem Parsed.sends_labelled (h : Parsed env.yaml m) (hyaml : env.yaml.RoundTrips)
    (hkube : env.kube.Reads)
    (hlabels : ∀ v, env.yaml.fromSlice m.data = .ok v → v.LabelsMapping) {o : DynamicObject}
    {id : ObjId sc} (hsends : Sends env cfg m o id) : o.labelled cfg.selector = true := by
  obtain ⟨v, hv⟩ := h
  obtain ⟨hname, -, -, hdata⟩ := Manifest.valueToManifest_some hv
  obtain ⟨value, name, hvalue, ho, -, -⟩ := hsends
  rw [labelledValue hyaml hv] at hvalue
  cases hvalue
  obtain ⟨w, hw, -⟩ := Option.bind_eq_some_iff.mp hname
  have hlabel := Manifest.metaTexts_inject hw (hlabels v (hyaml v m.data hdata))
    cfg.managedLabelKey cfg.managedLabelValue
  rw [DynamicObject.labelled, hkube.label ho]
  exact beq_iff_eq.mpr hlabel

end

/-! ### The manifests of a pass -/

namespace Manifest

section
variable {yaml : Yaml}

/-- One value becomes at most one manifest, whose data is its printed form. -/
theorem parsed_of_valueToManifest {v : Value} {ms : List RawManifest}
    (h : (valueToManifest yaml v).map Option.toList = .ok ms) : ∀ m ∈ ms, Parsed yaml m := by
  intro m hm
  cases hv : valueToManifest yaml v with
  | error e =>
      rw [hv] at h
      cases h
  | ok found =>
      rw [hv] at h
      cases h
      rw [Option.mem_toList.mp hm] at hv
      exact ⟨v, hv⟩

mutual

/-- Expanding a document yields parsed manifests. -/
theorem parsed_of_expandValue : ∀ {v : Value} {ms : List RawManifest},
    expandValue yaml v = .ok ms → ∀ m ∈ ms, Parsed yaml m
  | .object fields, ms, h => by
      rw [expandValue] at h
      split at h
      · exact parsed_of_expandItems h
      · exact parsed_of_valueToManifest h
  | .null, ms, h | .bool _, ms, h | .number _, ms, h | .string _, ms, h | .array _, ms, h => by
      rw [expandValue] at h
      · exact parsed_of_valueToManifest h
      · exact nofun

/-- The items of a List are parsed one by one, and so is what they expand to. -/
theorem parsed_of_expandItems : ∀ {fields : List (String × Value)} {ms : List RawManifest},
    expandItems yaml fields = .ok ms → ∀ m ∈ ms, Parsed yaml m
  | [], ms, h => by
      cases h
      exact List.forall_mem_nil _
  | (key, v) :: rest, ms, h => by
      unfold expandItems at h
      split at h
      · cases v with
        | array elems => exact parsed_of_expandElems h
        | null | bool | number | string | object =>
            cases h
            exact List.forall_mem_nil _
      · exact parsed_of_expandItems h

/-- The same along the elements of the list. -/
theorem parsed_of_expandElems : ∀ {elems : List Value} {ms : List RawManifest},
    expandElems yaml elems = .ok ms → ∀ m ∈ ms, Parsed yaml m
  | [], ms, h => by
      cases h
      exact List.forall_mem_nil _
  | v :: rest, ms, h => by
      obtain ⟨found, more, hv, hrest, rfl⟩ := expandElems_cons_ok.mp h
      intro m hm
      exact (List.mem_append.mp hm).elim (parsed_of_expandValue hv m)
        (parsed_of_expandElems hrest m)

end

end

/-- What holds of the manifests of every item holds of all of them. -/
theorem forall_of_concatResults {α : Type} {f : α → Except Error (List RawManifest)}
    {P : RawManifest → Prop} (hf : ∀ a ms, f a = .ok ms → ∀ m ∈ ms, P m) {as : List α}
    {ms : List RawManifest} (h : concatResults f as = .ok ms) : ∀ m ∈ ms, P m := by
  induction as generalizing ms with
  | nil =>
      cases h
      exact List.forall_mem_nil _
  | cons a rest ih =>
      -- The manifests of the rest are put behind those of the first item.
      obtain ⟨found, more, ha, hrest, rfl⟩ := concatResults_cons_ok.mp h
      intro m hm
      exact (List.mem_append.mp hm).elim (hf a found ha m) (ih hrest m)

section
variable {yaml : Yaml} {tree : WorkTree} {ms : List RawManifest}

/-- What is parsed from a text consists of parsed manifests. -/
theorem parsed_of_parseStr {text : String} (h : parseStr yaml text = .ok ms) :
    ∀ m ∈ ms, Parsed yaml m := by
  unfold parseStr at h
  split at h
  · cases h
  · exact parsed_of_expandElems h

/-- What is parsed from a file consists of parsed manifests. -/
theorem parsed_of_parseFile {file : Path} (h : parseFile yaml tree file = .ok ms) :
    ∀ m ∈ ms, Parsed yaml m := by
  unfold parseFile at h
  split at h
  · cases h
  · split at h
    next hparse =>
      cases h
      exact parsed_of_parseStr hparse
    next => cases h

/-- What is parsed from a directory consists of parsed manifests. -/
theorem parsed_of_parseDir {root : Path} (h : parseDir yaml tree root = .ok ms) :
    ∀ m ∈ ms, Parsed yaml m := by
  unfold parseDir at h
  split at h
  · cases h
  · exact forall_of_concatResults (fun _ _ hfile => parsed_of_parseFile hfile) h

/-- Every manifest of a checkout is a parsed one. -/
theorem parsed_of_parsePaths {roots : List Path} (h : parsePaths yaml tree roots = .ok ms) :
    ∀ m ∈ ms, Parsed yaml m :=
  forall_of_concatResults (fun _ _ hroot => parsed_of_parseDir hroot) h

end

end Manifest

/-- The hooks of every phase. -/
def Classified.hooks (c : Classified) : List HookInfo :=
  c.pre ++ c.post ++ c.preDelete ++ c.postDelete

/-- The hooks of a classification are those of its four phases. -/
theorem Classified.mem_hooks {c : Classified} {h : HookInfo} :
    h ∈ c.hooks ↔ h ∈ c.pre ∨ h ∈ c.post ∨ h ∈ c.preDelete ∨ h ∈ c.postDelete := by
  simp [Classified.hooks]

namespace Hooks

/-- Main resources have no hook annotation, hooks have one. -/
structure Sorted (P : RawManifest → Prop) (c : Classified) : Prop where
  main : ∀ m ∈ c.main, P m ∧ Manifest.annotation m hookAnnotation = none
  hooks : ∀ h ∈ c.hooks, P h.manifest ∧ (Manifest.annotation h.manifest hookAnnotation).isSome

variable {P : RawManifest → Prop}

/-- A hook that is added belongs to the hooks. -/
theorem Sorted.addHook {c : Classified} (h : Sorted P c) {info : HookInfo}
    (hinfo : P info.manifest ∧ (Manifest.annotation info.manifest hookAnnotation).isSome)
    (phase : HookPhase) : Sorted P (addHook info c phase) := by
  refine ⟨by cases phase <;> exact h.main, fun i hi => ?_⟩
  have hmem : i ∈ c.hooks ∨ i = info := by
    cases phase <;> simp only [Hooks.addHook, Classified.hooks, List.mem_append,
      List.mem_singleton] at hi ⊢ <;> tauto
  rcases hmem with hi | rfl
  · exact h.hooks i hi
  · exact hinfo

/-- A manifest that is classified goes to the main resources or to the hooks by its annotation. -/
theorem Sorted.classifyOne {c : Classified} (h : Sorted P c) {m : RawManifest} (hm : P m) :
    Sorted P (classifyOne c m) := by
  unfold Hooks.classifyOne
  split
  next hnone =>
    refine ⟨fun m' hm' => ?_, h.hooks⟩
    rcases List.mem_append.mp hm' with hm' | hm'
    · exact h.main m' hm'
    · rw [List.mem_singleton.mp hm']
      exact ⟨hm, hnone⟩
  next raw hsome =>
    -- The hook is added once for every phase its annotation names.
    generalize hookPhases raw = phases
    induction phases generalizing c with
    | nil => exact h
    | cons phase rest ih => exact ih (h.addHook ⟨hm, by rw [hsome]; rfl⟩ phase)

/-- The classification of a list sorts it, by induction along the list. -/
theorem sorted_classify {ms : List RawManifest} (h : ∀ m ∈ ms, P m) :
    Sorted P (classify ms) := by
  -- The fold starts from any sorted classification, so that the induction goes through.
  suffices ∀ c, Sorted P c → Sorted P (ms.foldl Hooks.classifyOne c) from
    this _ ⟨List.forall_mem_nil _, List.forall_mem_nil _⟩
  induction ms with
  | nil => exact fun c hc => hc
  | cons m rest ih =>
      intro c hc
      exact ih (fun m' hm' => h m' (List.mem_cons_of_mem m hm')) _
        (hc.classifyOne (h m List.mem_cons_self))

end Hooks

/-- The manifests of a pass are parsed ones. -/
theorem Reconcile.desired_sorted {sc : Scopes} {env : Env sc} {sha : String} {cfg : Config}
    {applied : List ResourceKey} {c : Classified} (h : desired env sha cfg applied = .ok c) :
    Hooks.Sorted (Parsed env.yaml) c := by
  obtain ⟨roots, ms, -, hparsed, rfl⟩ := desired_ok h
  exact Hooks.sorted_classify (Manifest.parsed_of_parsePaths hparsed)

end LeanCd
