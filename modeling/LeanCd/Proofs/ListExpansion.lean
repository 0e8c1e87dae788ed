import LeanCd.Proofs.Documents
import LeanCd.Proofs.Scan

/-!
# `LeanCd.Proofs.ListExpansion`: a `List` is its items

`parse_str` expands every `kind: List` document into its items, at any depth. `leaves` is what
a document stands for: itself, or the leaves of its items. `expandElems_eq_leaves` says that
expanding documents is reading their leaves one after the other, errors included. What a leaf
is read as is `valueToManifest_some_iff` and `valueToManifest_none_iff`.

`parseStr_flattens` collects what follows for a whole text.

The expansion recurses through the items of a List and through lists of items, so the proofs are
mutual recursions with one case for each constructor of a value. Errors are part of the equation:
the first leaf that cannot be read is the error of the whole text, in the order of the leaves.
-/

set_option autoImplicit false

namespace LeanCd.Manifest

/-! ### Leaves -/

/-- A `kind: List` document. -/
def IsList (v : Value) : Prop :=
  ∃ fields, v = .object fields ∧ (Value.field fields "kind").bind Value.asStr = some "List"

/-- The items of a document. Without an array there are none. -/
def items (v : Value) : List Value := ((v.get "items").bind Value.asArray).getD []

mutual

/-- The documents a document stands for. -/
def leaves : Value → List Value
  | .object fields =>
      if (Value.field fields "kind").bind Value.asStr = some "List" then leavesOfItems fields
      else [.object fields]
  | v => [v]

/-- The leaves of the first `items` field. -/
def leavesOfItems : List (String × Value) → List Value
  | [] => []
  | (key, v) :: rest =>
      if key = "items" then
        match v with
        | .array elems => leavesOfElems elems
        | _ => []
      else leavesOfItems rest

/-- The leaves of each element in turn. -/
def leavesOfElems : List Value → List Value
  | [] => []
  | v :: rest => leaves v ++ leavesOfElems rest

end

/-- The leaves of a list of values are those of its elements, in order. -/
theorem leavesOfElems_eq_flatMap (elems : List Value) :
    leavesOfElems elems = elems.flatMap leaves := by
  induction elems with
  | nil => rfl
  | cons v rest ih => rw [leavesOfElems, ih, List.flatMap_cons]

/-- The leaves of a List are those of its items, under whichever key they come. -/
theorem leavesOfItems_eq (fields : List (String × Value)) :
    leavesOfItems fields = (items (.object fields)).flatMap leaves := by
  induction fields with
  | nil => rfl
  | cons f rest ih =>
      obtain ⟨key, v⟩ := f
      unfold leavesOfItems
      by_cases hkey : key = "items"
      · subst hkey
        rw [if_pos rfl]
        cases v with
        | array elems => exact leavesOfElems_eq_flatMap elems
        | null | bool | number | string | object => rfl
      · have hne : ("items" == key) = false := by simpa using Ne.symm hkey
        rw [if_neg hkey, ih]
        simp only [items, Value.get_object, List.lookup_cons, hne]

/-- A `List` contributes the leaves of its items, and nothing for itself. -/
theorem leaves_of_isList {v : Value} (h : IsList v) : leaves v = (items v).flatMap leaves := by
  obtain ⟨fields, rfl, hkind⟩ := h
  rw [leaves, if_pos hkind, leavesOfItems_eq]

/-- Any other document is its own leaf. -/
theorem leaves_of_not_isList {v : Value} (h : ¬ IsList v) : leaves v = [v] := by
  cases v with
  | object fields => rw [leaves, if_neg fun hkind => h ⟨fields, rfl, hkind⟩]
  | null | bool | number | string | array => rfl

/-! ### What a leaf is read as -/

/-- The three strings that make a document a manifest. -/
def Recognised (v : Value) : Prop :=
  ((v.get "apiVersion").bind Value.asStr).isSome ∧ ((v.get "kind").bind Value.asStr).isSome ∧
    ((v.metaField "name").bind Value.asStr).isSome

/-- The text is the group, a slash and the version, or the version alone: the core group. -/
def ApiVersion (s group version : String) : Prop :=
  ('/' ∉ s.toList ∧ group = "" ∧ version = s) ∨
    ('/' ∉ group.toList ∧ s = group ++ "/" ++ version)

/-- An API version splits at its first slash, and one without a slash is of the core group. -/
theorem apiVersion_split (s : String) :
    ApiVersion s (splitApiVersion s).1 (splitApiVersion s).2 := by
  unfold splitApiVersion Text.splitOnce
  cases hsplit : Text.splitOnceChars '/' s.toList with
  | none => exact .inl ⟨Text.splitOnceChars_none hsplit, rfl, rfl⟩
  | some parts =>
      obtain ⟨hgroup, hs⟩ := Text.splitOnceChars_some hsplit
      exact .inr ⟨by simpa using hgroup, String.toList_inj.mp (by simpa using hs)⟩

/-- The manifest of a document, with the document's own fields. -/
structure Represents (yaml : Yaml) (v : Value) (m : RawManifest) : Prop where
  apiVersion : ∃ s, (v.get "apiVersion").bind Value.asStr = some s ∧ ApiVersion s m.group m.version
  kind : (v.get "kind").bind Value.asStr = some m.kind
  name : (v.metaField "name").bind Value.asStr = some m.name
  ns : (v.metaField "namespace").bind Value.asStr = m.ns
  annotations : v.metaTexts "annotations" = m.annotations
  data : yaml.toText v = .ok m.data

variable {yaml : Yaml}

/-- What a manifest represents is recognised: it has the three fields that `value_to_manifest` asks
for. -/
theorem Represents.recognised {v : Value} {m : RawManifest} (h : Represents yaml v m) :
    Recognised v := by
  obtain ⟨s, hs, -⟩ := h.apiVersion
  exact ⟨by rw [hs]; rfl, by rw [h.kind]; rfl, by rw [h.name]; rfl⟩

/-- A document without one of the strings is skipped. -/
theorem valueToManifest_none_iff {v : Value} :
    valueToManifest yaml v = .ok none ↔ ¬ Recognised v := by
  unfold valueToManifest Recognised Value.metaField Value.get
  -- Name, kind and version are looked for in that order, and each may be missing.
  cases v with
  | object fields =>
      dsimp only [Value.asObject, Option.bind_some]
      cases (Value.field fields "apiVersion").bind Value.asStr with
      | none => simp
      | some apiVersion =>
          cases (Value.field fields "kind").bind Value.asStr with
          | none => simp
          | some kind =>
              dsimp only
              split
              next hname => simp [hname]
              next name hname =>
                split
                · simp [hname]
                · simp [hname]
  | null | bool | number | string | array => simp [Value.asObject]

/-- A recognised document is read as the manifest with its own fields. -/
theorem represents_of_valueToManifest {v : Value} {m : RawManifest}
    (h : valueToManifest yaml v = .ok (some m)) : Represents yaml v m := by
  obtain ⟨hname, hns, hannotations, hdata⟩ := valueToManifest_some h
  unfold valueToManifest at h
  cases v with
  | object fields =>
      -- Each `cases` closes the case in which the field was not found.
      dsimp only [Value.asObject] at h
      split at h
      next => cases h
      next apiVersion hversion =>
        split at h
        next => cases h
        next kind hkind =>
          split at h
          next => cases h
          next name _ =>
            split at h
            next => cases h
            next data _ =>
              cases h
              exact ⟨⟨apiVersion, hversion, apiVersion_split apiVersion⟩, hkind, hname, hns,
                hannotations, hdata⟩
  | null | bool | number | string | array => cases h

/-! ### Expanding is reading the leaves -/

section
variable {α β : Type} {f : α → Except Error (List RawManifest)}

/-- Joining results distributes over joined lists. An error of the first list hides the second. -/
theorem concatResults_append (l l' : List α) :
    concatResults f (l ++ l') =
      (concatResults f l).bind fun ms => (concatResults f l').map (ms ++ ·) := by
  induction l with
  | nil => cases h : concatResults f l' <;> simp [concatResults, Except.bind, Except.map, h]
  | cons a rest ih =>
      rw [List.cons_append, concatResults, concatResults, ih]
      cases f a with
      | error e => rfl
      | ok ms =>
          cases concatResults f rest with
          | error e => rfl
          | ok more =>
              cases concatResults f l' with
              | error e => rfl
              | ok last => simp [Except.bind, Except.map]

/-- A single result is its own join. -/
theorem concatResults_singleton (a : α) : concatResults f [a] = f a := by
  rw [concatResults]
  cases f a <;> simp [concatResults, Except.map]

/-- The whole is the parts one after the other. -/
theorem concatResults_ok_iff_parts {l : List α} {ms : List RawManifest} :
    concatResults f l = .ok ms ↔
      ∃ parts, List.Forall₂ (fun a part => f a = .ok part) l parts ∧ parts.flatten = ms := by
  induction l generalizing ms with
  | nil => simp [concatResults, eq_comm]
  | cons a rest ih =>
      rw [concatResults_cons_ok]
      simp only [ih]
      constructor
      · rintro ⟨found, more, ha, ⟨parts, hparts, rfl⟩, rfl⟩
        exact ⟨found :: parts, .cons ha hparts, rfl⟩
      · rintro ⟨_, hparts, rfl⟩
        cases hparts with
        | cons ha hrest => exact ⟨_, _, ha, ⟨_, hrest, rfl⟩, rfl⟩

end

/-- What one leaf yields. -/
def readLeaf (yaml : Yaml) (v : Value) : Except Error (List RawManifest) :=
  (valueToManifest yaml v).map Option.toList

/-- The elements of a list are expanded by joining results. -/
theorem expandElems_eq_concatResults (docs : List Value) :
    expandElems yaml docs = concatResults (expandValue yaml) docs := by
  induction docs with
  | nil => rfl
  | cons v rest ih =>
      rw [expandElems, concatResults, ih]
      cases expandValue yaml v with
      | error e => rfl
      | ok ms => cases concatResults (expandValue yaml) rest <;> rfl

mutual

/-- A document yields what its leaves yield. -/
theorem expandValue_eq_leaves : ∀ v : Value,
    expandValue yaml v = concatResults (readLeaf yaml) (leaves v)
  | .object fields => by
      rw [expandValue, leaves]
      split
      next => exact expandItems_eq_leaves fields
      next => exact (concatResults_singleton _).symm
  | .null | .bool _ | .number _ | .string _ | .array _ => (concatResults_singleton _).symm

/-- The items of a List expand to what their leaves are read as, by recursion on the fields. -/
theorem expandItems_eq_leaves : ∀ fields : List (String × Value),
    expandItems yaml fields = concatResults (readLeaf yaml) (leavesOfItems fields)
  | [] => rfl
  | (key, v) :: rest => by
      unfold expandItems leavesOfItems
      split
      next =>
        cases v with
        | array elems => exact expandElems_eq_leavesOfElems elems
        | null | bool | number | string | object => rfl
      next => exact expandItems_eq_leaves rest

/-- The same along the elements of a list. -/
theorem expandElems_eq_leavesOfElems : ∀ elems : List Value,
    expandElems yaml elems = concatResults (readLeaf yaml) (leavesOfElems elems)
  | [] => rfl
  | v :: rest => by
      rw [expandElems, leavesOfElems, concatResults_append, expandValue_eq_leaves v,
        expandElems_eq_leavesOfElems rest]
      cases concatResults (readLeaf yaml) (leaves v) with
      | error e => rfl
      | ok ms => cases concatResults (readLeaf yaml) (leavesOfElems rest) <;> rfl

end

/-- Documents yield what their leaves yield, one after the other. -/
theorem expandElems_eq_leaves (docs : List Value) :
    expandElems yaml docs = concatResults (readLeaf yaml) (docs.flatMap leaves) := by
  rw [expandElems_eq_leavesOfElems, leavesOfElems_eq_flatMap]

/-! ### A whole text -/

/-- The manifests of some leaves in order: one for each that is recognised, its own, and none
for the others. -/
inductive Leafwise (yaml : Yaml) : List Value → List RawManifest → Prop
  | nil : Leafwise yaml [] []
  | skipped {v : Value} {rest : List Value} {ms : List RawManifest} (h : ¬ Recognised v)
      (hrest : Leafwise yaml rest ms) : Leafwise yaml (v :: rest) ms
  | manifest {v : Value} {m : RawManifest} {rest : List Value} {ms : List RawManifest}
      (hv : Recognised v) (h : Represents yaml v m) (hrest : Leafwise yaml rest ms) :
      Leafwise yaml (v :: rest) (m :: ms)

/-- What the leaves of a text are read as represents them, leaf by leaf. -/
theorem leafwise_of_concatResults {vs : List Value} {ms : List RawManifest}
    (h : concatResults (readLeaf yaml) vs = .ok ms) : Leafwise yaml vs ms := by
  induction vs generalizing ms with
  | nil =>
      cases h
      exact .nil
  | cons v rest ih =>
      -- One value gives at most one manifest. The other values give the rest.
      obtain ⟨found, more, hv, hrest, rfl⟩ := concatResults_cons_ok.mp h
      unfold readLeaf at hv
      cases hread : valueToManifest yaml v with
      | error e =>
          rw [hread] at hv
          cases hv
      | ok m =>
          rw [hread] at hv
          cases hv
          cases m with
          | none => exact .skipped (valueToManifest_none_iff.mp hread) (ih hrest)
          | some m =>
              have hm := represents_of_valueToManifest hread
              exact .manifest hm.recognised hm (ih hrest)

/-- A join of results fails exactly when one of them does. -/
theorem concatResults_error_iff {α : Type} {f : α → Except Error (List RawManifest)}
    {l : List α} :
    (∃ e, concatResults f l = .error e) ↔ ∃ a ∈ l, ∃ e, f a = .error e := by
  constructor
  · intro h
    obtain ⟨e, he⟩ := h
    by_contra hnone
    -- Where every element is read, the whole is.
    push Not at hnone
    obtain ⟨ms, hms⟩ := exists_concatResults (f := f) (l := l) fun a ha => by
      cases hf : f a with
      | error e => exact absurd hf (hnone a ha e)
      | ok found => exact ⟨found, rfl⟩
    rw [hms] at he
    cases he
  · intro h
    obtain ⟨a, ha, e, he⟩ := h
    cases hl : concatResults f l with
    | error e => exact ⟨e, rfl⟩
    | ok ms =>
        obtain ⟨found, hfound⟩ := ok_of_concatResults hl ha
        rw [he] at hfound
        cases hfound

/-- What the manifests of parsed documents are. -/
structure Flattens (yaml : Yaml) (docs : List Value) (result : Except Error (List RawManifest)) :
    Prop where
  /-- The manifests of each document, one document after the other. -/
  concatenated : ∀ ms, result = .ok ms ↔
    ∃ parts, List.Forall₂ (fun doc part => expandValue yaml doc = .ok part) docs parts ∧
      parts.flatten = ms
  /-- At any depth a `List` contributes what its items do, and nothing for itself. -/
  listed : ∀ v, IsList v → expandValue yaml v = expandElems yaml (items v) ∧
    leaves v = (items v).flatMap leaves
  single : ∀ v, ¬ IsList v → leaves v = [v]
  /-- Each recognised leaf once, in order, as its own manifest. -/
  leafwise : ∀ ms, result = .ok ms → Leafwise yaml (docs.flatMap leaves) ms
  /-- A `List` may be replaced by its items. -/
  spliced : ∀ before l after text', docs = before ++ l :: after → IsList l →
    yaml.parseMulti text' = .ok (before ++ items l ++ after) → parseStr yaml text' = result
  /-- Documents may be put into a `List`. -/
  wrapped : ∀ before inner after l text', docs = before ++ inner ++ after → IsList l →
    items l = inner → yaml.parseMulti text' = .ok (before ++ l :: after) →
      parseStr yaml text' = result
  /-- Nothing but the sequence of the leaves matters. -/
  regrouped : ∀ text' docs', yaml.parseMulti text' = .ok docs' →
    docs'.flatMap leaves = docs.flatMap leaves → parseStr yaml text' = result
  failed : (∃ e, result = .error e) ↔ ∃ doc ∈ docs, ∃ e, expandValue yaml doc = .error e

/-- A text is expanded document by document, and that is to read the leaves of all its documents. -/
theorem parseStr_eq_leaves {text : String} {docs : List Value}
    (h : yaml.parseMulti text = .ok docs) :
    parseStr yaml text = concatResults (readLeaf yaml) (docs.flatMap leaves) := by
  rw [parseStr, h]
  exact expandElems_eq_leaves docs

/-- A text yields the manifests of the leaves of its documents, in order, or fails as a whole:
at a document that does not parse, or at one that cannot be expanded. -/
theorem parseStr_flattens (yaml : Yaml) (text : String) :
    (∀ docs, yaml.parseMulti text = .ok docs → Flattens yaml docs (parseStr yaml text)) ∧
      ∀ e, yaml.parseMulti text = .error e → ∃ e', parseStr yaml text = .error e' := by
  refine ⟨fun docs hdocs => ?_, fun e he => ⟨_, by rw [parseStr, he]⟩⟩
  have hexpand : parseStr yaml text = concatResults (expandValue yaml) docs := by
    rw [parseStr, hdocs]
    exact expandElems_eq_concatResults docs
  -- Two texts with the same leaves are read alike, however the leaves are grouped.
  have hregroup : ∀ text' docs', yaml.parseMulti text' = .ok docs' →
      docs'.flatMap leaves = docs.flatMap leaves → parseStr yaml text' = parseStr yaml text := by
    intro text' docs' hdocs' hleaves
    rw [parseStr_eq_leaves hdocs', parseStr_eq_leaves hdocs, hleaves]
  refine ⟨?_, ?_, fun v => leaves_of_not_isList, ?_, ?_, ?_, hregroup, ?_⟩
  -- The seven parts of the statement, in its order. Those about regrouping differ in the list
  -- that stands between the two others.
  · rw [hexpand]
    exact fun ms => concatResults_ok_iff_parts
  · intro v hv
    refine ⟨?_, leaves_of_isList hv⟩
    rw [expandValue_eq_leaves, expandElems_eq_leaves, leaves_of_isList hv]
  · intro ms hms
    rw [parseStr_eq_leaves hdocs] at hms
    exact leafwise_of_concatResults hms
  · intro before l after text' heq hl hdocs'
    refine hregroup text' _ hdocs' ?_
    rw [heq]
    simp [leaves_of_isList hl]
  · intro before inner after l text' heq hl hitems hdocs'
    refine hregroup text' _ hdocs' ?_
    rw [heq]
    simp [leaves_of_isList hl, hitems]
  · rw [hexpand]
    exact concatResults_error_iff

end LeanCd.Manifest
