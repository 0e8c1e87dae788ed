import LeanCd.Proofs.Overlay
import Mathlib.Logic.Relation

/-!
# `LeanCd.Proofs.ServerChanges`: what the API server does to an applied manifest

The live object is not the manifest. The server leaves out zero values, sets defaults,
appends elements and moves the `stringData` of a Secret into its `data`. A comparison
that took one of these for a drift would apply again on every pass. Here they are the
steps of a relation, in any order and at any depth, and the comparison is shown to
accept all they lead to, with one exception: `DataReplaced`.

A change that is allowed keeps what Git declares held, field by field. So the proof is that `held`
survives each kind of change at its place, and then by induction along the path to the place and
along the sequence of changes. The exception is a Secret that declares an empty `data` next to its
`stringData`, where the move puts something into a field that Git declares to be a zero value.
-/

set_option autoImplicit false

namespace LeanCd

namespace Drift

/-! ### The changes -/

/-- The declared value of a field, at a place with a declared value or none. -/
def declaredField (g : Option Value) (key : String) : Option Value := g.bind (·.get key)

/-- The declared value of an array element. -/
def declaredElem (g : Option Value) (i : Nat) : Option Value :=
  (g.bind Value.asArray).bind (·[i]?)

/-- The fields of an object without one of them, `Map::remove`. -/
def removeField (fields : List (String × Value)) (key : String) : List (String × Value) :=
  fields.filter fun f => f.1 ≠ key

/-- One change at any depth of a value. The first argument is what the manifest declares
at the same place. -/
inductive ServerEdit : Option Value → Value → Value → Prop
  | dropZero (g : Option Value) (fields : List (String × Value)) (key : String) (v : Value) :
      fields.lookup key = some v → isK8sZeroValue v = true →
      ServerEdit g (.object fields) (.object (removeField fields key))
  | addField (g : Option Value) (fields : List (String × Value)) (key : String) (v : Value) :
      declaredField g key = none →
      ServerEdit g (.object fields) (.object (Value.setField fields key v))
  | append (g : Option Value) (elems more : List Value) :
      ServerEdit g (.array elems) (.array (elems ++ more))
  | inField (g : Option Value) (fields : List (String × Value)) (key : String) (v v' : Value) :
      fields.lookup key = some v → ServerEdit (declaredField g key) v v' →
      ServerEdit g (.object fields) (.object (Value.setField fields key v'))
  | inElem (g : Option Value) (elems : List Value) (i : Nat) (v v' : Value) :
      elems[i]? = some v → ServerEdit (declaredElem g i) v v' →
      ServerEdit g (.array elems) (.array (elems.set i v'))

/-- The manifest is a Secret. -/
def isSecret (g : Value) : Bool := (g.get "kind").bind Value.asStr == some "Secret"

/-- One change of a whole object made from the manifest `g`. -/
inductive ServerChange (g : Value) : Value → Value → Prop
  | edit (l l' : Value) : ServerEdit (some g) l l' → ServerChange g l l'
  /-- An entry of `stringData` is moved into `data`, which is created where there is none.
  How the server encodes it is left open. -/
  | moveEntry (fields entries data : List (String × Value)) (key : String) (v encoded : Value) :
      isSecret g = true → declaredField (g.get "stringData") key = some v →
      fields.lookup "stringData" = some (.object entries) → (entries.lookup key).isSome →
      (fields.lookup "data").getD (.object []) = .object data →
      declaredField (g.get "data") key = none →
      ServerChange g (.object fields)
        (.object (Value.setField
          (Value.setField fields "stringData" (.object (removeField entries key)))
          "data" (.object (Value.setField data key encoded))))
  /-- Nothing is left of `stringData` once all its entries are moved. -/
  | dropMoved (fields : List (String × Value)) : isSecret g = true →
      fields.lookup "stringData" = some (.object []) →
      ServerChange g (.object fields) (.object (removeField fields "stringData"))
  | dropType (fields : List (String × Value)) (key : String) : key ∈ ["apiVersion", "kind"] →
      ServerChange g (.object fields) (.object (removeField fields key))

/-- The live values the server can make of a manifest. -/
def Served (g live : Value) : Prop := Relation.ReflTransGen (ServerChange g) g live

/-! ### A change keeps the declared fields -/

/-- A lookup does not see that fields of other names are left out. -/
theorem lookup_filter {fields : List (String × Value)} {keep : String → Bool} {key : String}
    (h : keep key = true) :
    (fields.filter fun f => keep f.1).lookup key = fields.lookup key := by
  induction fields with
  | nil => rfl
  | cons f rest ih =>
      obtain ⟨k, v⟩ := f
      by_cases hk : keep k = true
      · simp [hk, List.lookup_cons, ih]
      · have hne : key ≠ k := by
          intro heq
          exact hk (heq ▸ h)
        have hbeq : (key == k) = false := by simpa using hne
        simp [hk, List.lookup_cons, hbeq, ih]

/-- To remove a field leaves the others. -/
theorem lookup_removeField_of_ne {fields : List (String × Value)} {key other : String}
    (h : other ≠ key) : (removeField fields key).lookup other = fields.lookup other :=
  @lookup_filter _ (fun k => decide (k ≠ key)) _ (by simpa using h)

/-- To remove a field removes it. -/
theorem lookup_removeField_self (fields : List (String × Value)) (key : String) :
    (removeField fields key).lookup key = none := by
  rw [List.lookup_eq_none_iff]
  intro f hf
  have hne : f.1 ≠ key := by simpa using (List.mem_filter.mp hf).2
  simpa using hne.symm

/-- Only a zero value is satisfied by a zero value. -/
theorem zero_of_subset_zero {v lv : Value} (hs : specSubset v lv = true)
    (hz : isK8sZeroValue lv = true) : isK8sZeroValue v = true := by
  cases lv with
  -- Only an empty array is a zero value, and its subsets are empty arrays.
  | array elems =>
      cases elems with
      | cons w ws => simp [isK8sZeroValue] at hz
      | nil =>
          cases v with
          | array vs =>
              cases vs with
              | nil => rfl
              | cons x xs => simp [specSubset, elemsSubset] at hs
          | _ => simp [specSubset] at hs
  | object fields => simp [isK8sZeroValue] at hz
  -- The other kinds of value have no subset but themselves.
  | null =>
      cases v <;> simp [specSubset] at hs
      exact hz
  | bool b =>
      cases v <;> simp [specSubset] at hs
      exact hs ▸ hz
  | number n =>
      cases v <;> simp [specSubset] at hs
      exact hs ▸ hz
  | string s =>
      cases v <;> simp [specSubset] at hs
      exact hs ▸ hz

/-- A zero value in the live object may just as well be absent. -/
theorem held_none_of_held_zero {v lv : Value} (h : held v (some lv) = true)
    (hz : isK8sZeroValue lv = true) : held v none = true := zero_of_subset_zero h hz

/-- One change of an object keeps a declared field, if changes of its value do. -/
theorem held_of_edit {g v l' : Value} {fields : List (String × Value)} {key : String}
    (hedit : ServerEdit (some g) (.object fields) l') (hdecl : g.get key = some v)
    (hheld : held v (fields.lookup key) = true)
    (hinner : ∀ lv lv', ServerEdit (some v) lv lv' → specSubset v lv = true →
      specSubset v lv' = true) :
    ∃ fields', l' = .object fields' ∧ held v (fields'.lookup key) = true := by
  cases hedit with
  -- The server dropped a zero value. A field that held one reads like an absent one.
  | dropZero _ _ k w hk hz =>
      refine ⟨_, rfl, ?_⟩
      by_cases hkk : key = k
      · subst hkk
        rw [lookup_removeField_self]
        exact held_none_of_held_zero (hk ▸ hheld) hz
      · rwa [lookup_removeField_of_ne hkk]
  -- A field that the manifest does not declare is none that is compared.
  | addField _ _ k w hk =>
      have hkk : key ≠ k := by
        intro heq
        subst heq
        simp [declaredField, hdecl] at hk
      exact ⟨_, rfl, by rwa [Value.lookup_setField_of_ne _ _ hkk]⟩
  -- The server changed what stands below a field.
  | inField _ _ k w w' hk hw =>
      refine ⟨_, rfl, ?_⟩
      by_cases hkk : key = k
      · subst hkk
        have hdeclared : declaredField (some g) key = some v := hdecl
        rw [Value.lookup_setField_self]
        exact hinner w w' (hdeclared ▸ hw) (by simpa [hk, held] using hheld)
      · rwa [Value.lookup_setField_of_ne _ _ hkk]

/-- A change of an object leaves an object. -/
theorem object_of_edit {g : Option Value} {fields : List (String × Value)} {l' : Value}
    (hedit : ServerEdit g (.object fields) l') : ∃ fields', l' = .object fields' := by
  cases hedit <;> exact ⟨_, rfl⟩

/-- One change of an array keeps its declared elements, if changes of their values do. -/
theorem elemsSubset_of_edit {g elems : List Value} {l' : Value}
    (hedit : ServerEdit (some (.array g)) (.array elems) l')
    (hs : elemsSubset g elems = true)
    (hinner : ∀ v ∈ g, ∀ lv lv', ServerEdit (some v) lv lv' → specSubset v lv = true →
      specSubset v lv' = true) :
    ∃ elems', l' = .array elems' ∧ elemsSubset g elems' = true := by
  have hall := elemsSubset_iff.mp hs
  cases hedit with
  -- Elements that were appended come after those that are compared.
  | append _ _ more =>
      refine ⟨_, rfl, elemsSubset_iff.mpr ?_⟩
      intro i v hv
      obtain ⟨lv, hlv, hsub⟩ := hall i v hv
      have hlt : i < elems.length := (List.getElem?_eq_some_iff.mp hlv).1
      exact ⟨lv, by rw [List.getElem?_append_left hlt, hlv], hsub⟩
  -- The server changed what stands below an element.
  | inElem _ _ i w w' hi hw =>
      refine ⟨_, rfl, elemsSubset_iff.mpr ?_⟩
      intro j v hv
      obtain ⟨lv, hlv, hsub⟩ := hall j v hv
      by_cases hij : i = j
      · subst hij
        cases hi.symm.trans hlv
        have hlt : i < elems.length := (List.getElem?_eq_some_iff.mp hlv).1
        have hdeclared : declaredElem (some (.array g)) i = some v := hv
        have hsub' := hinner v (List.mem_of_getElem? hv) w w' (hdeclared ▸ hw) hsub
        exact ⟨w', by simp [hlt], hsub'⟩
      · exact ⟨lv, by simp [hij, hlv], hsub⟩

/-- **One change keeps a satisfied value satisfied**, at any depth. -/
theorem subset_of_edit :
    ∀ g : Value, g.distinct = true → ∀ l l', ServerEdit (some g) l l' →
      specSubset g l = true → specSubset g l' = true := by
  refine Value.Cases.value ⟨?_, ?_, ?_, ?_, ?_, ?_⟩
  -- A scalar has nothing below it, so no edit reaches it.
  · intro _ l l' hedit hs
    cases hedit <;> simp [specSubset] at hs
  · intro b _ l l' hedit hs
    cases hedit <;> simp [specSubset] at hs
  · intro n _ l l' hedit hs
    cases hedit <;> simp [specSubset] at hs
  · intro s _ l l' hedit hs
    cases hedit <;> simp [specSubset] at hs
  · intro elems ih hd l l' hedit hs
    -- An edit below an array or an object leaves it one.
    cases l with
    | array lelems =>
        have hdist := Value.distinctElems_iff.mp (by simpa [Value.distinct] using hd)
        obtain ⟨elems', rfl, hsub⟩ := elemsSubset_of_edit hedit (by simpa [specSubset] using hs)
          (fun v hv => ih v hv (hdist v hv))
        simpa [specSubset] using hsub
    | _ => simp [specSubset] at hs
  · intro fields ih hd l l' hedit hs
    cases l with
    | object lfields =>
        have hdf : Value.distinctFields fields = true := by simpa [Value.distinct] using hd
        have hall := fieldsSubset_iff.mp (by simpa [specSubset] using hs)
        obtain ⟨fields', rfl⟩ := object_of_edit hedit
        have hsub : fieldsSubset fields fields' = true := by
          apply fieldsSubset_iff.mpr
          intro k v hmem
          obtain ⟨fields'', heq, hheld⟩ := held_of_edit hedit
            (Value.lookup_of_mem hdf hmem) (hall k v hmem)
            (ih k v hmem (Value.distinct_of_mem hdf hmem))
          cases heq
          exact hheld
        simpa [specSubset] using hsub
    | _ => simp [specSubset] at hs

/-! ### Any number of changes -/

/-- The manifest is a Secret with an entry to move, over a `data` field that is a zero
value. -/
def overwritesData (g : Value) : Bool :=
  isSecret g && (g.get "data").any isK8sZeroValue &&
    ((g.get "stringData").bind Value.asObject).any fun entries => !entries.isEmpty

/-- The entries of such a Secret go into a `data` object where Git declares a zero value,
and the comparison looks at it. -/
def dataReplaced (g : Value) : Bool := overwritesData g && (g.get "spec").isNone

/-- The top-level fields that the comparison leaves out. -/
def strippedKeys : List String := ["apiVersion", "kind", "stringData"]

/-- The top-level fields it looks at. -/
def compared (fields : List (String × Value)) : List (String × Value) :=
  fields.filter fun f => f.1 ∉ strippedKeys

/-- The comparison sees a field as it is, unless it is one of the stripped keys. -/
theorem lookup_compared {fields : List (String × Value)} {key : String}
    (h : key ∉ strippedKeys) : (compared fields).lookup key = fields.lookup key :=
  @lookup_filter _ (fun k => decide (k ∉ strippedKeys)) _ (by simpa using h)

/-- A declared field is a field of an object that has fields. -/
theorem hasEntries_of_declared {o : Option Value} {key : String} {v : Value}
    (h : declaredField o key = some v) :
    ((o.bind Value.asObject).any fun entries => !entries.isEmpty) = true := by
  cases o with
  | none => simp [declaredField] at h
  | some d =>
      cases d with
      | object entries =>
          cases entries with
          | nil => simp [declaredField] at h
          | cons e rest => rfl
      | _ => simp [declaredField, Value.get, Value.asObject] at h

/-- An entry that moved from `stringData` to `data` leaves the declared fields held. -/
theorem held_of_moveEntry {g v encoded moved : Value} {fields data : List (String × Value)}
    {key entry : String} (hdecl : g.get key = some v) (hkey : key ≠ "stringData")
    (hdata : (fields.lookup "data").getD (.object []) = .object data)
    (hfree : declaredField (g.get "data") entry = none)
    (hzero : key = "data" → isK8sZeroValue v = false)
    (hheld : held v (fields.lookup key) = true) :
    held v ((Value.setField (Value.setField fields "stringData" moved) "data"
      (.object (Value.setField data entry encoded))).lookup key) = true := by
  by_cases hk : key = "data"
  · subst hk
    rw [Value.lookup_setField_self]
    cases hl : fields.lookup "data" with
    | none =>
        rw [hl] at hheld
        exact absurd hheld (by simp [held, hzero rfl])
    | some lv =>
        rw [hl] at hdata hheld
        cases hdata
        -- What Git declares is an object too, and the new entry is not one of its own.
        cases v with
        | object declared =>
            have hall := fieldsSubset_iff.mp (by simpa [held, specSubset] using hheld)
            have hsub : fieldsSubset declared (Value.setField data entry encoded) = true := by
              apply fieldsSubset_iff.mpr
              intro k w hmem
              have hne : k ≠ entry := by
                intro heq
                subst heq
                rw [hdecl] at hfree
                have hnone : declared.lookup k = none := hfree
                have hf := List.lookup_eq_none_iff.mp hnone (k, w) hmem
                simp at hf
              rw [Value.lookup_setField_of_ne _ _ hne]
              exact hall k w hmem
            simpa [held, specSubset] using hsub
        | _ => simp [held, specSubset] at hheld
  · rwa [Value.lookup_setField_of_ne _ _ hk, Value.lookup_setField_of_ne _ _ hkey]

/-- One change of the whole object keeps every declared field that is compared, unless it
is the `data` that the moved entries replace. -/
theorem held_of_change {g v l' : Value} {fields : List (String × Value)} {key : String}
    (hd : g.distinct = true) (hchange : ServerChange g (.object fields) l')
    (hdecl : g.get key = some v) (hkey : key ∉ strippedKeys)
    (hdata : key = "data" → overwritesData g = false)
    (hheld : held v (fields.lookup key) = true) :
    ∃ fields', l' = .object fields' ∧ held v (fields'.lookup key) = true := by
  simp only [strippedKeys, List.mem_cons, List.not_mem_nil, or_false, not_or] at hkey
  cases hchange with
  | edit _ _ hedit =>
      have hv : v.distinct = true := by
        -- The declared value comes from an object without a repeated key.
        cases g with
        | object declared =>
            exact Value.distinct_of_mem (by simpa [Value.distinct] using hd)
              (Value.mem_of_lookup hdecl)
        | _ => simp [Value.get, Value.asObject] at hdecl
      exact held_of_edit hedit hdecl hheld (subset_of_edit v hv)
  -- The server moved an entry of the string data, which is compared as data after the move.
  | moveEntry _ entries data entry w encoded hsecret hw hentries hin hlive hfree =>
      refine ⟨_, rfl, held_of_moveEntry hdecl hkey.2.2 hlive hfree ?_ hheld⟩
      intro heq
      subst heq
      have hentry := hasEntries_of_declared hw
      have hover := hdata rfl
      simpa [overwritesData, hsecret, hdecl, hentry] using hover
  -- The empty string data goes away, which is not compared.
  | dropMoved hsecret hempty =>
      exact ⟨_, rfl, by rwa [lookup_removeField_of_ne hkey.2.2]⟩
  | dropType _ k hk =>
      -- Only fields that are not compared are dropped by type.
      have hne : key ≠ k := by
        intro heq
        subst heq
        simp [hkey.1, hkey.2.1] at hk
      exact ⟨_, rfl, by rwa [lookup_removeField_of_ne hne]⟩

/-- Two objects differ by their specs, where both have one. Otherwise they are compared field by
field, without the stripped keys. -/
theorem specsDiffer_object (g l : List (String × Value)) :
    specsDiffer (.object g) (.object l) =
      match g.lookup "spec", l.lookup "spec" with
      | some s, some ls => !specSubset s ls
      | some _, none => true
      | none, _ => !fieldsSubset (compared g) (compared l) := by
  have hg : (compared g).lookup "spec" = g.lookup "spec" := lookup_compared (by decide)
  have hl : (compared l).lookup "spec" = l.lookup "spec" := lookup_compared (by decide)
  rw [← hg, ← hl]
  show (match (compared g).lookup "spec", (compared l).lookup "spec" with
    | some s, some ls => !specSubset s ls
    | some _, none => true
    | none, _ => !specSubset (.object (compared g)) (.object (compared l))) = _
  cases (compared g).lookup "spec" with
  | none => rw [specSubset]
  | some s => rfl

/-- Live fields that hold every compared field of a manifest do not differ from it. -/
theorem specsDiffer_of_held {g l : List (String × Value)}
    (hd : Value.distinctFields g = true)
    (hspec : ∀ s, g.lookup "spec" = some s →
      isK8sZeroValue s = false ∧ held s (l.lookup "spec") = true)
    (hall : g.lookup "spec" = none → ∀ k v, g.lookup k = some v → k ∉ strippedKeys →
      held v (l.lookup k) = true) :
    specsDiffer (.object g) (.object l) = false := by
  rw [specsDiffer_object]
  cases hg : g.lookup "spec" with
  -- A spec decides by itself.
  | some s =>
      obtain ⟨hzero, hheld⟩ := hspec s hg
      cases hl : l.lookup "spec" with
      | some ls => simpa [hl, held] using hheld
      | none => simp [hl, held, hzero] at hheld
  -- Without a spec the fields that are not stripped decide.
  | none =>
      have hsub : fieldsSubset (compared g) (compared l) = true := by
        apply fieldsSubset_iff.mpr
        intro k v hmem
        obtain ⟨hmemg, hk⟩ := List.mem_filter.mp hmem
        have hkey : k ∉ strippedKeys := by simpa using hk
        rw [lookup_compared hkey]
        exact hall hg k v (Value.lookup_of_mem hd hmemg) hkey
      simp [hsub]

/-- What the server makes of an object holds every compared field of it. -/
theorem held_of_served {g live v : Value} {key : String} (hd : g.distinct = true)
    (hlive : Served g live) (hdecl : g.get key = some v) (hkey : key ∉ strippedKeys)
    (hdata : key = "data" → overwritesData g = false) :
    ∃ fields, live = .object fields ∧ held v (fields.lookup key) = true := by
  induction hlive with
  | refl =>
      cases g with
      | object declared =>
          have hlook : declared.lookup key = some v := hdecl
          have hdist := Value.distinct_of_mem (by simpa [Value.distinct] using hd)
            (Value.mem_of_lookup hlook)
          have hself : specSubset v v = true := subset_self v hdist
          exact ⟨declared, rfl, by rw [hlook]; exact hself⟩
      | _ => simp [Value.get, Value.asObject] at hdecl
  | tail _ hchange ih =>
      obtain ⟨fields, rfl, hheld⟩ := ih
      exact held_of_change hd hchange hdecl hkey hdata hheld

/-- A manifest that is no object stays what it is, apart from appended elements. -/
theorem subset_of_served {g live : Value} (hd : g.distinct = true) (hg : g.asObject = none)
    (hlive : Served g live) : specSubset g live = true := by
  induction hlive with
  | refl => exact subset_self g hd
  | tail _ hchange ih =>
      cases hchange with
      | edit _ _ hedit => exact subset_of_edit g hd _ _ hedit ih
      | moveEntry => cases g <;> simp [specSubset, Value.asObject] at ih hg
      | dropMoved => cases g <;> simp [specSubset, Value.asObject] at ih hg
      | dropType => cases g <;> simp [specSubset, Value.asObject] at ih hg

/-- A Git value that is no object asks for nothing. -/
theorem not_specsDiffer_of_not_object {g live : Value} (hd : g.distinct = true)
    (hg : g.asObject = none) (hlive : Served g live) : specsDiffer g live = false := by
  have hsub := subset_of_served hd hg hlive
  have hl : live.asObject = none := by
    cases live with
    | object fields => cases g <;> simp [specSubset, Value.asObject] at hsub hg
    | _ => rfl
  have hremove : ∀ v : Value, v.asObject = none →
      removeTopLevelKeys v ["apiVersion", "kind", "stringData"] = v := by
    intro v hv
    cases v with
    | object fields => simp [Value.asObject] at hv
    | _ => rfl
  have hget : g.get "spec" = none := by simp [Value.get, hg]
  simp [specsDiffer, hremove g hg, hremove live hl, hget, hsub]

/-- The server answers an object with an object. -/
theorem object_of_served {declared : List (String × Value)} {live : Value}
    (hlive : Served (.object declared) live) : ∃ fields, live = .object fields := by
  induction hlive with
  | refl => exact ⟨declared, rfl⟩
  | tail _ hchange ih =>
      obtain ⟨fields, rfl⟩ := ih
      cases hchange with
      | edit _ _ hedit => exact object_of_edit hedit
      | moveEntry => exact ⟨_, rfl⟩
      | dropMoved => exact ⟨_, rfl⟩
      | dropType => exact ⟨_, rfl⟩

/-- No sequence of changes makes a difference, unless the `data` of a Secret is replaced. -/
theorem not_specsDiffer_of_served {g live : Value} (hd : g.distinct = true)
    (hspec : ∀ s, g.get "spec" = some s → isK8sZeroValue s = false)
    (hdata : dataReplaced g = false) (hlive : Served g live) :
    specsDiffer g live = false := by
  cases g with
  | object declared =>
      obtain ⟨fields, rfl⟩ := object_of_served hlive
      -- Every declared field is held, unless it is data that the moved entries overwrite.
      have hheld : ∀ k v, declared.lookup k = some v → k ∉ strippedKeys →
          (k = "data" → overwritesData (.object declared) = false) →
          held v (fields.lookup k) = true := by
        intro k v hv hk hkdata
        obtain ⟨fields', heq, hheld⟩ := held_of_served hd hlive hv hk hkdata
        cases heq
        exact hheld
      apply specsDiffer_of_held (by simpa [Value.distinct] using hd)
      · intro s hs
        exact ⟨hspec s hs, hheld "spec" s hs (by decide) (by simp)⟩
      · intro hnone k v hv hk
        apply hheld k v hv hk
        intro _
        simpa [dataReplaced, hnone] using hdata
  -- What is no object stays as it is.
  | _ => exact not_specsDiffer_of_not_object hd rfl hlive

/-! ### The exception -/

/-- A zero value declares no field. -/
theorem declaredField_of_zero {v : Value} (h : isK8sZeroValue v = true) (key : String) :
    declaredField (some v) key = none := by
  cases v with
  | object fields => simp [isK8sZeroValue] at h
  | _ => rfl

/-- An object does not satisfy a zero value. -/
theorem not_subset_object {v : Value} (h : isK8sZeroValue v = true)
    (fields : List (String × Value)) : specSubset v (.object fields) = false := by
  cases v with
  | object fields => simp [isK8sZeroValue] at h
  | _ => simp [specSubset]

/-- The server drops the zero value and moves an entry: `data` is an object. -/
theorem exists_served_of_dataReplaced {g : Value} (h : dataReplaced g = true) :
    ∃ live, Served g live ∧ specsDiffer g live = true := by
  cases g with
  | object declared =>
      simp only [dataReplaced, overwritesData, Bool.and_eq_true, Option.any_eq_true,
        Value.get_object, Option.isNone_iff_eq_none] at h
      obtain ⟨⟨⟨hsecret, d, hd, hzero⟩, entries, hentries, hne⟩, hspec⟩ := h
      -- At least one entry is moved.
      obtain ⟨key, v, rest, rfl⟩ : ∃ key v rest, entries = (key, v) :: rest := by
        cases entries with
        | nil => simp at hne
        | cons e rest => exact ⟨e.1, e.2, rest, rfl⟩
      have hsd : declared.lookup "stringData" = some (.object ((key, v) :: rest)) := by
        obtain ⟨sd, hsd, hobj⟩ := Option.bind_eq_some_iff.mp hentries
        cases sd with
        | object fields =>
            cases hobj
            exact hsd
        | _ => simp [Value.asObject] at hobj
      -- Two changes: the server drops the zero data, then it moves the entry into new data.
      have hdrop : ServerChange (.object declared) (.object declared)
          (.object (removeField declared "data")) :=
        .edit _ _ (.dropZero _ declared "data" d hd hzero)
      have hmove := ServerChange.moveEntry (g := .object declared) (removeField declared "data")
        ((key, v) :: rest) [] key v v hsecret
        (by simp [declaredField, hsd])
        (by rw [lookup_removeField_of_ne (by decide)]; exact hsd)
        (by simp)
        (by rw [lookup_removeField_self]; rfl)
        (by rw [Value.get_object, hd]; exact declaredField_of_zero hzero key)
      refine ⟨_, (Relation.ReflTransGen.single hdrop).tail hmove, ?_⟩
      have hlost : fieldsSubset (compared declared)
          (compared (Value.setField (Value.setField (removeField declared "data") "stringData"
            (.object (removeField ((key, v) :: rest) key))) "data" (.object [(key, v)])))
          = false := by
        -- Were the data held, the zero value would have to hold the moved entry.
        by_contra hsub
        have hall := fieldsSubset_iff.mp (by simpa using hsub)
        have hmem : ("data", d) ∈ compared declared :=
          List.mem_filter.mpr ⟨Value.mem_of_lookup hd, by simp [strippedKeys]⟩
        have hheld := hall "data" d hmem
        rw [lookup_compared (by decide), Value.lookup_setField_self] at hheld
        simp [held, not_subset_object hzero] at hheld
      rw [specsDiffer_object, hspec]
      simpa [Value.setField] using hlost
  | _ => simp [dataReplaced, overwritesData, isSecret, Value.get, Value.asObject] at h

/-- **What the server makes of a manifest is no drift, unless the moved entries of a
Secret replace a `data` field that is a zero value.** There the comparison finds a drift
on every pass: the exception is exact. -/
theorem not_specsDiffer_of_served_iff (g : Json)
    (hspec : ∀ s, g.val.get "spec" = some s → isK8sZeroValue s = false) :
    (∀ live, Served g live → specsDiffer g live = false) ↔ dataReplaced g = false := by
  constructor
  · intro h
    by_contra hlost
    obtain ⟨live, hlive, hdiffer⟩ := exists_served_of_dataReplaced (by simpa using hlost)
    simp [h live hlive] at hdiffer
  · intro hdata live hlive
    exact not_specsDiffer_of_served g.property hspec hdata hlive

/-- A Deployment without a field that the exception is about. -/
def plainManifest : Value :=
  .object [("apiVersion", .string "apps/v1"), ("kind", .string "Deployment"),
    ("metadata", .object [("name", .string "web")]),
    ("spec", .object [("replicas", .number (.int 2)), ("paused", .bool false)])]

/-- The theorem at this manifest. -/
theorem not_specsDiffer_of_served_iff_plain :
    ((∀ live, Served plainManifest live → specsDiffer plainManifest live = false) ↔
      dataReplaced plainManifest = false) ∧ dataReplaced plainManifest = false := by
  have hspec : ∀ s, plainManifest.get "spec" = some s → isK8sZeroValue s = false := by
    intro s hs
    cases hs
    rfl
  exact ⟨not_specsDiffer_of_served_iff ⟨plainManifest, by decide⟩ hspec, by decide⟩

/-- A Secret whose `data` key is left empty, with one entry under `stringData`. -/
def emptyDataFields : List (String × Value) :=
  [("apiVersion", .string "v1"), ("kind", .string "Secret"),
    ("metadata", .object [("name", .string "db")]), ("data", .null),
    ("stringData", .object [("password", .string "pw")])]

/-- The Secret as the server stores it. -/
def storedFields : List (String × Value) :=
  [("apiVersion", .string "v1"), ("kind", .string "Secret"),
    ("metadata", .object [("name", .string "db")]),
    ("data", .object [("password", .string "cHc=")])]

/-- The stored object of the counterexample is one that a server may answer with. -/
theorem served_storedFields : Served (.object emptyDataFields) (.object storedFields) := by
  have hdrop := ServerEdit.dropZero (some (.object emptyDataFields)) emptyDataFields "data"
    .null rfl rfl
  have hmove := ServerChange.moveEntry (g := .object emptyDataFields)
    (removeField emptyDataFields "data") [("password", .string "pw")] [] "password"
    (.string "pw") (.string "cHc=") (by decide) (by decide) (by decide) (by decide) (by decide)
    (by decide)
  have hmoved := ServerChange.dropMoved (g := .object emptyDataFields)
    (Value.setField (Value.setField (removeField emptyDataFields "data") "stringData"
      (.object [])) "data" (.object [("password", .string "cHc=")])) (by decide) (by decide)
  exact ((Relation.ReflTransGen.single (.edit _ _ hdrop)).tail hmove).tail hmoved

/-- The stored Secret differs from the manifest it was made from. -/
theorem specsDiffer_of_served_emptyData :
    ¬ ∀ g : Json, (∀ s, g.val.get "spec" = some s → isK8sZeroValue s = false) →
      ∀ live, Served g live → specsDiffer g live = false := by
  intro h
  have hspec : ∀ s, (Value.object emptyDataFields).get "spec" = some s →
      isK8sZeroValue s = false := by
    intro s hs
    cases hs
  have hfalse := h ⟨.object emptyDataFields, by decide⟩ hspec (.object storedFields)
    served_storedFields
  have htrue : specsDiffer (.object emptyDataFields) (.object storedFields) = true := by decide
  simp [htrue] at hfalse

end Drift

end LeanCd
