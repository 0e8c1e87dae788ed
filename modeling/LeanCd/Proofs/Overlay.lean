import LeanCd.Drift

/-!
# `LeanCd.Proofs.Overlay`: the comparison as an overlay

`spec_subset` says that the live value satisfies the Git one. This file says what
that means without a recursion over two values at once: laying the Git value over the
live one gives the live one back.

A `serde_json::Map` holds a key once. `Value.distinct` is that property of a field
list, at every depth, and `Json` are the values that have it. Two of them are equal
when their maps are, whatever the order of the fields: `Value.same`.

The overlay is defined by recursion on the Git value, field by field and place by place. One
direction is an induction on the Git value, where a satisfied field is laid over the live one
without a change. The other one needs that the keys of an object are distinct, because the overlay
lays a later field over an earlier one of the same name.
-/

set_option autoImplicit false

namespace LeanCd

namespace Value

mutual

/-- No object in the value has two fields of one name. -/
def distinct : Value → Bool
  | .array elems => distinctElems elems
  | .object fields => distinctFields fields
  | _ => true

/-- `distinct` at every element. -/
def distinctElems : List Value → Bool
  | [] => true
  | v :: rest => distinct v && distinctElems rest

/-- The names differ from each other, and the values are `distinct`. -/
def distinctFields : List (String × Value) → Bool
  | [] => true
  | (k, v) :: rest => decide (k ∉ rest.map Prod.fst) && (distinct v && distinctFields rest)

end

mutual

/-- `==` of two values: objects are compared as maps. -/
def same (a b : Value) : Bool :=
  match a, b with
  | .object a, .object b => a.length == b.length && sameFields a b
  | .array a, .array b => sameElems a b
  | a, b => decide (a = b)

/-- Every field of the first object is in the second, with the same value. -/
def sameFields (a b : List (String × Value)) : Bool :=
  match a with
  | [] => true
  | (k, v) :: rest =>
      (match b.lookup k with
        | none => false
        | some w => same v w) && sameFields rest b

/-- Two arrays, element by element. -/
def sameElems (a b : List Value) : Bool :=
  match a, b with
  | [], [] => true
  | v :: vs, w :: ws => same v w && sameElems vs ws
  | _, _ => false

end

/-- The elements of a list have distinct keys when each of them has. -/
theorem distinctElems_iff {elems : List Value} :
    distinctElems elems = true ↔ ∀ v ∈ elems, v.distinct = true := by
  induction elems with
  | nil => simp [distinctElems]
  | cons v rest ih => simp [distinctElems, ih]

/-- The field that is found is the one that is there: no other has its name. -/
theorem lookup_of_mem {fields : List (String × Value)} {k : String} {v : Value}
    (hd : distinctFields fields = true) (h : (k, v) ∈ fields) : fields.lookup k = some v := by
  induction fields with
  | nil => cases h
  | cons f rest ih =>
      obtain ⟨l, w⟩ := f
      simp only [distinctFields, Bool.and_eq_true, decide_eq_true_eq] at hd
      rcases List.mem_cons.mp h with heq | hrest
      · cases heq
        simp
      · have hne : k ≠ l := by
          intro heq
          exact hd.1 (heq ▸ List.mem_map_of_mem (f := Prod.fst) hrest)
        have hbeq : (k == l) = false := by simpa using hne
        simp [List.lookup_cons, hbeq, ih hd.2.2 hrest]

/-- A field that is looked up is one of the fields. -/
theorem mem_of_lookup {fields : List (String × Value)} {k : String} {v : Value}
    (h : fields.lookup k = some v) : (k, v) ∈ fields := by
  obtain ⟨before, after, heq, -⟩ := List.lookup_eq_some_iff.mp h
  simp [heq]

/-- Each field of an object with distinct keys has distinct keys. -/
theorem distinct_of_mem {fields : List (String × Value)} {k : String} {v : Value}
    (hd : distinctFields fields = true) (h : (k, v) ∈ fields) : v.distinct = true := by
  induction fields with
  | nil => cases h
  | cons f rest ih =>
      obtain ⟨l, w⟩ := f
      simp only [distinctFields, Bool.and_eq_true] at hd
      rcases List.mem_cons.mp h with heq | hrest
      · cases heq
        exact hd.2.1
      · exact ih hd.2.2 hrest

/-- The fields of equal objects: what the first one has, the second one has. -/
theorem sameFields_iff {a b : List (String × Value)} :
    sameFields a b = true ↔
      ∀ k v, (k, v) ∈ a → ∃ w, b.lookup k = some w ∧ v.same w = true := by
  induction a with
  | nil => simp [sameFields]
  | cons f rest ih =>
      obtain ⟨l, w⟩ := f
      simp only [sameFields, Bool.and_eq_true, ih, List.mem_cons, Prod.mk.injEq]
      constructor
      · intro h k v hmem
        rcases hmem with heq | hrest
        -- The first entry of the list is looked up by itself. The others are the induction.
        · obtain ⟨rfl, rfl⟩ := heq
          cases hb : b.lookup k with
          | none => simp [hb] at h
          | some x => exact ⟨x, rfl, by simpa [hb] using h.1⟩
        · exact h.2 k v hrest
      · intro h
        obtain ⟨x, hx, hs⟩ := h l w (.inl ⟨rfl, rfl⟩)
        exact ⟨by simpa [hx] using hs, fun k v hmem => h k v (.inr hmem)⟩

/-- A value equals itself. -/
theorem same_self : ∀ v : Value, v.distinct = true → v.same v = true := by
  refine Cases.value ⟨?_, ?_, ?_, ?_, ?_, ?_⟩
  · simp [same]
  · simp [same]
  · simp [same]
  · simp [same]
  -- Lists and objects go element by element. The keys of an object are distinct, which is what
  -- the look-up needs.
  · intro elems ih hd
    have hall := distinctElems_iff.mp (by simpa [distinct] using hd)
    have key : ∀ l : List Value, (∀ v ∈ l, v.same v = true) → sameElems l l = true := by
      intro l
      induction l with
      | nil => simp [sameElems]
      | cons v rest ihl => simp +contextual [sameElems, ihl]
    simpa [same] using key elems fun v hv => ih v hv (hall v hv)
  · intro fields ih hd
    have hdf : distinctFields fields = true := by simpa [distinct] using hd
    have hself := sameFields_iff.mpr fun k v hmem =>
      ⟨v, lookup_of_mem hdf hmem, ih k v hmem (distinct_of_mem hdf hmem)⟩
    simpa [same] using hself

/-- Lists that are compared element by element are equally long. -/
theorem length_eq_of_sameElems {a b : List Value} (h : sameElems a b = true) :
    a.length = b.length := by
  induction a generalizing b with
  | nil =>
      cases b with
      | nil => rfl
      | cons w ws => simp [sameElems] at h
  | cons v vs ih =>
      cases b with
      | nil => simp [sameElems] at h
      | cons w ws =>
          simp only [sameElems, Bool.and_eq_true] at h
          simp [ih h.2]

/-- A write of what is there changes nothing. -/
theorem setField_of_lookup {fields : List (String × Value)} {k : String} {v : Value}
    (h : fields.lookup k = some v) : setField fields k v = fields := by
  induction fields with
  | nil => simp at h
  | cons f rest ih =>
      obtain ⟨l, w⟩ := f
      rw [List.lookup_cons] at h
      unfold setField
      by_cases hlk : l = k
      · simp [hlk] at h ⊢
        exact h.symm
      · have hbeq : (k == l) = false := by simpa using fun e => hlk e.symm
        rw [hbeq] at h
        simp [hlk, ih h]

end Value

/-- A value as `serde_json` holds one. -/
abbrev Json := { v : Value // v.distinct = true }

namespace Drift

/-! ### What the comparison asks of one field -/

/-- The zero values: `null`, `false`, the number zero and the empty array. -/
theorem isK8sZeroValue_iff {v : Value} :
    isK8sZeroValue v = true ↔ v = .null ∨ v = .bool false ∨ v = .number (.int 0) ∨
      v = .number (.float 0) ∨ v = .array [] := by
  cases v with
  | null | string | object => simp [isK8sZeroValue]
  | bool b => cases b <;> simp [isK8sZeroValue]
  | number n => cases n <;> simp [isK8sZeroValue]
  | array elems => cases elems <;> simp [isK8sZeroValue]

/-- A declared value is held by what the live object has under its key: a zero value may
be absent there. -/
def held (v : Value) : Option Value → Bool
  | none => isK8sZeroValue v
  | some lv => specSubset v lv

/-- An object is a subset when each of its fields is held by the live field of the same key. -/
theorem fieldsSubset_iff {g l : List (String × Value)} :
    fieldsSubset g l = true ↔ ∀ k v, (k, v) ∈ g → held v (l.lookup k) = true := by
  induction g with
  | nil => simp [fieldsSubset]
  | cons f rest ih =>
      obtain ⟨m, w⟩ := f
      simp only [fieldsSubset, Bool.and_eq_true, ih, List.mem_cons, Prod.mk.injEq]
      constructor
      · intro h k v hmem
        rcases hmem with heq | hrest
        · obtain ⟨rfl, rfl⟩ := heq
          exact h.1
        · exact h.2 k v hrest
      · intro h
        exact ⟨h m w (.inl ⟨rfl, rfl⟩), fun k v hmem => h k v (.inr hmem)⟩

/-- A list is a subset when each of its elements is one of the live element at the same place. -/
theorem elemsSubset_iff {g l : List Value} :
    elemsSubset g l = true ↔
      ∀ (i : Nat) (v : Value), g[i]? = some v → ∃ lv, l[i]? = some lv ∧ specSubset v lv = true := by
  induction g generalizing l with
  | nil => simp [elemsSubset]
  | cons v vs ih =>
      cases l with
      -- The live list is too short.
      | nil =>
          simp only [elemsSubset, List.getElem?_nil, reduceCtorEq, false_and, exists_false,
            imp_false, false_iff, Bool.false_eq_true]
          intro h
          exact h 0 v rfl
      -- An index is that of the first element or one of the rest.
      | cons lv lvs =>
          simp only [elemsSubset, Bool.and_eq_true, ih]
          constructor
          · intro h i w hi
            cases i with
            | zero =>
                cases hi
                exact ⟨lv, rfl, h.1⟩
            | succ n => exact h.2 n w hi
          · intro h
            obtain ⟨x, hx, hs⟩ := h 0 v rfl
            cases hx
            exact ⟨hs, fun i w hi => h (i + 1) w hi⟩

/-- A value satisfies itself. -/
theorem subset_self : ∀ v : Value, v.distinct = true → specSubset v v = true := by
  refine Value.Cases.value ⟨?_, ?_, ?_, ?_, ?_, ?_⟩
  -- Four of the kinds of value compare by equality.
  · simp [specSubset]
  · simp [specSubset]
  · simp [specSubset]
  · simp [specSubset]
  · intro elems ih hd
    have hall := Value.distinctElems_iff.mp (by simpa [Value.distinct] using hd)
    have hself : elemsSubset elems elems = true := elemsSubset_iff.mpr fun i v hi =>
      ⟨v, hi, ih v (List.mem_of_getElem? hi) (hall v (List.mem_of_getElem? hi))⟩
    simpa [specSubset] using hself
  · intro fields ih hd
    have hdf : Value.distinctFields fields = true := by simpa [Value.distinct] using hd
    have hself : fieldsSubset fields fields = true := by
      apply fieldsSubset_iff.mpr
      intro k v hmem
      rw [Value.lookup_of_mem hdf hmem]
      exact ih k v hmem (Value.distinct_of_mem hdf hmem)
    simpa [specSubset] using hself

/-! ### The overlay -/

mutual

/-- The Git value laid over the live one. -/
def overlay (git live : Value) : Value :=
  match git, live with
  | .object g, .object l => .object (overlayFields g l)
  | .array g, .array l => if g.length ≤ l.length then .array (overlayElems g l) else .array g
  | git, _ => git

/-- Every declared field replaces the live one, or is inserted where the live object has
none, unless it is a zero value: that stays absent. -/
def overlayFields (g l : List (String × Value)) : List (String × Value) :=
  match g with
  | [] => l
  | (k, v) :: rest =>
      let l' := overlayFields rest l
      match l.lookup k with
      | some lv => Value.setField l' k (overlay v lv)
      | none => if isK8sZeroValue v then l' else Value.setField l' k v

/-- The declared elements over the first live ones, which are at least as many. -/
def overlayElems (g l : List Value) : List Value :=
  match g, l with
  | v :: vs, lv :: lvs => overlay v lv :: overlayElems vs lvs
  | _, l => l

end

/-! ### A satisfied Git value changes nothing -/

/-- Satisfied elements are laid over the live ones without a change, by induction along the list. -/
theorem overlayElems_of_subset {g l : List Value}
    (ih : ∀ v ∈ g, ∀ lv, specSubset v lv = true → overlay v lv = lv)
    (h : elemsSubset g l = true) : g.length ≤ l.length ∧ overlayElems g l = l := by
  induction g generalizing l with
  | nil => simp [overlayElems]
  | cons v vs ihg =>
      cases l with
      | nil => simp [elemsSubset] at h
      | cons lv lvs =>
          simp only [elemsSubset, Bool.and_eq_true] at h
          have hrest := ihg (fun w hw => ih w (List.mem_cons_of_mem _ hw)) h.2
          have hv := ih v List.mem_cons_self lv h.1
          simp [overlayElems, hv, hrest.2, hrest.1]

/-- The same of satisfied fields. -/
theorem overlayFields_of_subset {g l : List (String × Value)}
    (ih : ∀ k v, (k, v) ∈ g → ∀ lv, specSubset v lv = true → overlay v lv = lv)
    (h : fieldsSubset g l = true) : overlayFields g l = l := by
  induction g with
  | nil => simp [overlayFields]
  | cons f rest ihg =>
      obtain ⟨k, v⟩ := f
      simp only [fieldsSubset, Bool.and_eq_true] at h
      have hrest := ihg (fun k w hw => ih k w (List.mem_cons_of_mem _ hw)) h.2
      cases hl : l.lookup k with
      | none =>
          have hz : isK8sZeroValue v = true := by simpa [hl] using h.1
          simp [overlayFields, hl, hz, hrest]
      | some lv =>
          have hv := ih k v List.mem_cons_self lv (by simpa [hl] using h.1)
          -- What is written is what is there.
          simp [overlayFields, hl, hv, hrest, Value.setField_of_lookup hl]

/-- A Git value that the live one satisfies changes nothing when it is laid over it. By mutual
recursion on the Git value. -/
theorem overlay_of_subset : ∀ g l : Value, specSubset g l = true → overlay g l = l := by
  refine Value.Cases.value ⟨?_, ?_, ?_, ?_, ?_, ?_⟩
  · simp +contextual [specSubset, overlay]
  · simp +contextual [specSubset, overlay]
  · simp +contextual [specSubset, overlay]
  · simp +contextual [specSubset, overlay]
  · intro elems ih l h
    -- An array overlays an array only. What else is live is no superset of it.
    cases l with
    | array lelems =>
        have hl := overlayElems_of_subset ih (by simpa [specSubset] using h)
        simp [overlay, hl.1, hl.2]
    | _ => simp [specSubset] at h
  · intro fields ih l h
    cases l with
    -- Of an object only the fields that the manifest names are overlaid.
    | object lfields =>
        simp [overlay, overlayFields_of_subset ih (by simpa [specSubset] using h)]
    | _ => simp [specSubset] at h

/-! ### An overlay that changes nothing is a satisfied Git value -/

/-- What the overlay leaves under a declared key. -/
def laid (v : Value) : Option Value → Option Value
  | none => if isK8sZeroValue v then none else some v
  | some lv => some (overlay v lv)

/-- A key that Git does not have is as it was. -/
theorem lookup_overlayFields_of_notMem {g l : List (String × Value)} {key : String}
    (h : key ∉ g.map Prod.fst) : (overlayFields g l).lookup key = l.lookup key := by
  induction g with
  | nil => simp [overlayFields]
  | cons f rest ih =>
      obtain ⟨k, v⟩ := f
      simp only [List.map_cons, List.mem_cons, not_or] at h
      have hrest := ih h.2
      cases hl : l.lookup k with
      | none =>
          by_cases hz : isK8sZeroValue v = true
          · simp [overlayFields, hl, hz, hrest]
          · simp [overlayFields, hl, hz, Value.lookup_setField_of_ne _ _ h.1, hrest]
      | some lv => simp [overlayFields, hl, Value.lookup_setField_of_ne _ _ h.1, hrest]

/-- A key that Git has holds what is laid over the live field of that key. The keys of the Git
object have to be distinct here, for the last one would win. -/
theorem lookup_overlayFields {g l : List (String × Value)} {k : String} {v : Value}
    (hd : Value.distinctFields g = true) (h : (k, v) ∈ g) :
    (overlayFields g l).lookup k = laid v (l.lookup k) := by
  induction g with
  | nil => cases h
  | cons f rest ih =>
      obtain ⟨m, w⟩ := f
      simp only [Value.distinctFields, Bool.and_eq_true, decide_eq_true_eq] at hd
      rcases List.mem_cons.mp h with heq | hrest
      · cases heq
        -- The fields after it do not touch the key.
        have hfree := lookup_overlayFields_of_notMem (l := l) hd.1
        cases hl : l.lookup k with
        | none =>
            by_cases hz : isK8sZeroValue v = true
            · simp [overlayFields, laid, hl, hz, hfree]
            · simp [overlayFields, laid, hl, hz, Value.lookup_setField_self]
        | some lv => simp [overlayFields, laid, hl, Value.lookup_setField_self]
      · have hne : k ≠ m := by
          intro heq
          exact hd.1 (heq ▸ List.mem_map_of_mem (f := Prod.fst) hrest)
        have hk := ih hd.2.2 hrest
        cases hl : l.lookup m with
        | none =>
            by_cases hz : isK8sZeroValue w = true
            · simp [overlayFields, hl, hz, hk]
            · simp [overlayFields, hl, hz, Value.lookup_setField_of_ne _ _ hne, hk]
        | some lv => simp [overlayFields, hl, Value.lookup_setField_of_ne _ _ hne, hk]

/-- When an overlay of elements changes nothing, each Git element is satisfied. -/
theorem elemsSubset_of_same {g l : List Value}
    (ih : ∀ v ∈ g, v.distinct = true → ∀ lv, (overlay v lv).same lv = true →
      specSubset v lv = true)
    (hd : ∀ v ∈ g, v.distinct = true) (hlen : g.length ≤ l.length)
    (h : Value.sameElems (overlayElems g l) l = true) : elemsSubset g l = true := by
  induction g generalizing l with
  | nil => simp [elemsSubset]
  | cons v vs ihg =>
      cases l with
      | nil => simp at hlen
      | cons lv lvs =>
          simp only [overlayElems, Value.sameElems, Bool.and_eq_true] at h
          have hv := ih v List.mem_cons_self (hd v List.mem_cons_self) lv h.1
          have hrest := ihg (fun w hw => ih w (List.mem_cons_of_mem _ hw))
            (fun w hw => hd w (List.mem_cons_of_mem _ hw)) (by simpa using hlen) h.2
          simp [elemsSubset, hv, hrest]

/-- When an overlay of fields changes nothing, each Git field is satisfied. -/
theorem fieldsSubset_of_same {g l : List (String × Value)}
    (ih : ∀ k v, (k, v) ∈ g → v.distinct = true → ∀ lv, (overlay v lv).same lv = true →
      specSubset v lv = true)
    (hd : Value.distinctFields g = true)
    (h : Value.sameFields (overlayFields g l) l = true) : fieldsSubset g l = true := by
  apply fieldsSubset_iff.mpr
  intro k v hmem
  have hlaid := lookup_overlayFields (l := l) hd hmem
  cases hl : l.lookup k with
  | none =>
      show isK8sZeroValue v = true
      by_contra hz
      -- The value would have been inserted, and the live object has no such field.
      rw [hl, laid, if_neg hz] at hlaid
      obtain ⟨w, hw, -⟩ := Value.sameFields_iff.mp h k v (Value.mem_of_lookup hlaid)
      simp [hl] at hw
  | some lv =>
      show specSubset v lv = true
      rw [hl, laid] at hlaid
      obtain ⟨w, hw, hs⟩ := Value.sameFields_iff.mp h k _ (Value.mem_of_lookup hlaid)
      cases hl.symm.trans hw
      exact ih k v hmem (Value.distinct_of_mem hd hmem) lv hs

/-- An overlay that changes nothing was satisfied. By recursion on the Git value, where two values
are the same up to the order of their fields. -/
theorem subset_of_same :
    ∀ g : Value, g.distinct = true → ∀ l, (overlay g l).same l = true →
      specSubset g l = true := by
  refine Value.Cases.value ⟨?_, ?_, ?_, ?_, ?_, ?_⟩
  · simp [specSubset, overlay, Value.same]
  · simp [specSubset, overlay, Value.same]
  · simp [specSubset, overlay, Value.same]
  · simp [specSubset, overlay, Value.same]
  · intro elems ih hd l h
    cases l with
    | array lelems =>
        -- No longer array than the live one can be a subset of it.
        have hall := Value.distinctElems_iff.mp (by simpa [Value.distinct] using hd)
        by_cases hlen : elems.length ≤ lelems.length
        · have hs : Value.sameElems (overlayElems elems lelems) lelems = true := by
            simpa [overlay, hlen, Value.same] using h
          simpa [specSubset] using elemsSubset_of_same ih hall hlen hs
        · -- A longer array replaces the live one, and is not equal to it.
          have hs : Value.sameElems elems lelems = true := by
            simpa [overlay, hlen, Value.same] using h
          exact absurd (Value.length_eq_of_sameElems hs).le hlen
    | _ => simp [overlay, Value.same] at h
  · intro fields ih hd l h
    cases l with
    | object lfields =>
        have hs : Value.sameFields (overlayFields fields lfields) lfields = true := by
          simp only [overlay, Value.same, Bool.and_eq_true] at h
          exact h.2
        simpa [specSubset] using fieldsSubset_of_same ih (by simpa [Value.distinct] using hd) hs
    | _ => simp [overlay, Value.same] at h

/-- **The comparison is the overlay.** The Git value is satisfied exactly when laying it
over the live value changes nothing. -/
theorem specSubset_iff_overlay_same (g l : Json) :
    specSubset g l = true ↔ (overlay g.val l.val).same l = true := by
  constructor
  · intro h
    rw [overlay_of_subset g.val l.val h]
    exact Value.same_self l.val l.property
  · exact subset_of_same g.val g.property l.val

end Drift

end LeanCd
