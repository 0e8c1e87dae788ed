import Mathlib.Data.Rat.Defs
import LeanCd.Lib.Text

/-!
# `LeanCd.Value`: untyped JSON values

`serde_json::Value`, the form in which every manifest and every live object is
held. Integers and floats are kept apart, as `serde_json::Number` keeps them: a
float never equals an integer. A finite float is the rational it denotes, so
that equality of floats is equality of rationals.

An object is the list of its fields. A lookup takes the first field of a name.

`Value.Cases` and the recursors beside it give an induction over values that reaches the elements
of arrays and the fields of objects. `get` and `field` look one name up. The accessors such as
`asStr` answer for their own constructor only, as those of the crate do.
-/

set_option autoImplicit false

namespace LeanCd

/-- `serde_json::Number`: an integer in the `u64` or `i64` range, or a finite float. -/
inductive Number where
  | int (i : Int)
  | float (q : Rat)
deriving DecidableEq

/-- `serde_json::Value`. -/
inductive Value where
  | null
  | bool (b : Bool)
  | number (n : Number)
  | string (s : String)
  | array (elems : List Value)
  | object (fields : List (String × Value))

namespace Value

mutual

/-- Equality of values is decided constructor by constructor. -/
def decEq : (a b : Value) → Decidable (a = b)
  | .null, .null => isTrue rfl
  | .bool a, .bool b => decidable_of_iff (a = b) (by simp)
  | .number a, .number b => decidable_of_iff (a = b) (by simp)
  | .string a, .string b => decidable_of_iff (a = b) (by simp)
  | .array a, .array b =>
      match decEqElems a b with
      | isTrue h => isTrue (by rw [h])
      | isFalse h => isFalse (by simpa using h)
  | .object a, .object b =>
      match decEqFields a b with
      | isTrue h => isTrue (by rw [h])
      | isFalse h => isFalse (by simpa using h)
  | .null, .bool _ => isFalse nofun
  | .null, .number _ => isFalse nofun
  | .null, .string _ => isFalse nofun
  | .null, .array _ => isFalse nofun
  | .null, .object _ => isFalse nofun
  | .bool _, .null => isFalse nofun
  | .bool _, .number _ => isFalse nofun
  | .bool _, .string _ => isFalse nofun
  | .bool _, .array _ => isFalse nofun
  | .bool _, .object _ => isFalse nofun
  | .number _, .null => isFalse nofun
  | .number _, .bool _ => isFalse nofun
  | .number _, .string _ => isFalse nofun
  | .number _, .array _ => isFalse nofun
  | .number _, .object _ => isFalse nofun
  | .string _, .null => isFalse nofun
  | .string _, .bool _ => isFalse nofun
  | .string _, .number _ => isFalse nofun
  | .string _, .array _ => isFalse nofun
  | .string _, .object _ => isFalse nofun
  | .array _, .null => isFalse nofun
  | .array _, .bool _ => isFalse nofun
  | .array _, .number _ => isFalse nofun
  | .array _, .string _ => isFalse nofun
  | .array _, .object _ => isFalse nofun
  | .object _, .null => isFalse nofun
  | .object _, .bool _ => isFalse nofun
  | .object _, .number _ => isFalse nofun
  | .object _, .string _ => isFalse nofun
  | .object _, .array _ => isFalse nofun

/-- Equality of array elements. -/
def decEqElems : (a b : List Value) → Decidable (a = b)
  | [], [] => isTrue rfl
  | [], _ :: _ => isFalse nofun
  | _ :: _, [] => isFalse nofun
  | a :: as, b :: bs =>
      match decEq a b, decEqElems as bs with
      | isTrue h, isTrue hs => isTrue (by rw [h, hs])
      | isFalse h, _ => isFalse (by simp [h])
      | _, isFalse hs => isFalse (by simp [hs])

/-- Equality of object fields. -/
def decEqFields : (a b : List (String × Value)) → Decidable (a = b)
  | [], [] => isTrue rfl
  | [], _ :: _ => isFalse nofun
  | _ :: _, [] => isFalse nofun
  | (k, a) :: as, (l, b) :: bs =>
      if hk : k = l then
        match decEq a b, decEqFields as bs with
        | isTrue h, isTrue hs => isTrue (by rw [hk, h, hs])
        | isFalse h, _ => isFalse (by simp [h])
        | _, isFalse hs => isFalse (by simp [hs])
      else isFalse (by simp [hk])

end

instance : DecidableEq Value := decEq

section
variable {motive : Value → Prop}

/-- The six cases of an induction over a value. -/
structure Cases (motive : Value → Prop) : Prop where
  null : motive .null
  bool : ∀ b, motive (.bool b)
  number : ∀ n, motive (.number n)
  string : ∀ s, motive (.string s)
  array : ∀ elems, (∀ v ∈ elems, motive v) → motive (.array elems)
  object : ∀ fields, (∀ k v, (k, v) ∈ fields → motive v) → motive (.object fields)

mutual

/-- Induction over a value: an array has the property when its elements have it, and an
object when the values of its fields have it. -/
theorem Cases.value (cases : Cases motive) : ∀ v : Value, motive v
  | .null => cases.null
  | .bool b => cases.bool b
  | .number n => cases.number n
  | .string s => cases.string s
  | .array elems => cases.array elems (cases.elems elems)
  | .object fields => cases.object fields (cases.fields fields)

/-- What the cases prove of values they prove of all elements of a list, by recursion along the
list. -/
theorem Cases.elems (cases : Cases motive) : ∀ elems : List Value, ∀ v ∈ elems, motive v
  | [] => by simp
  | w :: rest => List.forall_mem_cons.mpr ⟨cases.value w, cases.elems rest⟩

/-- The same of the values of all fields of an object. -/
theorem Cases.fields (cases : Cases motive) :
    ∀ fields : List (String × Value), ∀ k v, (k, v) ∈ fields → motive v
  | [] => by simp
  | (l, w) :: rest => by
      intro k v hmem
      rcases List.mem_cons.mp hmem with heq | hrest
      · cases heq
        exact cases.value w
      · exact cases.fields rest k v hrest

end

end

/-- The field list of an object, `Value::as_object`. -/
def asObject : Value → Option (List (String × Value))
  | .object fields => some fields
  | _ => none

/-- The elements of an array, `Value::as_array`. -/
def asArray : Value → Option (List Value)
  | .array elems => some elems
  | _ => none

/-- `Value::as_str`. -/
def asStr : Value → Option String
  | .string s => some s
  | _ => none

/-- `Value::as_bool`. -/
def asBool : Value → Option Bool
  | .bool b => some b
  | _ => none

/-- `Value::as_i64`: an integer inside the `i64` range; a float is none. -/
def asI64 : Value → Option Int
  | .number (.int i) => if Text.i64Min ≤ i ∧ i ≤ Text.i64Max then some i else none
  | _ => none

/-- `Value::is_null`. -/
def isNull : Value → Bool
  | .null => true
  | _ => false

/-- The first field of that name, `Map::get` on an object's fields. -/
def field (fields : List (String × Value)) (key : String) : Option Value := fields.lookup key

/-- `Value::get` with a key: a field of an object. Other values have none. -/
def get (v : Value) (key : String) : Option Value := v.asObject.bind (field · key)

/-- Replace the field of that name, or append it, `Map::insert`. -/
def setField (fields : List (String × Value)) (key : String) (v : Value) :
    List (String × Value) :=
  match fields with
  | [] => [(key, v)]
  | (k, w) :: rest => if k = key then (k, v) :: rest else (k, w) :: setField rest key v

/-- A field of an object is looked up in its list of fields, of which the first with the key counts.
-/
@[simp] theorem get_object (fields : List (String × Value)) (key : String) :
    (Value.object fields).get key = fields.lookup key := rfl

/-- A written field is read back. -/
theorem lookup_setField_self (fields : List (String × Value)) (key : String) (v : Value) :
    (setField fields key v).lookup key = some v := by
  induction fields with
  | nil => simp [setField]
  | cons f rest ih =>
      obtain ⟨k, w⟩ := f
      unfold setField
      by_cases h : k = key
      · simp [h]
      · have hne : (key == k) = false := by simpa using fun e => h e.symm
        simp [h, List.lookup_cons, hne, ih]

/-- A write leaves the other fields alone. -/
theorem lookup_setField_of_ne (fields : List (String × Value)) {key other : String}
    (v : Value) (hne : other ≠ key) :
    (setField fields key v).lookup other = fields.lookup other := by
  induction fields with
  | nil =>
      have hko : (other == key) = false := by simpa using hne
      simp [setField, List.lookup_cons, hko]
  | cons f rest ih =>
      obtain ⟨k, w⟩ := f
      unfold setField
      by_cases h : k = key
      · subst h
        have hko : (other == k) = false := by simpa using hne
        simp [List.lookup_cons, hko]
      · simp [h, List.lookup_cons, ih]

end Value

end LeanCd
