import LeanCd.KubeUtil

/-!
# `LeanCd.State`: the sync state in its ConfigMap

`state.rs`. Counters have the width of their Rust types. The JSON text of a state
is given by its value: the keys are the field names, an absent `Option` field is
`None`, `apply_failures` has a default, and every other absent field fails the
decoding, which then yields the default state.

A state is written as a whole. `decode` follows the derived deserializer: it takes the fields of
an object by name and refuses an object that lacks one without a default. A sequence in their
place, which the derived code would take as well, is never written and is not modelled. `read`
takes a missing ConfigMap for no state, and any other failure for an error.
-/

set_option autoImplicit false

namespace LeanCd

/-- `state::HealthSummary`. -/
structure HealthSummary where
  worst : Option String
  worstMessage : Option String
  healthy : UInt64
  progressing : UInt64
  degraded : UInt64
  suspended : UInt64
  missing : UInt64
  unknown : UInt64
deriving DecidableEq

/-- `state::State`. -/
structure State where
  lastSha : Option String
  lastSyncEpoch : Option UInt64
  syncCount : UInt64
  lastError : Option String
  driftCount : UInt64
  managedCount : UInt64
  applied : List ResourceKey
  applyFailures : List ResourceKey
  health : HealthSummary
deriving DecidableEq

/-- `HealthSummary::default`. -/
def HealthSummary.default : HealthSummary := ⟨none, none, 0, 0, 0, 0, 0, 0⟩

/-- `State::default`. -/
def State.default : State := ⟨none, none, 0, none, 0, 0, [], [], .default⟩

/-- `u64::saturating_add(1)`. -/
def saturatingSucc (n : UInt64) : UInt64 := if n = -1 then n else n + 1

/-! ### The JSON form -/

namespace Json

/-- An optional text. -/
def ofOptStr : Option String → Value
  | none => .null
  | some s => .string s

/-- A `u64` or a `usize`. -/
def ofU64 (n : UInt64) : Value := .number (.int n.toNat)

/-- An optional `u64`. -/
def ofOptU64 : Option UInt64 → Value
  | none => .null
  | some n => ofU64 n

/-- Decode an optional text field: absent or `null` is none. -/
def optStr : Option Value → Option (Option String)
  | none => some none
  | some .null => some none
  | some (.string s) => some (some s)
  | some _ => none

/-- Decode a text. -/
def str : Option Value → Option String
  | some (.string s) => some s
  | _ => none

/-- Decode a `u64` or a `usize`: an integer in range. -/
def u64 : Option Value → Option UInt64
  | some (.number (.int i)) =>
      if 0 ≤ i ∧ i ≤ Text.u64Max then some (UInt64.ofNat i.toNat) else none
  | _ => none

/-- Decode an optional `u64` field. -/
def optU64 : Option Value → Option (Option UInt64)
  | none => some none
  | some .null => some none
  | some v => (u64 (some v)).map some

/-- Decode every element of an array. -/
def elems {α : Type} (decode : Value → Option α) : List Value → Option (List α)
  | [] => some []
  | v :: rest => (decode v).bind fun a => (elems decode rest).map (a :: ·)

/-- Decode an array field. -/
def array {α : Type} (decode : Value → Option α) : Option Value → Option (List α)
  | some (.array vs) => elems decode vs
  | _ => none

/-- An optional text that was written as JSON is read back, the absent one as `null`. -/
@[simp] theorem optStr_ofOptStr (s : Option String) : optStr (some (ofOptStr s)) = some s := by
  cases s <;> rfl

/-- A 64-bit number that was written as JSON is read back. -/
@[simp] theorem u64_ofU64 (n : UInt64) : u64 (some (ofU64 n)) = some n := by
  have h : n.toNat < 2 ^ 64 := n.toNat_lt
  have hb : 0 ≤ (n.toNat : Int) ∧ (n.toNat : Int) ≤ Text.u64Max := by
    unfold Text.u64Max
    omega
  simp only [ofU64, u64, if_pos hb, Int.toNat_natCast, UInt64.ofNat_toNat]

/-- The same of an optional number. -/
@[simp] theorem optU64_ofOptU64 (n : Option UInt64) : optU64 (some (ofOptU64 n)) = some n := by
  cases n with
  | none => rfl
  | some n =>
      show (u64 (some (ofU64 n))).map some = some (some n)
      rw [u64_ofU64]
      rfl

/-- Decoding undoes encoding element by element. -/
theorem elems_map {α : Type} {decode : Value → Option α} {encode : α → Value}
    (h : ∀ a, decode (encode a) = some a) (as : List α) :
    elems decode (as.map encode) = some as := by
  induction as with
  | nil => rfl
  | cons a as ih => simp [elems, h, ih]

end Json

namespace ResourceKey

/-- The JSON form of a key. -/
def toValue (k : ResourceKey) : Value := .object
  [("group", .string k.group), ("version", .string k.version), ("kind", .string k.kind),
    ("namespace", Json.ofOptStr k.ns), ("name", .string k.name)]

/-- Decode a key. -/
def fromValue (v : Value) : Option ResourceKey := do
  let fields ← v.asObject
  let group ← Json.str (Value.field fields "group")
  let version ← Json.str (Value.field fields "version")
  let kind ← Json.str (Value.field fields "kind")
  let ns ← Json.optStr (Value.field fields "namespace")
  let name ← Json.str (Value.field fields "name")
  return { group, version, kind, ns, name }

/-- A key that was written as JSON is read back, with or without a namespace. -/
@[simp] theorem fromValue_toValue (k : ResourceKey) : fromValue k.toValue = some k := by
  simp [fromValue, toValue, Value.asObject, Value.field, List.lookup_cons, Json.str]

end ResourceKey

namespace HealthSummary

/-- The JSON form of a summary. -/
def toValue (h : HealthSummary) : Value := .object
  [("worst", Json.ofOptStr h.worst), ("worst_message", Json.ofOptStr h.worstMessage),
    ("healthy", Json.ofU64 h.healthy), ("progressing", Json.ofU64 h.progressing),
    ("degraded", Json.ofU64 h.degraded), ("suspended", Json.ofU64 h.suspended),
    ("missing", Json.ofU64 h.missing), ("unknown", Json.ofU64 h.unknown)]

/-- Decode a summary. -/
def fromValue (v : Value) : Option HealthSummary := do
  let fields ← v.asObject
  let worst ← Json.optStr (Value.field fields "worst")
  let worstMessage ← Json.optStr (Value.field fields "worst_message")
  let healthy ← Json.u64 (Value.field fields "healthy")
  let progressing ← Json.u64 (Value.field fields "progressing")
  let degraded ← Json.u64 (Value.field fields "degraded")
  let suspended ← Json.u64 (Value.field fields "suspended")
  let missing ← Json.u64 (Value.field fields "missing")
  let unknown ← Json.u64 (Value.field fields "unknown")
  return { worst, worstMessage, healthy, progressing, degraded, suspended, missing, unknown }

/-- The counts of a health summary are read back. -/
@[simp] theorem fromValue_toValue (h : HealthSummary) : fromValue h.toValue = some h := by
  simp [fromValue, toValue, Value.asObject, Value.field, List.lookup_cons]

end HealthSummary

namespace State

/-- `State::to_data`: the JSON form of a state. -/
def toData (s : State) : Value := .object
  [("last_sha", Json.ofOptStr s.lastSha), ("last_sync_epoch", Json.ofOptU64 s.lastSyncEpoch),
    ("sync_count", Json.ofU64 s.syncCount), ("last_error", Json.ofOptStr s.lastError),
    ("drift_count", Json.ofU64 s.driftCount), ("managed_count", Json.ofU64 s.managedCount),
    ("applied", .array (s.applied.map ResourceKey.toValue)),
    ("apply_failures", .array (s.applyFailures.map ResourceKey.toValue)),
    ("health", s.health.toValue)]

/-- Decode a state. The derived decoder also takes the fields of a struct as a sequence, in their
order. Nothing writes such a text, and none is decoded here. -/
def decode (v : Value) : Option State := do
  let fields ← v.asObject
  let lastSha ← Json.optStr (Value.field fields "last_sha")
  let lastSyncEpoch ← Json.optU64 (Value.field fields "last_sync_epoch")
  let syncCount ← Json.u64 (Value.field fields "sync_count")
  let lastError ← Json.optStr (Value.field fields "last_error")
  let driftCount ← Json.u64 (Value.field fields "drift_count")
  let managedCount ← Json.u64 (Value.field fields "managed_count")
  let applied ← Json.array ResourceKey.fromValue (Value.field fields "applied")
  -- `#[serde(default)]`: only an absent field takes the default.
  let applyFailures ←
    match Value.field fields "apply_failures" with
    | none => some []
    | some v => Json.array ResourceKey.fromValue (some v)
  let health ← (Value.field fields "health").bind HealthSummary.fromValue
  return { lastSha, lastSyncEpoch, syncCount, lastError, driftCount, managedCount, applied,
           applyFailures, health }

/-- `State::from_data`: a text that does not decode is the default state. -/
def fromData (v : Value) : State := (decode v).getD .default

/-- The fields that every version writes. -/
def baseFields (s : State) : List (String × Value) :=
  [("last_sha", Json.ofOptStr s.lastSha), ("last_sync_epoch", Json.ofOptU64 s.lastSyncEpoch),
    ("sync_count", Json.ofU64 s.syncCount), ("last_error", Json.ofOptStr s.lastError),
    ("drift_count", Json.ofU64 s.driftCount), ("managed_count", Json.ofU64 s.managedCount),
    ("applied", .array (s.applied.map ResourceKey.toValue))]

/-- The fields hold what every version writes. -/
structure HasBase (fields : List (String × Value)) (s : State) : Prop where
  lastSha : Value.field fields "last_sha" = some (Json.ofOptStr s.lastSha)
  lastSyncEpoch : Value.field fields "last_sync_epoch" = some (Json.ofOptU64 s.lastSyncEpoch)
  syncCount : Value.field fields "sync_count" = some (Json.ofU64 s.syncCount)
  lastError : Value.field fields "last_error" = some (Json.ofOptStr s.lastError)
  driftCount : Value.field fields "drift_count" = some (Json.ofU64 s.driftCount)
  managedCount : Value.field fields "managed_count" = some (Json.ofU64 s.managedCount)
  applied : Value.field fields "applied" = some (.array (s.applied.map ResourceKey.toValue))

/-- The fields that every version writes are found in the encoding of a state, whatever further
fields follow them. -/
theorem hasBase_baseFields (s : State) (rest : List (String × Value)) :
    HasBase (s.baseFields ++ rest) s := ⟨rfl, rfl, rfl, rfl, rfl, rfl, rfl⟩

/-- A state decodes with its health. Only its apply failures may be missing. -/
theorem HasBase.decode_with_health {fields : List (String × Value)} {s : State}
    (h : HasBase fields s) (hhealth : Value.field fields "health" = some s.health.toValue) :
    (Value.field fields "apply_failures" = none →
      decode (.object fields) = some { s with applyFailures := [] }) ∧
    (Value.field fields "apply_failures" =
        some (.array (s.applyFailures.map ResourceKey.toValue)) →
      decode (.object fields) = some s) := by
  have hkeys : ∀ keys : List ResourceKey, Json.array ResourceKey.fromValue
      (some (.array (keys.map ResourceKey.toValue))) = some keys :=
    Json.elems_map ResourceKey.fromValue_toValue
  have hhealth' : (Value.field fields "health").bind HealthSummary.fromValue = some s.health := by
    simp [hhealth]
  unfold decode
  simp only [Value.asObject, Option.bind_eq_bind, Option.bind_some, h.lastSha, h.lastSyncEpoch,
    h.syncCount, h.lastError, h.driftCount, h.managedCount, h.applied, Json.optStr_ofOptStr,
    Json.optU64_ofOptU64, Json.u64_ofU64, hkeys, hhealth']
  constructor
  · intro hfailures
    rw [hfailures]
    rfl
  · intro hfailures
    rw [hfailures]
    dsimp only
    rw [hkeys]
    rfl

/-- What was encoded is decoded: `state::read` returns what `state::write` stored. -/
@[simp] theorem decode_toData (s : State) : decode s.toData = some s :=
  ((hasBase_baseFields s _).decode_with_health rfl).2 rfl

/-- A written state is read back. -/
@[simp] theorem fromData_toData (s : State) : fromData s.toData = s := by
  simp [fromData]

/-! ### The ConfigMap -/

variable {sc : Scopes} (env : Env sc)

/-- The ConfigMap's text, or a 404. A ConfigMap without a `state` key holds `null`. -/
def serveGet : Pass sc Value := fun w =>
  match w.stateCm with
  | some v => .ok v w
  | none => .error (.kube notFound) w

/-- Store the ConfigMap's text. -/
def servePatch (v : Value) : Pass sc Unit :=
  modify fun w => { w with stateCm := some v, trace := .stateWritten v :: w.trace }

/-- `state::read`: `None` when the ConfigMap does not exist. -/
def read : Pass sc (Option State) := do
  match ← Act.attempt (call env .stateGet serveGet) with
  | .ok v => return some (fromData v)
  | .error (.kube e) => if e.code = some 404 then return none else throw (.kube e)
  | .error e => throw e

/-- `state::write`. -/
def write (s : State) : Pass sc Unit := call env .statePatch (servePatch s.toData)

end State

end LeanCd
