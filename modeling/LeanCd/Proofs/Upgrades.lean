import LeanCd.State

/-!
# `LeanCd.Proofs.Upgrades`: states written by older versions

`State` grew by the fields `apply_failures` and `health`. A ConfigMap of an older version
lacks them. `apply_failures` has a default for this case. `health` has none, and a state
without it does not decode. `fromData` then answers with the default state, and the applied
set is lost.

`fromData_without_iff` says when a state survives the removal of some of the two fields: when
`health` stays, or when nothing but defaults would be kept.

The order of the fields does not matter to the decoder, and fields that it does not know are
skipped. So what an older version wrote is described by what is missing.
-/

set_option autoImplicit false

namespace LeanCd

/-- A field that an older version does not write. -/
inductive LaterField where
  | applyFailures
  | health
deriving DecidableEq

namespace LaterField

/-- The name of the field in JSON. -/
def key : LaterField → String
  | applyFailures => "apply_failures"
  | health => "health"

/-- The names of the fields a version does not write. -/
def keysOf (removed : LaterField → Bool) : List String :=
  ([applyFailures, health].filter removed).map key

end LaterField

/-- The object without the fields of these names. Other values have none. -/
def Value.without (keys : List String) : Value → Value
  | .object fields => .object (fields.filter fun f => decide (f.1 ∉ keys))
  | v => v

namespace State

/-- The state with its removed fields at their defaults. -/
def withDefaults (s : State) (removed : LaterField → Bool) : State :=
  { s with
    applyFailures := if removed .applyFailures then [] else s.applyFailures
    health := if removed .health then .default else s.health }

/-- What an older version has written. -/
def legacy (s : State) (removed : LaterField → Bool) : Value :=
  s.toData.without (LaterField.keysOf removed)

/-- The fields that a version writes after `baseFields`. -/
def laterFields (s : State) (removed : LaterField → Bool) : List (String × Value) :=
  (if removed .applyFailures then [] else
    [("apply_failures", .array (s.applyFailures.map ResourceKey.toValue))]) ++
  (if removed .health then [] else [("health", s.health.toValue)])

/-- The blob of an older version: the base fields, and the later ones that were not removed. -/
theorem legacy_eq (s : State) (removed : LaterField → Bool) :
    s.legacy removed = .object (s.baseFields ++ s.laterFields removed) := by
  show Value.object ((s.baseFields ++ s.laterFields fun _ => false).filter
    fun f => decide (f.1 ∉ LaterField.keysOf removed)) = _
  congr 1
  cases hf : removed .applyFailures <;> cases hh : removed .health <;>
    simp [baseFields, laterFields, LaterField.keysOf, LaterField.key, hf, hh]

/-- A blob without a health summary is not decoded. -/
theorem decode_without_health {fields : List (String × Value)}
    (hhealth : Value.field fields "health" = none) : decode (.object fields) = none := by
  cases hfailures : Value.field fields "apply_failures" with
  | none => simp [decode, Value.asObject, hhealth, hfailures]
  | some v => simp [decode, Value.asObject, hhealth, hfailures]

/-- A state decodes without its apply failures, and not without its health. -/
theorem decode_legacy (s : State) (removed : LaterField → Bool) :
    decode (s.legacy removed) =
      if removed .health then none else some (s.withDefaults removed) := by
  -- The state was written without the fields that came later.
  have hbase := hasBase_baseFields s (s.laterFields removed)
  rw [legacy_eq]
  unfold laterFields withDefaults at *
  -- Without the health there is nothing to decode.
  cases hhealth : removed .health with
  | true =>
      refine decode_without_health ?_
      cases removed .applyFailures <;> rfl
  | false =>
      rw [hhealth] at hbase
      -- Without the failures an empty list stands for them.
      cases hfailures : removed .applyFailures with
      | true =>
          rw [hfailures] at hbase
          exact (hbase.decode_with_health rfl).1 rfl
      | false =>
          rw [hfailures] at hbase
          exact (hbase.decode_with_health rfl).2 rfl

/-- A state with health decodes, and one without is the default state. -/
theorem fromData_legacy (s : State) (removed : LaterField → Bool) :
    fromData (s.legacy removed) =
      if removed .health then .default else s.withDefaults removed := by
  unfold fromData
  rw [decode_legacy]
  split <;> rfl

/-- Every state is read back as it was written. A state that lacks some of the later fields
is read back with these fields at their defaults exactly when it has its health, or the
other fields are at their defaults too. -/
theorem state_survives_iff (s : State) :
    fromData s.toData = s ∧ ∀ removed : LaterField → Bool,
      (fromData (s.legacy removed) = s.withDefaults removed ↔
        removed .health = false ∨ s.withDefaults removed = .default) := by
  refine ⟨fromData_toData s, fun removed => ?_⟩
  rw [fromData_legacy]
  cases removed .health with
  | false => simp
  | true => simp [eq_comm]

/-- A state with one applied resource. -/
def synced : State :=
  { State.default with
    lastSha := some "abc", syncCount := 1, applied := [⟨"", "v1", "ConfigMap", some "prod", "c"⟩] }

/-- Without its health the state is lost, and with it the applied set. -/
theorem synced_without_health :
    fromData (synced.legacy fun f => decide (f = .health)) = .default ∧
      (synced.withDefaults fun f => decide (f = .health)) = synced ∧
      synced.applied ≠ State.default.applied := by
  decide

end State

end LeanCd
