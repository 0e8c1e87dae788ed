import LeanCd.Calm
import LeanCd.Health

/-!
# `LeanCd.Proofs.ProbeStaleness`: when the probe's age limit is the documented one

A sync is documented to be stale when it is older than `poll_interval` times
`health_stale_factor`. `run_health` multiplies the whole seconds of the interval only. Nothing
overflows (`toNat_staleThreshold`), but the part of the interval below a second is lost, and with
it the factor's worth of it. `Truncated` is an age between the two limits, and
`runHealth_correct_iff` says that the probe is wrong for these ages and for no other.

The age is computed from two epochs with a difference that saturates at zero, and the limit by a
product that saturates at the bound of a word. Both are exact for every time that a clock can
show, so the truncation of the interval is the only difference that is left.
-/

set_option autoImplicit false

namespace LeanCd.Health

variable {sc : Scopes} {env : Env sc} {cfg : ProbeConfig} {w v : World sc}

/-- The seconds since the last sync, zero for a sync in the future. -/
def age (epoch now : UInt64) : Nat := now.toNat - epoch.toNat

/-- The age is more than the interval times the factor, in nanoseconds. -/
def Exceeds (cfg : ProbeConfig) (epoch now : UInt64) : Prop :=
  cfg.pollInterval.toNanos * cfg.healthStaleFactor.toNat < age epoch now * second

/-- The probe says stale exactly when the age exceeds the limit, and fresh otherwise. -/
def Correct (cfg : ProbeConfig) (epoch now : UInt64) (status : HealthStatus) : Prop :=
  (status = .stale ↔ Exceeds cfg epoch now) ∧ (status = .fresh ↔ ¬ Exceeds cfg epoch now)

/-- The age is more than the factor times the whole seconds of the interval, and not more
than the factor times the interval. -/
def Truncated (cfg : ProbeConfig) (epoch now : UInt64) : Prop :=
  cfg.pollInterval.secs.toNat * cfg.healthStaleFactor.toNat < age epoch now ∧
    age epoch now * second ≤ cfg.pollInterval.toNanos * cfg.healthStaleFactor.toNat

/-- The second the clock shows at the next interaction. -/
def epochAt (env : Env sc) (w : World sc) : UInt64 := UInt64.ofNat (env.wallClock w.step / second)

/-- The threshold saturates at the largest word, which no age exceeds. -/
theorem toNat_staleThreshold (cfg : ProbeConfig) : (staleThreshold cfg).toNat =
    min (cfg.pollInterval.secs.toNat * cfg.healthStaleFactor.toNat) (2 ^ 64 - 1) := by
  rw [staleThreshold, Word.toNat_saturatingMul, UInt32.toNat_toUInt64]

/-- The threshold of the code against an age, in whole numbers. Both sides saturate, and below the
bound of a word they are exact. -/
theorem threshold_lt_iff (epoch now : UInt64) :
    staleThreshold cfg < Word.saturatingSub now epoch ↔
      cfg.pollInterval.secs.toNat * cfg.healthStaleFactor.toNat < age epoch now := by
  have hnow := now.toNat_lt
  rw [UInt64.lt_iff_toNat_lt, toNat_staleThreshold, Word.toNat_saturatingSub]
  unfold age
  omega

/-- The limit of the code is never above the documented one. -/
theorem Exceeds.lt {epoch now : UInt64} (h : Exceeds cfg epoch now) :
    cfg.pollInterval.secs.toNat * cfg.healthStaleFactor.toNat < age epoch now := by
  have hle : cfg.pollInterval.secs.toNat * cfg.healthStaleFactor.toNat * second ≤
      cfg.pollInterval.toNanos * cfg.healthStaleFactor.toNat := by
    rw [Nat.mul_right_comm]
    exact Nat.mul_le_mul_right _ (Nat.le_add_right _ _)
  exact Nat.lt_of_mul_lt_mul_right (Nat.lt_of_le_of_lt hle h)

/-- A state without an error that has an epoch is stale or fresh, by its age alone. -/
theorem classifyHealth_synced {s : State} {epoch : UInt64} (herror : s.lastError = none)
    (hepoch : s.lastSyncEpoch = some epoch) (now threshold : UInt64) :
    classifyHealth (some s) now threshold =
      if threshold < Word.saturatingSub now epoch then .stale else .fresh := by
  simp only [classifyHealth, herror, hepoch]
  rfl

/-- The verdict is right exactly when the truncation of the interval makes no difference for this
age. -/
theorem classifyHealth_correct_iff {s : State} {epoch : UInt64} (herror : s.lastError = none)
    (hepoch : s.lastSyncEpoch = some epoch) (now : UInt64) :
    Correct cfg epoch now (classifyHealth (some s) now (staleThreshold cfg)) ↔
      ¬ Truncated cfg epoch now := by
  rw [classifyHealth_synced herror hepoch]
  unfold Correct Truncated
  by_cases hexceeds : Exceeds cfg epoch now
  · -- Above the documented limit the code is above its own.
    have hlt := hexceeds.lt
    have hnot : ¬ age epoch now * second ≤
        cfg.pollInterval.toNanos * cfg.healthStaleFactor.toNat := Nat.not_le.mpr hexceeds
    rw [if_pos ((threshold_lt_iff epoch now).mpr hlt)]
    simp [hexceeds, hnot]
  · have hle : age epoch now * second ≤
        cfg.pollInterval.toNanos * cfg.healthStaleFactor.toNat := Nat.not_lt.mp hexceeds
    -- Between the two limits the code is stale and the documented limit is not reached.
    by_cases hlt : cfg.pollInterval.secs.toNat * cfg.healthStaleFactor.toNat < age epoch now
    · rw [if_pos ((threshold_lt_iff epoch now).mpr hlt)]
      simp [hexceeds, hlt, hle]
    -- Below both limits neither is.
    · rw [if_neg fun h => hlt ((threshold_lt_iff epoch now).mp h)]
      simp [hexceeds, hlt]

/-- With a state that is read, without an error and with an epoch, the probe answers as documented
exactly when the age does not lie between the two limits. Its threshold is exact up to the
largest word. -/
theorem runHealth_correct_iff {s : State} {epoch : UInt64}
    (hread : State.read env w = .ok (some s) v) (herror : s.lastError = none)
    (hepoch : s.lastSyncEpoch = some epoch) :
    ∃ status t, runHealth env cfg w = .ok status t ∧
      (Correct cfg epoch (epochAt env v) status ↔ ¬ Truncated cfg epoch (epochAt env v)) ∧
      (staleThreshold cfg).toNat =
        min (cfg.pollInterval.secs.toNat * cfg.healthStaleFactor.toNat) (2 ^ 64 - 1) :=
  ⟨_, _, Act.bind_ok hread, classifyHealth_correct_iff herror hepoch _,
    toNat_staleThreshold cfg⟩

/-- Half a second between passes, and ten of them until a sync is stale. -/
def halfSecond : ProbeConfig := ⟨⟨0, 500000000, by decide⟩, 10⟩

/-- A clock that shows the second 1001. -/
def probeEnv : Env .namespacedOnly := { Env.idle _ with wallClock := fun _ => 1001 * second }

/-- A sync without an error at the second 1000. -/
def probeState : State := { State.default with lastSyncEpoch := some 1000 }

/-- The world with that state. -/
def probeWorld : World .namespacedOnly := .fresh ∅ (some probeState.toData)

/-- The example's state is read back. -/
theorem read_probeState : State.read probeEnv probeWorld =
    .ok (some probeState) (Act.state (State.read probeEnv probeWorld)) := by
  have hread : State.read probeEnv probeWorld = .ok (some (State.fromData probeState.toData))
      (Act.state (State.read probeEnv probeWorld)) := rfl
  rwa [State.fromData_toData] at hread

/-- One second after a sync the probe says stale, with a documented limit of five seconds. -/
theorem halfSecond_stale :
    ∃ t, runHealth probeEnv halfSecond probeWorld = .ok .stale t ∧
      probeState.lastError = none ∧ probeState.lastSyncEpoch = some 1000 ∧
        ¬ Correct halfSecond 1000 1001 .stale := by
  refine ⟨_, Act.bind_ok read_probeState, rfl, rfl, ?_⟩
  unfold Correct Exceeds
  decide

/-- A minute between passes: the two limits are the same. -/
def oneMinute : ProbeConfig := ⟨{ Duration.zero with secs := 60 }, 10⟩

/-- An interval of whole minutes is not truncated, so the probe is right. -/
theorem runHealth_correct_oneMinute :
    ∃ status t, runHealth probeEnv oneMinute probeWorld = .ok status t ∧
      (Correct oneMinute 1000 (epochAt probeEnv (Act.state (State.read probeEnv probeWorld)))
          status ↔
        ¬ Truncated oneMinute 1000
          (epochAt probeEnv (Act.state (State.read probeEnv probeWorld)))) ∧
      (staleThreshold oneMinute).toNat =
        min (oneMinute.pollInterval.secs.toNat * oneMinute.healthStaleFactor.toNat)
          (2 ^ 64 - 1) :=
  runHealth_correct_iff read_probeState rfl rfl

end LeanCd.Health
