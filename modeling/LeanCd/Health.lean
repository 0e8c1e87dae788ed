import LeanCd.Lib.Duration
import LeanCd.Reconcile

/-!
# `LeanCd.Health`: the probe

`health.rs`: `leancd health` reads the persisted state and says whether the last pass was
recent and without an error. The resource health it prints besides and the exit codes are left
out.

The probe has three verdicts. An error that was recorded by the last pass is one, whatever its
age. Without an error the age of the last sync decides, against a limit that is computed from the
configuration. Where there is no sync yet, there is no age.
-/

set_option autoImplicit false

namespace LeanCd.Health

/-- `health::HealthStatus`. -/
inductive HealthStatus where
  | never
  | fresh
  | stale
  | failing
deriving DecidableEq

/-- The fields of `config::Config` the probe reads. -/
structure ProbeConfig where
  pollInterval : Duration
  healthStaleFactor : UInt32

/-- `classify_health`: an error comes before the age of the state. -/
def classifyHealth (state : Option State) (now staleThreshold : UInt64) : HealthStatus :=
  match state with
  | none => .never
  | some state =>
      if state.lastError.isSome then .failing
      else
        match state.lastSyncEpoch with
        | none => .never
        | some epoch =>
            if staleThreshold < Word.saturatingSub now epoch then .stale else .fresh

/-- The threshold of `run_health`: whole seconds of the interval, times the factor. -/
def staleThreshold (cfg : ProbeConfig) : UInt64 :=
  Word.saturatingMul cfg.pollInterval.secs cfg.healthStaleFactor.toUInt64

/-- `run_health`. -/
def runHealth {sc : Scopes} (env : Env sc) (cfg : ProbeConfig) : Pass sc HealthStatus := do
  let state ← State.read env
  let now ← Reconcile.nowEpoch env
  return classifyHealth state now (staleThreshold cfg)

end LeanCd.Health
