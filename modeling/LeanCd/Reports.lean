import LeanCd.Reconcile

/-!
# `LeanCd.Reports`: the subcommands that only report

`leancd diff` (`reconcile.rs`) compares the tip of the branch with the live objects, and
`leancd status` (`main.rs`) prints the persisted state. With `leancd health` they are the
subcommands that run no pass. Both are the text that they print.

What a report prints is its result, so a statement about the text is one about the function. A
report changes nothing itself. `LeanCd.Proofs.ReadOnly` says so of the world, and
`LeanCd.Proofs.DiffForecast` says what the text of a diff is worth.
-/

set_option autoImplicit false

namespace LeanCd

variable {sc : Scopes} (env : Env sc) (cfg : Config) (secrets : Secrets)

/-- `git_sync::sync`. -/
def GitSync.sync (prevSha : Option String) : Pass sc SyncOutcome :=
  checkout env cfg secrets prevSha .branch

namespace Reconcile

/-- `format_resource_key`. `run_status` prints the keys in the same form. -/
def formatResourceKey (key : ResourceKey) : String :=
  let gvk :=
    if key.group = "" then key.version ++ "/" ++ key.kind
    else key.group ++ "/" ++ key.version ++ "/" ++ key.kind
  match key.ns with
  | some ns => "[" ++ gvk ++ " " ++ ns ++ "/" ++ key.name ++ "]"
  | none => "[" ++ gvk ++ " " ++ key.name ++ "]"

/-- The line of a drift. -/
def driftLine (d : DriftItem) : String :=
  "  " ++ formatResourceKey d.key ++ " — " ++ d.reason ++ "\n"

/-- `render_diff`. -/
def renderDiff (sha : String) (drifts : List DriftItem) : String :=
  if drifts.isEmpty then "leancd diff (sha " ++ sha ++ "): in sync — no drift detected\n"
  else "leancd diff (sha " ++ sha ++ "): " ++ toString drifts.length ++ " drift(s)\n" ++
    String.join (drifts.map driftLine)

/-- `diff`. An error of the expansion is an error of the report, whatever was applied before. -/
def diff : Pass sc String := do
  let sync ← GitSync.sync env cfg secrets none
  let tree := env.tree sync.sha
  let roots ← Act.ofExcept
    (Manifest.expandRoots env.unprintable tree cfg.effectiveWorkDir cfg.path)
  let manifests ← Act.ofExcept (Manifest.parsePaths env.yaml tree roots)
  let (drifts, _) ← Drift.detect env cfg (Hooks.classify manifests).main
  return renderDiff sync.sha drifts

end Reconcile

/-! ### The status -/

/-- A line of the status, when there is something to say. -/
def optionalLine (f : String → String) (text : Option String) : String :=
  (text.map fun t => f t ++ "\n").getD ""

/-- The lines on the failed applies. -/
def applyFailureLines (keys : List ResourceKey) : String :=
  if keys.isEmpty then ""
  else "  apply failures: " ++ toString keys.length ++
    " (self-heal next pass; not reflected in last_error)\n" ++
    String.join (keys.map fun key => "    " ++ Reconcile.formatResourceKey key ++ "\n")

/-- The line on the health, and the message of the worst resource below it. -/
def healthLines (h : HealthSummary) : String :=
  "  health:     " ++ h.worst.getD "(none)" ++ " (healthy " ++ toString h.healthy ++
    " progressing " ++ toString h.progressing ++ " degraded " ++ toString h.degraded ++
    " missing " ++ toString h.missing ++ ")\n" ++
    optionalLine (fun msg => "              " ++ msg) (h.worstMessage.filter (· ≠ ""))

/-- What `run_status` prints of a state. -/
def statusText (stateConfigmap : String) : Option State → String
  | none => "no sync state recorded yet\n"
  | some s =>
      "leancd status (" ++ cfg.namespace ++ "/" ++ stateConfigmap ++ ")\n" ++
        "  last sha:   " ++ s.lastSha.getD "(none)" ++ "\n" ++
        "  sync count: " ++ toString s.syncCount ++ "\n" ++
        "  managed:    " ++ toString s.managedCount ++ "\n" ++
        "  drift:      " ++ toString s.driftCount ++ "\n" ++
        healthLines s.health ++
        optionalLine (fun epoch => "  last sync:  unix " ++ epoch)
          (s.lastSyncEpoch.map toString) ++
        optionalLine (fun e => "  last error: " ++ e) s.lastError ++
        applyFailureLines s.applyFailures

/-- `run_status`. -/
def runStatus (stateConfigmap : String) : Pass sc String :=
  return statusText cfg stateConfigmap (← State.read env)

end LeanCd
