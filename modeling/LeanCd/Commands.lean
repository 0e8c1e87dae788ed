import LeanCd.Reconcile

/-!
# `LeanCd.Commands`: the subcommands that run passes

`main.rs`. The subcommands take the same flags, in one configuration, and differ in the
`Reconciler` they build and in the wrapper of the pass they call.

`Command.reconciler` is the `Reconciler` that a subcommand builds, and `Command.pass` the pass
that it runs: `run_once` for the controller and a rollback, which records an error in the state,
and `dry_run` or a bare pass for `sync`. A statement about every `Command` is one about every way
in which the program changes a cluster.
-/

set_option autoImplicit false

namespace LeanCd

/-- `cli::Command`, the subcommands that run passes. -/
inductive Command where
  | controller
  | sync
  | rollback («to» : Option String)
deriving DecidableEq

namespace Command

/-- The `Reconciler` that a subcommand builds. -/
def reconciler (cmd : Command) (cfg : Config) (secrets : Secrets) (holder : String) :
    Reconciler where
  cfg := cfg
  secrets := secrets
  forceTarget :=
    match cmd with
    | .controller | .sync => none
    | .rollback target => some (.fromOpt target)
  holder := holder

variable {sc : Scopes} (env : Env sc) (cfg : Config) (secrets : Secrets) (holder : String)

/-- A pass of `run_controller`, `run_sync` or `run_rollback`. The controller takes them from
`run_loop`, the others run one. -/
def pass (cmd : Command) : Pass sc Unit :=
  let recon := cmd.reconciler cfg secrets holder
  match cmd with
  | .controller => Reconcile.runOnce env recon
  | .sync => if cfg.dryRun then Reconcile.dryRun env recon else Reconcile.runOnce env recon
  | .rollback _ => Reconcile.runOnce env recon

end Command

end LeanCd
