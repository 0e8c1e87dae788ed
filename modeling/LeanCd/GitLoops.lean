import LeanCd.GitSync

/-!
# `LeanCd.GitLoops`: the deepening loops over any way of running `git`

The two loops of `git_sync.rs` that deepen the history differ only in their check. `deepenUntil`
is both of them, with the check and the way `git` is run as parameters, and `obtainTip` is the part
of `checkout` before them for a target that is not the branch. `ensureShaReachable_eq`,
`ensureDepth_eq` and `fetchOrClone_eq`: with `run_git` as the way to run `git` they are the
functions of `LeanCd.GitSync`.
-/

set_option autoImplicit false

namespace LeanCd.GitSync

section
variable {σ : Type} (git : GitCommand → EStateM Error σ String) (branch : String)

/-- Check, and deepen as long as the check fails, in at most that many rounds. -/
def deepenUntil (found : EStateM Error σ Bool) (missing : Error) : Nat → EStateM Error σ Unit
  | 0 => throw missing
  | rounds + 1 => do
      if ← found then return ()
      else
        let _ ← git (.deepen branch)
        deepenUntil found missing rounds

/-- The check of `ensure_sha_reachable`. -/
def shaFound (sha : String) : EStateM Error σ Bool :=
  return (← Act.attempt (δ := Error) (git (.catFile sha))).isOk

/-- The check of `ensure_depth`. -/
def depthReached (depth : Nat) : EStateM Error σ Bool :=
  return decide (depth ≤ (Text.parseUsize (Text.trim (← git .revListCount))).getD 0)

/-- The error of `ensure_sha_reachable`. -/
def shaMissing (sha : String) : Error :=
  .git ("commit " ++ sha ++ " not reachable after deepening history; check the SHA and branch")

/-- The error of `ensure_depth`. -/
def depthMissing (depth : Nat) : Error :=
  .git ("could not reach depth " ++ toString depth ++ " after deepening history")

/-- Obtain the tip of the branch: update the checkout that is there, or clone afresh. -/
def obtainTip (gitDirExists : EStateM Error σ Bool) (clearWorkDir : EStateM Error σ Unit) :
    EStateM Error σ Unit := do
  if ← gitDirExists then
    let _ ← git (.fetch branch)
    return ()
  else
    clearWorkDir
    let _ ← git (.clone branch)

end

variable {sc : Scopes} (env : Env sc) (cfg : Config) (url : String)

/-- The loop of `ensure_sha_reachable` is the deepening loop with the commit as its goal: it probes,
deepens and gives up where the other does. -/
theorem ensureShaReachable_eq (sha : String) (rounds : Nat) :
    ensureShaReachable env cfg url sha rounds =
      deepenUntil (runGit env cfg url) cfg.branch (shaFound (runGit env cfg url) sha)
        (shaMissing sha) rounds := by
  induction rounds with
  | zero => rfl
  | succ rounds ih =>
      rw [ensureShaReachable, deepenUntil, shaFound, bind_assoc]
      congr 1
      funext found
      cases found with
      | ok out => rfl
      | error e =>
          rw [ih]
          rfl

/-- The loop of `ensure_depth` is the same deepening loop, with a number of commits as its goal. -/
theorem ensureDepth_eq (depth rounds : Nat) :
    ensureDepth env cfg url depth rounds =
      deepenUntil (runGit env cfg url) cfg.branch (depthReached (runGit env cfg url) depth)
        (depthMissing depth) rounds := by
  induction rounds with
  | zero => rfl
  | succ rounds ih =>
      rw [ensureDepth, deepenUntil, depthReached, bind_assoc]
      congr 1
      funext count
      rw [pure_bind, ih]
      simp only [decide_eq_true_eq]
      rfl

/-- A checkout of a commit or of a depth obtains its tip as the abstract procedure does, for both
kinds of target. A checkout of the branch takes another route in the source. -/
theorem fetchOrClone_eq {target : CheckoutTarget} (h : target ≠ .branch) :
    fetchOrClone env cfg url target =
      obtainTip (runGit env cfg url) cfg.branch (return env.gitDirExists (← tick env))
        (clearWorkDir env) := by
  rw [fetchOrClone, obtainTip, bind_assoc]
  congr 1
  funext n
  rw [pure_bind, updateCheckout]
  simp only [if_neg h]
  rfl

end LeanCd.GitSync
