import LeanCd.KubeUtil

/-!
# `LeanCd.GitSync`: fetching the repository

`git_sync.rs`. A `GitCommand` is one invocation of `git` up to the work directory
and the URL. `args` puts them in, and a failed invocation quotes them.

A checkout obtains the tip of the branch, deepens the history until the target is there, and
points the work tree at it. The result is the commit, and whether it differs from the commit of
the last pass. Everything that `git` answers comes from the environment, so a checkout may fail at
each of its commands.
-/

set_option autoImplicit false

namespace LeanCd

/-- `git_sync::CheckoutTarget`. -/
inductive CheckoutTarget where
  | branch
  | sha (sha : String)
  | parent (n : Nat)
deriving DecidableEq

/-- `CheckoutTarget::from_opt`. -/
def CheckoutTarget.fromOpt : Option String → CheckoutTarget
  | some target => .sha target
  | none => .parent 1

/-- `git_sync::SyncOutcome`. -/
structure SyncOutcome where
  sha : String
  changed : Bool
deriving DecidableEq

/-- The arguments of an invocation. -/
def GitCommand.args (workDir url : String) : GitCommand → List String
  | .fetch branch => ["-C", workDir, "fetch", "--depth", "1", url, branch]
  | .deepen branch => ["-C", workDir, "fetch", "--deepen=50", url, branch]
  | .clone branch => ["clone", "--depth", "1", "--branch", branch, url, workDir]
  | .resetHard ref => ["-C", workDir, "reset", "--hard", ref]
  | .checkout ref => ["-C", workDir, "checkout", ref]
  | .catFile sha => ["-C", workDir, "cat-file", "-e", sha]
  | .revParseHead => ["-C", workDir, "rev-parse", "HEAD"]
  | .revListCount => ["-C", workDir, "rev-list", "--count", "HEAD"]

namespace GitSync

variable {sc : Scopes} (env : Env sc) (cfg : Config)

/-- The error text of an invocation that exited with a failure. -/
def failedText (args : List String) (stderr : String) : String :=
  "git " ++ Text.debugList env.unprintable args ++ " failed: " ++ Text.trim stderr

/-- `run_git`: the standard output, or the error. -/
def runGit (url : String) (cmd : GitCommand) : Pass sc String := do
  transmit (.git cmd)
  match env.git (← tick env) cmd with
  | .notStarted text => throw (.git ("failed to invoke git: " ++ text))
  | .exited true stdout _ => return stdout
  | .exited false _ stderr =>
      throw (.git (failedText env (cmd.args cfg.effectiveWorkDir url) stderr))

/-- The commit the work tree is at. -/
def headSha (url : String) : Pass sc String :=
  return Text.trim (← runGit env cfg url .revParseHead)

/-- `ensure_sha_reachable`, with the number of rounds left. -/
def ensureShaReachable (url sha : String) : Nat → Pass sc Unit
  | 0 => throw (.git ("commit " ++ sha ++
      " not reachable after deepening history; check the SHA and branch"))
  | rounds + 1 => do
      match ← Act.attempt (δ := Error) (runGit env cfg url (.catFile sha)) with
      | .ok _ => return ()
      | .error _ =>
          let _ ← runGit env cfg url (.deepen cfg.branch)
          ensureShaReachable url sha rounds

/-- `ensure_depth`, with the number of rounds left. -/
def ensureDepth (url : String) (depth : Nat) : Nat → Pass sc Unit
  | 0 => throw (.git ("could not reach depth " ++ toString depth ++ " after deepening history"))
  | rounds + 1 => do
      let count ← runGit env cfg url .revListCount
      if depth ≤ (Text.parseUsize (Text.trim count)).getD 0 then return ()
      else
        let _ ← runGit env cfg url (.deepen cfg.branch)
        ensureDepth url depth rounds

/-- The rounds of deepening. -/
def deepenRounds : Nat := 20

/-- Remove a work directory that is not a checkout. -/
def clearWorkDir : Pass sc Unit := do
  if env.workDirExists (← tick env) then
    match env.removeWorkDir (← tick env) with
    | .ok _ => return ()
    | .error e => throw (.git ("could not clear stale work dir: " ++ e))
  else return ()

/-- Update the existing checkout. A branch target moves to the fetched tip. -/
def updateCheckout (url : String) (target : CheckoutTarget) : Pass sc Unit := do
  let _ ← runGit env cfg url (.fetch cfg.branch)
  -- A rollback picks its revision from the fetched history later.
  if target = .branch then
    let _ ← runGit env cfg url (.resetHard "FETCH_HEAD")
    return ()
  else return ()

/-- Clone afresh. -/
def cloneFresh (url : String) : Pass sc Unit := do
  clearWorkDir env
  let _ ← runGit env cfg url (.clone cfg.branch)

/-- Update the existing checkout, or clone afresh. -/
def fetchOrClone (url : String) (target : CheckoutTarget) : Pass sc Unit := do
  if env.gitDirExists (← tick env) then updateCheckout env cfg url target
  else cloneFresh env cfg url

/-- Check a revision out. -/
def checkoutRef (url ref : String) : Pass sc Unit := do
  let _ ← runGit env cfg url (.checkout ref)
  let _ ← runGit env cfg url (.resetHard ref)

/-- Point the work tree at the target. Returns the commit. -/
def pointAt (url : String) : CheckoutTarget → Pass sc String
  | .branch => headSha env cfg url
  | .sha sha => do
      ensureShaReachable env cfg url sha deepenRounds
      checkoutRef env cfg url sha
      return sha
  | .parent n => do
      ensureDepth env cfg url (n + 1) deepenRounds
      checkoutRef env cfg url ("FETCH_HEAD~" ++ toString n)
      headSha env cfg url

/-- `SshKeyFile::prepare`: write the key, when one is configured. -/
def prepareSshKey (secrets : Secrets) : Pass sc Unit := do
  match Config.sshPrivateKey secrets with
  | none => return ()
  | some _ =>
      match env.prepareSshKey (← tick env) with
      | .ok _ => return ()
      | .error e => throw (.git e)

/-- `checkout` at a known URL. -/
def checkoutAt (secrets : Secrets) (url : String) (prevSha : Option String)
    (target : CheckoutTarget) : Pass sc SyncOutcome := do
  prepareSshKey env secrets
  fetchOrClone env cfg url target
  let sha ← pointAt env cfg url target
  return { sha, changed := prevSha ≠ some sha }

/-- `checkout`. -/
def checkout (secrets : Secrets) (prevSha : Option String) (target : CheckoutTarget) :
    Pass sc SyncOutcome := do
  let url ← Act.ofExcept (Config.authedUrl env.url cfg secrets)
  checkoutAt env cfg secrets url prevSha target

end GitSync

end LeanCd
