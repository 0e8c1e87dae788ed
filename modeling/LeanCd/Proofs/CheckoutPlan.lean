import LeanCd.GitSync

/-!
# `LeanCd.Proofs.CheckoutPlan`: the checkout as a sequence of invocations

A `Plan` is what a checkout does as seen from `git`: which commands it invokes, one
after the other, and at which of them it stops. It has neither a URL nor a cluster;
its state is the number of interactions.

`follows_checkoutAt`: at every URL the checkout does what its plan says, and the URL
appears in the report of the command it stops at, if anywhere.

The interactions with `git` are counted, so a plan has the same answers at every URL as long as
`git` itself does not tell the URLs apart. Two checkouts with different credentials then go the
same way up to the first command that fails, and differ in the text of its report at most.
-/

set_option autoImplicit false

namespace LeanCd.GitSync

open Act

variable {sc : Scopes} {α β : Type}

/-- Why a checkout stops: an invocation exited with a failure, or something else went
wrong. -/
inductive Stop where
  | command (cmd : GitCommand) (stderr : String)
  | other (e : Error)

/-- The error a stop is reported as. -/
def Stop.report (env : Env sc) (cfg : Config) (url : String) : Stop → Error
  | .command cmd stderr => .git (failedText env (cmd.args cfg.effectiveWorkDir url) stderr)
  | .other e => e

/-- A sequence of invocations. -/
abbrev Plan := EStateM Stop Nat

namespace Plan

/-- The number of this interaction. -/
def next : Plan Nat := fun n => .ok n (n + 1)

variable (env : Env sc) (cfg : Config)

/-- One invocation. -/
def git (cmd : GitCommand) : Plan String := do
  match env.git (← next) cmd with
  | .notStarted text => throw (.other (.git ("failed to invoke git: " ++ text)))
  | .exited true stdout _ => return stdout
  | .exited false _ stderr => throw (.command cmd stderr)

/-- The commit the work tree is at. -/
def headSha : Plan String := return Text.trim (← git env .revParseHead)

/-- Deepen until the commit is there. -/
def ensureShaReachable (sha : String) : Nat → Plan Unit
  | 0 => throw (.other (.git ("commit " ++ sha ++
      " not reachable after deepening history; check the SHA and branch")))
  | rounds + 1 => do
      match ← Act.attempt (δ := Stop) (git env (.catFile sha)) with
      | .ok _ => return ()
      | .error _ =>
          let _ ← git env (.deepen cfg.branch)
          ensureShaReachable sha rounds

/-- Deepen until the history is long enough. -/
def ensureDepth (depth : Nat) : Nat → Plan Unit
  | 0 => throw (.other (.git
      ("could not reach depth " ++ toString depth ++ " after deepening history")))
  | rounds + 1 => do
      let count ← git env .revListCount
      if depth ≤ (Text.parseUsize (Text.trim count)).getD 0 then return ()
      else
        let _ ← git env (.deepen cfg.branch)
        ensureDepth depth rounds

/-- Remove a work directory that is not a checkout. -/
def clearWorkDir : Plan Unit := do
  if env.workDirExists (← next) then
    match env.removeWorkDir (← next) with
    | .ok _ => return ()
    | .error e => throw (.other (.git ("could not clear stale work dir: " ++ e)))
  else return ()

/-- Update the existing checkout. -/
def updateCheckout (target : CheckoutTarget) : Plan Unit := do
  let _ ← git env (.fetch cfg.branch)
  if target = .branch then
    let _ ← git env (.resetHard "FETCH_HEAD")
    return ()
  else return ()

/-- Clone afresh. -/
def cloneFresh : Plan Unit := do
  clearWorkDir env
  let _ ← git env (.clone cfg.branch)

/-- Update the existing checkout, or clone afresh. -/
def fetchOrClone (target : CheckoutTarget) : Plan Unit := do
  if env.gitDirExists (← next) then updateCheckout env cfg target
  else cloneFresh env cfg

/-- Check a revision out. -/
def checkoutRef (ref : String) : Plan Unit := do
  let _ ← git env (.checkout ref)
  let _ ← git env (.resetHard ref)

/-- Point the work tree at the target. -/
def pointAt : CheckoutTarget → Plan String
  | .branch => headSha env
  | .sha sha => do
      ensureShaReachable env cfg sha deepenRounds
      checkoutRef env sha
      return sha
  | .parent n => do
      ensureDepth env cfg (n + 1) deepenRounds
      checkoutRef env ("FETCH_HEAD~" ++ toString n)
      headSha env

/-- Write the SSH key, when one is configured. -/
def prepareSshKey (secrets : Secrets) : Plan Unit := do
  match Config.sshPrivateKey secrets with
  | none => return ()
  | some _ =>
      match env.prepareSshKey (← next) with
      | .ok _ => return ()
      | .error e => throw (.other (.git e))

/-- The whole checkout. -/
def checkout (secrets : Secrets) (prevSha : Option String) (target : CheckoutTarget) :
    Plan SyncOutcome := do
  prepareSshKey env secrets
  fetchOrClone env cfg target
  let sha ← pointAt env cfg target
  return { sha, changed := prevSha ≠ some sha }

end Plan

/-- How a checkout at a URL ends whose plan ends so. -/
def ending (env : Env sc) (cfg : Config) (url : String) (t : World sc) :
    Except Stop α → EStateM.Result Error (World sc) α
  | .ok a => .ok a t
  | .error stop => .error (stop.report env cfg url) t

/-- A computation with a URL ends in one and the same world at every URL, with the result
of the plan, and reports a stop with the URL. -/
def Follows (env : Env sc) (cfg : Config) (m : String → Pass sc α) (p : Plan α) : Prop :=
  ∀ w, ∃ t : World sc, t.step = state (p w.step) ∧
    ∀ url, m url w = ending env cfg url t (value (p w.step))

namespace Follows

variable {env : Env sc} {cfg : Config}

/-- A pure value follows itself under every URL. -/
theorem pure (a : α) : Follows env cfg (fun _ => Pure.pure a) (Pure.pure a) :=
  fun w => ⟨w, rfl, fun _ => rfl⟩

/-- An error that does not speak of the URL follows itself. -/
theorem throw (e : Error) :
    Follows env cfg (fun _ => (MonadExcept.throw e : Pass sc α)) (MonadExcept.throw (.other e)) :=
  fun w => ⟨w, rfl, fun _ => rfl⟩

/-- The number of the interaction does not depend on the URL. -/
theorem tick : Follows env cfg (fun _ => LeanCd.tick env) Plan.next :=
  fun _ => ⟨_, rfl, fun _ => rfl⟩

/-- A plan has no network. -/
theorem transmit (x : Traffic sc) :
    Follows env cfg (fun _ => LeanCd.transmit x) (Pure.pure ⟨⟩) :=
  fun w => ⟨{ w with traffic := x :: w.traffic }, rfl, fun _ => rfl⟩

/-- A sequence follows a plan when its parts do: what the first part returns is the same under every
URL. -/
theorem bind {m : String → Pass sc α} {p : Plan α} {f : String → α → Pass sc β}
    {q : α → Plan β} (hm : Follows env cfg m p)
    (hf : ∀ a, Follows env cfg (fun url => f url a) (q a)) :
    Follows env cfg (fun url => m url >>= f url) (p >>= q) := by
  intro w
  obtain ⟨t, ht, hrun⟩ := hm w
  cases hp : p w.step with
  | ok a n =>
      rw [hp] at ht hrun
      -- The rest starts at the interaction where the plan is.
      obtain ⟨u, hu, hrun'⟩ := hf a t
      rw [ht, state_ok] at hu hrun'
      refine ⟨u, by rw [bind_ok hp, hu], fun url => ?_⟩
      rw [bind_ok hp]
      exact (bind_ok (hrun url)).trans (hrun' url)
  | error stop n =>
      rw [hp] at ht hrun
      refine ⟨t, by rw [bind_error hp, ht]; rfl, fun url => ?_⟩
      rw [bind_error hp]
      exact bind_error (hrun url)

/-- A computation that goes on after a stop. -/
theorem attempt {m : String → Pass sc α} {p : Plan α} {f : String → Except Error α → Pass sc β}
    {q : Except Stop α → Plan β} (hm : Follows env cfg m p)
    (hok : ∀ a, Follows env cfg (fun url => f url (.ok a)) (q (.ok a)))
    (herror : ∀ stop : Stop,
      Follows env cfg (fun url => f url (.error (stop.report env cfg url))) (q (.error stop))) :
    Follows env cfg (fun url => Act.attempt (m url) >>= f url) (Act.attempt p >>= q) := by
  intro w
  obtain ⟨t, ht, hrun⟩ := hm w
  rw [bind_ok (attempt_run p w.step)]
  cases hp : p w.step with
  -- The first part succeeds, with one value at every URL.
  | ok a n =>
      rw [hp] at ht hrun
      obtain ⟨u, hu, hrun'⟩ := hok a t
      rw [ht] at hu hrun'
      refine ⟨u, hu, fun url => ?_⟩
      refine (bind_ok (attempt_run (m url) w)).trans ?_
      rw [hrun url]
      exact hrun' url
  -- It stops, and what is handed on is the report, in which the URL may stand.
  | error stop n =>
      rw [hp] at ht hrun
      obtain ⟨u, hu, hrun'⟩ := herror stop t
      rw [ht] at hu hrun'
      refine ⟨u, hu, fun url => ?_⟩
      refine (bind_ok (attempt_run (m url) w)).trans ?_
      rw [hrun url]
      exact hrun' url

/-! ### The checkout, function by function -/

/-- A git command follows its plan, for the tool behaves the same under URLs that differ in the
credentials only, and its error is the one place where the URL shows. -/
theorem runGit (cmd : GitCommand) :
    Follows env cfg (fun url => GitSync.runGit env cfg url cmd) (Plan.git env cmd) := by
  refine (transmit (.git cmd)).bind (q := fun _ => Plan.git env cmd) fun _ => tick.bind ?_
  intro n
  cases env.git n cmd with
  | notStarted text => exact throw _
  -- A command that did not start reports no arguments. One that failed reports them all.
  | exited success stdout stderr =>
      cases success with
      | true => exact pure _
      | false => exact fun w => ⟨w, rfl, fun _ => rfl⟩

/-- `head_sha` follows its plan: a `rev-parse` does not bear the URL. -/
theorem headSha : Follows env cfg (GitSync.headSha env cfg) (Plan.headSha env) :=
  (runGit _).bind fun _ => pure _

/-- The deepening until a commit is reachable follows its plan, by induction on the rounds. -/
theorem ensureShaReachable (sha : String) (rounds : Nat) :
    Follows env cfg (fun url => GitSync.ensureShaReachable env cfg url sha rounds)
      (Plan.ensureShaReachable env cfg sha rounds) := by
  induction rounds with
  | zero => exact throw _
  | succ rounds ih =>
      -- A failed `cat-file` is no stop: the checkout deepens and tries again.
      exact (runGit _).attempt (fun _ => pure _) fun _ => (runGit _).bind fun _ => ih

/-- The deepening to a depth follows its plan in the same way. -/
theorem ensureDepth (depth rounds : Nat) :
    Follows env cfg (fun url => GitSync.ensureDepth env cfg url depth rounds)
      (Plan.ensureDepth env cfg depth rounds) := by
  induction rounds with
  | zero => exact throw _
  | succ rounds ih =>
      refine (runGit _).bind ?_
      intro count
      by_cases h : depth ≤ (Text.parseUsize (Text.trim count)).getD 0
      -- The length of the history is read off the output, which is the same at every URL.
      · simp only [if_pos h]
        exact pure _
      · simp only [if_neg h]
        exact (runGit _).bind fun _ => ih

/-- The work directory is cleared without regard to the URL. -/
theorem clearWorkDir :
    Follows env cfg (fun _ => GitSync.clearWorkDir env) (Plan.clearWorkDir env) := by
  refine tick.bind ?_
  intro n
  by_cases h : env.workDirExists n = true
  · simp only [if_pos h]
    refine tick.bind ?_
    intro n
    cases env.removeWorkDir n with
    | ok _ => exact pure _
    | error e => exact throw _
  · simp only [if_neg h]
    exact pure _

/-- An update of an existing checkout follows its plan, target by target. -/
theorem updateCheckout (target : CheckoutTarget) :
    Follows env cfg (fun url => GitSync.updateCheckout env cfg url target)
      (Plan.updateCheckout env cfg target) := by
  refine (runGit _).bind fun _ => ?_
  by_cases h : target = .branch
  · simp only [if_pos h]
    exact (runGit _).bind fun _ => pure _
  · simp only [if_neg h]
    exact pure _

/-- A fetch follows its plan, and a clone too. -/
theorem fetchOrClone (target : CheckoutTarget) :
    Follows env cfg (fun url => GitSync.fetchOrClone env cfg url target)
      (Plan.fetchOrClone env cfg target) := by
  refine tick.bind ?_
  intro n
  by_cases h : env.gitDirExists n = true
  · simp only [if_pos h]
    exact updateCheckout target
  · simp only [if_neg h]
    exact clearWorkDir.bind fun _ => (runGit _).bind fun _ => pure _

/-- A checkout of a reference follows its plan. -/
theorem checkoutRef (ref : String) :
    Follows env cfg (fun url => GitSync.checkoutRef env cfg url ref)
      (Plan.checkoutRef env ref) :=
  (runGit _).bind fun _ => (runGit _).bind fun _ => pure _

/-- To point the checkout at its target follows the plan, target by target. -/
theorem pointAt (target : CheckoutTarget) :
    Follows env cfg (fun url => GitSync.pointAt env cfg url target)
      (Plan.pointAt env cfg target) := by
  cases target with
  | branch => exact headSha
  | sha sha =>
      exact (ensureShaReachable sha _).bind fun _ => (checkoutRef sha).bind fun _ => pure _
  | parent n =>
      exact (ensureDepth _ _).bind fun _ => (checkoutRef _).bind fun _ => headSha

/-- The key file is written from the secrets alone. -/
theorem prepareSshKey (secrets : Secrets) :
    Follows env cfg (fun _ => GitSync.prepareSshKey env secrets)
      (Plan.prepareSshKey env secrets) := by
  unfold GitSync.prepareSshKey Plan.prepareSshKey
  cases Config.sshPrivateKey secrets with
  | none => exact pure _
  | some key =>
      refine tick.bind ?_
      intro n
      cases env.prepareSshKey n with
      | ok _ => exact pure _
      | error e => exact throw _

end Follows

/-- At every URL the checkout follows its plan. -/
theorem follows_checkoutAt (env : Env sc) (cfg : Config) (secrets : Secrets)
    (prevSha : Option String) (target : CheckoutTarget) :
    Follows env cfg (fun url => checkoutAt env cfg secrets url prevSha target)
      (Plan.checkout env cfg secrets prevSha target) :=
  (Follows.prepareSshKey secrets).bind fun _ => (Follows.fetchOrClone target).bind fun _ =>
    (Follows.pointAt target).bind fun _ => Follows.pure _

end LeanCd.GitSync
