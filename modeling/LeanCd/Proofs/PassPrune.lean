import LeanCd.Proofs.PassStart
import LeanCd.Proofs.PruneExact

/-!
# `LeanCd.Proofs.PassPrune`: the prune of a pass

A pass prunes once, and it does so only after its checkout, its parse and its sync or
pre-delete hooks went well. `PrunePoint` is a pass that got there. `branch_eq` cuts a branch at
its prune, so that a `PrunePoint` knows the world in which the prune starts, and
`mem_pruned_iff` gives the objects it deletes from the answers of the API server.

A `PrunePoint` carries the reads of the pass up to there and the equation that says so, so that
the pass is the one computation that starts from `before`. Statements about what a pass deletes
are then about `Prune.prune` alone, with the sets that it was given.
-/

set_option autoImplicit false

namespace LeanCd.Reconcile

open Act

variable {sc : Scopes} (env : Env sc)

/-- The manifests of a pass at a commit: everything Git declares, the hooks among it. -/
def gitSet (sha : String) (cfg : Config) (applied : List ResourceKey) :
    Except Error (List RawManifest) :=
  match rootsOf env sha cfg applied with
  | .error e => .error e
  | .ok roots => Manifest.parsePaths env.yaml (env.tree sha) roots

/-- What a pass desires is the classification of what it parses. -/
theorem desired_eq (sha : String) (cfg : Config) (applied : List ResourceKey) :
    desired env sha cfg applied = (gitSet env sha cfg applied).map Hooks.classify := by
  unfold desired gitSet
  cases rootsOf env sha cfg applied <;> rfl

/-- The part of a branch before its prune. -/
def beforePrune (cfg : Config) (guard : LeaseGuard) (prev : Option State) (sync : SyncOutcome)
    (c : Classified) : Pass sc BranchOutcome :=
  if isTeardown c (prevApplied prev) then do
    preHooks env cfg guard "pre-delete" c.preDelete
    return { drifts := [], applyFailures := [], postError := none, healthLive := [] }
  else syncBranch env cfg guard prev sync c

/-- The part of a branch after its prune: the post-delete hooks of a teardown. -/
def afterPrune (cfg : Config) (guard : LeaseGuard) (prev : Option State) (c : Classified)
    (outcome : BranchOutcome) : Pass sc BranchOutcome :=
  if isTeardown c (prevApplied prev) then do
    let postError ← postHooks env cfg guard "post-delete" c.postDelete
    return { outcome with postError }
  else return outcome

/-- A branch prunes once. -/
theorem branch_eq (cfg : Config) (guard : LeaseGuard) (prev : Option State) (sync : SyncOutcome)
    (c : Classified) :
    branch env cfg guard prev sync c = (do
      let outcome ← beforePrune env cfg guard prev sync c
      let _ ← Prune.prune env cfg (prevApplied prev) (ResourceKey.keysOf c.main)
      afterPrune env cfg guard prev c outcome) := by
  unfold branch beforePrune afterPrune
  split
  · simp only [teardownBranch, bind_assoc, pure_bind]
  · rfl

variable {env} {r : Reconciler} {w : World sc}

/-- A pass from the world `w` gets as far as its prune. -/
structure PrunePoint (env : Env sc) (r : Reconciler) (w : World sc) extends Started env r w where
  manifests : List RawManifest
  declared : gitSet env sync.sha r.cfg (prevApplied prev) = .ok manifests
  live : r.cfg.dryRun = false
  outcome : BranchOutcome
  before : World sc
  reached : beforePrune env r.cfg guard prev sync (Hooks.classify manifests) start =
    .ok outcome before

/-- Run the pass up to its prune. -/
def PrunePoint.run (env : Env sc) (r : Reconciler) (w : World sc) : Option (PrunePoint env r w) :=
  (Started.run env r w).bind fun x =>
    match declared : gitSet env x.sync.sha r.cfg (prevApplied x.prev) with
    | .error _ => none
    | .ok manifests =>
        match reached : beforePrune env r.cfg x.guard x.prev x.sync
            (Hooks.classify manifests) x.start with
        | .error _ _ => none
        | .ok outcome before =>
            if live : r.cfg.dryRun = false then
              some { toStarted := x, manifests, declared, live, outcome, before, reached }
            else none

namespace PrunePoint

/-- A pass gets to one prune. -/
theorem unique (x y : PrunePoint env r w) : x = y := by
  obtain ⟨⟨⟨g, held, hacquired, prev, entered, hread⟩, sync, fetched, hsync, start, htouched⟩,
    ms, hms, live, outcome, before, hreached⟩ := x
  obtain ⟨⟨⟨g', held', hacquired', prev', entered', hread'⟩, sync', fetched', hsync', start',
    htouched'⟩, ms', hms', live', outcome', before', hreached'⟩ := y
  -- What the first pass computed is what the second one computed, one call after the other.
  cases hacquired.symm.trans hacquired'
  cases hread.symm.trans hread'
  cases hsync.symm.trans hsync'
  cases htouched.symm.trans htouched'
  cases hms.symm.trans hms'
  cases hreached.symm.trans hreached'
  rfl

variable (x : PrunePoint env r w)

/-- The main manifests of the pass. -/
def main : List RawManifest := (Hooks.classify x.manifests).main

/-- The keys that Git declares, as the prune is told. -/
def current : List ResourceKey := ResourceKey.keysOf x.main

/-- The world after the prune. -/
def after : World sc :=
  state (Prune.prune env r.cfg (prevApplied x.prev) x.current x.before)

/-- The objects that the prune deletes. -/
def pruned : List (ObjId sc) :=
  x.after.deletions.take (x.after.deletions.length - x.before.deletions.length)

/-- The answers that the prune of the pass gets. -/
def Answered (a : Prune.Answers) : Prop :=
  Prune.Observed env r.cfg a (prevApplied x.prev) x.current x.before

/-- The pass goes on from the world after its prune. -/
theorem after_branch {Q : Except Error BranchOutcome → World sc → Prop} :
    After (branch env r.cfg x.guard x.prev x.sync (Hooks.classify x.manifests)) x.start Q ↔
      After (afterPrune env r.cfg x.guard x.prev (Hooks.classify x.manifests) x.outcome)
        x.after Q := by
  have htotal : Total (Prune.prune env r.cfg (prevApplied x.prev) x.current) :=
    Prune.total_prune _ _
  obtain ⟨deleted, t, hprune⟩ := htotal x.before
  have hafter : x.after = t := by rw [after, hprune]; rfl
  rw [branch_eq, after_bind, after_of_ok x.reached, hafter]
  dsimp only
  rw [after_bind]
  exact after_of_ok hprune

/-- An object is pruned exactly when a candidate denotes it and the delete of that candidate
is carried out. -/
theorem mem_pruned_iff {a : Prune.Answers} (h : x.Answered a) (id : ObjId sc) :
    id ∈ x.pruned ↔ ∃ k, a.Candidate (prevApplied x.prev) x.current k ∧ a.Removed k ∧
      k.denotes sc r.cfg.namespace = id := by
  obtain ⟨-, removed, -, -, -, hdeletions, -, hremoved, -⟩ := Prune.answered_prune h
  have hafter : x.after.deletions =
      (removed.map (·.denotes sc r.cfg.namespace)).reverse ++ x.before.deletions := hdeletions
  have hpruned : x.pruned = (removed.map (·.denotes sc r.cfg.namespace)).reverse := by
    rw [pruned, hafter]
    simp
  rw [hpruned, List.mem_reverse, List.mem_map]
  constructor
  · intro hk
    obtain ⟨k, hk, hid⟩ := hk
    obtain ⟨hcandidate, hlost⟩ := (hremoved k).mp hk
    exact ⟨k, hcandidate, hlost, hid⟩
  · intro hk
    obtain ⟨k, hcandidate, hlost, hid⟩ := hk
    exact ⟨k, (hremoved k).mpr ⟨hcandidate, hlost⟩, hid⟩

end PrunePoint

end LeanCd.Reconcile
