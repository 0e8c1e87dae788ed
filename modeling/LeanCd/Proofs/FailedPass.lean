import LeanCd.Calm
import LeanCd.Proofs.Settled
import LeanCd.Proofs.WholePass

/-!
# `LeanCd.Proofs.FailedPass`: what a failed pass leaves

A pass writes the state once, as the last call that can fail. Whatever fails before, and the
write itself, leaves the stored state as it was (`after_reconcile_error`). `record_error` then
reads it again and changes two of its fields, or fails and changes nothing
(`after_recordError_stored`).

The next pass of the branch at the same commit therefore reads the same revision and the same
applied set, and parses the same files. `failed_pass` says that it chooses the same mode: a
full apply is tried again as a full apply, and a teardown as a teardown.

`Intact` is what the world keeps of the state, and `Retried` what the next pass makes of it. The
link is that the mode of a pass is a function of the persisted revision, of whether there is a
state, and of the manifests, none of which a failed pass changes.
-/

set_option autoImplicit false

namespace LeanCd

open Act

variable {sc : Scopes} {env : Env sc} {cfg : Config}

/-- The state ConfigMap is left alone. -/
def stateKept (sc : Scopes) : Frame (World sc) := .fixed fun w => w.stateCm

/-- No interaction with the outside writes the state. -/
theorem benign_stateKept : Benign env (stateKept sc) :=
  ⟨⟨fun _ => rfl, fun _ _ => rfl⟩, fun _ _ => rfl, fun _ _ _ => rfl⟩

/-- A write to the cluster is not one of the state. -/
theorem blind_stateKept : Blind (stateKept sc) := fun _ _ _ _ => rfl

/-- The API server is what the state ConfigMap needs it to be: a write that reports an error
was not stored, and a 404 means that there is no ConfigMap. -/
structure Env.StateApi (env : Env sc) : Prop where
  stored : ∀ n e, env.fault n .statePatch ≠ .lost e
  absent : ∀ n e, env.fault n .stateGet = .refused e ∨ env.fault n .stateGet = .lost e →
    e.code ≠ some 404

namespace Reconcile

/-! ### Up to the write -/

/-- A write either stores the state or reports an error. -/
theorem after_stateWrite_error (hs : env.StateApi) (s : State) (w : World sc) :
    After (State.write env s) w fun res t =>
      (res = .ok () → t.stateCm = some s.toData) ∧ (res ≠ .ok () → t.stateCm = w.stateCm) := by
  rw [State.write, after_call]
  cases hfault : env.fault w.step .statePatch with
  | none => exact ⟨fun _ => rfl, fun h => absurd rfl h⟩
  | refused e => exact ⟨by simp, fun _ => rfl⟩
  | lost e => exact absurd hfault (hs.stored _ _)

/-- The history has the write exactly when the server stored the state. -/
theorem after_stateWrite_writes (hs : env.StateApi) (s : State) (w : World sc) :
    After (State.write env s) w fun res t =>
      (res = .ok () → t.writes = s.toData :: w.writes) ∧ (res ≠ .ok () → t.writes = w.writes) := by
  rw [State.write, after_call]
  cases hfault : env.fault w.step .statePatch with
  | none => exact ⟨fun _ => rfl, fun h => absurd rfl h⟩
  | refused e => exact ⟨by simp, fun _ => rfl⟩
  | lost e => exact absurd hfault (hs.stored _ _)

/-- A pass that fails has not written the state. -/
theorem after_execute_error (hs : env.StateApi) (guard : LeaseGuard) (prev : Option State)
    (sync : SyncOutcome) (c : Classified) (w : World sc) :
    After (execute env cfg guard prev sync c) w fun res t =>
      res ≠ .ok () → t.stateCm = w.stateCm := by
  have hb := @benign_stateKept _ env
  have hbranch : Keeps (stateKept sc) (branch env cfg guard prev sync c) :=
    hb.branch (blind_stateKept.allowsApply _ _) (blind_stateKept.allowsHooks _)
      blind_stateKept.serveDelete guard prev sync
  rw [execute, after_bind]
  refine (hbranch.after w).mono ?_
  intro res t ht
  cases res with
  -- The branch failed. Nothing of it goes to the state's ConfigMap.
  | error e => exact fun _ => ht
  | ok outcome =>
      dsimp only
      rw [after_bind]
      refine ((hb.nextState guard prev sync c outcome).after t).mono ?_
      intro res u hu
      have hkept : u.stateCm = w.stateCm := Eq.trans hu ht
      -- The next state could not be computed, for want of the health lists.
      cases res with
      | error e => exact fun _ => hkept
      | ok s =>
          dsimp only
          rw [after_bind]
          refine (after_stateWrite_error hs s u).mono ?_
          intro res v hv
          -- Only the write itself may change the ConfigMap, and it fails before it does.
          cases res with
          | error e => exact fun _ => (hv.2 (by simp)).trans hkept
          | ok x => exact fun h => absurd rfl h

/-- So has a whole pass that fails, wherever it does. -/
theorem after_reconcile_error (hs : env.StateApi) (r : Reconciler) (w : World sc) :
    After (reconcile env r) w fun res t => res ≠ .ok () → t.stateCm = w.stateCm := by
  have hb := @benign_stateKept _ env
  -- The pass came as far as its start, or it ended before with the Lease not held.
  rcases started_or_benign env r w with ⟨⟨x⟩⟩ | hbenign
  · have hstart : x.start.stateCm = w.stateCm := x.rel hb
    refine x.after_reconcile ?_ ?_
    · rw [converge, after_bind, after_ofExcept]
      cases desired env x.sync.sha r.cfg (prevApplied x.prev) with
      | error e => exact fun _ => hstart
      | ok c =>
          dsimp only
          rw [after_ite]
          -- A dry run ends here without a write.
          split
          · rw [after_bind]
            refine After.mono
              ((hb.applyAll (blind_stateKept.allowsApply true c.main) []).after x.start) ?_
            intro res t ht
            have hkept : t.stateCm = w.stateCm := Eq.trans ht hstart
            cases res with
            | error e => exact fun _ => hkept
            | ok failed => exact fun _ => hkept
          · exact (after_execute_error hs x.guard x.prev x.sync c x.start).mono
              fun _ t ht hne => (ht hne).trans hstart
    -- The Lease is given back, which is another object than the ConfigMap.
    · intro res t u hu ht hne
      exact (Prod.mk.inj hu).2.trans (ht hne)
  · exact (hbenign _ hb).mono fun _ t ht _ => ht

/-! ### Recording the error -/

/-- The recorded state is the stored one with the error in it; a failure to record changes
nothing. -/
theorem after_recordError_stored (hs : env.StateApi) (e : Error) (w : World sc) :
    After (recordError env e) w fun res t =>
      (res = .ok () → t.stored = some (errorState e w.stored)) ∧
        (res ≠ .ok () → t.stateCm = w.stateCm) := by
  have hb := @benign_stateKept _ env
  rw [recordError, after_bind]
  refine ((hb.stateRead.after w).and (after_stateRead_or env w)).mono ?_
  intro res t h
  obtain ⟨ht, hread⟩ := h
  cases res with
  | error e' => exact ⟨by simp, fun _ => ht⟩
  | ok prev =>
      -- A missing ConfigMap reads as no state, and no fault of the state's calls looks like one.
      have hprev : prev = w.stored := by
        rcases hread prev rfl with hprev | ⟨-, n, e', hfault, hcode⟩
        · exact hprev
        · exact absurd hcode (hs.absent n e' hfault)
      rw [hprev]
      dsimp only
      refine (after_stateWrite_error hs (errorState e w.stored) t).mono ?_
      intro res u hu
      exact ⟨fun hok => World.stored_of_stateCm (hu.1 hok), fun hne => (hu.2 hne).trans ht⟩

/-! ### The failed pass -/

/-- A state that differs from another one in the error and the count only. -/
structure Recorded (e : Error) (old new : State) : Prop where
  lastError : new.lastError = some e.toString
  syncCount : new.syncCount.toNat = min (old.syncCount.toNat + 1) (2 ^ 64 - 1)
  rest : { new with lastError := old.lastError, syncCount := old.syncCount } = old

/-- A saturating increment stops at the greatest number. -/
theorem toNat_saturatingSucc (n : UInt64) :
    (saturatingSucc n).toNat = min (n.toNat + 1) (2 ^ 64 - 1) := by
  have hlt : n.toNat < 2 ^ 64 := n.toNat_lt
  unfold saturatingSucc
  split
  next hmax =>
    rw [hmax]
    decide
  next hmax =>
    have hne : n.toNat ≠ 2 ^ 64 - 1 := fun h => hmax (UInt64.toNat_inj.mp h)
    have hone : (1 : UInt64).toNat = 1 := rfl
    rw [UInt64.toNat_add, hone, Nat.mod_eq_of_lt (by omega)]
    omega

/-- What is recorded is the error and one more failure, and nothing else of the former state
changes. -/
theorem recorded_errorState (e : Error) (prev : Option State) :
    Recorded e (prev.getD .default) (errorState e prev) where
  lastError := rfl
  syncCount := toNat_saturatingSucc _
  rest := rfl

/-- A pass from `w` that failed with `e` and ended in `t` changed the stored state by what
`record_error` wrote, or by nothing. -/
def Intact (env : Env sc) (r : Reconciler) (w : World sc) (e : Error) (t : World sc) : Prop :=
  ∃ u, reconcile env r w = .error e u ∧ state (recordError env e u) = t ∧
    (value (recordError env e u) = .ok () →
      ∃ s, t.stored = some s ∧ Recorded e (w.stored.getD .default) s) ∧
    (value (recordError env e u) ≠ .ok () → t.stateCm = w.stateCm)

/-- The environments have one repository. -/
structure SameRepository (env env' : Env sc) : Prop where
  yaml : env'.yaml = env.yaml
  tree : env'.tree = env.tree
  unprintable : env'.unprintable = env.unprintable

/-- A pass of the branch at the commit of the pass `x`, from the state that `t` stores. -/
structure Retry {r : Reconciler} {w : World sc} (x : Started env r w) (t : World sc)
    (env' : Env sc) (r' : Reconciler) (w' : World sc) extends Started env' r' w' where
  api : env'.StateApi
  repository : SameRepository env env'
  cfg : r'.cfg = r.cfg
  branch : r'.forceTarget = none
  stateCm : w'.stateCm = t.stateCm
  head : sync.sha = x.sync.sha

/-- Where the pass was one of the branch and came to choose its mode, a retry finds the same
manifests and chooses the same mode. -/
def Retried (env : Env sc) (r : Reconciler) (w t : World sc) : Prop :=
  ∀ (x : Started env r w) (c : Classified), r.forceTarget = none →
    desired env x.sync.sha r.cfg (prevApplied x.prev) = .ok c →
      ∀ (env' : Env sc) (r' : Reconciler) (w' : World sc) (y : Retry x t env' r' w'),
        desired env' y.sync.sha r'.cfg (prevApplied y.prev) = .ok c ∧
          modeOf y.prev y.sync c = modeOf x.prev x.sync c

/-- Recording an error keeps what the next pass goes by: the applied set and the commit. -/
theorem Intact.kept {r : Reconciler} {w t : World sc} {e : Error} (h : Intact env r w e t) :
    prevApplied t.stored = prevApplied w.stored ∧
      prevShaRef none t.stored = prevShaRef none w.stored := by
  obtain ⟨u, -, -, hrecorded, hunchanged⟩ := h
  by_cases hok : value (recordError env e u) = .ok ()
  · obtain ⟨s, hs, hnew⟩ := hrecorded hok
    have happlied : s.applied = (w.stored.getD .default).applied :=
      (congrArg State.applied hnew.rest :)
    have hsha : s.lastSha = (w.stored.getD .default).lastSha :=
      (congrArg State.lastSha hnew.rest :)
    rw [hs]
    cases hw : w.stored with
    | none => simp_all [prevApplied, prevShaRef, State.default]
    | some p => simp_all [prevApplied, prevShaRef]
  · have hsame : t.stored = w.stored := congrArg (Option.map State.fromData) (hunchanged hok)
    rw [hsame]
    exact ⟨rfl, rfl⟩

/-- The manifests of a pass depend on the repository alone. -/
theorem desired_congr {env env' : Env sc} (h : SameRepository env env') (sha : String)
    (cfg : Config) (applied : List ResourceKey) :
    desired env' sha cfg applied = desired env sha cfg applied := by
  unfold desired rootsOf
  rw [h.yaml, h.tree, h.unprintable]

/-- The pass after a failed one takes the mode that it would have taken before, as far as the mode
depends on the state. -/
theorem Intact.retried (hs : env.StateApi) {r : Reconciler} {w t : World sc} {e : Error}
    (h : Intact env r w e t) : Retried env r w t := by
  intro x c htarget hc env' r' w' y
  obtain ⟨happlied, hsha⟩ := h.kept
  have hx : x.prev = w.stored := x.prev_eq hs.absent
  have hy : y.prev = t.stored :=
    (y.toStarted.prev_eq y.api.absent).trans (congrArg (Option.map State.fromData) y.stateCm)
  have happlied' : prevApplied y.prev = prevApplied x.prev := by rw [hy, happlied, hx]
  have hsha' : prevShaRef none y.prev = prevShaRef none x.prev := by rw [hy, hsha, hx]
  constructor
  · calc desired env' y.sync.sha r'.cfg (prevApplied y.prev)
        = desired env' x.sync.sha r.cfg (prevApplied x.prev) := by
          rw [y.head, happlied']
          exact congrArg (desired env' x.sync.sha · (prevApplied x.prev)) y.cfg
      _ = desired env x.sync.sha r.cfg (prevApplied x.prev) := desired_congr y.repository _ _ _
      _ = .ok c := hc
  · rw [y.toStarted.modeOf_eq y.branch, x.modeOf_eq htarget, happlied', hsha', y.head]

/-- A pass that fails, cut at the point where the error is recorded. -/
theorem runOnce_error {r : Reconciler} {w t : World sc} {e : Error}
    (h : runOnce env r w = .error e t) :
    ∃ u, reconcile env r w = .error e u ∧ state (recordError env e u) = t := by
  unfold runOnce at h
  rw [bind_ok (attempt_run _ _)] at h
  cases hrun : reconcile env r w with
  | ok a u =>
      rw [hrun] at h
      cases h
  | error e' u =>
      rw [hrun] at h
      cases h
      exact ⟨u, rfl, rfl⟩

/-- **A failed pass leaves the state intact and is retried in full.** -/
theorem failed_pass (hs : env.StateApi) {r : Reconciler} {w t : World sc} {e : Error}
    (h : runOnce env r w = .error e t) : Intact env r w e t ∧ Retried env r w t := by
  obtain ⟨u, hreconcile, ht⟩ := runOnce_error h
  -- What the failed pass left is what it found. The error is recorded over that.
  have hu : u.stateCm = w.stateCm :=
    (after_reconcile_error hs r w).of_run hreconcile (by simp [value])
  have hstored : u.stored = w.stored := congrArg (Option.map State.fromData) hu
  have hrecord : After (recordError env e) u fun res v =>
      (res = .ok () → v.stored = some (errorState e u.stored)) ∧
        (res ≠ .ok () → v.stateCm = u.stateCm) := after_recordError_stored hs e u
  have hintact : Intact env r w e t := by
    refine ⟨u, hreconcile, ht, ?_, ?_⟩
    · intro hok
      refine ⟨_, ?_, recorded_errorState e w.stored⟩
      rw [← ht, ← hstored]
      exact hrecord.1 hok
    · intro hne
      rw [← ht, ← hu]
      exact hrecord.2 hne
  exact ⟨hintact, hintact.retried hs⟩

/-! ### A hook that is refused -/

/-- The object of the hook. -/
def setupId : ObjId .namespacedOnly := (ResourceKey.fromManifest setup).denotes _ "default"

/-- A repository with a pre-sync hook at a new commit, on a server that refuses the hook. -/
def forbiddingEnv : Env .namespacedOnly :=
  { Env.calm _ (.table [("all", [syncedValue, setupValue])]
      [("settings", syncedValue), ("setup", setupValue)]) (gitAt "c2")
      fun _ => .oneFile "/tmp/leancd-work-1/." "all" with
    fault := fun _ req =>
      match req with
      | .patch _ id _ => if id = setupId then .refused ⟨some 403, "forbidden"⟩ else .none
      | _ => .none }

/-- The example's API server answers about the state as it should, though it forbids the hook. -/
theorem stateApi_forbidding : forbiddingEnv.StateApi where
  stored n e h := by cases h
  absent n e h := by rcases h with h | h <;> cases h

/-- The state before the pass. -/
def statedBefore : State :=
  { State.default with
    lastSha := some "c1", applied := [.fromManifest (settings (some "default"))] }

/-- The pass fails at the hook, and the error is recorded. -/
theorem forbidden_fails :
    ∃ e t, runOnce forbiddingEnv (syncedPass .off) syncedWorld = .error e t ∧
      t.stored = some { statedBefore with
        lastError := some
          "hook error: pre-sync hook failed: apply failed: kubernetes error: forbidden"
        syncCount := 1 } := by
  cases hrun : runOnce forbiddingEnv (syncedPass .off) syncedWorld with
  -- The run would have to return, which it does not by evaluation.
  | ok a t =>
      have hfails : (value (runOnce forbiddingEnv (syncedPass .off) syncedWorld)).isOk = false := by
        decide +kernel
      rw [hrun] at hfails
      cases hfails
  | error e t =>
      have hstored : (state (runOnce forbiddingEnv (syncedPass .off) syncedWorld)).stored =
          some { statedBefore with
            lastError := some
              "hook error: pre-sync hook failed: apply failed: kubernetes error: forbidden"
            syncCount := 1 } := by
        decide +kernel
      rw [hrun] at hstored
      exact ⟨e, t, rfl, hstored⟩

/-- A pass that chooses a mode, by what its run finds. -/
theorem exists_started {r : Reconciler} {w : World sc} {sha : String} {mode : Mode}
    (h : (Started.run env r w).map (fun x => (x.sync.sha,
      (desired env x.sync.sha r.cfg (prevApplied x.prev)).map (modeOf x.prev x.sync))) =
        some (sha, .ok mode)) :
    ∃ (x : Started env r w) (c : Classified), x.sync.sha = sha ∧
      desired env x.sync.sha r.cfg (prevApplied x.prev) = .ok c ∧
        modeOf x.prev x.sync c = mode := by
  obtain ⟨x, -, hx⟩ := Option.map_eq_some_iff.mp h
  have hmode := congrArg Prod.snd hx
  refine ⟨x, ?_⟩
  cases hc : desired env x.sync.sha r.cfg (prevApplied x.prev) with
  | error e =>
      rw [hc] at hmode
      cases hmode
  | ok c =>
      rw [hc] at hmode
      exact ⟨c, congrArg Prod.fst hx, rfl, Except.ok.inj hmode⟩

/-- The theorem at this pass, which was a full apply, and the pass after it. -/
theorem failed_pass_forbidden :
    ∃ e t, runOnce forbiddingEnv (syncedPass .off) syncedWorld = .error e t ∧
      Intact forbiddingEnv (syncedPass .off) syncedWorld e t ∧
      ∃ (x : Started forbiddingEnv (syncedPass .off) syncedWorld) (c : Classified)
        (y : Retry x t forbiddingEnv (syncedPass .off) t),
        modeOf x.prev x.sync c = .fullApply ∧ modeOf y.prev y.sync c = .fullApply := by
  obtain ⟨e, t, hrun, -⟩ := forbidden_fails
  obtain ⟨hintact, hretried⟩ := failed_pass stateApi_forbidding hrun
  obtain ⟨x, c, hsha, hc, hmode⟩ : ∃ (x : Started forbiddingEnv (syncedPass .off) syncedWorld)
      (c : Classified), x.sync.sha = "c2" ∧
        desired forbiddingEnv x.sync.sha (syncedPass .off).cfg (prevApplied x.prev) = .ok c ∧
          modeOf x.prev x.sync c = .fullApply := exists_started (by decide +kernel)
  -- The retry starts from what the failure has left, at the commit that the first pass had.
  obtain ⟨y, -, hsha', -, -⟩ : ∃ (y : Started forbiddingEnv (syncedPass .off) t)
      (c : Classified), y.sync.sha = "c2" ∧
        desired forbiddingEnv y.sync.sha (syncedPass .off).cfg (prevApplied y.prev) = .ok c ∧
          modeOf y.prev y.sync c = .fullApply := by
    have ht : state (runOnce forbiddingEnv (syncedPass .off) syncedWorld) = t := by rw [hrun]; rfl
    rw [← ht]
    exact exists_started (by decide +kernel)
  let retry : Retry x t forbiddingEnv (syncedPass .off) t :=
    { toStarted := y
      api := stateApi_forbidding
      repository := ⟨rfl, rfl, rfl⟩
      cfg := rfl
      branch := rfl
      stateCm := rfl
      head := hsha'.trans hsha.symm }
  exact ⟨e, t, hrun, hintact, x, c, retry, hmode,
    (hretried x c rfl hc _ _ _ retry).2.trans hmode⟩

end Reconcile

end LeanCd
