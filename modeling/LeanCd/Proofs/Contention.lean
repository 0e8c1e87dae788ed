import LeanCd.Calm
import LeanCd.Proofs.Calls

/-!
# `LeanCd.Proofs.Contention`: losing the race for the Lease

An attempt to take the Lease is a GET and then a CREATE or a REPLACE. Other processes may
create, take over, renew or delete the Lease before each of the calls. `try_acquire` takes a
404 of the GET and a 409 of the write for lost races. It does not expect the 404 of a REPLACE
whose Lease is gone, which `renew` does take for a lost Lease.

`DeletedUnder` is that race, of the attempt that starts in a world. `attempts` are the worlds in
which the attempts of a run of `acquire` start. Between two of them the Lease is free to come and
go, and so it is after the last.

`acquire_errs_only_if_deleted` shows that this is the only race that ends in an error, for an
attempt and for the whole of `acquire`. `loser` is a run that loses it: the pass counts as failed.

The proof goes through an attempt call by call. `leaseAfter` is the Lease as the others leave it,
one interaction further each time, and `Follows` says of a world on the way how far it is. The
attempts of a whole `acquire` are independent but for the clock, so the result for the loop is an
induction on its fuel over the result for one attempt.
-/

set_option autoImplicit false

namespace LeanCd.Lock

open Act

variable {sc : Scopes} {env : Env sc} {cfg : Config}

/-- The API server serves every call on the Lease. What fails then is a call on a Lease that
is gone, exists, or has changed. -/
structure Uncontested (env : Env sc) : Prop where
  get : ∀ n, env.fault n .leaseGet = .none
  create : ∀ n, env.fault n .leaseCreate = .none
  replace : ∀ n, env.fault n .leaseReplace = .none

/-- The Lease `k` interactions after `w`, when only the others write it. -/
def leaseAfter (env : Env sc) (w : World sc) : Nat → Option Lease
  | 0 => w.lease
  | k + 1 => env.otherLease (w.step + k) (leaseAfter env w k)

/-- An attempt that starts in `w` reads a stale Lease, and the others delete it before it is
replaced. The Lease that is read is that of the second interaction, after the clock, and the one
that is replaced that of the third. -/
def DeletedUnder (env : Env sc) (w : World sc) : Prop :=
  ∃ l, leaseAfter env w 2 = some l ∧
    isStale l.renewTime l.durationSecs (env.wallClock w.step) = true ∧ leaseAfter env w 3 = none

/-- The world `k` interactions after `w`, as far as the Lease goes. -/
def Follows (env : Env sc) (w : World sc) (k : Nat) (v : World sc) : Prop :=
  v.step = w.step + k ∧ v.lease = leaseAfter env w k

/-- After a tick the Lease is one interaction further. -/
theorem Follows.ticked {w v : World sc} {k : Nat} (h : Follows env w k v) :
    Follows env w (k + 1) (v.ticked env) := by
  obtain ⟨hstep, hlease⟩ := h
  refine ⟨?_, ?_⟩
  · show v.step + 1 = w.step + (k + 1)
    omega
  · show env.otherLease v.step v.lease = env.otherLease (w.step + k) (leaseAfter env w k)
    rw [hstep, hlease]

/-- A call counts as one interaction. -/
theorem Follows.called {w v : World sc} {k : Nat} (h : Follows env w k v) (req : Request sc) :
    Follows env w (k + 1) (v.called env req) := Follows.ticked h

/-! ### The calls -/

/-- To serve a GET is to look at the Lease of the moment. -/
theorem after_serveGet {w : World sc} {Q : Except Error Lease → World sc → Prop} :
    After serveGet w Q ↔
      match w.lease with
      | some l => Q (.ok l) w
      | none => Q (.error (.kube notFound)) w := by
  unfold After serveGet
  cases w.lease <;> rfl

/-- A CREATE stores the Lease, or finds one. -/
theorem after_serveCreate {l : Nat → Lease} {w : World sc}
    {Q : Except Error Unit → World sc → Prop} (hstored : w.lease = none → ∀ u, Q (.ok ()) u)
    (hconflict : w.lease.isSome → Q (.error (.kube conflict)) w) : After (serveCreate l) w Q := by
  unfold After serveCreate
  cases hl : w.lease with
  | none => exact hstored hl _
  | some _ => exact hconflict (by rw [hl]; rfl)

/-- A REPLACE stores the Lease, or finds none, or finds a changed one. -/
theorem after_serveReplace {rv : Nat} {l : Nat → Lease} {w : World sc}
    {Q : Except Error Unit → World sc → Prop} (hstored : w.lease.isSome → ∀ u, Q (.ok ()) u)
    (hmissing : w.lease = none → Q (.error (.kube notFound)) w)
    (hconflict : w.lease.isSome → Q (.error (.kube conflict)) w) :
    After (serveReplace rv l) w Q := by
  unfold After serveReplace
  cases hl : w.lease with
  | none => exact hmissing hl
  | some cur =>
      have hsome : w.lease.isSome := by rw [hl]; rfl
      dsimp only
      split
      · exact hstored hsome _
      · exact hconflict hsome

/-! ### One attempt -/

/-- An attempt errs exactly when the Lease is deleted under it. -/
def ErrsIff (deleted : Prop) (r : Except Error AcquireOutcome) : Prop :=
  ∃ o, r = .ok o ∧ ((∃ e, o = .err e) ↔ deleted)

/-- A write that is served takes the Lease. -/
@[simp] theorem takenOr_ok (holder : String) : takenOr holder (.ok ()) = .acquired ⟨holder⟩ := rfl

/-- A write that finds a Lease it did not expect has lost the race. -/
@[simp] theorem takenOr_conflict (holder : String) :
    takenOr holder (.error (.kube conflict)) = .busy := rfl

/-- An outcome that is no error, where no Lease was deleted under the attempt. -/
theorem ErrsIff.of_not {deleted : Prop} {o : AcquireOutcome} (h : ∀ e, o ≠ .err e)
    (hnot : ¬deleted) : ErrsIff deleted (.ok o) :=
  ⟨o, rfl, iff_of_false (fun ⟨e, he⟩ => h e he) hnot⟩

/-- An attempt, call by call: the GET finds no Lease, a live one, or a stale one. Only in the last
case is there a REPLACE, and of its answers only the 404 is an error. -/
theorem tryAcquire_errsIff (h : Uncontested env) (holder : String) (w : World sc) :
    After (tryAcquire env cfg holder) w fun r _ => ErrsIff (DeletedUnder env w) r := by
  have hw : Follows env w 0 w := ⟨rfl, rfl⟩
  have hread := hw.ticked.called .leaseGet
  unfold tryAcquire timestampNow
  simp only [after_bind, after_tick, after_pure, after_attempt, after_call, h.get,
    after_serveGet, hread.2]
  cases hl : leaseAfter env w 2 with
  -- The GET finds no Lease, so a CREATE follows. It may find one that came in between.
  | none =>
      have hnot : ¬DeletedUnder env w := by
        rintro ⟨l, hsome, -⟩
        rw [hl] at hsome
        cases hsome
      simp only [notFound, if_true, after_bind, after_attempt, after_call, h.create, after_pure]
      refine after_serveCreate ?_ ?_
      · intro _ u
        exact .of_not (by simp) hnot
      · intro _
        exact .of_not (by simp) hnot
  -- The GET finds a Lease. Only a stale one is replaced.
  | some l =>
      dsimp only
      rw [after_ite]
      split
      next hstale =>
        simp only [after_bind, after_attempt, after_call, h.replace, after_pure]
        have hlease := (hread.called .leaseReplace).2
        have hkept : (((w.ticked env).called env .leaseGet).called env .leaseReplace).lease.isSome →
            ¬DeletedUnder env w := by
          rintro hsome ⟨-, -, -, hgone⟩
          rw [hlease, hgone] at hsome
          cases hsome
        refine after_serveReplace ?_ ?_ ?_
        · intro hsome u
          exact .of_not (by simp) (hkept hsome)
        -- The Lease is gone: the 404 that the attempt does not expect.
        · intro hgone
          rw [hlease] at hgone
          exact ⟨_, rfl, iff_of_true ⟨_, rfl⟩ ⟨l, hl, hstale, hgone⟩⟩
        · intro hsome
          exact .of_not (by simp) (hkept hsome)
      -- A live Lease is left alone.
      next hfresh =>
        refine .of_not (by simp) ?_
        rintro ⟨l', hl', hstale, -⟩
        rw [hl, Option.some_inj] at hl'
        exact hfresh (hl' ▸ hstale)

/-! ### The whole of `acquire` -/

/-- The world in which `acquire` tries again after a busy attempt that ended in `u`, unless the
deadline has passed or a stop is requested. -/
def retryAt (env : Env sc) (deadline : Nat) (u : World sc) : Option (World sc) :=
  let v := u.ticked env
  let t := v.ticked env
  if deadline ≤ v.slept + env.busy u.step then none
  else if env.stop t.step then none
  else
    let remaining := deadline - (t.slept + env.busy v.step)
    some { t.ticked env with slept := (t.ticked env).slept + min remaining pollInterval }

/-- The worlds in which the attempts of a loop start. -/
def attemptsOf (env : Env sc) (cfg : Config) (holder : String) (deadline : Nat) :
    Nat → World sc → List (World sc)
  | 0, _ => []
  | fuel + 1, w =>
      if env.stop w.step then []
      else
        w.ticked env ::
          match tryAcquire env cfg holder (w.ticked env) with
          | .ok .busy u =>
              match retryAt env deadline u with
              | some v => attemptsOf env cfg holder deadline fuel v
              | none => []
          | _ => []

/-- The worlds in which the attempts of `acquire` start. -/
def attempts (env : Env sc) (cfg : Config) (holder : String) (w : World sc) : List (World sc) :=
  attemptsOf env cfg holder (w.slept + env.busy w.step + cfg.lockWaitTimeout)
    (cfg.lockWaitTimeout / pollInterval + 2) (w.ticked env)

/-- The Lease is deleted under one of these attempts. -/
def DeletedUnderOne (env : Env sc) (starts : List (World sc)) : Prop :=
  ∃ v ∈ starts, DeletedUnder env v

/-- A Lease is deleted under one of the attempts when it is under the first or under one of the
others. -/
theorem deletedUnderOne_cons {v : World sc} {rest : List (World sc)} :
    DeletedUnderOne env (v :: rest) ↔ DeletedUnder env v ∨ DeletedUnderOne env rest :=
  List.exists_mem_cons_iff ..

/-- Without attempts there is none. -/
theorem deletedUnderOne_nil : ¬DeletedUnderOne env ([] : List (World sc)) := by
  simp [DeletedUnderOne]

/-- The loop of attempts, by induction on its fuel. An attempt that is busy sleeps and leaves the
rest to the next one, so the attempts of the rest are those of the hypothesis. -/
theorem acquireLoop_errsIff (h : Uncontested env) (holder : String) (deadline fuel : Nat)
    (w : World sc) :
    After (acquireLoop env cfg holder deadline fuel) w fun r _ =>
      ErrsIff (DeletedUnderOne env (attemptsOf env cfg holder deadline fuel w)) r := by
  induction fuel generalizing w with
  | zero => exact .of_not (by simp) deletedUnderOne_nil
  | succ fuel ih =>
      unfold acquireLoop stopRequested
      rw [attemptsOf]
      simp only [after_bind, after_tick, after_pure]
      rw [after_ite]
      split
      · exact .of_not (by simp) deletedUnderOne_nil
      -- The attempt comes first, and the attempts of the rest follow only where it is busy.
      · rw [after_bind, deletedUnderOne_cons]
        have hattempt := @tryAcquire_errsIff _ env cfg h holder (w.ticked env)
        cases hrun : tryAcquire env cfg holder (w.ticked env) with
        | error e u =>
            rw [after_of_error hrun] at hattempt
            obtain ⟨o, ho, -⟩ := hattempt
            cases ho
        | ok o u =>
            rw [after_of_ok hrun] at hattempt ⊢
            obtain ⟨_, ho, hends⟩ := hattempt
            cases ho
            dsimp only
            cases o with
            | acquired guard =>
                have hnot := hends.not.mp (by simp)
                exact .of_not (by simp) (not_or_intro hnot deletedUnderOne_nil)
            | err e => exact ⟨_, rfl, iff_of_true ⟨_, rfl⟩ (.inl (hends.mp ⟨_, rfl⟩))⟩
            | busy =>
                have hnot := hends.not.mp (by simp)
                rw [or_iff_right hnot]
                unfold instantNow retryAt
                simp only [after_bind, after_tick, after_pure, after_get]
                rw [after_ite]
                split
                -- The deadline has passed. There are no more attempts, here and in the list.
                next => exact .of_not (by simp) deletedUnderOne_nil
                next =>
                  simp only [after_bind, after_tick, after_pure, after_get]
                  rw [after_ite]
                  split
                  -- A stop is requested, which ends both.
                  next => exact .of_not (by simp) deletedUnderOne_nil
                  next =>
                    -- The loop sleeps and goes on, from the world that the list goes on with.
                    rw [after_bind, sleep, after_modify]
                    exact ih _

/-- When only contention fails calls, an attempt errs if and only if a stale Lease is deleted
between its GET and its REPLACE, and `acquire` if and only if that happens to one of its
attempts. In every other run it ends with the guard or with `Busy`. -/
theorem acquire_errs_only_if_deleted (h : Uncontested env) (holder : String) (w : World sc) :
    (∃ o, value (tryAcquire env cfg holder w) = .ok o ∧
        ((∃ e, o = .err e) ↔ DeletedUnder env w)) ∧
      ∃ o, value (acquire env cfg holder w) = .ok o ∧
        ((∃ e, o = .err e) ↔ ∃ v ∈ attempts env cfg holder w, DeletedUnder env v) := by
  refine ⟨tryAcquire_errsIff h holder w, ?_⟩
  have hacquire : After (acquire env cfg holder) w fun r _ =>
      ErrsIff (DeletedUnderOne env (attempts env cfg holder w)) r := by
    unfold acquire instantNow
    simp only [after_bind, after_tick, after_pure, after_get]
    exact acquireLoop_errsIff h holder _ _ _
  exact hacquire

/-- A world with the Lease that a process wrote at zero, for a minute, and left behind. -/
def leftBehind : World .namespacedOnly :=
  { World.fresh ∅ none with lease := some (buildLease "pod:9" 60 0 0), nextRv := 1 }

/-- One minute later, with other processes that change the Lease so. -/
def minuteLater (otherLease : Nat → Option Lease → Option Lease) : Env .namespacedOnly :=
  { Env.idle .namespacedOnly with wallClock := fun _ => 60 * second, otherLease }

/-- In the example only contention can fail a call. -/
theorem uncontested_minuteLater (otherLease : Nat → Option Lease → Option Lease) :
    Uncontested (minuteLater otherLease) := ⟨fun _ => rfl, fun _ => rfl, fun _ => rfl⟩

/-- Nobody else is there: the Lease is taken. -/
theorem leftBehind_taken :
    (∃ o, value (tryAcquire (minuteLater fun _ l => l) settingsCfg "pod:1" leftBehind) = .ok o ∧
        ((∃ e, o = .err e) ↔ DeletedUnder (minuteLater fun _ l => l) leftBehind)) ∧
      ∃ o, value (acquire (minuteLater fun _ l => l) settingsCfg "pod:1" leftBehind) = .ok o ∧
        ∀ e, o ≠ .err e := by
  have hsame : ∀ (v : World .namespacedOnly) k,
      leaseAfter (minuteLater fun _ l => l) v k = v.lease := by
    intro v k
    induction k with
    | zero => rfl
    | succ k ih => exact ih
  obtain ⟨hattempt, o, hend, herr⟩ := @acquire_errs_only_if_deleted _ _ settingsCfg
    (uncontested_minuteLater fun _ l => l) "pod:1" leftBehind
  refine ⟨hattempt, o, hend, fun e he => ?_⟩
  obtain ⟨v, -, l, hstale, -, hgone⟩ := herr.mp ⟨e, he⟩
  rw [hsame] at hstale hgone
  rw [hstale] at hgone
  cases hgone

/-- A second process finds the Lease stale too, takes it over, and releases it again before
the REPLACE. -/
def loser : Env .namespacedOnly := minuteLater fun n l => if n = 4 then none else l

/-- Only contention fails a call, and `acquire` errs. The pass fails and records the error. -/
theorem loser_fails :
    Uncontested loser ∧
      value (acquire loser settingsCfg "pod:1" leftBehind) = .ok (.err (.kube notFound)) ∧
      value (Reconcile.runOnce loser (syncedPass .off) leftBehind) = .error (.kube notFound) ∧
      ((state (Reconcile.runOnce loser (syncedPass .off) leftBehind)).stateCm.map
        (·.get "last_error")) = some (some (.string "kubernetes error: not found")) :=
  ⟨uncontested_minuteLater _, rfl, rfl, rfl⟩

end LeanCd.Lock
