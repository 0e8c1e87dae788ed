import LeanCd.Lib.Rounds
import LeanCd.Proofs.HookSimulation

/-!
# `LeanCd.Proofs.Waits`: how long a pass can wait

The program waits in two places. `acquire` tries to take the Lease up to `lock_wait_timeout`, and
`wait_for_completion` looks at a hook's object up to `hook_timeout`. Both are a `loop` with a
deadline, and the model bounds their rounds.

`acquire_loopsTo` and `waitForCompletion_loopsTo`: the bounds are never reached, whatever the
clock, the calls and the other clients do. The intervals that are left up to the deadline are the
rank that every round lowers.

`waits_bounded` has these two, and what a pass can sleep: no more than the timeout for the Lease,
and in a phase no more than the timeout and one interval for each hook.

The clock has a part for the sleeps and a part for what the calls take, and neither goes back. A
round that ends without a result has slept, by an interval or up to the deadline. `sleepsTo` is
the frame of a program that sleeps towards a limit, and `Raises` adds up the sleeps of hooks that
run one after the other.
-/

set_option autoImplicit false

namespace LeanCd

open Act

variable {sc : Scopes} {env : Env sc} {cfg : Config}

/-! ### The clock -/

/-- The time at an interaction. -/
def World.now (env : Env sc) (w : World sc) : Nat := w.slept + env.busy w.step

/-- The intervals that are left up to a deadline. -/
def intervalsLeft (env : Env sc) (interval deadline : Nat) (w : World sc) : Nat :=
  (deadline - w.now env + (interval - 1)) / interval

/-- Before the deadline, an interval or the time that is left lowers what is left. -/
theorem intervalsLeft_lt {interval deadline : Nat} {w t : World sc} (hpos : 0 < interval)
    (hw : w.now env < deadline)
    (ht : w.now env + interval ≤ t.now env ∨ deadline ≤ t.now env) :
    intervalsLeft env interval deadline t < intervalsLeft env interval deadline w := by
  unfold intervalsLeft
  by_cases hover : deadline ≤ t.now env
  · -- Nothing is left, and before there was something.
    have hnone : deadline - t.now env + (interval - 1) < interval := by omega
    rw [Nat.div_eq_of_lt hnone]
    exact Nat.div_pos (by omega) hpos
  · have hslept := ht.resolve_right hover
    calc (deadline - t.now env + (interval - 1)) / interval
        < (deadline - t.now env + (interval - 1)) / interval + 1 := Nat.lt_succ_self _
      _ = (deadline - t.now env + (interval - 1) + interval) / interval :=
          (Nat.add_div_right _ hpos).symm
      _ ≤ (deadline - w.now env + (interval - 1)) / interval := Nat.div_le_div_right (by omega)

/-- The rounds of a loop with a deadline are more than the intervals that are left. -/
theorem intervalsLeft_lt_rounds {interval start timeout : Nat} {w : World sc}
    (hpos : 0 < interval) (hw : start ≤ w.now env) :
    intervalsLeft env interval (start + timeout) w < timeout / interval + 2 := by
  unfold intervalsLeft
  calc (start + timeout - w.now env + (interval - 1)) / interval
      ≤ (timeout + interval) / interval := Nat.div_le_div_right (by omega)
    _ = timeout / interval + 1 := Nat.add_div_right _ hpos
    _ < timeout / interval + 2 := Nat.lt_succ_self _

/-- A tick does not turn the clock back. -/
theorem World.now_le_ticked (env : Env sc) (w : World sc) : w.now env ≤ (w.ticked env).now env :=
  Nat.add_le_add_left (env.busy_mono (Nat.le_succ _)) _

/-- A program that sleeps up to a limit, on the clock of its start. -/
def sleepsTo (env : Env sc) (limit : Nat) : Frame (World sc) where
  rel w t := w.slept ≤ t.slept ∧ w.step ≤ t.step ∧
    (t.slept = w.slept ∨ t.slept + env.busy w.step ≤ limit)
  refl _ := ⟨Nat.le_refl _, Nat.le_refl _, .inl rfl⟩
  trans := by
    rintro w t u ⟨hslept, hstep, ht⟩ ⟨hslept', hstep', hu⟩
    have hbusy := env.busy_mono hstep
    exact ⟨hslept.trans hslept', hstep.trans hstep', by omega⟩

/-- An interaction does not sleep, so it keeps to every limit. -/
theorem interacts_sleepsTo (limit : Nat) : Interacts env (sleepsTo env limit) :=
  ⟨fun _ => ⟨Nat.le_refl _, Nat.le_succ _, .inl rfl⟩,
    fun _ _ => ⟨Nat.le_refl _, Nat.le_refl _, .inl rfl⟩⟩

/-- A computation that sleeps only towards a limit does not turn the clock back. -/
theorem now_le_of_sleepsTo {limit : Nat} {w t : World sc} (h : (sleepsTo env limit).rel w t) :
    w.now env ≤ t.now env := Nat.add_le_add h.1 (env.busy_mono h.2.1)

/-- A timeout bounds what is slept after the interaction that started it. -/
theorem slept_le_of_sleepsTo {timeout : Nat} {w t : World sc}
    (h : (sleepsTo env (w.now env + timeout)).rel (w.ticked env) t) :
    t.slept ≤ w.slept + timeout := by
  obtain ⟨-, -, hlimit⟩ := h
  have hbusy : env.busy w.step ≤ env.busy (w.step + 1) := env.busy_mono (Nat.le_succ _)
  simp only [World.now, World.ticked] at hlimit
  omega

/-! ### Calls that do not sleep -/

/-- An interaction does not sleep. -/
theorem interacts_slept : Interacts env (.fixed World.slept) := ⟨fun _ => rfl, fun _ _ => rfl⟩

/-- Nor does a write to the cluster. -/
theorem blind_slept : Blind (.fixed (@World.slept sc)) := fun _ _ _ _ => rfl

section
variable {F : Frame (World sc)} (hin : Interacts env F)
  (hlease : ∀ (w : World sc) lease rv, F.rel w { w with lease := lease, nextRv := rv })
include hlease

/-- Nor a CREATE of the Lease. -/
theorem keeps_serveCreate (l : Nat → Lease) : Keeps F (Lock.serveCreate l : Pass sc Unit) := by
  intro w
  unfold Lock.serveCreate
  cases w.lease with
  | none => exact hlease w _ _
  | some cur => exact F.refl w

/-- Nor a REPLACE. -/
theorem keeps_serveReplace (rv : Nat) (l : Nat → Lease) :
    Keeps F (Lock.serveReplace rv l : Pass sc Unit) := by
  intro w
  unfold Lock.serveReplace
  cases w.lease with
  | none => exact F.refl w
  | some cur =>
      dsimp only
      split
      · exact hlease w _ _
      · exact F.refl w

include hin

/-- So an attempt to acquire does not sleep. -/
theorem keeps_tryAcquire (holder : String) : Keeps F (Lock.tryAcquire env cfg holder) := by
  refine (hin.tick.bind fun _ => Keeps.pure _).bind fun now => ?_
  refine (keeps_call hin Benign.leaseServeGet).attempt.bind ?_
  intro r
  split
  · split
    · refine (keeps_call hin ?_).attempt.bind fun _ => Keeps.pure _
      exact keeps_serveReplace hlease _ _
    · exact Keeps.pure _
  · split
    · refine (keeps_call hin ?_).attempt.bind fun _ => Keeps.pure _
      exact keeps_serveCreate hlease _
    · exact Keeps.pure _
  · exact Keeps.pure _

/-- Nor does a renewal. -/
theorem keeps_renewBestEffort (guard : LeaseGuard) :
    Keeps F (Hooks.renewBestEffort env cfg guard) := by
  refine Keeps.bind (Keeps.attempt ?_) fun _ => Keeps.pure _
  -- Each branch of a renewal may fail, which counts as a renewal all the same.
  refine (keeps_call hin Benign.leaseServeGet).attempt.bind ?_
  intro r
  split
  · split
    · exact Keeps.pure _
    · exact Keeps.throw _
  · exact Keeps.throw _
  · split
    · exact Keeps.pure _
    refine (hin.tick.bind fun _ => Keeps.pure _).bind fun now => ?_
    refine (keeps_call hin (keeps_serveReplace hlease _ _)).attempt.bind ?_
    intro r
    split
    · exact Keeps.pure _
    · split
      · exact Keeps.pure _
      · exact Keeps.throw _
    · exact Keeps.throw _

end

/-! ### The Lease -/

namespace Lock

/-- The interval between attempts is positive, which is why they end. -/
theorem pollInterval_pos : 0 < pollInterval := by decide

/-- One round of `acquire`, up to the sleep before the next one. -/
def acquireRound (env : Env sc) (cfg : Config) (holder : String) (deadline : Nat) :
    Pass sc (Option AcquireOutcome) := do
  if ← stopRequested env then return some .busy
  else
    match ← tryAcquire env cfg holder with
    | .acquired guard => return some (.acquired guard)
    | .err e => return some (.err e)
    | .busy =>
        if deadline ≤ (← instantNow env) then return some .busy
        else
          let remaining := deadline - (← instantNow env)
          if ← stopRequested env then return some .busy
          else
            sleep (min remaining pollInterval)
            return none

/-- The loop of attempts is a loop of rounds. -/
theorem acquireLoop_eq (holder : String) (deadline fuel : Nat) :
    acquireLoop env cfg holder deadline fuel =
      rounds (acquireRound env cfg holder deadline) .busy fuel := by
  -- One round is one turn of the loop, and what is left of it is the rest of the fuel.
  induction fuel with
  | zero => rfl
  | succ fuel ih =>
      rw [acquireLoop, rounds, acquireRound, bind_assoc]
      congr 1
      funext stopped
      split
      next => rfl
      -- The signal ends the loop in a round of its own.
      next =>
        rw [bind_assoc]
        congr 1
        funext outcome
        cases outcome with
        | acquired guard => rfl
        | err e => rfl
        | busy =>
            dsimp only
            rw [bind_assoc]
            congr 1
            funext now
            split
            next => rfl
            -- The deadline is reached, and the Lease stays busy.
            next =>
              rw [bind_assoc]
              congr 1
              funext later
              rw [bind_assoc]
              congr 1
              funext stopped
              split
              next => rfl
              -- The round gives nothing, so the next one begins with the fuel that is left.
              next =>
                rw [ih, bind_assoc]
                rfl

/-- A round sleeps up to the deadline. One without a result sleeps an interval, or all of the
time that is left. -/
theorem after_acquireRound (holder : String) (deadline : Nat) (w : World sc) :
    After (acquireRound env cfg holder deadline) w fun res t =>
      (sleepsTo env deadline).rel w t ∧ (res = .ok none → w.now env < deadline ∧
        (w.now env + pollInterval ≤ t.now env ∨ deadline ≤ t.now env)) := by
  have hin : Interacts env (sleepsTo env deadline) := interacts_sleepsTo deadline
  have htry : Keeps (sleepsTo env deadline) (tryAcquire env cfg holder) :=
    keeps_tryAcquire hin (fun _ _ _ => ⟨Nat.le_refl _, Nat.le_refl _, .inl rfl⟩) holder
  rw [acquireRound, stopRequested, after_bind]
  refine ((hin.tick.bind fun _ => Keeps.pure _).after w).mono ?_
  intro res s hs
  cases res with
  | error e => exact ⟨hs, fun h => by cases h⟩
  | ok stopped =>
      dsimp only
      rw [after_ite]
      split
      next => exact ⟨hs, fun h => by cases h⟩
      next =>
        rw [after_bind]
        refine (htry.after s).mono ?_
        intro res u hu
        have hwu := (sleepsTo env deadline).trans hs hu
        cases res with
        | error e => exact ⟨hwu, fun h => by cases h⟩
        | ok outcome =>
            cases outcome with
            | acquired guard => exact ⟨hwu, fun h => by cases h⟩
            | err e => exact ⟨hwu, fun h => by cases h⟩
            | busy =>
                -- The deadline is looked at, and then the time again.
                have hnow := now_le_of_sleepsTo hwu
                obtain ⟨hslept, hstep, hlimit⟩ := hwu
                have hfirst : env.busy w.step ≤ env.busy u.step := env.busy_mono hstep
                have hsecond : env.busy u.step ≤ env.busy (u.step + 1) :=
                  env.busy_mono (Nat.le_succ _)
                have hlast : env.busy (u.step + 1) ≤ env.busy (u.step + 1 + 1 + 1) :=
                  env.busy_mono (by omega)
                simp only [after_bind, instantNow, sleep, after_tick, after_get,
                  after_pure, after_ite, after_modify]
                split
                next => exact ⟨⟨hslept, hstep.trans (Nat.le_succ _), hlimit⟩, fun h => by cases h⟩
                next hbefore =>
                  split
                  next =>
                    refine ⟨⟨hslept, hstep.trans ?_, hlimit⟩, fun h => by cases h⟩
                    exact Nat.le_add_right u.step 3
                  next =>
                    simp only [World.now, World.ticked, sleepsTo] at hnow hbefore ⊢
                    omega

/-- A round sleeps at most until the deadline, as its sleep is cut to the time that is left. -/
theorem keeps_acquireRound (holder : String) (deadline : Nat) :
    Keeps (sleepsTo env deadline) (acquireRound env cfg holder deadline) := fun w =>
  (after_acquireRound holder deadline w).1

/-- `acquire` ends as its loop does without a bound on the rounds. -/
theorem acquire_loopsTo (holder : String) (w : World sc) :
    LoopsTo (acquireRound env cfg holder (w.now env + cfg.lockWaitTimeout)) (w.ticked env)
      (acquire env cfg holder w) := by
  have hrun : acquire env cfg holder w = acquireLoop env cfg holder
      (w.now env + cfg.lockWaitTimeout) (cfg.lockWaitTimeout / pollInterval + 2)
      (w.ticked env) := rfl
  rw [hrun, acquireLoop_eq]
  refine @loopsTo _ _ _ _ (intervalsLeft env pollInterval (w.now env + cfg.lockWaitTimeout))
    ?_ _ _ _ ?_
  · intro s t hround
    have hnone := ((after_acquireRound holder _ s).of_run hround).2 rfl
    exact intervalsLeft_lt pollInterval_pos hnone.1 hnone.2
  · exact intervalsLeft_lt_rounds pollInterval_pos (w.now_le_ticked env)

/-- `acquire` sleeps no longer than its timeout. -/
theorem slept_acquire (holder : String) (w : World sc) :
    (state (acquire env cfg holder w)).slept ≤ w.slept + cfg.lockWaitTimeout := by
  have hloop : Keeps (sleepsTo env (w.now env + cfg.lockWaitTimeout)) (acquireLoop env cfg holder
      (w.now env + cfg.lockWaitTimeout) (cfg.lockWaitTimeout / pollInterval + 2)) := by
    rw [acquireLoop_eq]
    exact (keeps_acquireRound holder _).rounds _ _
  exact slept_le_of_sleepsTo (hloop (w.ticked env))

end Lock

/-! ### The hooks -/

namespace Hooks

/-- The interval between polls is positive. -/
theorem pollInterval_pos : 0 < pollInterval := by decide

/-- What follows the look of a round. -/
def afterLook (env : Env sc) (deadline : Nat) : Completion → Pass sc (Option Completion)
  | .succeeded => return some .succeeded
  | .failed => return some .failed
  | .running => do
      if deadline ≤ (← instantNow env) then return some .failed
      else
        sleep pollInterval
        return none

/-- One round of `wait_for_completion`, up to the sleep before the next one. -/
def waitRound (env : Env sc) (cfg : Config) (m : RawManifest) (guard : LeaseGuard)
    (deadline : Nat) : Pass sc (Option Completion) := do
  renewBestEffort env cfg guard
  match ← Act.attempt (δ := Error)
      (KubeUtil.getObject env cfg.namespace m.gvk m.ns m.name) with
  | .ok (some obj) =>
      afterLook env deadline (hookCompletion m.group m.kind (Value.field obj.data "status"))
  | .ok none => afterLook env deadline .failed
  | .error _ => afterLook env deadline .running

/-- The wait for a hook is a loop of rounds. -/
theorem waitLoop_eq (m : RawManifest) (guard : LeaseGuard) (deadline fuel : Nat) :
    waitLoop env cfg m guard deadline fuel =
      rounds (waitRound env cfg m guard deadline) .failed fuel := by
  induction fuel with
  | zero => rfl
  | succ fuel ih =>
      -- What is done with a look, apart from the loop: it succeeds, fails, or waits.
      have hlook : ∀ seen : Completion, (match seen with
          | .succeeded => return .succeeded
          | .failed => return .failed
          | .running => do
              if deadline ≤ (← instantNow env) then return .failed
              else
                sleep pollInterval
                waitLoop env cfg m guard deadline fuel) = afterLook env deadline seen >>=
            resultOr (rounds (waitRound env cfg m guard deadline) .failed fuel) := by
        intro seen
        cases seen with
        | succeeded => rfl
        | failed => rfl
        | running =>
            dsimp only [afterLook]
            rw [bind_assoc]
            congr 1
            funext now
            split
            next => rfl
            next =>
              rw [ih, bind_assoc]
              rfl
      -- The renewal comes first in every round, then the look.
      rw [waitLoop, rounds]
      nth_rewrite 1 [waitRound]
      rw [bind_assoc]
      congr 1
      funext _
      rw [bind_assoc]
      congr 1
      funext polled
      -- A failed read counts as running, and an object that is gone as a failure.
      rcases polled with e | _ | obj
      · exact hlook .running
      · exact hlook .failed
      · exact hlook (hookCompletion m.group m.kind (Value.field obj.data "status"))

/-- Before the deadline what follows a look sleeps an interval. -/
theorem after_afterLook (deadline : Nat) (seen : Completion) (w : World sc) :
    After (afterLook env deadline seen) w fun res t =>
      (sleepsTo env (deadline + pollInterval)).rel w t ∧ (res = .ok none → w.now env < deadline ∧
        (w.now env + pollInterval ≤ t.now env ∨ deadline ≤ t.now env)) := by
  cases seen with
  | succeeded => exact ⟨(sleepsTo env _).refl w, fun h => by cases h⟩
  | failed => exact ⟨(sleepsTo env _).refl w, fun h => by cases h⟩
  | running =>
      have hbusy : env.busy w.step ≤ env.busy (w.step + 1) := env.busy_mono (Nat.le_succ _)
      simp only [afterLook, after_bind, instantNow, sleep, after_tick, after_get, after_pure,
        after_ite, after_modify]
      split
      next => exact ⟨(interacts_sleepsTo _).tick w, fun h => by cases h⟩
      next hbefore =>
        simp only [World.now, World.ticked, sleepsTo] at hbefore ⊢
        omega

/-- A round of the wait goes on only before the deadline. It then sleeps one interval, which may end
after it. -/
theorem after_waitRound (m : RawManifest) (guard : LeaseGuard) (deadline : Nat) (w : World sc) :
    After (waitRound env cfg m guard deadline) w fun res t =>
      (sleepsTo env (deadline + pollInterval)).rel w t ∧ (res = .ok none → w.now env < deadline ∧
        (w.now env + pollInterval ≤ t.now env ∨ deadline ≤ t.now env)) := by
  have hin : Interacts env (sleepsTo env (deadline + pollInterval)) := interacts_sleepsTo _
  have hrenew : Keeps (sleepsTo env (deadline + pollInterval))
      (renewBestEffort env cfg guard) :=
    keeps_renewBestEffort hin (fun _ _ _ => ⟨Nat.le_refl _, Nat.le_refl _, .inl rfl⟩) guard
  rw [waitRound, after_bind]
  -- The renewal sends nothing that counts here.
  refine (hrenew.after w).mono ?_
  intro res s hs
  cases res with
  | error e => exact ⟨hs, fun h => by cases h⟩
  | ok _ =>
      dsimp only
      rw [after_bind, after_attempt]
      refine ((keeps_getObject hin _ _ _ _).after s).mono ?_
      intro polled u hu
      have hwu := (sleepsTo env _).trans hs hu
      -- After the look the round ends, or it sleeps and gives nothing.
      have hlook : ∀ seen, After (afterLook env deadline seen) u fun res t =>
          (sleepsTo env (deadline + pollInterval)).rel w t ∧
            (res = .ok none → w.now env < deadline ∧
              (w.now env + pollInterval ≤ t.now env ∨ deadline ≤ t.now env)) := by
        intro seen
        refine (after_afterLook deadline seen u).mono ?_
        rintro res t ⟨ht, hnone⟩
        have hnow := now_le_of_sleepsTo hwu
        exact ⟨(sleepsTo env _).trans hwu ht, fun hres => by have := hnone hres; omega⟩
      -- The same three ends as in the loop.
      rcases polled with e | _ | obj
      · exact hlook .running
      · exact hlook .failed
      · exact hlook (hookCompletion m.group m.kind (Value.field obj.data "status"))

/-- `wait_for_completion` ends as its loop does without a bound on the rounds. -/
theorem waitForCompletion_loopsTo (m : RawManifest) (guard : LeaseGuard) (w : World sc) :
    LoopsTo (waitRound env cfg m guard (w.now env + cfg.hookTimeout)) (w.ticked env)
      (waitForCompletion env cfg m guard w) := by
  have hrun : waitForCompletion env cfg m guard w = waitLoop env cfg m guard
      (w.now env + cfg.hookTimeout) (cfg.hookTimeout / pollInterval + 2) (w.ticked env) := rfl
  rw [hrun, waitLoop_eq]
  refine @loopsTo _ _ _ _ (intervalsLeft env pollInterval (w.now env + cfg.hookTimeout)) ?_ _ _ _ ?_
  · intro s t hround
    have hnone := ((after_waitRound m guard _ s).of_run hround).2 rfl
    exact intervalsLeft_lt pollInterval_pos hnone.1 hnone.2
  · exact intervalsLeft_lt_rounds pollInterval_pos (w.now_le_ticked env)

/-- A hook is awaited for its timeout and one interval at most. -/
theorem raises_waitForCompletion (m : RawManifest) (guard : LeaseGuard) :
    Raises World.slept (waitForCompletion env cfg m guard) (cfg.hookTimeout + pollInterval) := by
  intro w
  have hloop : Keeps (sleepsTo env (w.now env + cfg.hookTimeout + pollInterval))
      (waitLoop env cfg m guard (w.now env + cfg.hookTimeout)
        (cfg.hookTimeout / pollInterval + 2)) := by
    rw [waitLoop_eq]
    exact Keeps.rounds (fun w => (after_waitRound m guard _ w).1) _ _
  rw [Nat.add_assoc] at hloop
  exact slept_le_of_sleepsTo (hloop (w.ticked env))

/-- The calls of a hook do not sleep. -/
theorem keeps_deleteHookIf_slept (asked : Bool) (m : RawManifest) :
    Keeps (.fixed World.slept) (deleteHookIf env cfg asked m) := by
  unfold deleteHookIf
  split
  next =>
    exact (keeps_call interacts_slept (blind_slept.serveDelete _)).attempt.bind fun _ =>
      Keeps.pure _
  next => exact Keeps.pure _

/-- An apply does not sleep. -/
theorem keeps_apply_slept (g : GvkKey) (value : Value) :
    Keeps (.fixed World.slept) (KubeUtil.apply env cfg.namespace g value false) := by
  unfold KubeUtil.apply
  split
  next => exact Keeps.throw _
  next =>
    split
    next => exact Keeps.throw _
    next => exact keeps_call interacts_slept (blind_slept.servePatch _ _ false)

/-- A hook sleeps no longer than its timeout and one interval. -/
theorem raises_finishHook (info : HookInfo) (guard : LeaseGuard) :
    Raises World.slept (finishHook env cfg info guard) (cfg.hookTimeout + pollInterval) := by
  have hcompletion : Raises World.slept (completionOf env cfg info.manifest guard)
      (cfg.hookTimeout + pollInterval) := by
    unfold completionOf
    split
    next => exact raises_waitForCompletion info.manifest guard
    next => exact .pure _
  refine hcompletion.bind_fixed fun completion => ?_
  exact (keeps_deleteHookIf_slept _ _).bind fun _ => Keeps.pure _

/-- A hook sleeps while it is awaited only. -/
theorem raises_runOne (info : HookInfo) (guard : LeaseGuard) :
    Raises World.slept (runOne env cfg info guard) (cfg.hookTimeout + pollInterval) := by
  refine .fixed_bind (keeps_resolve interacts_slept _).attempt ?_
  intro r
  split
  next => exact .pure _
  next =>
    refine .fixed_bind (keeps_deleteHookIf_slept _ _) fun _ => ?_
    unfold applyHook
    split
    next => exact .pure _
    next =>
      refine .fixed_bind (keeps_apply_slept _ _).attempt ?_
      intro r
      split
      next => exact .pure _
      next => exact raises_finishHook info guard

/-- Hooks one after the other: the bounds add up. -/
theorem raises_runHooks (hooks : List HookInfo) (guard : LeaseGuard) :
    Raises World.slept (runHooks env cfg guard hooks)
      (hooks.length * (cfg.hookTimeout + pollInterval)) := by
  induction hooks with
  | nil => exact .pure _
  | cons info rest ih =>
      have hround : Raises World.slept (runHooks env cfg guard (info :: rest))
          ((cfg.hookTimeout + pollInterval) +
            rest.length * (cfg.hookTimeout + pollInterval)) := by
        refine .fixed_bind (fun _ => rfl) fun _ => (raises_runOne info guard).bind ?_
        intro r
        split
        next => exact .pure _
        next => exact ih.bind_fixed fun _ => Keeps.pure _
      refine hround.mono ?_
      rw [List.length_cons, Nat.succ_mul, Nat.add_comm]

end Hooks

/-- What waits ends, and in time. The loops of `acquire` and `wait_for_completion` end without a
bound on their rounds, and as the model says. Taking the Lease sleeps no longer than its timeout,
and a phase no longer than the timeout and one interval for each hook. -/
theorem waits_bounded (env : Env sc) (cfg : Config) (w : World sc) :
    (∀ holder, LoopsTo (Lock.acquireRound env cfg holder (w.now env + cfg.lockWaitTimeout))
        (w.ticked env) (Lock.acquire env cfg holder w) ∧
      (state (Lock.acquire env cfg holder w)).slept ≤ w.slept + cfg.lockWaitTimeout) ∧
    (∀ m guard, LoopsTo (Hooks.waitRound env cfg m guard (w.now env + cfg.hookTimeout))
      (w.ticked env) (Hooks.waitForCompletion env cfg m guard w)) ∧
    ∀ hooks guard, (state (Hooks.runPhase env cfg hooks guard w)).slept ≤
      w.slept + hooks.length * (cfg.hookTimeout + Hooks.pollInterval) := by
  refine ⟨fun holder => ⟨Lock.acquire_loopsTo holder w, Lock.slept_acquire holder w⟩,
    fun m guard => Hooks.waitForCompletion_loopsTo m guard w, ?_⟩
  intro hooks guard
  have hphase : (state (Hooks.runPhase env cfg hooks guard w)).slept ≤ w.slept +
      (Hooks.sortByWeight hooks).length * (cfg.hookTimeout + Hooks.pollInterval) :=
    Hooks.raises_runHooks (Hooks.sortByWeight hooks) guard w
  have hlength : (Hooks.sortByWeight hooks).length = hooks.length :=
    (List.perm_insertionSort Hooks.hookLe hooks).length_eq
  rwa [hlength] at hphase

end LeanCd
