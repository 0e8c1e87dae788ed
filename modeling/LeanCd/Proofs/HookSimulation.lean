import LeanCd.HookRun
import LeanCd.Proofs.PassFrames
import LeanCd.Proofs.Totality
import Mathlib.Logic.Relation

/-!
# `LeanCd.Proofs.HookSimulation`: a call of `run_one` is a run of the hook system

`Hooks.runOne` is the code of `run_one` against the whole API server, and `HookRun` is
one hook with the instances of its object. `runOne_reachable`: where the outside deals
with the hook's object as with instances, every call of `runOne` is a run of the system,
with the same outcome and the same object at the end.

`Shows` relates the two states. Between two calls of the runner the outside moves both
along, which is the frame `outside`.

A stage of the system is a point of the program, and the simulation is proved along the program
text: each lemma takes the code from one stage to the next. The wait is the one loop, and what is
proved of it is an induction on the fuel with the clock of the two sides in step.
-/

set_option autoImplicit false

namespace LeanCd.HookRun

open Act Relation

variable {sc : Scopes} {env : Env sc} {cfg : Config} {info : HookInfo}
  {s : HookRun} {w : World sc}

/-- The status of a live object. -/
def statusOf (o : DynamicObject) : Option Value := Value.field o.data "status"

/-- The object of the hook. -/
abbrev hookId (cfg : Config) (info : HookInfo) : ObjId sc :=
  apiFor sc info.manifest.gvk info.manifest.ns cfg.namespace info.manifest.name

/-- The object that applying the hook sends. -/
def IsSent (env : Env sc) (cfg : Config) (info : HookInfo) (o : DynamicObject) : Prop :=
  ∃ value, Hooks.labelledValue env cfg info.manifest = .ok value ∧ env.kube.fromValue value = .ok o

/-- The outside deals with the object of a hook as with instances: nobody else creates it,
the hook is sent there, a new one has no status, an apply and a mark leave the status, and
only a missing object is a 404. -/
structure Instances (env : Env sc) (cfg : Config) (info : HookInfo) : Prop where
  others : ∀ n c, c.lookup (hookId cfg info) = none →
    (env.others n c).lookup (hookId cfg info) = none
  sent : ∀ o, IsSent env cfg info o →
    o.metadata.name = some info.manifest.name ∧ o.metadata.ns = info.manifest.ns
  created : ∀ o, IsSent env cfg info o → statusOf (env.merge none o) = none
  updated : ∀ old o, IsSent env cfg info o → statusOf (env.merge (some old) o) = statusOf old
  marked : ∀ n live live', env.onDelete n (hookId cfg info) live = some live' →
    statusOf live'.object = statusOf live.object
  found : ∀ n g e, env.fault n (.get g (hookId cfg info)) = .refused e ∨
    env.fault n (.get g (hookId cfg info)) = .lost e → e.code ≠ some 404

/-- The run shows the object of the cluster, and is not ahead of its clock. -/
structure Shows (env : Env sc) (cfg : Config) (info : HookInfo) (s : HookRun) (w : World sc) :
    Prop where
  object : s.object.map (·.status) =
    (w.cluster.lookup (hookId cfg info)).map fun live => statusOf live.object
  clock : s.clock ≤ w.slept + env.busy w.step

/-- Several steps. -/
abbrev Runs (cfg : Config) (info : HookInfo) : HookRun → HookRun → Prop :=
  ReflTransGen (Step cfg info)

/-- What is run from an initial state is reachable in the system of hook runs. -/
theorem reachable_of_runs {s t : HookRun} (hinit : Initial s) (h : Runs cfg info s t) :
    (system cfg info).Reachable t := by
  induction h with
  | refl => exact .init hinit
  | tail _ hstep ih => exact ih.step hstep

/-! ### The outside -/

/-- A run that shows the world before moves along to one that shows the world after, with
nothing but its object changed. -/
def outside (env : Env sc) (cfg : Config) (info : HookInfo) : Frame (World sc) where
  rel w t := ∀ s, Shows env cfg info s w →
    ∃ object, Runs cfg info s { s with object } ∧ Shows env cfg info { s with object } t
  refl _ s hs := ⟨s.object, .refl, hs⟩
  trans h₁ h₂ s hs := by
    obtain ⟨object₁, hruns₁, hs₁⟩ := h₁ s hs
    obtain ⟨object₂, hruns₂, hs₂⟩ := h₂ _ hs₁
    exact ⟨object₂, hruns₁.trans hruns₂, hs₂⟩

/-- What the others do within a pass is a step of the outside in the hook system. -/
theorem benign_outside (h : Instances env cfg info) : Benign env (outside env cfg info) where
  tick w s hs := by
    have hclock : s.clock ≤ w.slept + env.busy (w.step + 1) :=
      hs.clock.trans (Nat.add_le_add_left (env.busy_mono (Nat.le_succ _)) _)
    -- Another client may change the object or remove it, and may not put one where none is.
    cases hbefore : w.cluster.lookup (hookId cfg info) with
    | none =>
        have hnone : s.object = none := by simpa [hbefore] using hs.object
        refine ⟨none, hnone ▸ .refl, ?_, hclock⟩
        show none = ((env.others w.step w.cluster).lookup (hookId cfg info)).map _
        rw [h.others _ _ hbefore]
        rfl
    | some live =>
        obtain ⟨i, hi, -⟩ : ∃ i, s.object = some i ∧ i.status = statusOf live.object := by
          simpa [hbefore] using hs.object
        cases hafter : (env.others w.step w.cluster).lookup (hookId cfg info) with
        -- It was collected between two calls.
        | none =>
            refine ⟨none, .single (.collect s i hi), ?_, hclock⟩
            show none = ((env.others w.step w.cluster).lookup (hookId cfg info)).map _
            rw [hafter]
            rfl
        -- It is there still, possibly with another status.
        | some live' =>
            refine ⟨_, .single (.progress s i (statusOf live'.object) hi), ?_, hclock⟩
            show some (statusOf live'.object) =
              ((env.others w.step w.cluster).lookup (hookId cfg info)).map _
            rw [hafter]
            rfl
  transmit _ _ s hs := ⟨s.object, .refl, hs.object, hs.clock⟩
  sleep d w s hs := ⟨s.object, .refl, hs.object,
    hs.clock.trans (Nat.add_le_add_right (Nat.le_add_right _ _) _)⟩
  lease w _ _ s hs := ⟨s.object, .refl, hs.object, hs.clock⟩

/-! ### The calls of the runner -/

/-- A delete leaves the object, marks it, or marks it and has it collected. -/
def Deleted (env : Env sc) (cfg : Config) (info : HookInfo) (s : HookRun) (t : World sc) : Prop :=
  Shows env cfg info s t ∨ Shows env cfg info { s with object := marked s.object } t ∨
  ∃ i, s.object = some i ∧ Shows env cfg info { s with object := none } t

/-- What the server does with a delete. -/
theorem deleted_serveDelete (h : Instances env cfg info) (hs : Shows env cfg info s w) :
    Deleted env cfg info s (state (KubeUtil.serveDelete env (hookId cfg info) w)) := by
  unfold KubeUtil.serveDelete
  cases hlook : w.cluster.lookup (hookId cfg info) with
  | none => exact .inl hs
  | some live =>
      obtain ⟨i, hi, hstatus⟩ : ∃ i, s.object = some i ∧ i.status = statusOf live.object := by
        simpa [hlook] using hs.object
      dsimp only [state]
      cases hmark : env.onDelete w.step (hookId cfg info) live with
      -- Without finalizers the object goes at once.
      | none =>
          refine .inr (.inr ⟨i, hi, ?_, hs.clock⟩)
          show none = ((w.cluster.erase (hookId cfg info)).lookup (hookId cfg info)).map _
          rw [AList.lookup_erase]
          rfl
      -- With finalizers it stays, marked, and shows the status that it had.
      | some live' =>
          refine .inr (.inl ⟨?_, hs.clock⟩)
          show (marked s.object).map (·.status) =
            ((w.cluster.insert (hookId cfg info) live').lookup (hookId cfg info)).map _
          rw [AList.lookup_insert, hi]
          show some i.status = some (statusOf live'.object)
          rw [hstatus, h.marked _ _ _ hmark]

/-- A deletion of the hook's object is a deletion in the hook system: it marks the instance, which
is collected at some later time. -/
theorem after_deleteHook (h : Instances env cfg info)
    (hs : Shows env cfg info s w) :
    After (Hooks.deleteHook env cfg info.manifest) w fun r t => r = .ok () ∧
      ∃ object, Runs cfg info s { s with object } ∧
        Deleted env cfg info { s with object } t := by
  obtain ⟨object, hruns, ht⟩ :=
    (benign_outside h).called (.delete info.manifest.gvk (hookId cfg info)) w s hs
  have hserved := deleted_serveDelete h ht
  rw [Hooks.deleteHook, after_bind, after_attempt, KubeUtil.delete, after_call]
  cases env.fault w.step _ with
  | none => exact ⟨rfl, object, hruns, hserved⟩
  | refused e => exact ⟨rfl, object, hruns, .inl ht⟩
  | lost e => exact ⟨rfl, object, hruns, hserved⟩

/-- The server carries an apply out. -/
theorem shows_servePatch (h : Instances env cfg info) (hs : Shows env cfg info s w)
    {o : DynamicObject} (ho : IsSent env cfg info o) :
    Shows env cfg info s.patch (state (KubeUtil.servePatch env (hookId cfg info) o false w)) := by
  refine ⟨?_, hs.clock⟩
  show some (patched s.object).status =
    ((w.cluster.insert (hookId cfg info) _).lookup (hookId cfg info)).map _
  rw [AList.lookup_insert]
  cases hlook : w.cluster.lookup (hookId cfg info) with
  | none =>
      have hnone : s.object = none := by simpa [hlook] using hs.object
      rw [hnone]
      exact congrArg some (h.created o ho).symm
  | some live =>
      obtain ⟨i, hi, hstatus⟩ : ∃ i, s.object = some i ∧ i.status = statusOf live.object := by
        simpa [hlook] using hs.object
      rw [hi]
      exact congrArg some (hstatus.trans (h.updated _ _ ho).symm)

/-- A poll answers with the object that the run shows, or fails. -/
theorem after_poll (h : Instances env cfg info) (hs : Shows env cfg info s w) :
    After (KubeUtil.getObject env cfg.namespace info.manifest.gvk info.manifest.ns
      info.manifest.name) w fun r t => ∃ object, Runs cfg info s { s with object } ∧
      Shows env cfg info { s with object } t ∧
      ((∃ o, r = .ok (some o) ∧ ∃ i, object = some i ∧ i.status = statusOf o) ∨
        (r = .ok none ∧ object = none) ∨ ∃ e, r = .error e) := by
  obtain ⟨object, hruns, ht⟩ :=
    (benign_outside h).called (.get info.manifest.gvk (hookId cfg info)) w s hs
  simp only [KubeUtil.getObject, after_bind, after_attempt, after_call]
  -- Only a served call says that the object is missing.
  cases hf : env.fault w.step (.get info.manifest.gvk (hookId cfg info)) with
  | none =>
      rw [after_serveGet]
      cases hlook : (w.called env (.get info.manifest.gvk (hookId cfg info))).cluster.lookup
          (hookId cfg info) with
      | none =>
          have hnone : object = none := by simpa [hlook] using ht.object
          exact ⟨object, hruns, ht, .inr (.inl ⟨rfl, hnone⟩)⟩
      | some live =>
          obtain ⟨i, hi, hstatus⟩ : ∃ i, object = some i ∧ i.status = statusOf live.object := by
            simpa [hlook] using ht.object
          exact ⟨object, hruns, ht, .inl ⟨_, rfl, i, hi, hstatus⟩⟩
  | refused e =>
      dsimp only
      rw [after_ite, if_neg (h.found w.step _ e (.inl hf))]
      exact ⟨object, hruns, ht, .inr (.inr ⟨_, rfl⟩)⟩
  | lost e =>
      refine (((keeps_serveGet (F := outside env cfg info)
        (hookId cfg info)).after _).mono fun r t hrt => ?_)
      obtain ⟨object', hruns', ht'⟩ := hrt _ ht
      rw [after_ite, if_neg (h.found w.step _ e (.inr hf))]
      exact ⟨object', hruns.trans hruns', ht', .inr (.inr ⟨_, rfl⟩)⟩

/-! ### The wait -/

/-- Time and interactions do not go back. -/
def later : Frame (World sc) where
  rel w t := w.slept ≤ t.slept ∧ w.step ≤ t.step
  refl _ := ⟨Nat.le_refl _, Nat.le_refl _⟩
  trans h₁ h₂ := ⟨h₁.1.trans h₂.1, h₁.2.trans h₂.2⟩

/-- No interaction and no sleep turns the time back, or the count of interactions. -/
theorem benign_later : Benign env later where
  tick _ := ⟨Nat.le_refl _, Nat.le_succ _⟩
  transmit _ _ := ⟨Nat.le_refl _, Nat.le_refl _⟩
  sleep _ _ := ⟨Nat.le_add_right _ _, Nat.le_refl _⟩
  lease _ _ _ := ⟨Nat.le_refl _, Nat.le_refl _⟩

/-- The run ends with a completion, and shows the world. -/
def EndsWith (env : Env sc) (cfg : Config) (info : HookInfo) (s : HookRun)
    (r : Except Error Completion) (t : World sc) : Prop :=
  ∃ s' completion, Runs cfg info s s' ∧ Shows env cfg info s' t ∧
    s'.stage = .ended completion ∧ r = .ok completion

/-- A run can be put before a wait that ends. -/
theorem EndsWith.of_runs {s s' : HookRun} {r : Except Error Completion} {t : World sc}
    (h : EndsWith env cfg info s' r t) (hruns : Runs cfg info s s') :
    EndsWith env cfg info s r t := by
  obtain ⟨u, completion, hu, hshows, hstage, hr⟩ := h
  exact ⟨u, completion, hruns.trans hu, hshows, hstage, hr⟩

/-- Before a look at the hook: it is due, and what is left of the fuel outlasts what is left
of the time. `base` is the time that had passed outside `sleep` when the wait began. -/
structure Waiting (env : Env sc) (cfg : Config) (info : HookInfo) (deadline base fuel : Nat)
    (s : HookRun) (w : World sc) : Prop where
  fuel_pos : 0 < fuel
  shows : Shows env cfg info s w
  stage : s.stage = .poll deadline
  base_le : base ≤ env.busy w.step
  bound : deadline + Hooks.pollInterval ≤ base + w.slept + fuel * Hooks.pollInterval

section
variable {deadline base fuel : Nat}

/-- After a look that did not find the end: the deadline, or a sleep before the next look. -/
theorem after_unfinished (h : Instances env cfg info) (guard : LeaseGuard)
    (hw : Waiting env cfg info deadline base (fuel + 1) s w)
    (hnext : ∀ s' w', Waiting env cfg info deadline base fuel s' w' →
      After (Hooks.waitLoop env cfg info.manifest guard deadline fuel) w'
        (EndsWith env cfg info s'))
    {s₁ : HookRun} {u : World sc} (hlater : later.rel w u) (hu : Shows env cfg info s₁ u)
    (hstage : s₁.stage = .unfinished deadline) :
    After (do
      if deadline ≤ (← instantNow env) then return .failed
      else
        sleep Hooks.pollInterval
        Hooks.waitLoop env cfg info.manifest guard deadline fuel) u
      (EndsWith env cfg info s₁) := by
  obtain ⟨hslept, hstep⟩ := hlater
  have hbound := hw.bound
  rw [Nat.succ_mul] at hbound
  have hbusy : base ≤ env.busy u.step := hw.base_le.trans (env.busy_mono hstep)
  have hmono : env.busy u.step ≤ env.busy (u.step + 1) := env.busy_mono (Nat.le_succ u.step)
  -- The clock of the run catches up before the deadline is compared with it.
  have hnow : u.slept + env.busy u.step = s₁.clock + (u.slept + env.busy u.step - s₁.clock) :=
    (Nat.add_sub_cancel' hu.clock).symm
  have htime := @Step.time cfg info s₁ (u.slept + env.busy u.step - s₁.clock)
  rw [← hnow] at htime
  obtain ⟨object, hruns, hticked⟩ := (benign_outside h).tick u
    { s₁ with clock := u.slept + env.busy u.step } ⟨hu.object, Nat.le_refl _⟩
  have hticked : Shows env cfg info
      { s₁ with clock := u.slept + env.busy u.step, object } (u.ticked env) := hticked
  have hfirst := (ReflTransGen.single htime).trans hruns
  simp only [instantNow, after_bind, after_tick, after_get, after_pure]
  rw [after_ite]
  show if deadline ≤ u.slept + env.busy u.step then _ else _
  split
  next hdue =>
    exact ⟨_, .failed, hfirst.tail (.timeout _ deadline hstage hdue),
      ⟨hticked.object, hticked.clock⟩, rfl, rfl⟩
  next hdue =>
    rw [after_bind, sleep, after_modify]
    dsimp only
    have hsleep := hfirst.tail (.sleep _ deadline hstage (Nat.lt_of_not_le hdue))
    refine (hnext { s₁ with
        clock := u.slept + env.busy u.step + Hooks.pollInterval, object,
        stage := .poll deadline }
      { u.ticked env with slept := (u.ticked env).slept + Hooks.pollInterval } ?_).mono
      fun r t ht => ht.of_runs hsleep
    refine ⟨?_, ⟨hticked.object, ?_⟩, rfl, hbusy.trans hmono, ?_⟩
    · -- Without fuel the deadline would have passed.
      by_contra hzero
      have hfuel : fuel = 0 := by omega
      subst hfuel
      omega
    · show u.slept + env.busy u.step + Hooks.pollInterval ≤
        u.slept + Hooks.pollInterval + env.busy (u.step + 1)
      omega
    · show deadline + Hooks.pollInterval ≤
        base + (u.slept + Hooks.pollInterval) + fuel * Hooks.pollInterval
      omega

/-- The looks at a hook are polls, and the fuel is enough to reach the deadline. -/
theorem after_waitLoop (h : Instances env cfg info) (guard : LeaseGuard)
    (hw : Waiting env cfg info deadline base fuel s w) :
    After (Hooks.waitLoop env cfg info.manifest guard deadline fuel) w
      (EndsWith env cfg info s) := by
  induction fuel generalizing s w with
  | zero => cases hw.fuel_pos
  | succ fuel ih =>
      have hrest := fun (s₁ : HookRun) {u : World sc} =>
        @after_unfinished _ env cfg info s w deadline base fuel h guard hw (fun _ _ => ih) s₁ u
      rw [Hooks.waitLoop, after_bind]
      -- The Lease is renewed, and the hook is polled.
      refine ((((benign_outside h).renewBestEffort guard).after w).and
        (((@benign_later _ env).renewBestEffort guard).after w)).and
        ((Hooks.total_renewBestEffort guard).after w) |>.mono ?_
      rintro _ t ⟨⟨hout, hlater⟩, _, rfl⟩
      obtain ⟨object, hruns, ht⟩ := hout s hw.shows
      dsimp only
      rw [after_bind, after_attempt]
      have hinteracts := (@benign_later _ env).toInteracts
      refine ((after_poll h ht).and ((keeps_getObject hinteracts _ _ _ _).after t)).mono ?_
      rintro _ u ⟨⟨object', hruns', hu, hpolled⟩, hlater'⟩
      have hrunsu := hruns.trans hruns'
      have hlateru := later.trans hlater hlater'
      rcases hpolled with ⟨o, rfl, i, hi, hstatus⟩ | ⟨rfl, hnone⟩ | ⟨e, rfl⟩
      · have hpoll := @Step.poll cfg info { s with object := object' } deadline i
          hw.stage hi
        unfold afterPoll at hpoll
        rw [hstatus] at hpoll
        dsimp only
        rw [show Value.field o.data "status" = statusOf o from rfl]
        cases hseen : Hooks.hookCompletion info.manifest.group info.manifest.kind (statusOf o) with
        | running =>
            rw [hseen] at hpoll
            exact (hrest { s with
              object := object', stage := .unfinished deadline, saw := some (some i) }
              hlateru ⟨hu.object, hu.clock⟩ rfl).mono fun _ _ hends =>
                hends.of_runs (hrunsu.tail hpoll)
        | succeeded | failed =>
            rw [hseen] at hpoll
            exact ⟨_, _, hrunsu.tail hpoll, ⟨hu.object, hu.clock⟩, rfl, rfl⟩
      · exact ⟨_, _, hrunsu.tail (.pollMissing _ deadline hw.stage hnone),
          ⟨hu.object, hu.clock⟩, rfl, rfl⟩
      · exact (hrest { s with object := object', stage := .unfinished deadline }
          hlateru ⟨hu.object, hu.clock⟩ rfl).mono fun _ _ hends =>
            hends.of_runs (hrunsu.tail (.pollFails _ deadline hw.stage))

end

/-! ### The hook -/

/-- A delete of the runner, whatever comes of it, is a step to the next stage. -/
theorem runs_of_deleted {stage : HookStage} {t : World sc} (h : Deleted env cfg info s t)
    (hfails : Step cfg info s { s with stage })
    (hmarks : Step cfg info s { s with stage, object := marked s.object }) :
    ∃ object, Runs cfg info s { s with stage, object } ∧
      Shows env cfg info { s with stage, object } t := by
  rcases h with ht | ht | ⟨i, hi, ht⟩
  · exact ⟨s.object, .single hfails, ht.object, ht.clock⟩
  · exact ⟨_, .single hmarks, ht.object, ht.clock⟩
  · refine ⟨none, (ReflTransGen.single hmarks).tail ?_, ht.object, ht.clock⟩
    exact .collect { s with stage, object := marked s.object } { i with terminating := true }
      (by rw [hi]; rfl)

/-- A deletion that the policy may ask for, before the creation or after the hook: without it the
stage only moves on. -/
theorem after_deleteHookIf (h : Instances env cfg info) {asked : Bool}
    (stage : HookStage) (hs : Shows env cfg info s w)
    (hskip : asked = false → Step cfg info s { s with stage })
    (hfails : asked = true → ∀ object,
      Step cfg info { s with object } { s with object, stage })
    (hmarks : asked = true → ∀ object,
      Step cfg info { s with object } { s with object := marked object, stage }) :
    After (Hooks.deleteHookIf env cfg asked info.manifest) w fun r t => r = .ok () ∧
      ∃ object, Runs cfg info s { s with stage, object } ∧
        Shows env cfg info { s with stage, object } t := by
  unfold Hooks.deleteHookIf
  cases asked with
  | false => exact ⟨rfl, s.object, .single (hskip rfl), hs.object, hs.clock⟩
  | true =>
      refine (after_deleteHook h hs).mono ?_
      rintro _ t ⟨rfl, object, hruns, hdeleted⟩
      obtain ⟨object', hruns', ht⟩ :=
        runs_of_deleted hdeleted (hfails rfl object) (hmarks rfl object)
      exact ⟨rfl, object', hruns.trans hruns', ht⟩

/-- The run returns the outcome, and shows the world. -/
def ReturnsWith (env : Env sc) (cfg : Config) (info : HookInfo) (s : HookRun)
    (r : Except Error (Option String)) (t : World sc) : Prop :=
  ∃ s' reason, Runs cfg info s s' ∧ Shows env cfg info s' t ∧
    s'.stage = .returned reason ∧ r = .ok reason

/-- A run can be put before one that returns. -/
theorem ReturnsWith.of_runs {s s' : HookRun} {r : Except Error (Option String)} {t : World sc}
    (h : ReturnsWith env cfg info s' r t) (hruns : Runs cfg info s s') :
    ReturnsWith env cfg info s r t := by
  obtain ⟨u, reason, hu, hshows, hstage, hr⟩ := h
  exact ⟨u, reason, hruns.trans hu, hshows, hstage, hr⟩

/-- The wait starts its clock right after the apply. -/
theorem after_completionOf (h : Instances env cfg info) (guard : LeaseGuard)
    (hs : Shows env cfg info s w) (hclock : s.clock = w.slept + env.busy w.step)
    (hstage : s.stage = awaiting cfg info.manifest s.clock) :
    After (Hooks.completionOf env cfg info.manifest guard) w (EndsWith env cfg info s) := by
  unfold awaiting at hstage
  rw [Hooks.completionOf, after_ite]
  split
  next hwait =>
    rw [if_pos hwait] at hstage
    obtain ⟨object, hruns, ht⟩ := (benign_outside h).tick w s hs
    simp only [Hooks.waitForCompletion, instantNow, after_bind, after_tick, after_get, after_pure]
    show After (Hooks.waitLoop env cfg info.manifest guard
      (w.slept + env.busy w.step + cfg.hookTimeout) _) (w.ticked env) _
    rw [← hclock]
    refine (after_waitLoop h guard ⟨Nat.succ_pos _, ht, hstage,
      env.busy_mono (Nat.le_succ w.step), ?_⟩).mono fun r t ht => ht.of_runs hruns
    -- The fuel is the number of intervals in the timeout, and two.
    have hpoll : 0 < Hooks.pollInterval := by decide
    have hdiv := Nat.div_add_mod cfg.hookTimeout Hooks.pollInterval
    have hmod := Nat.mod_lt cfg.hookTimeout hpoll
    show s.clock + cfg.hookTimeout + Hooks.pollInterval ≤ env.busy w.step + w.slept +
      (cfg.hookTimeout / Hooks.pollInterval + 2) * Hooks.pollInterval
    rw [Nat.add_mul, Nat.mul_comm (cfg.hookTimeout / Hooks.pollInterval), hclock]
    omega
  next hwait =>
    rw [if_neg hwait] at hstage
    exact ⟨s, .succeeded, .refl, hs, hstage, rfl⟩

/-- The end of a hook: the runner records the outcome, and deletes if the policy asks for it. -/
theorem after_finishHook (h : Instances env cfg info) (guard : LeaseGuard)
    (hs : Shows env cfg info s w) (hclock : s.clock = w.slept + env.busy w.step)
    (hstage : s.stage = awaiting cfg info.manifest s.clock) :
    After (Hooks.finishHook env cfg info guard) w (ReturnsWith env cfg info s) := by
  rw [Hooks.finishHook, after_bind]
  refine (after_completionOf h guard hs hclock hstage).mono ?_
  rintro _ t ⟨s₁, completion, hruns, ht, hended, rfl⟩
  dsimp only
  rw [after_bind]
  refine (after_deleteHookIf h (.returned (outcome completion)) ht
    (fun hno => .noCleanup s₁ completion hended hno)
    (fun hyes object => .cleanupFails { s₁ with object } completion hended hyes)
    (fun hyes object => .cleanup { s₁ with object } completion hended hyes)).mono ?_
  rintro _ u ⟨rfl, object, hruns', hu⟩
  exact ⟨_, outcome completion, hruns.trans hruns', hu, rfl, rfl⟩

/-- The apply of a hook and all that follows it, as a run of the hook system. -/
theorem after_applyHook (h : Instances env cfg info)
    (guard : LeaseGuard) (hs : Shows env cfg info s w) (hstage : s.stage = .apply) :
    After (Hooks.applyHook env cfg info guard) w (ReturnsWith env cfg info s) := by
  have hfails : ∀ reason, ∃ s', Runs cfg info s s' ∧ s'.stage = .returned (some reason) ∧
      Shows env cfg info s' w := fun reason =>
    ⟨_, .single (.applyFails s reason hstage), rfl, hs.object, hs.clock⟩
  unfold Hooks.applyHook
  cases hvalue : Hooks.labelledValue env cfg info.manifest with
  | error e =>
      obtain ⟨s', hruns, hreturned, hs'⟩ := hfails ("failed to parse hook manifest: " ++ e)
      exact ⟨s', _, hruns, hs', hreturned, rfl⟩
  | ok value =>
      dsimp only
      rw [after_bind, after_attempt, KubeUtil.apply]
      cases hobject : env.kube.fromValue value with
      | error e =>
          obtain ⟨s', hruns, hreturned, hs'⟩ := hfails _
          exact ⟨s', _, hruns, hs', hreturned, rfl⟩
      | ok o =>
          have ho : IsSent env cfg info o := ⟨value, hvalue, hobject⟩
          obtain ⟨hname, hns⟩ := h.sent o ho
          dsimp only
          rw [hname]
          dsimp only
          rw [hns, after_call]
          obtain ⟨object, hruns, ht⟩ := (benign_outside h).called
            (.patch info.manifest.gvk (hookId cfg info) false) w s hs
          cases env.fault w.step (.patch info.manifest.gvk (hookId cfg info) false) with
          | refused e =>
              exact ⟨_, _, hruns.tail (.applyFails _ _ hstage), ⟨ht.object, ht.clock⟩, rfl, rfl⟩
          | lost e =>
              have hsent' := shows_servePatch h ht ho
              exact ⟨_, _, hruns.tail (.applyLost _ _ hstage), ⟨hsent'.object, hsent'.clock⟩, rfl,
                rfl⟩
          | none =>
              -- The clock of the run catches up first: the wait starts right after the apply.
              have htime := @Step.time cfg info { s with object }
                (w.slept + env.busy (w.step + 1) - s.clock)
              have hcatch : s.clock + (w.slept + env.busy (w.step + 1) - s.clock) =
                  w.slept + env.busy (w.step + 1) := Nat.add_sub_cancel' ht.clock
              dsimp only at htime
              rw [hcatch] at htime
              have ht' : Shows env cfg info
                  { s with object, clock := w.slept + env.busy (w.step + 1) }
                  (w.called env (.patch info.manifest.gvk (hookId cfg info) false)) :=
                ⟨ht.object, Nat.le_refl _⟩
              have hpatched := shows_servePatch h ht' ho
              have hruns' := (hruns.tail htime).tail (.apply _ hstage)
              refine (after_finishHook h guard (s := { HookRun.patch { s with
                object, clock := w.slept + env.busy (w.step + 1) } with
                  stage := awaiting cfg info.manifest (w.slept + env.busy (w.step + 1)),
                  applied := true }) ⟨hpatched.object, hpatched.clock⟩ rfl rfl).mono
                fun r t hr => hr.of_runs hruns'

/-- The run as it starts: any instance that is there is a prior one. -/
def startOf (env : Env sc) (cfg : Config) (info : HookInfo) (w : World sc) : HookRun where
  stage := .resolve
  object := (w.cluster.lookup (hookId cfg info)).map fun live =>
    ⟨false, live.object.metadata.deletionTimestamp.isSome, statusOf live.object⟩
  clock := w.slept + env.busy w.step
  applied := false
  created := false
  saw := none
  timedOut := false

/-- Where a pass begins its hook, the hook system is in an initial state. -/
theorem initial_startOf (env : Env sc) (cfg : Config) (info : HookInfo) (w : World sc) :
    Initial (startOf env cfg info w) where
  stage := rfl
  prior i hi := by
    obtain ⟨live, -, rfl⟩ := Option.map_eq_some_iff.mp hi
    rfl
  applied := rfl
  created := rfl
  saw := rfl
  timedOut := rfl

/-- It shows the world there. -/
theorem shows_startOf (env : Env sc) (cfg : Config) (info : HookInfo) (w : World sc) :
    Shows env cfg info (startOf env cfg info w) w where
  object := by simp only [startOf, Option.map_map]; rfl
  clock := Nat.le_refl _

/-- Every call of `run_one` is a run of the hook, with its outcome, which shows the object
at the end. -/
theorem runOne_reachable (h : Instances env cfg info) (guard : LeaseGuard) (w : World sc) :
    After (Hooks.runOne env cfg info guard) w fun r t => ∃ s reason,
      (system cfg info).Reachable s ∧ Shows env cfg info s t ∧
      s.stage = .returned reason ∧ r = .ok reason := by
  -- Every way the function returns is a run of the abstract system that started in its initial
  -- state.
  suffices hreturns : After (Hooks.runOne env cfg info guard) w
      (ReturnsWith env cfg info (startOf env cfg info w)) by
    refine hreturns.mono ?_
    rintro r t ⟨s, reason, hruns, ht, hstage, hr⟩
    exact ⟨s, reason, reachable_of_runs (initial_startOf env cfg info w) hruns, ht, hstage, hr⟩
  rw [Hooks.runOne, after_bind, after_attempt]
  refine ((keeps_resolve (benign_outside h).toInteracts _).after w).mono ?_
  intro r t hrt
  obtain ⟨object, hruns, ht⟩ := hrt _ (shows_startOf env cfg info w)
  cases r with
  -- The kind is unknown, which the system has as a step of its own.
  | error e => exact ⟨_, _, hruns.tail (.resolveFails _ _ rfl), ⟨ht.object, ht.clock⟩, rfl, rfl⟩
  | ok _ =>
      dsimp only
      rw [after_bind]
      have hresolved := hruns.tail (.resolve _ rfl)
      -- The delete before the creation has its own four cases. After it the two parts meet again.
      refine (after_deleteHookIf h
        (s := { startOf env cfg info w with object, stage := .preDelete })
        .apply ⟨ht.object, ht.clock⟩ (fun hno => .noPreDelete _ rfl hno)
        (fun hyes _ => .preDeleteFails _ rfl hyes) (fun hyes _ => .preDelete _ rfl hyes)).mono ?_
      rintro _ u ⟨rfl, object', hruns', hu⟩
      exact (after_applyHook h guard hu rfl).mono fun r t hr =>
        hr.of_runs (hresolved.trans hruns')

end LeanCd.HookRun
