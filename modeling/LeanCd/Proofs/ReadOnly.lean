import LeanCd.Health
import LeanCd.Proofs.Interactions
import LeanCd.Reports

/-!
# `LeanCd.Proofs.ReadOnly`: what reports leave behind

`leancd status`, `leancd health` and `leancd diff` hold no Lease and may run at any time next to
a controller. `LeftAlone` says that a world is what the outside has made of another one in some
interactions, without the process.

`reports_leave_alone`: whatever fails and whatever other clients do, the three subcommands leave
the world alone.

A report makes no call that writes, which the log of its calls says, and takes no Lease, which is
why the Lease needs an argument of its own: nothing but what the outside does happens to it. The
two together are all of the world but its traffic.
-/

set_option autoImplicit false

namespace LeanCd

open Act

variable {sc : Scopes} {env : Env sc} {cfg : Config} {secrets : Secrets} {w t : World sc}

/-- A world is what the outside has made of another one in some interactions. Only the time
spent asleep and what went over the network are left open. -/
def LeftAlone (env : Env sc) (w t : World sc) : Prop :=
  ∃ n slept traffic, t = { (World.ticked env)^[n] w with slept := slept, traffic := traffic }

/-! ### All but the Lease -/

/-- The world without its Lease and the time asleep. -/
def World.unleased (w : World sc) :
    Nat × Cluster sc × Option Value × List (Event sc) × Option Nat × List GvkKey :=
  (w.step, w.cluster, w.stateCm, w.trace, w.lastSuccess, w.lastGvks)

/-- Worlds that differ in the Lease only do so after a tick. -/
theorem World.unleased_ticked (h : t.unleased = w.unleased) :
    (t.ticked env).unleased = (w.ticked env).unleased := by
  simp only [World.unleased, Prod.mk.injEq] at h
  simp only [World.unleased, World.ticked, h]

/-- And after any number of ticks. -/
theorem World.unleased_iterate (h : t.unleased = w.unleased) (n : Nat) :
    ((World.ticked env)^[n] t).unleased = ((World.ticked env)^[n] w).unleased := by
  induction n generalizing w t with
  | zero => exact h
  | succ n ih => exact ih (World.unleased_ticked h)

/-- The process changed at most the Lease. -/
def atMostLease (env : Env sc) : Frame (World sc) where
  rel w t := ∃ n, t.unleased = ((World.ticked env)^[n] w).unleased
  refl _ := ⟨0, rfl⟩
  trans := by
    rintro w t u ⟨n, ht⟩ ⟨m, hu⟩
    refine ⟨m + n, ?_⟩
    rw [hu, World.unleased_iterate ht, Function.iterate_add_apply]

/-- Interactions change at most the Lease beyond what the outside does. -/
theorem benign_atMostLease : Benign env (atMostLease env) where
  tick _ := ⟨1, rfl⟩
  transmit _ _ := ⟨0, rfl⟩
  sleep _ _ := ⟨0, rfl⟩
  lease _ _ _ := ⟨0, rfl⟩

/-! ### The Lease -/

/-- The Lease, and what its next version depends on. -/
def World.leasing (w : World sc) : Nat × Option Lease × Nat := (w.step, w.lease, w.nextRv)

/-- Worlds with the same Lease still have the same after a tick. -/
theorem World.leasing_ticked (h : t.leasing = w.leasing) :
    (t.ticked env).leasing = (w.ticked env).leasing := by
  simp only [World.leasing, Prod.mk.injEq] at h
  simp only [World.leasing, World.ticked, h]

/-- And after any number of ticks. -/
theorem World.leasing_iterate (h : t.leasing = w.leasing) (n : Nat) :
    ((World.ticked env)^[n] t).leasing = ((World.ticked env)^[n] w).leasing := by
  induction n generalizing w t with
  | zero => exact h
  | succ n ih => exact ih (World.leasing_ticked h)

/-- A list does nothing to the Lease. -/
theorem listAll_leasing {g : GvkKey} {sel : String × String} {live : List DynamicObject}
    (h : KubeUtil.listAll env g sel w = .ok live t) : t.leasing = (w.ticked env).leasing := by
  have hafter : After (KubeUtil.listAll env g sel) w fun _ t =>
      t.leasing = (w.ticked env).leasing := by
    rw [KubeUtil.after_listAll]
    cases env.fault w.step (.list g) <;> rfl
  exact hafter.of_run h

/-- An interaction that renews nothing moves the Lease as the outside does. -/
theorem leasing_of_runs {guard : LeaseGuard} {a : Interaction}
    (h : Interaction.Runs env cfg guard a w t) (ha : Interaction.gauge.mark a = false) :
    t.leasing = (w.ticked env).leasing := by
  cases a with
  | call =>
      show (t.step, t.lease, t.nextRv) = (w.step + 1, env.otherLease w.step w.lease, w.nextRv)
      rw [Interaction.Called.step h, Interaction.Called.lease h, Interaction.Called.nextRv h]
  | list k =>
      obtain ⟨g, sel, live, hrun, -⟩ := h
      exact listAll_leasing hrun
  | look => exact congrArg World.leasing h
  | renewal => cases ha

/-- A log without a renewal moves the Lease as the outside does. -/
theorem leasing_of_performs {guard : LeaseGuard} {log : List Interaction}
    (h : Performs (interactions env cfg guard) log w t)
    (hlog : ∀ a ∈ log, Interaction.gauge.mark a = false) :
    t.leasing = ((World.ticked env)^[log.length] w).leasing := by
  have hquiet : ∀ {w t : World sc}, unnoticed.rel w t → t.leasing = w.leasing := by
    intro w t h
    have hsame := Prod.mk.inj h
    simp only [Prod.mk.injEq] at hsame
    simp only [World.leasing, hsame]
  induction h with
  | done h => exact hquiet h
  | step h ha _ ih =>
      have hmark := hlog _ List.mem_cons_self
      rw [ih fun a ha => hlog a (List.mem_cons_of_mem _ ha)]
      exact World.leasing_iterate ((leasing_of_runs ha hmark).trans
        (World.leasing_ticked (hquiet h))) _

/-! ### A program that only reads -/

/-- A program that renews nothing and changes at most the Lease leaves the world alone. -/
theorem leftAlone_of_unmarked {α : Type} (cfg : Config) {m : Pass sc α} {guard : LeaseGuard}
    (hmarks : Within (interactions env cfg guard) Interaction.gauge.marks m 0)
    (hlease : Keeps (atMostLease env) m) (w : World sc) :
    After m w fun _ t => LeftAlone env w t := by
  refine ((hmarks w).and (hlease.after w)).mono ?_
  rintro _ t ⟨⟨log, hperforms, hmarks⟩, k, hrest⟩
  have hunmarked : ∀ a ∈ log, Interaction.gauge.mark a = false := fun a ha => by
    simpa using List.countP_eq_zero.mp (Nat.le_zero.mp hmarks) a ha
  have hleasing := leasing_of_performs hperforms hunmarked
  -- Both counts are that of the interactions.
  have hsteps : ∀ n, ((World.ticked env)^[n] w).step = w.step + n := by
    intro n
    induction n with
    | zero => rfl
    | succ n ih =>
        rw [Function.iterate_succ_apply']
        show ((World.ticked env)^[n] w).step + 1 = _
        rw [ih, Nat.add_assoc]
  have hk : k = log.length := by
    have hstep := (congrArg (·.1) hrest).symm.trans (congrArg (·.1) hleasing)
    have hstep : ((World.ticked env)^[k] w).step = ((World.ticked env)^[log.length] w).step :=
      hstep
    rw [hsteps, hsteps] at hstep
    omega
  subst hk
  refine ⟨log.length, t.slept, t.traffic, ?_⟩
  simp only [World.unleased, World.leasing, Prod.mk.injEq] at hrest hleasing
  obtain ⟨hstep, hcluster, hstate, htrace, hsuccess, hgvks⟩ := hrest
  obtain ⟨-, hlease, hrv⟩ := hleasing
  cases t
  simp only at *
  subst hstep hcluster hstate htrace hsuccess hgvks hlease hrv
  rfl

/-! ### The subcommands that report -/

/-- The epoch costs no call. -/
theorem calls_nowEpoch {guard : LeaseGuard} :
    Calls env cfg guard (Reconcile.nowEpoch env) 0 :=
  calls_timestampNow.bind_free fun _ => .pure _

/-- A diff makes no mark: it neither renews the Lease nor takes it. -/
theorem unmarked_diff {guard : LeaseGuard} : Within (interactions env cfg guard)
    Interaction.gauge.marks (Reconcile.diff env cfg secrets) 0 := by
  refine (calls_checkout _ _).marks.bind_free fun sync => ?_
  refine (Brief.ofExcept (n := 0) _).marks.bind_free fun roots => ?_
  refine (Brief.ofExcept (n := 0) _).marks.bind_free fun manifests => ?_
  exact (calls_detect _).marks.bind_free fun _ => .pure _

/-- A diff consists of interactions. -/
theorem benign_diff {F : Frame (World sc)} (h : Benign env F) :
    Keeps F (Reconcile.diff env cfg secrets) :=
  (h.checkout _ _).bind fun _ => (Keeps.ofExcept _).bind fun _ => (Keeps.ofExcept _).bind fun _ =>
    (h.detect _).bind fun _ => Keeps.pure _

/-- Whatever fails and whatever other clients do, the subcommands that report leave the world
alone, whether they print something or end with an error. -/
theorem reports_leave_alone (env : Env sc) (cfg : Config) (secrets : Secrets)
    (probe : Health.ProbeConfig) (stateConfigmap : String) (w : World sc) :
    After (runStatus env cfg stateConfigmap) w (fun _ t => LeftAlone env w t) ∧
      After (Health.runHealth env probe) w (fun _ t => LeftAlone env w t) ∧
      After (Reconcile.diff env cfg secrets) w (fun _ t => LeftAlone env w t) := by
  have hread : Keeps (atMostLease env) (State.read env) := benign_atMostLease.stateRead
  -- Nobody holds the Lease in a report, so any identity will do.
  let nobody : LeaseGuard := ⟨""⟩
  have hstatus : Within (interactions env cfg nobody) Interaction.gauge.marks
      (runStatus env cfg stateConfigmap) 0 :=
    calls_stateRead.marks.bind_free fun _ => .pure _
  have hhealth : Within (interactions env cfg nobody) Interaction.gauge.marks
      (Health.runHealth env probe) 0 :=
    calls_stateRead.marks.bind_free fun _ => calls_nowEpoch.marks.bind_free fun _ => .pure _
  have hdiff : Within (interactions env cfg nobody) Interaction.gauge.marks
      (Reconcile.diff env cfg secrets) 0 := unmarked_diff
  refine ⟨leftAlone_of_unmarked cfg hstatus (hread.bind fun _ => Keeps.pure _) w,
    leftAlone_of_unmarked cfg hhealth ?_ w,
    leftAlone_of_unmarked cfg hdiff (benign_diff benign_atMostLease) w⟩
  exact hread.bind fun _ => benign_atMostLease.nowEpoch.bind fun _ => Keeps.pure _

end LeanCd
