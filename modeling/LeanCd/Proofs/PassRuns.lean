import LeanCd.Commands
import LeanCd.Lib.Transition
import LeanCd.Proofs.Settled
import LeanCd.Proofs.WholePass

/-!
# `LeanCd.Proofs.PassRuns`: the rule for every run of passes

`passesOf` are the runs in which passes of any subcommand follow one another, each with an
environment and a configuration of its own, whatever they end with. A pass that is killed is one
whose calls are all refused from then on.

`PassRule` says what the parts of a pass owe to a property of the world: the reads, the Lease,
the validation of a dry run, `execute` on the manifests of its commit, and the record of an error.
`PassRule.holds`: what the parts keep, every run keeps.

The persisted state matters to a rule, because a pass brings back what it read: `Knows` says that
a pass which has read the state has read the one of the world. With it a property of the state can
be kept by a pass that builds its new state from the old one.
-/

set_option autoImplicit false

namespace LeanCd.Reconcile

open Act Transition

variable {sc : Scopes} {env : Env sc} {cfg : Config} {P : World sc → Prop}

/-- What a pass may take for the prior state: the stored one, or none when the read says so. -/
def Knows (w : World sc) (prev : Option State) : Prop := prev = w.stored ∨ prev = none

/-- What is known of the state stays known until it is written. -/
theorem Knows.kept {w t : World sc} {prev : Option State} (h : Knows w prev)
    (ht : t.stateCm = w.stateCm) : Knows t prev := by
  unfold Knows World.stored at h ⊢
  rwa [ht]

/-- After the state was read it is known. -/
theorem after_stateRead_knows (w : World sc) :
    After (State.read env) w fun res t => ∀ prev, res = .ok prev → Knows t prev := by
  have hread : Benign env (untouched : Frame (World sc)) := benign_untouched
  have hkept := hread.stateRead.after w
  refine (hkept.and (after_stateRead_or env w)).mono ?_
  intro res t h prev hprev
  have hknows : Knows w prev := (h.2 prev hprev).imp_right And.left
  exact hknows.kept (Prod.mk.inj h.1).2

/-- A pass that got as far as its checkout knows the state. -/
theorem Started.knows {r : Reconciler} {w : World sc} (x : Started env r w) :
    Knows x.start x.prev := by
  have hread : Knows x.entered x.prev := (after_stateRead_knows x.held).of_run x.read x.prev rfl
  have hfetched := (benign_untouched.checkout _ _).of_ok x.checkedOut
  have htouched := (benign_untouched.touchLease x.guard).of_ok x.touched
  exact hread.kept (Prod.mk.inj (untouched.trans hfetched htouched)).2

/-- What the parts of a pass owe to a property that the pass is to keep. -/
structure PassRule (env : Env sc) (cfg : Config) (P : World sc → Prop) : Prop where
  benign : Benign env (.preserves P)
  /-- The validation of a dry run. -/
  validate : ∀ sha applied c, desired env sha cfg applied = .ok c →
    AllowsApply env cfg (.preserves P) true c.main
  execute : ∀ guard prev sync c w, P w → Knows w prev →
    desired env sync.sha cfg (prevApplied prev) = .ok c →
      After (execute env cfg guard prev sync c) w fun _ t => P t
  /-- The record of an error. -/
  record : ∀ e prev w, P w → Knows w prev →
    After (State.write env (errorState e prev)) w fun _ t => P t
  success : ∀ w now, P w → P { w with lastSuccess := now }

/-- The rule for a property that every write of the program keeps, whatever is written. -/
theorem passRule_of_writes (hb : Benign env (.preserves P))
    (hnote : ∀ e, Keeps (.preserves P) (note e))
    (hpatch : ∀ id o dryRun, Keeps (.preserves P) (KubeUtil.servePatch env id o dryRun))
    (hdelete : ∀ id, Keeps (.preserves P) (KubeUtil.serveDelete env id))
    (hstate : ∀ s : State, Keeps (.preserves P) (State.servePatch s.toData))
    (hgvks : ∀ w gvks, P w → P { w with lastGvks := gvks })
    (hsuccess : ∀ w now, P w → P { w with lastSuccess := now }) : PassRule env cfg P where
  benign := hb
  validate _ _ _ _ := ⟨fun _ _ => hnote _, fun _ _ o id _ => hpatch id o true⟩
  execute guard prev sync c w hw _ _ := by
    have hmain : AllowsApply env cfg (.preserves P) false c.main :=
      ⟨fun _ _ => hnote _, fun _ _ o id _ => hpatch id o false⟩
    have hhooks : AllowsHooks env cfg (.preserves P) c.hooks :=
      ⟨fun _ _ => hnote _, fun _ _ o id _ => hpatch id o false, fun _ _ => hdelete _⟩
    have hbranch := hb.branch hmain hhooks hdelete guard prev sync
    exact hb.execute (fun _ _ _ => hb.stateWrite (hstate _)) hgvks hbranch w hw
  record e prev w hw _ := hb.stateWrite (hstate _) w hw
  success := hsuccess

namespace PassRule

variable (h : PassRule env cfg P)
include h

/-- A pass that knows its state keeps the property, whichever of its branches it takes. -/
theorem after_converge {r : Reconciler} (hr : r.cfg = cfg) {w : World sc} (hw : P w)
    (guard : LeaseGuard) {prev : Option State} (hprev : Knows w prev) (sync : SyncOutcome) :
    After (converge env r guard prev sync) w fun _ t => P t := by
  subst hr
  rw [converge, after_bind, after_ofExcept]
  cases hdesired : desired env sync.sha r.cfg (prevApplied prev) with
  | error e => exact hw
  | ok c =>
      dsimp only
      rw [after_ite]
      split
      next =>
        have hvalidate := h.benign.applyAll (h.validate _ _ c hdesired) []
        exact (hvalidate.bind fun _ => Keeps.pure ()) w hw
      next => exact h.execute guard prev sync c w hw hprev hdesired

/-- A pass keeps the property: the Lease and the checkout are interactions. -/
theorem keeps_reconcile {r : Reconciler} (hr : r.cfg = cfg) :
    Keeps (.preserves P) (reconcile env r) := by
  intro w hw
  have hall : After (reconcile env r) w fun _ t => P t := by
    rcases started_or_benign env r w with ⟨⟨x⟩⟩ | hbenign
    · rw [x.toEntered.after_reconcile, x.after_inner]
      refine (h.after_converge hr (x.rel h.benign hw) x.guard x.knows x.sync).mono ?_
      intro res t ht
      exact (h.benign.release.after t).mono fun _ u hu => hu ht
    · exact (hbenign _ h.benign).mono fun _ t ht => ht hw
  exact hall

/-- The record of an error writes the state, and nothing else. -/
theorem keeps_recordError (e : Error) : Keeps (.preserves P) (recordError env e) := by
  intro w hw
  have hall : After (recordError env e) w fun _ t => P t := by
    rw [recordError, after_bind]
    refine ((h.benign.stateRead.after w).and (after_stateRead_knows w)).mono ?_
    intro res t ht
    cases res with
    | error e => exact ht.1 hw
    | ok prev => exact h.record _ prev t (ht.1 hw) (ht.2 prev rfl)
  exact hall

/-- A pass with the record of its error keeps the property. -/
theorem keeps_runOnce {r : Reconciler} (hr : r.cfg = cfg) :
    Keeps (.preserves P) (runOnce env r) := by
  refine (h.keeps_reconcile hr).attempt.bind ?_
  intro res
  cases res with
  | ok _ => exact h.benign.timestampNow.bind fun _ w hw => h.success w _ hw
  | error e => exact (h.keeps_recordError e).attempt.bind fun _ => Keeps.throw e

/-- A pass of any subcommand keeps the property. -/
theorem keeps_pass (cmd : Command) (secrets : Secrets) (holder : String) :
    Keeps (.preserves P) (cmd.pass env cfg secrets holder) := by
  cases cmd with
  | controller | rollback => exact h.keeps_runOnce rfl
  | sync =>
      unfold Command.pass
      dsimp only
      split
      next => exact h.keeps_reconcile rfl
      next => exact h.keeps_runOnce rfl

end PassRule

/-- The runs of passes of any subcommand from a world, each with an environment and a
configuration of a family. -/
def passesOf (E : Env sc → Config → Prop) (w₀ : World sc) : System (World sc) where
  init w := w = w₀
  step w t := ∃ env cfg, E env cfg ∧ ∃ (cmd : Command) (secrets : Secrets) (holder : String),
    t = Act.state (cmd.pass env cfg secrets holder w)

/-- What the parts of its passes keep holds after every run. -/
theorem PassRule.holds {E : Env sc → Config → Prop} (h : ∀ env cfg, E env cfg → PassRule env cfg P)
    {w₀ : World sc} (hw : P w₀) {t : World sc} (ht : (passesOf E w₀).Reachable t) : P t := by
  have hinv : (passesOf E w₀).Invariant P := by
    constructor
    · rintro w rfl
      exact hw
    · rintro w t - hw ⟨env, cfg, hE, cmd, secrets, holder, rfl⟩
      exact (h env cfg hE).keeps_pass cmd secrets holder w hw
  exact hinv.holds ht

end LeanCd.Reconcile
