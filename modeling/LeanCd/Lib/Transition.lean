/-!
# `LeanCd.Lib.Transition`: runs of a transition system

Reachable states and the rule for invariants: what holds initially and is kept by
every step from a reachable state holds of every reachable state. `restrict` is the
system whose steps meet a condition, for statements about the runs that never break
it. `Steps` counts the steps of a run, and a rank that every step lowers bounds them.

`Invariant` has two fields, `init` and `step`. `Invariant.holds` is the induction on reachability,
so that a proof of an invariant is a proof of these two, with the reachability of the state before
the step at hand where an earlier invariant is needed.

Nothing here names the controller.
-/

set_option autoImplicit false

namespace LeanCd.Transition

variable {σ : Type}

/-- Initial states and steps. -/
structure System (σ : Type) where
  init : σ → Prop
  step : σ → σ → Prop

namespace System

/-- The states of the runs. -/
inductive Reachable (S : System σ) : σ → Prop
  | init {s : σ} (h : S.init s) : Reachable S s
  | step {s t : σ} (hs : Reachable S s) (h : S.step s t) : Reachable S t

/-- An invariant: it holds initially, and every step from a reachable state keeps it. -/
structure Invariant (S : System σ) (I : σ → Prop) : Prop where
  init : ∀ {s}, S.init s → I s
  step : ∀ {s t}, S.Reachable s → I s → S.step s t → I t

variable {S : System σ}

/-- An invariant holds of every reachable state. -/
theorem Invariant.holds {I : σ → Prop} (h : S.Invariant I) {s : σ} (hs : S.Reachable s) :
    I s := by
  induction hs with
  | init hinit => exact h.init hinit
  | step hs hstep ih => exact h.step hs ih hstep

/-- The system whose steps also meet a condition. -/
def restrict (S : System σ) (P : σ → σ → Prop) : System σ where
  init := S.init
  step s t := S.step s t ∧ P s t

/-- The runs of the restricted system are runs. -/
theorem Reachable.of_restrict {P : σ → σ → Prop} {s : σ} (h : (S.restrict P).Reachable s) :
    S.Reachable s := by
  induction h with
  | init hinit => exact .init hinit
  | step _ hstep ih => exact .step ih hstep.1

end System

/-- So many steps lead from a state to another. -/
inductive Steps (r : σ → σ → Prop) : Nat → σ → σ → Prop
  | zero (s : σ) : Steps r 0 s s
  | succ {n : Nat} {s t u : σ} (h : Steps r n s t) (hstep : r t u) : Steps r (n + 1) s u

namespace Steps

variable {r : σ → σ → Prop} {P : σ → Prop} {n : Nat} {s t : σ}

/-- What every step keeps holds at the end. -/
theorem kept (h : Steps r n s t) (hs : P s) (hkeep : ∀ a b, P a → r a b → P b) : P t := by
  induction h with
  | zero => exact hs
  | succ _ hstep ih => exact hkeep _ _ (ih hs) hstep

/-- A rank that every step lowers, where a condition holds that the steps keep, bounds the number
of the steps. -/
theorem rank_add_le (h : Steps r n s t) (rank : σ → Nat) (hs : P s)
    (hkeep : ∀ a b, P a → r a b → P b) (hlower : ∀ a b, P a → r a b → rank b < rank a) :
    rank t + n ≤ rank s := by
  induction h with
  | zero => exact Nat.le_refl _
  | succ h hstep ih =>
      have hless := hlower _ _ (h.kept hs hkeep) hstep
      have hrest := ih hs
      omega

end Steps

end LeanCd.Transition
