import LeanCd.Lib.Act
import Mathlib.Computability.Language

/-!
# `LeanCd.Lib.Log`: runs as logs of actions

A program that does one thing at a time leaves a log: the list of the actions that it
performed, with quiet steps between them.

* A `Vocabulary` says which steps are quiet and what it means to perform an action.
* `Performs` reads a log as a run from one state to another.
* `Logs` is a postcondition of the result and the log, in every run. Its rules build it along
  the program text.
* Where the state keeps the list of what was done, `Vocabulary.history` reads the log off it: a
  run has one log then (`Performs.of_history`).
* `Performs.refine` replaces the actions of a log by what they consist of. The log of a finer
  vocabulary lies in the product of the languages of the actions.

A log is in a language, a set of lists. `Language`'s product puts two logs one after the other,
and `optional` is what may or may not be there. So the plan of a program is written as an
expression over its actions, and a run is shown to follow it.

Nothing here names the controller.
-/

set_option autoImplicit false

namespace LeanCd.Act

variable {ε σ α β A B : Type}

/-- The words of a language, or none. -/
def optional (L : Language B) : Language B := 1 + L

/-- What is optional may be left out. -/
theorem nil_mem_optional {L : Language B} : [] ∈ optional L := .inl rfl

/-- What is optional may be there. -/
theorem mem_optional {L : Language B} {bs : List B} (h : bs ∈ L) : bs ∈ optional L := .inr h

/-- To ask twice whether something is there is to ask once. -/
@[simp] theorem optional_optional (L : Language B) : optional (optional L) = optional L := by
  rw [optional, optional, ← add_assoc, add_idem]

/-- The actions that a log speaks of, and the steps that it leaves out. -/
structure Vocabulary (σ A : Type) where
  quiet : Frame σ
  runs : A → σ → σ → Prop

/-- The actions that a state keeps in a list, newest first. Every other step is quiet. -/
def Vocabulary.history (kept : σ → List A) : Vocabulary σ A where
  quiet := .fixed kept
  runs a s t := kept t = a :: kept s

/-- The actions are performed one after the other. -/
inductive Performs (V : Vocabulary σ A) : List A → σ → σ → Prop
  | done {s t : σ} (h : V.quiet.rel s t) : Performs V [] s t
  | step {a : A} {acts : List A} {s t u v : σ} (hquiet : V.quiet.rel s t) (ha : V.runs a t u)
      (h : Performs V acts u v) : Performs V (a :: acts) s v

namespace Performs

variable {V : Vocabulary σ A} {a : A} {as bs : List A} {s t u : σ}

/-- A single action is performed by a run of it. -/
theorem one (h : V.runs a s t) : Performs V [a] s t :=
  .step (V.quiet.refl s) h (.done (V.quiet.refl t))

/-- A quiet step before a log. -/
theorem after_quiet (hquiet : V.quiet.rel s t) (h : Performs V as t u) : Performs V as s u := by
  cases h with
  | done h => exact .done (V.quiet.trans hquiet h)
  | step h ha hrest => exact .step (V.quiet.trans hquiet h) ha hrest

/-- Performances one after the other make one performance of both lists. -/
theorem append (h : Performs V as s t) (h' : Performs V bs t u) :
    Performs V (as ++ bs) s u := by
  induction h with
  | done hquiet => exact after_quiet hquiet h'
  | step hquiet ha _ ih => exact .step hquiet ha (ih h')

/-- A log in another vocabulary, where each action is a word of its language. -/
theorem refine {W : Vocabulary σ B} {L : A → Language B}
    (hquiet : ∀ {s t}, V.quiet.rel s t → W.quiet.rel s t)
    (hruns : ∀ {a s t}, V.runs a s t → ∃ bs ∈ L a, Performs W bs s t)
    (h : Performs V as s t) : ∃ bs ∈ (as.map L).prod, Performs W bs s t := by
  induction h with
  | done h => exact ⟨[], Language.nil_mem_one, .done (hquiet h)⟩
  | step h ha _ ih =>
      obtain ⟨first, hfirst, hperforms⟩ := hruns ha
      obtain ⟨rest, hrest, hperforms'⟩ := ih
      refine ⟨first ++ rest, ?_, (after_quiet (hquiet h) hperforms).append hperforms'⟩
      rw [List.map_cons, List.prod_cons]
      exact Language.append_mem_mul hfirst hrest

/-- A log of what the state keeps is what the kept list grew by. -/
theorem of_history {kept : σ → List A} (h : Performs (.history kept) as s t) :
    kept t = as.reverse ++ kept s := by
  induction h with
  | done h => exact h
  | @step a as s s' t u hquiet ha _ ih =>
      have hquiet : kept s' = kept s := hquiet
      have ha : kept t = a :: kept s' := ha
      simp [ih, ha, hquiet]

end Performs

/-- Every run performs a log, and `Q` holds of what the run returns and of the log. -/
def Logs (V : Vocabulary σ A) (m : EStateM ε σ α) (Q : Except ε α → List A → Prop) : Prop :=
  ∀ s, After m s fun res t => ∃ acts, Performs V acts s t ∧ Q res acts

namespace Logs

variable {V : Vocabulary σ A} {P Q : Except ε α → List A → Prop} {m : EStateM ε σ α}

/-- A weaker condition on the log is logged too. -/
theorem mono (h : Logs V m P) (hPQ : ∀ res acts, P res acts → Q res acts) : Logs V m Q := by
  intro s
  refine (h s).mono ?_
  intro res t ht
  obtain ⟨acts, hperforms, hP⟩ := ht
  exact ⟨acts, hperforms, hPQ res acts hP⟩

/-- A pure value logs nothing. -/
theorem pure {a : α} (h : Q (.ok a) []) : Logs V (Pure.pure a : EStateM ε σ α) Q := fun s =>
  ⟨[], .done (V.quiet.refl s), h⟩

/-- A throw logs nothing. -/
theorem throw {e : ε} (h : Q (.error e) []) :
    Logs V (MonadExcept.throw e : EStateM ε σ α) Q := fun s =>
  ⟨[], .done (V.quiet.refl s), h⟩

/-- A program that is one action. -/
theorem action {act : α → A} (ht : Total m)
    (h : ∀ s a t, m s = .ok a t → V.runs (act a) s t) :
    Logs V m fun res acts => ∃ a, res = .ok a ∧ acts = [act a] := by
  intro s
  obtain ⟨a, t, hrun⟩ := ht s
  rw [after_of_ok hrun]
  exact ⟨[act a], .one (h s a t hrun), a, rfl, rfl⟩

/-- A sequence logs the actions of its parts one after the other. The log of a first part that
throws is the log of the whole. -/
theorem bind {f : α → EStateM ε σ β} {R : Except ε β → List A → Prop} (hm : Logs V m P)
    (herror : ∀ e acts, P (.error e) acts → R (.error e) acts)
    (hok : ∀ a acts, P (.ok a) acts → Logs V (f a) fun res acts' => R res (acts ++ acts')) :
    Logs V (m >>= f) R := by
  intro s
  rw [after_bind]
  refine (hm s).mono ?_
  intro res t ht
  obtain ⟨acts, hperforms, hP⟩ := ht
  cases res with
  | error e => exact ⟨acts, hperforms, herror e acts hP⟩
  | ok a =>
      refine (hok a acts hP t).mono ?_
      intro res u hu
      obtain ⟨acts', hperforms', hR⟩ := hu
      exact ⟨acts ++ acts', hperforms.append hperforms', hR⟩

/-- A bind whose first part does not throw. -/
theorem bind_ok {f : α → EStateM ε σ β} {P : α → List A → Prop} {R : Except ε β → List A → Prop}
    (hm : Logs V m fun res acts => ∃ a, res = .ok a ∧ P a acts)
    (hf : ∀ a acts, P a acts → Logs V (f a) fun res acts' => R res (acts ++ acts')) :
    Logs V (m >>= f) R := by
  refine hm.bind ?_ ?_
  · intro e acts h
    obtain ⟨a, hres, -⟩ := h
    cases hres
  · intro a acts h
    obtain ⟨_, hres, hP⟩ := h
    cases hres
    exact hf a acts hP

/-- A quiet program before another one. -/
theorem quiet_bind {f : α → EStateM ε σ β} {R : Except ε β → List A → Prop}
    (hm : Keeps V.quiet m) (ht : Total m) (hf : ∀ a, Logs V (f a) R) : Logs V (m >>= f) R := by
  intro s
  obtain ⟨a, t, hrun⟩ := ht s
  rw [after_bind, after_of_ok hrun]
  refine (hf a t).mono ?_
  intro res u hu
  obtain ⟨acts, hperforms, hR⟩ := hu
  exact ⟨acts, .after_quiet (hm.of_ok hrun) hperforms, hR⟩

/-- A program whose outcome is handed over as a value, before another one. -/
theorem attempt_bind {δ : Type} {f : Except ε α → EStateM δ σ β}
    {R : Except δ β → List A → Prop} (hm : Logs V m P)
    (hf : ∀ res acts, P res acts → Logs V (f res) fun res' acts' => R res' (acts ++ acts')) :
    Logs V (Act.attempt m >>= f) R := by
  intro s
  rw [after_bind, after_attempt]
  refine (hm s).mono ?_
  intro res t ht
  obtain ⟨acts, hperforms, hP⟩ := ht
  refine (hf res acts hP t).mono ?_
  intro res' u hu
  obtain ⟨acts', hperforms', hR⟩ := hu
  exact ⟨acts ++ acts', hperforms.append hperforms', hR⟩

end Logs

end LeanCd.Act
