import LeanCd.Lib.Act

/-!
# `LeanCd.Lib.Metered`: programs with a meter beside their state

A program that also keeps a meter runs over pairs. `unmetered` is a program that leaves the meter
alone, and `record` changes nothing else.

`Erases` says that without the meter a program is another one: what it returns and the state it
ends in do not depend on the meter. Its rules follow the program text.

The use of it: results about a program are proved once, without its instruments, and hold of the
program that keeps them. What the meter shows is a result of its own, by `After` over pairs.

Nothing here names the controller.
-/

set_option autoImplicit false

namespace LeanCd.Act

variable {ε δ σ μ α β : Type}

/-- A program that leaves the meter alone. -/
def unmetered (m : EStateM ε σ α) : EStateM ε (σ × μ) α := fun p =>
  match m p.1 with
  | .ok a t => .ok a (t, p.2)
  | .error e t => .error e (t, p.2)

/-- A change of the meter. -/
def record (f : μ → μ) : EStateM ε (σ × μ) Unit := modify fun p => (p.1, f p.2)

/-- An outcome without the meter. -/
def dropMeter : EStateM.Result ε (σ × μ) α → EStateM.Result ε σ α
  | .ok a p => .ok a p.1
  | .error e p => .error e p.1

/-- A computation that is run beside the meter has the results it has without one, and the meter
stands still. -/
@[simp] theorem after_unmetered {m : EStateM ε σ α} {p : σ × μ}
    {Q : Except ε α → σ × μ → Prop} :
    After (unmetered m) p Q ↔ After m p.1 fun r t => Q r (t, p.2) := by
  unfold After unmetered
  cases m p.1 <;> rfl

/-- A recording changes the meter alone. -/
@[simp] theorem after_record {f : μ → μ} {p : σ × μ}
    {Q : Except ε Unit → σ × μ → Prop} :
    After (record f) p Q ↔ Q (.ok ()) (p.1, f p.2) := Iff.rfl

/-- A frame of the state, where the meter stands still. -/
theorem Keeps.unmetered {F : Frame σ} {G : Frame (σ × μ)} {m : EStateM ε σ α} (hm : Keeps F m)
    (h : ∀ s t n, F.rel s t → G.rel (s, n) (t, n)) : Keeps G (Act.unmetered m) := by
  intro p
  have hall : After (Act.unmetered m) p fun _ q => G.rel p q := by
    rw [after_unmetered]
    exact (hm.after p.1).mono fun _ t ht => h p.1 t p.2 ht
  exact hall

/-- A result does not depend on the meter. -/
theorem Returns.unmetered {m : EStateM ε σ α} {P : α → Prop} (hm : Returns m P) :
    Returns (Act.unmetered m : EStateM ε (σ × μ) α) P := by
  intro p a ha
  have hall : After (Act.unmetered m) p fun r _ => ∀ a, r = .ok a → P a := by
    rw [after_unmetered]
    exact hm.after p.1
  exact hall a ha

/-- Without the meter, the program is the other one. -/
def Erases (x : EStateM ε (σ × μ) α) (m : EStateM ε σ α) : Prop :=
  ∀ p, dropMeter (x p) = m p.1

namespace Erases

/-- Both end in the same state, and both return the same. -/
theorem after {x : EStateM ε (σ × μ) α} {m : EStateM ε σ α} (h : Erases x m) (p : σ × μ) :
    After x p fun r q => r = value (m p.1) ∧ q.1 = state (m p.1) := by
  unfold After
  rw [← h p]
  cases x p <;> exact ⟨rfl, rfl⟩

/-- A computation that was lifted erases to itself. -/
theorem unmetered (m : EStateM ε σ α) :
    Erases (Act.unmetered m : EStateM ε (σ × μ) α) m := by
  intro p
  unfold Act.unmetered
  cases m p.1 <;> rfl

/-- A pure value erases to itself. -/
theorem pure (a : α) : Erases (Pure.pure a : EStateM ε (σ × μ) α) (Pure.pure a) := fun _ => rfl

/-- A throw erases to itself. -/
theorem throw (e : ε) :
    Erases (MonadExcept.throw e : EStateM ε (σ × μ) α) (MonadExcept.throw e) := fun _ => rfl

/-- Sequences erase part by part, since what the first part returns does not depend on the meter. -/
theorem bind {x : EStateM ε (σ × μ) α} {m : EStateM ε σ α} {k : α → EStateM ε (σ × μ) β}
    {f : α → EStateM ε σ β} (hx : Erases x m) (hk : ∀ a, Erases (k a) (f a)) :
    Erases (x >>= k) (m >>= f) := by
  intro p
  have hp := hx p
  cases hxp : x p with
  | ok a q =>
      rw [hxp] at hp
      rw [bind_ok hxp, bind_ok hp.symm]
      exact hk a q
  | error e q =>
      rw [hxp] at hp
      rw [bind_error hxp, bind_error hp.symm]
      rfl

/-- A change of the meter is not seen. -/
theorem record_bind {x : EStateM ε (σ × μ) α} {m : EStateM ε σ α} (f : μ → μ)
    (hx : Erases x m) : Erases (record f >>= fun _ => x) m := fun p => hx (p.1, f p.2)

/-- A change of the meter at the end is not seen. -/
theorem bind_record {x : EStateM ε (σ × μ) α} {m : EStateM ε σ α} (hx : Erases x m)
    (f : α → μ → μ) :
    Erases (do
      let a ← x
      record (f a)
      return a) m := by
  have h : Erases (x >>= fun a => record (f a) >>= fun _ => Pure.pure a)
      (m >>= Pure.pure) := hx.bind fun a => record_bind (f a) (pure a)
  rwa [bind_pure] at h

/-- Attempts erase as the computations do. -/
theorem attempt {x : EStateM ε (σ × μ) α} {m : EStateM ε σ α} (hx : Erases x m) :
    Erases (Act.attempt x : EStateM δ (σ × μ) (Except ε α)) (Act.attempt m) := by
  intro p
  have hp := hx p
  rw [attempt_run, attempt_run, ← hp]
  cases x p <;> rfl

/-- A result without effects erases to itself. -/
theorem ofExcept (r : Except ε α) :
    Erases (Act.ofExcept r : EStateM ε (σ × μ) α) (Act.ofExcept r) := by
  cases r with
  | ok a => exact pure a
  | error e => exact throw e

/-- Branches erase branch by branch, for the condition does not look at the meter. -/
theorem ite {c : Prop} [Decidable c] {x y : EStateM ε (σ × μ) α} {m n : EStateM ε σ α}
    (hx : Erases x m) (hy : Erases y n) : Erases (if c then x else y) (if c then m else n) := by
  split
  · exact hx
  · exact hy

end Erases

end LeanCd.Act
