import LeanCd.Lib.Act

/-!
# `LeanCd.Lib.Rounds`: loops with a bound that is never reached

A `loop` that is left by a result is modelled with a bound on its rounds. `rounds` is such a
loop, and `LoopsTo` is the meaning of the loop without the bound: how it ends once the bound no
longer matters. `loopsTo`: it ends like the bounded one, when every round without a result lowers
a rank and the bound is above the rank.

`Raises` bounds what a program adds to a meter, such as a clock. Its rules add up the bounds
along the program text.

The rank is a number read off the state, such as the intervals that are left up to a deadline.
Where time can jump ahead or a call may take long, the rank falls by more than one, which does no
harm.

Nothing here names the controller.
-/

set_option autoImplicit false

namespace LeanCd.Act

variable {ε δ σ α β : Type}

/-- The result of a round, or the rest of the loop. -/
def resultOr (rest : EStateM ε σ α) : Option α → EStateM ε σ α
  | some a => pure a
  | none => rest

/-- Rounds up to the first with a result, at most `n` of them. -/
def rounds (round : EStateM ε σ (Option α)) (atBound : α) : Nat → EStateM ε σ α
  | 0 => pure atBound
  | n + 1 => round >>= resultOr (rounds round atBound n)

section
variable {round : EStateM ε σ (Option α)}

/-- A loop whose rounds lower a rank does not reach its bound. -/
theorem rounds_eq {rank : σ → Nat}
    (hrank : ∀ s t, round s = .ok none t → rank t < rank s) (a b : α) {m n : Nat} {s : σ}
    (hm : rank s < m) (hn : rank s < n) : rounds round a m s = rounds round b n s := by
  induction m generalizing n s with
  | zero => exact absurd hm (Nat.not_lt_zero _)
  | succ m ih =>
      cases n with
      | zero => exact absurd hn (Nat.not_lt_zero _)
      | succ n =>
          rw [rounds, rounds]
          refine bind_congr_state ?_
          intro found t hround
          cases found with
          | some result => rfl
          | none =>
              have hlower := hrank s t hround
              exact ih (by omega) (by omega)

/-- How a loop without a bound ends: with enough rounds, neither their number nor what is
returned after the last of them can be told from the outcome. -/
def LoopsTo (round : EStateM ε σ (Option α)) (s : σ) (r : EStateM.Result ε σ α) : Prop :=
  ∃ n, ∀ m, n ≤ m → ∀ a, rounds round a m s = r

/-- A loop whose rounds lower a rank stops before its fuel runs out, so the bounded loop computes
what the unbounded one does. By induction on the fuel, with the rank below it. -/
theorem loopsTo {rank : σ → Nat} (hrank : ∀ s t, round s = .ok none t → rank t < rank s)
    (a : α) {n : Nat} {s : σ} (hn : rank s < n) : LoopsTo round s (rounds round a n s) :=
  ⟨n, fun _ hm b => rounds_eq hrank b a (Nat.lt_of_lt_of_le hn hm) hn⟩

/-- What every round keeps, the loop keeps. -/
theorem Keeps.rounds {F : Frame σ} (h : Keeps F round) (a : α) (n : Nat) :
    Keeps F (Act.rounds round a n) := by
  induction n with
  | zero => exact Keeps.pure a
  | succ n ih =>
      refine h.bind ?_
      intro found
      cases found with
      | some result => exact Keeps.pure result
      | none => exact ih

end

/-! ### Meters -/

/-- Every run adds at most `n` to the meter. -/
def Raises (f : σ → Nat) (m : EStateM ε σ α) (n : Nat) : Prop := ∀ s, f (state (m s)) ≤ f s + n

namespace Raises

variable {f : σ → Nat} {m : EStateM ε σ α} {k n : Nat}

/-- A greater bound bounds too. -/
theorem mono (h : Raises f m k) (hkn : k ≤ n) : Raises f m n := fun s =>
  Nat.le_trans (h s) (Nat.add_le_add_left hkn _)

/-- A program that leaves the meter as it is. -/
theorem of_fixed (h : Keeps (.fixed f) m) : Raises f m n := fun s =>
  Nat.le_trans (Nat.le_of_eq (h s)) (Nat.le_add_right _ _)

/-- A pure value does not raise the meter. -/
theorem pure (a : α) : Raises f (Pure.pure a : EStateM ε σ α) n := of_fixed (Keeps.pure a)

/-- A sequence raises the meter by the two bounds together. -/
theorem bind {g : α → EStateM ε σ β} (hm : Raises f m k) (hg : ∀ a, Raises f (g a) n) :
    Raises f (m >>= g) (k + n) := by
  intro s
  have hfirst := hm s
  cases hms : m s with
  | ok a t =>
      have hrest := hg a t
      rw [hms, state_ok] at hfirst
      rw [bind_ok hms]
      omega
  | error e t =>
      rw [hms] at hfirst
      rw [bind_error hms]
      exact Nat.le_trans hfirst (Nat.add_le_add_left (Nat.le_add_right k n) _)

/-- A first part that leaves the meter as it is. -/
theorem fixed_bind {g : α → EStateM ε σ β} (hm : Keeps (.fixed f) m)
    (hg : ∀ a, Raises f (g a) n) : Raises f (m >>= g) n :=
  ((of_fixed hm (n := 0)).bind hg).mono (Nat.le_of_eq (Nat.zero_add n))

/-- A rest that leaves the meter as it is. -/
theorem bind_fixed {g : α → EStateM ε σ β} (hm : Raises f m n)
    (hg : ∀ a, Keeps (.fixed f) (g a)) : Raises f (m >>= g) n :=
  hm.bind fun a => of_fixed (hg a) (n := 0)

end Raises

end LeanCd.Act
