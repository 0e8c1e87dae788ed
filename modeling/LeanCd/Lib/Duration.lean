import Mathlib.Data.Nat.Basic
import Mathlib.Data.UInt
import Mathlib.Tactic.Common

/-!
# `LeanCd.Lib.Duration`: spans of time as the machine keeps them

`Duration` is `std::time::Duration`: whole seconds in 64 bits and the rest in nanoseconds, kept
below a second. `toNanos` is the span as a number. The operations compute on the machine words as
the standard library does, and each has a lemma that says what it does to the number:
`toNanos_checkedMul` for the product, `toNanos_min` for the smaller one.

A result about numbers of nanoseconds becomes one about durations through these lemmas. So a proof
about a delay or a limit is arithmetic on natural numbers, and the words with their overflow are
left to this file.

Nothing here names the controller.
-/

set_option autoImplicit false

namespace LeanCd

/-- A number that fits, as the checked operations return it. -/
def fitting (bound n : Nat) : Option Nat := if n < bound then some n else none

/-- Nothing fits exactly when the bound is reached. -/
theorem fitting_eq_none {bound n : Nat} : fitting bound n = none ↔ bound ≤ n := by
  simp [fitting]

/-- What fits is returned unchanged. -/
theorem fitting_eq_some {bound n m : Nat} : fitting bound n = some m ↔ n < bound ∧ n = m := by
  simp [fitting]

/-! ### Checked and saturating words -/

namespace Word

/-- `u64::checked_mul`. -/
def checkedMul (a b : UInt64) : Option UInt64 :=
  if a.toNat * b.toNat < 2 ^ 64 then some (a * b) else none

/-- `u64::checked_add`. -/
def checkedAdd (a b : UInt64) : Option UInt64 :=
  if a.toNat + b.toNat < 2 ^ 64 then some (a + b) else none

/-- `u64::saturating_mul`. -/
def saturatingMul (a b : UInt64) : UInt64 := (checkedMul a b).getD (-1)

/-- `u64::saturating_sub`. -/
def saturatingSub (a b : UInt64) : UInt64 := if b ≤ a then a - b else 0

/-- `u32::saturating_sub`. -/
def saturatingSub32 (a b : UInt32) : UInt32 := if b ≤ a then a - b else 0

/-- `1u32 << n`: a shift by the width or more is an overflow. -/
def checkedShl (n : UInt32) : Option UInt32 := if n < 32 then some (1 <<< n) else none

/-- The checked product of two 64-bit words is the product of their values where that fits, and
`none` where it does not. -/
theorem toNat_checkedMul (a b : UInt64) :
    (checkedMul a b).map UInt64.toNat = fitting (2 ^ 64) (a.toNat * b.toNat) := by
  unfold checkedMul fitting
  split
  next h => rw [Option.map_some, UInt64.toNat_mul, Nat.mod_eq_of_lt h]
  next => rfl

/-- The checked sum of two 64-bit words, in the same way. -/
theorem toNat_checkedAdd (a b : UInt64) :
    (checkedAdd a b).map UInt64.toNat = fitting (2 ^ 64) (a.toNat + b.toNat) := by
  unfold checkedAdd fitting
  split
  next h => rw [Option.map_some, UInt64.toNat_add, Nat.mod_eq_of_lt h]
  next => rfl

/-- The saturating product stops at the greatest word. -/
theorem toNat_saturatingMul (a b : UInt64) :
    (saturatingMul a b).toNat = min (a.toNat * b.toNat) (2 ^ 64 - 1) := by
  unfold saturatingMul checkedMul
  split
  next h =>
    rw [Option.getD_some, UInt64.toNat_mul, Nat.mod_eq_of_lt h]
    omega
  next h =>
    rw [Option.getD_none, show (-1 : UInt64).toNat = 2 ^ 64 - 1 by decide]
    omega

/-- The saturating difference stops at zero, as the difference of natural numbers does. -/
theorem toNat_saturatingSub (a b : UInt64) :
    (saturatingSub a b).toNat = a.toNat - b.toNat := by
  unfold saturatingSub
  split
  next h => exact UInt64.toNat_sub_of_le a b h
  next h =>
    have hlt : a.toNat < b.toNat := by rwa [UInt64.le_iff_toNat_le, Nat.not_le] at h
    rw [UInt64.toNat_zero]
    omega

/-- The same of 32-bit words. -/
theorem toNat_saturatingSub32 (a b : UInt32) :
    (saturatingSub32 a b).toNat = a.toNat - b.toNat := by
  unfold saturatingSub32
  split
  next h => exact UInt32.toNat_sub_of_le a b h
  next h =>
    have hlt : a.toNat < b.toNat := by rwa [UInt32.le_iff_toNat_le, Nat.not_le] at h
    rw [UInt32.toNat_zero]
    omega

/-- Below the width a shift is a power of two. -/
theorem toNat_checkedShl {n : UInt32} (h : n.toNat ≤ 31) :
    ∃ factor, checkedShl n = some factor ∧ factor.toNat = 2 ^ n.toNat := by
  have hlt : n < 32 := by
    rw [UInt32.lt_iff_toNat_lt]
    exact Nat.lt_succ_of_le h
  refine ⟨1 <<< n, if_pos hlt, ?_⟩
  rw [UInt32.toNat_shiftLeft, Nat.mod_eq_of_lt (Nat.lt_succ_of_le h), UInt32.toNat_one,
    Nat.one_shiftLeft]
  exact Nat.mod_eq_of_lt (Nat.pow_lt_pow_right (by decide) (Nat.lt_succ_of_le h))

end Word

/-! ### Durations -/

/-- `std::time::Duration`. -/
structure Duration where
  secs : UInt64
  nanos : UInt32
  valid : nanos.toNat < 1000000000

namespace Duration

/-- The nanoseconds of the span. -/
def toNanos (d : Duration) : Nat := d.secs.toNat * 1000000000 + d.nanos.toNat

/-- One more than the nanoseconds of the longest span. -/
def bound : Nat := 2 ^ 64 * 1000000000

/-- A duration has fewer nanoseconds than its bound: the seconds are a 64-bit word, and the
nanoseconds stay below one second. -/
theorem toNanos_lt (d : Duration) : d.toNanos < bound := by
  have hsecs := d.secs.toNat_lt
  have hvalid := d.valid
  unfold toNanos bound
  omega

/-- `Duration::ZERO`. -/
def zero : Duration := ⟨0, 0, by decide⟩

/-- The zero duration has no nanoseconds. -/
@[simp] theorem toNanos_zero : zero.toNanos = 0 := rfl

/-- The derived order: seconds first, then nanoseconds. -/
def lt (a b : Duration) : Bool := a.secs < b.secs || (a.secs == b.secs && a.nanos < b.nanos)

/-- Durations compare as their numbers of nanoseconds, because the seconds decide unless they are
equal. -/
theorem lt_iff (a b : Duration) : lt a b = true ↔ a.toNanos < b.toNanos := by
  have ha := a.valid
  have hb := b.valid
  simp only [lt, Bool.or_eq_true, Bool.and_eq_true, decide_eq_true_eq, beq_iff_eq, toNanos,
    UInt64.lt_iff_toNat_lt, UInt32.lt_iff_toNat_lt, ← UInt64.toNat_inj]
  omega

/-- `Ord::min`. -/
def min (a b : Duration) : Duration := if lt b a then b else a

/-- The minimum of two durations is that of their numbers of nanoseconds. -/
theorem toNanos_min (a b : Duration) : (min a b).toNanos = Nat.min a.toNanos b.toNanos := by
  unfold min
  split
  next h => exact (Nat.min_eq_right (Nat.le_of_lt ((lt_iff b a).mp h))).symm
  next h =>
    rw [lt_iff, Nat.not_lt] at h
    exact (Nat.min_eq_left h).symm

/-- `Duration::checked_mul`. The nanoseconds are multiplied in 64 bits, where they fit, and
carry over into the seconds. -/
def checkedMul (d : Duration) (rhs : UInt32) : Option Duration :=
  let totalNanos := d.nanos.toUInt64 * rhs.toUInt64
  (Word.checkedMul d.secs rhs.toUInt64).bind fun s =>
    (Word.checkedAdd s (totalNanos / 1000000000)).map fun secs =>
      { secs
        nanos := (totalNanos % 1000000000).toUInt32
        valid := by
          have hmod : (totalNanos % 1000000000).toNat < 1000000000 := by
            rw [UInt64.toNat_mod]
            exact Nat.mod_lt _ (by decide)
          rw [UInt64.toNat_toUInt32]
          omega }

/-- The product of the nanoseconds does not wrap. -/
theorem toNat_mul_nanos (d : Duration) (rhs : UInt32) :
    (d.nanos.toUInt64 * rhs.toUInt64).toNat = d.nanos.toNat * rhs.toNat := by
  have hlt : d.nanos.toNat * rhs.toNat < 2 ^ 64 := by
    calc d.nanos.toNat * rhs.toNat
        ≤ 1000000000 * 2 ^ 32 := Nat.mul_le_mul (Nat.le_of_lt d.valid) (Nat.le_of_lt rhs.toNat_lt)
      _ < 2 ^ 64 := by decide
  rw [UInt64.toNat_mul, UInt32.toNat_toUInt64, UInt32.toNat_toUInt64, Nat.mod_eq_of_lt hlt]

/-- The product is exact, and there is none where it does not fit. -/
theorem toNanos_checkedMul (d : Duration) (rhs : UInt32) :
    (d.checkedMul rhs).map toNanos = fitting bound (d.toNanos * rhs.toNat) := by
  have htotal := toNat_mul_nanos d rhs
  have hproduct : d.toNanos * rhs.toNat =
      d.secs.toNat * rhs.toNat * 1000000000 + d.nanos.toNat * rhs.toNat := by
    rw [toNanos, Nat.add_mul, Nat.mul_right_comm]
  have hextra : (d.nanos.toUInt64 * rhs.toUInt64 / 1000000000).toNat =
      d.nanos.toNat * rhs.toNat / 1000000000 := by
    rw [UInt64.toNat_div, htotal]
    rfl
  have hsecs := Word.toNat_checkedMul d.secs rhs.toUInt64
  rw [UInt32.toNat_toUInt64] at hsecs
  rw [hproduct]
  simp only [checkedMul, bound]
  cases hs : Word.checkedMul d.secs rhs.toUInt64 with
  | none =>
      -- The seconds alone are too many.
      rw [hs] at hsecs
      have hlarge := fitting_eq_none.mp hsecs.symm
      exact (fitting_eq_none.mpr (by omega)).symm
  | some s =>
      rw [hs] at hsecs
      obtain ⟨-, hs'⟩ := fitting_eq_some.mp hsecs.symm
      have hsum := Word.toNat_checkedAdd s (d.nanos.toUInt64 * rhs.toUInt64 / 1000000000)
      rw [hextra, ← hs'] at hsum
      rw [Option.bind_some]
      cases ha : Word.checkedAdd s (d.nanos.toUInt64 * rhs.toUInt64 / 1000000000) with
      | none =>
          -- The carry is too much.
          rw [ha] at hsum
          have hlarge := fitting_eq_none.mp hsum.symm
          exact (fitting_eq_none.mpr (by omega)).symm
      | some secs =>
          rw [ha] at hsum
          obtain ⟨hlt, hvalue⟩ := fitting_eq_some.mp hsum.symm
          refine (fitting_eq_some.mpr ⟨by omega, ?_⟩).symm
          have hrest : (d.nanos.toUInt64 * rhs.toUInt64 % 1000000000).toUInt32.toNat =
              d.nanos.toNat * rhs.toNat % 1000000000 := by
            rw [UInt64.toNat_toUInt32, UInt64.toNat_mod, htotal]
            exact Nat.mod_eq_of_lt (Nat.lt_trans (Nat.mod_lt _ (by decide)) (by decide))
          simp only [toNanos, hrest, ← hvalue]
          omega

end Duration

end LeanCd
