import LeanCd.Lib.Duration
import LeanCd.Reconcile

/-!
# `LeanCd.Proofs.Backoff`: the arithmetic of the backoff

`backoff_delay` clamps an exponent, shifts a 32-bit word, and multiplies a duration with a check.
`Words.backoffDelay` is the function on these words, without a result where an operation would
panic. `backoffDelay_refines`: there is always a result, the one that `Reconcile.backoffDelay`
computes on numbers of nanoseconds.

The properties of the delay are then facts about numbers. `backoffDelay_exact` brings them back
to the words.

Two operations of the source could panic, and one can overflow. The shift is by a clamped
exponent, which stays below the width of the word, and the product is checked, so that an overflow
answers with the cap. That is why the function has a result for every number of failures, and why
the result does not go down when more of them come.
-/

set_option autoImplicit false

namespace LeanCd.Reconcile

/-- The words compute the numbers, and never panic. -/
theorem backoffDelay_refines (base cap : Duration) (n : UInt32) :
    ∃ d, Words.backoffDelay base cap n = some d ∧
      d.toNanos = backoffDelay base.toNanos cap.toNanos n.toNat := by
  unfold Words.backoffDelay backoffDelay
  by_cases hn : n = 0
  · subst hn
    exact ⟨.zero, rfl, Duration.toNanos_zero⟩
  · have hn' : n.toNat ≠ 0 := fun h => hn (UInt32.toNat_inj.mp h)
    rw [if_neg hn, if_neg hn']
    -- The exponent is clamped, so the shift stays within the word.
    have hexp : (min (Word.saturatingSub32 n 1) 31).toNat = min (n.toNat - 1) 31 := by
      rw [UInt32.toNat_min, Word.toNat_saturatingSub32]
      rfl
    obtain ⟨factor, hfactor, hvalue⟩ := Word.toNat_checkedShl (hexp ▸ Nat.min_le_right _ _)
    rw [hexp] at hvalue
    simp only [hfactor, Option.map_some, Option.some.injEq, exists_eq_left', Duration.toNanos_min]
    have hproduct := base.toNanos_checkedMul factor
    rw [hvalue] at hproduct
    refine congrArg (Nat.min · cap.toNanos) ?_
    cases hmul : base.checkedMul factor with
    -- The product does not fit, so it is above the cap.
    | none =>
        rw [hmul] at hproduct
        have hlarge := fitting_eq_none.mp hproduct.symm
        rw [if_neg (by unfold maxDuration second; unfold Duration.bound at hlarge; omega)]
        rfl
    -- The product fits, and is the one of numbers.
    | some d =>
        rw [hmul] at hproduct
        obtain ⟨hlt, hd⟩ := fitting_eq_some.mp hproduct.symm
        rw [if_pos (by unfold maxDuration second; unfold Duration.bound at hlt; omega)]
        exact hd.symm

section
variable {base cap : Nat}

/-- The delay after a failure. -/
theorem backoffDelay_of_ne {n : Nat} (hn : n ≠ 0) : backoffDelay base cap n =
    min (if base * 2 ^ min (n - 1) 31 ≤ maxDuration then base * 2 ^ min (n - 1) 31 else cap)
      cap :=
  if_neg hn

/-- The delay never exceeds the cap, because the last operation is the minimum with it. -/
theorem backoffDelay_le_cap (n : Nat) : backoffDelay base cap n ≤ cap := by
  unfold backoffDelay
  split
  · exact Nat.zero_le cap
  · exact Nat.min_le_right _ _

/-- Where the longest product reaches the cap, the delay is the smaller of the two. -/
theorem backoffDelay_eq_min (hcap : cap ≤ maxDuration) (hreach : cap ≤ base * 2 ^ 31) {n : Nat}
    (hn : 1 ≤ n) : backoffDelay base cap n = min cap (base * 2 ^ (n - 1)) := by
  rw [backoffDelay_of_ne (Nat.one_le_iff_ne_zero.mp hn)]
  by_cases hexp : n - 1 ≤ 31
  · -- The exponent is not clamped. A product that does not fit is above the cap.
    rw [Nat.min_eq_left hexp]
    split
    next => exact Nat.min_comm _ _
    next hover =>
      rw [Nat.min_self]
      exact (Nat.min_eq_left (by omega)).symm
  · -- The exponent is clamped where the cap is reached already.
    have hgrow : base * 2 ^ 31 ≤ base * 2 ^ (n - 1) :=
      Nat.mul_le_mul_left base (Nat.pow_le_pow_right (by decide) (by omega))
    rw [Nat.min_eq_right (Nat.le_of_not_le hexp), Nat.min_eq_left (hreach.trans hgrow)]
    split
    next => exact Nat.min_eq_right hreach
    next => exact Nat.min_self cap

/-- More failures never shorten the delay. Below the overflow of a factor the product grows, and
above it the delay is the cap. -/
theorem backoffDelay_mono {n m : Nat} (h : n ≤ m) :
    backoffDelay base cap n ≤ backoffDelay base cap m := by
  by_cases hn : n = 0
  · subst hn
    exact Nat.zero_le _
  · have hm : m ≠ 0 := fun hm => hn (Nat.le_zero.mp (hm ▸ h))
    have hgrow : base * 2 ^ min (n - 1) 31 ≤ base * 2 ^ min (m - 1) 31 :=
      Nat.mul_le_mul_left base (Nat.pow_le_pow_right (by decide)
        (min_le_min_right 31 (Nat.sub_le_sub_right h 1)))
    rw [backoffDelay_of_ne hn, backoffDelay_of_ne hm]
    -- A product that does not fit stays so, and its place is taken by the cap.
    split
    next hfits =>
      split
      next => exact min_le_min_right cap hgrow
      next => exact (Nat.min_le_right _ _).trans (Nat.min_self cap).ge
    next hover =>
      rw [if_neg fun hfits => hover (hgrow.trans hfits)]

end

/-- The backoff never panics, never exceeds its cap, never shrinks as the failures grow, and is
the doubled base up to the cap where the base can reach it at all. -/
theorem backoffDelay_exact (base cap : Duration) (n : UInt32) :
    ∃ d, Words.backoffDelay base cap n = some d ∧
      d.toNanos ≤ cap.toNanos ∧
      (n = 0 → d = .zero) ∧
      (∀ m d', n ≤ m → Words.backoffDelay base cap m = some d' → d.toNanos ≤ d'.toNanos) ∧
      (1 ≤ n → cap.toNanos ≤ base.toNanos * 2 ^ 31 →
        d.toNanos = min cap.toNanos (base.toNanos * 2 ^ (n.toNat - 1)) ∧
          (32 ≤ n → d.toNanos = cap.toNanos)) := by
  obtain ⟨d, hd, hvalue⟩ := backoffDelay_refines base cap n
  have hcap : cap.toNanos ≤ maxDuration := Nat.le_sub_one_of_lt cap.toNanos_lt
  refine ⟨d, hd, ?_, ?_, ?_, ?_⟩
  · rw [hvalue]
    exact backoffDelay_le_cap _
  · intro hn
    rw [hn] at hd
    exact (Option.some.inj hd).symm
  · intro m d' hnm hd'
    obtain ⟨d'', hd'', hvalue'⟩ := backoffDelay_refines base cap m
    rw [hd', Option.some.injEq] at hd''
    rw [hd'', hvalue, hvalue']
    exact backoffDelay_mono (UInt32.le_iff_toNat_le.mp hnm)
  · intro hn hreach
    have hn' : 1 ≤ n.toNat := UInt32.le_iff_toNat_le.mp hn
    have hmin := backoffDelay_eq_min hcap hreach hn'
    refine ⟨hvalue.trans hmin, fun hlarge => ?_⟩
    have hlarge' : 32 ≤ n.toNat := UInt32.le_iff_toNat_le.mp hlarge
    -- From 32 failures on the exponent is at its clamp, where the cap is reached by assumption.
    have hgrow : base.toNanos * 2 ^ 31 ≤ base.toNanos * 2 ^ (n.toNat - 1) :=
      Nat.mul_le_mul_left _ (Nat.pow_le_pow_right (by decide) (by omega))
    rw [hvalue, hmin, Nat.min_eq_left (hreach.trans hgrow)]

end LeanCd.Reconcile
