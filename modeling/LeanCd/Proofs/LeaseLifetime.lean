import LeanCd.Calm
import LeanCd.Proofs.Calls

/-!
# `LeanCd.Proofs.LeaseLifetime`: when a Lease is stale

The lifetime of the Lease is a flag of any number of seconds. `try_acquire` and `renew` cast
it to an `i32` and write it into the Lease next to the time of the write, of which the server
keeps whole microseconds. `is_stale` compares the two with its own clock, and refuses a
lifetime that is not positive.

`Written` says which Leases the two functions write. `stale_iff_lifetime_over` says when a
check judges such a Lease by its lifetime. For write times in whole microseconds that is
every check for lifetimes below `2^31` seconds (`judgedRight_forall_iff`). From there on the
cast wraps: some Leases are stale after seconds, and others never are.

There are three clocks in play: that of the writer, the whole microseconds that the server keeps,
and that of the reader. `JudgedRight` speaks of the instants that the writer and the reader saw.
The theorem is exact for every number of seconds and every pair of instants, and the bound of
`2^31` is where the cast begins to matter.
-/

set_option autoImplicit false

namespace LeanCd.Lock

open Act

variable {sc : Scopes} {env : Env sc} {cfg : Config}

/-! ### What is written -/

/-- The run has not written the Lease, or the Lease is the one built at this time. -/
def WroteAt (cfg : Config) (t before : Nat) (w' : World sc) : Prop :=
  w'.nextRv = before ∨
    ∃ holder rv, w'.lease = some (buildLease holder (leaseSecs cfg) t rv)

/-- A call writes what the server stores for it. -/
theorem call_wroteAt {t : Nat} {req : Request sc} {act : Pass sc Unit}
    (hact : ∀ w, After act w fun _ w' => WroteAt cfg t w.nextRv w') (w : World sc) :
    After (call env req act) w fun _ w' => WroteAt cfg t w.nextRv w' := by
  rw [after_call]
  cases env.fault w.step req with
  | none => exact hact (w.called env req)
  | refused e => exact .inl rfl
  | lost e => exact hact (w.called env req)

/-- A CREATE writes a Lease whose times are those of the call. -/
theorem serveCreate_wroteAt (holder : String) (t : Nat) (w : World sc) :
    After (serveCreate (buildLease holder (leaseSecs cfg) t)) w
      fun _ w' => WroteAt cfg t w.nextRv w' := by
  unfold After serveCreate
  cases w.lease with
  | none => exact .inr ⟨holder, w.nextRv, rfl⟩
  | some l => exact .inl rfl

/-- A REPLACE writes such a Lease too. -/
theorem serveReplace_wroteAt (holder : String) (t rv : Nat) (w : World sc) :
    After (serveReplace rv (buildLease holder (leaseSecs cfg) t)) w
      fun _ w' => WroteAt cfg t w.nextRv w' := by
  unfold After serveReplace
  cases w.lease with
  | none => exact .inl rfl
  | some l =>
      dsimp only
      split
      · exact .inr ⟨holder, w.nextRv, rfl⟩
      · exact .inl rfl

/-- Reading the Lease writes nothing. -/
theorem after_leaseGet {w : World sc} {Q : Except Error Lease → World sc → Prop}
    (h : ∀ r w', w'.nextRv = w.nextRv → w'.step = w.step + 1 → Q r w') :
    After (call env .leaseGet serveGet) w Q := by
  rw [after_call]
  unfold After serveGet
  split
  · split <;> exact h _ _ rfl rfl
  · exact h _ _ rfl rfl
  · split <;> exact h _ _ rfl rfl

/-- `try_acquire` reads its clock first, and writes the Lease last. -/
theorem tryAcquire_wroteAt (holder : String) (w : World sc) :
    After (tryAcquire env cfg holder) w
      fun _ w' => WroteAt cfg (env.wallClock w.step) w.nextRv w' := by
  unfold tryAcquire timestampNow
  simp only [after_bind, after_tick, after_pure, after_attempt]
  refine after_leaseGet fun r v hrv _ => ?_
  have hv : v.nextRv = w.nextRv := hrv
  have hkeep : WroteAt cfg (env.wallClock w.step) w.nextRv v := .inl hv
  rw [← hv] at hkeep ⊢
  -- The version counter says whether the server took the write.
  cases r with
  | ok existing =>
      rw [after_ite]
      -- Only a stale Lease is replaced.
      split
      · simp only [after_bind, after_attempt, after_pure]
        exact call_wroteAt (serveReplace_wroteAt holder _ _) v
      · exact hkeep
  | error e =>
      cases e with
      | kube e =>
          -- Only where there is none is one created.
          rw [after_ite]
          split
          · simp only [after_bind, after_attempt, after_pure]
            exact call_wroteAt (serveCreate_wroteAt holder _) v
          · exact hkeep
      | _ => exact hkeep

/-- `renew` reads its clock after the Lease, and writes the Lease last. -/
theorem renew_wroteAt (guard : LeaseGuard) (w : World sc) :
    After (renew env cfg guard) w
      fun _ w' => WroteAt cfg (env.wallClock (w.step + 1)) w.nextRv w' := by
  unfold renew
  simp only [after_bind, after_attempt]
  refine after_leaseGet fun r v hv hstep => ?_
  have hkeep : WroteAt cfg (env.wallClock (w.step + 1)) w.nextRv v := .inl hv
  rw [← hv, ← hstep] at hkeep ⊢
  cases r with
  | error e =>
      cases e with
      | kube e =>
          rw [after_ite]
          split <;> exact hkeep
      | _ => exact hkeep
  | ok existing =>
      -- A Lease that someone else holds is left alone.
      rw [after_ite]
      split
      · exact hkeep
      · unfold timestampNow
        simp only [after_bind, after_tick, after_pure, after_attempt]
        refine (call_wroteAt (serveReplace_wroteAt guard.holder _ _) (v.ticked env)).mono ?_
        intro r' u hu
        cases r' with
        | ok _ => exact hu
        -- A refused write has stored nothing.
        | error e =>
            cases e with
            | kube e =>
                rw [after_ite]
                split <;> exact hu
            | _ => exact hu

/-- A Lease that a run of `try_acquire` or of `renew` has written at the time `t`. The run
may have failed, when the response was lost. -/
inductive Written (env : Env sc) (cfg : Config) (t : Nat) (l : Lease) : Prop
  | tryAcquire (holder : String) (w : World sc) :
      (state (Lock.tryAcquire env cfg holder w)).nextRv ≠ w.nextRv →
      (state (Lock.tryAcquire env cfg holder w)).lease = some l →
      env.wallClock w.step = t → Written env cfg t l
  | renew (guard : LeaseGuard) (w : World sc) :
      (state (Lock.renew env cfg guard w)).nextRv ≠ w.nextRv →
      (state (Lock.renew env cfg guard w)).lease = some l →
      env.wallClock (w.step + 1) = t → Written env cfg t l

/-- A written Lease is a built one. -/
theorem Written.eq_buildLease {t : Nat} {l : Lease} (h : Written env cfg t l) :
    ∃ holder rv, l = buildLease holder (leaseSecs cfg) t rv := by
  have hof : ∀ {n} {w' : World sc}, WroteAt cfg t n w' → w'.nextRv ≠ n → w'.lease = some l →
      ∃ holder rv, l = buildLease holder (leaseSecs cfg) t rv := by
    intro n w' hwrote hne hl
    obtain ⟨holder, rv, hbuilt⟩ := hwrote.resolve_left hne
    exact ⟨holder, rv, Option.some.inj (hl.symm.trans hbuilt)⟩
  cases h with
  | tryAcquire holder w hne hl ht => exact hof (ht ▸ tryAcquire_wroteAt holder w) hne hl
  | renew guard w hne hl ht => exact hof (ht ▸ renew_wroteAt guard w) hne hl

/-! ### What is read -/

/-- `CommonArgs::to_config`, the lifetime of the Lease. -/
def lifetime (secs : UInt64) : Nat := secs.toNat * second

/-- `lock_lease_duration.as_secs() as i32`. -/
def wrappedSecs (secs : UInt64) : Int := (secs.toNat : Int).bmod (2 ^ 32)

/-- Where the configured duration is the lifetime, the seconds that are written are its seconds,
wrapped to 32 bits. -/
theorem leaseSecs_lifetime {secs : UInt64} (h : cfg.lockLeaseDuration = lifetime secs) :
    leaseSecs cfg = wrappedSecs secs := by
  have hdiv : secs.toNat * second / second = secs.toNat := Nat.mul_div_cancel _ (by decide)
  unfold leaseSecs wrappedSecs
  rw [h, lifetime, hdiv]

/-- Below `2^31` seconds the cast is exact. -/
theorem wrappedSecs_of_lt {secs : UInt64} (h : secs.toNat < 2 ^ 31) :
    wrappedSecs secs = secs.toNat := Int.bmod_eq_of_le (by omega) (by omega)

/-- From `2^31` seconds on the cast loses time. -/
theorem wrappedSecs_lt {secs : UInt64} (h : 2 ^ 31 ≤ secs.toNat) :
    wrappedSecs secs < secs.toNat := by
  have hupper : wrappedSecs secs < (2 ^ 32 + 1) / 2 := Int.bmod_lt (by decide)
  omega

/-- A Lease is stale when it has a positive lifetime and that is over. -/
theorem isStale_buildLease {holder : String} {s : Int} {t rv t' : Nat} :
    isStale (buildLease holder s t rv).renewTime (buildLease holder s t rv).durationSecs t' =
        true ↔
      0 < s ∧ (microTime t : Int) + s * second ≤ t' := by
  simp [isStale, buildLease]

/-- The check judges the Lease by its lifetime. Below `2^31` seconds the check does not fall
between the end of the lifetime as the server has it and the true end, less than a
microsecond later. Above, either the wrapped lifetime is positive, and the check falls before
its end or after the true one; or it is not, and the true lifetime is not over. -/
def JudgedRight (secs : UInt64) (t t' : Nat) : Prop :=
  if secs.toNat < 2 ^ 31 then
    ¬(t' - t < lifetime secs ∧ lifetime secs ≤ t' - microTime t)
  else if 0 < wrappedSecs secs then
    (t' : Int) < microTime t + wrappedSecs secs * second ∨ lifetime secs ≤ t' - t
  else t' - t < lifetime secs

/-- A Lease written at `t` is stale at `t'` exactly when its lifetime is over, if and only if
the check judges it right. -/
theorem stale_iff_lifetime_over {secs : UInt64} {t t' : Nat} {l : Lease}
    (hl : Written env cfg t l) (hcfg : cfg.lockLeaseDuration = lifetime secs)
    (hsecs : 1 ≤ secs.toNat) (ht : t ≤ t') :
    (isStale l.renewTime l.durationSecs t' = true ↔ cfg.lockLeaseDuration ≤ t' - t) ↔
      JudgedRight secs t t' := by
  obtain ⟨holder, rv, rfl⟩ := hl.eq_buildLease
  rw [isStale_buildLease, leaseSecs_lifetime hcfg, hcfg]
  have hmicro : microTime t ≤ t := Nat.sub_le _ _
  unfold JudgedRight
  split
  -- Within 32 bits of signed seconds the written duration is the configured one.
  next hlt =>
    rw [wrappedSecs_of_lt hlt]
    have hd : ((secs.toNat : Int) * second) = lifetime secs := by
      rw [lifetime, Int.natCast_mul]
    rw [hd]
    omega
  -- Beyond that the word wraps round, to a shorter lifetime or to a negative one.
  next hge =>
    have hw := wrappedSecs_lt (Nat.not_lt.mp hge)
    split
    next hpos =>
      have hd : wrappedSecs secs * second < lifetime secs := by
        rw [lifetime, Int.natCast_mul]
        exact Int.mul_lt_mul_of_pos_right hw (by decide)
      omega
    next hpos => omega

/-- For write times in whole microseconds every check is right exactly below `2^31` seconds. -/
theorem judgedRight_forall_iff (secs : UInt64) :
    (∀ t t', t % 1000 = 0 → t ≤ t' → JudgedRight secs t t') ↔ secs.toNat < 2 ^ 31 := by
  constructor
  · intro h
    by_contra hge
    have hw := wrappedSecs_lt (Nat.not_lt.mp hge)
    -- The check at the end of the lifetime, or of what the cast left of it.
    by_cases hpos : 0 < wrappedSecs secs
    · have hcheck := h 0 (wrappedSecs secs * second).toNat rfl (Nat.zero_le _)
      have hd : wrappedSecs secs * second < lifetime secs := by
        rw [lifetime, Int.natCast_mul]
        exact Int.mul_lt_mul_of_pos_right hw (by decide)
      have hnonneg : 0 ≤ wrappedSecs secs * second := Int.mul_nonneg hpos.le (by decide)
      rw [JudgedRight, if_neg hge, if_pos hpos] at hcheck
      have hzero : microTime 0 = 0 := rfl
      omega
    · have hcheck := h 0 (lifetime secs) rfl (Nat.zero_le _)
      rw [JudgedRight, if_neg hge, if_neg hpos] at hcheck
      omega
  · intro hlt t t' hwhole _
    have hmicro : microTime t = t := by
      unfold microTime
      omega
    rw [JudgedRight, if_pos hlt, hmicro]
    omega

/-- The Lease of a process that found none, written at zero. -/
def firstLease (secs : UInt64) : Lease :=
  buildLease "pod:1" (leaseSecs { settingsCfg with lockLeaseDuration := lifetime secs }) 0 0

/-- The Lease of the example is one that the process wrote. -/
theorem written_firstLease (secs : UInt64) :
    Written (Env.idle .namespacedOnly)
      { settingsCfg with lockLeaseDuration := lifetime secs } 0 (firstLease secs) :=
  .tryAcquire "pod:1" (.fresh ∅ none) Nat.one_ne_zero rfl rfl

/-- A Lease of a minute, one minute later. -/
theorem firstLease_minute :
    (isStale (firstLease 60).renewTime (firstLease 60).durationSecs (60 * second) = true ↔
      lifetime 60 ≤ 60 * second - 0) ↔ JudgedRight 60 0 (60 * second) :=
  stale_iff_lifetime_over (written_firstLease 60) rfl (by decide) (Nat.zero_le _)

/-- The Lease of `2^32 + 60` seconds, more than a century, is stale after a minute. -/
theorem firstLease_century :
    Written (Env.idle .namespacedOnly)
        { settingsCfg with lockLeaseDuration := lifetime 4294967356 } 0
        (firstLease 4294967356) ∧
      isStale (firstLease 4294967356).renewTime (firstLease 4294967356).durationSecs
        (60 * second) = true ∧
      ¬lifetime 4294967356 ≤ 60 * second - 0 :=
  ⟨written_firstLease _, by decide, by decide⟩

end LeanCd.Lock
