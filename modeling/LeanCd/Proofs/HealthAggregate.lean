import LeanCd.Proofs.HealthMatch
import Mathlib.Data.List.Induction

/-!
# `LeanCd.Proofs.HealthAggregate`: the counts and the worst status of `assess`

`assess` keeps six counts, a worst status and its message in step over three kinds of
manifests: with a live object that has a health, missing, and skipped. `tally` is the state of
its loop after a list of manifests.

* `countOf_tally`: the count of a status is the number of manifests with that status.
* `worst_tally`: the worst status is the one of the first manifest that no other is worse than.

`assess_aggregates` puts the two together.

The loop is followed from the end of the list: `tally_concat` is one round, and each of the two
results is an induction over it. `FirstWorst` speaks of positions in the order of healths: no
manifest comes later in it, and of those that come as late the first has the message. The counters
saturate at the width of their words, below which they are exact.
-/

set_option autoImplicit false

namespace LeanCd.ResourceHealth

open Drift (findLiveMatch)

variable (live : List DynamicObject)

/-- The health that a manifest contributes, if any. -/
def healthOf (m : RawManifest) : Option HealthStatus := entryOf m (findLiveMatch m live)

/-- The manifest matches a live object that has a health, or matches none and its kind has a
check. -/
def counted (m : RawManifest) : Bool :=
  match findLiveMatch m live with
  | some o => (getResourceHealth m.group m.kind o).isSome
  | none => hasHealthCheck m.group m.kind

/-- The manifest contributes this status. -/
def hasStatus (c : HealthStatusCode) (m : RawManifest) : Bool :=
  (healthOf live m).any fun h => h.status == c

/-- A manifest is counted when it has a health at all. -/
theorem counted_eq_isSome (m : RawManifest) : counted live m = (healthOf live m).isSome := by
  unfold counted healthOf
  cases findLiveMatch m live with
  | none =>
      unfold entryOf
      cases hasHealthCheck m.group m.kind <;> rfl
  | some o => rfl

/-- The loop of `assess`. -/
def tally (ms : List RawManifest) : Tally :=
  (ms.map (healthOf live)).foldl Tally.add ⟨.default, none⟩

variable {live}

/-- A tally takes in one manifest after the other. -/
theorem tally_concat (ms : List RawManifest) (m : RawManifest) :
    tally live (ms ++ [m]) = (tally live ms).add (healthOf live m) := by
  simp [tally]

/-! ### The counts -/

/-- The count of a status. -/
def countOf (s : HealthSummary) : HealthStatusCode → UInt64
  | .healthy => s.healthy
  | .progressing => s.progressing
  | .degraded => s.degraded
  | .suspended => s.suspended
  | .missing => s.missing
  | .unknown => s.unknown

/-- A bump raises the count of its own code by one and no other count. -/
theorem countOf_bump (s : HealthSummary) (c c' : HealthStatusCode) :
    countOf (bump s c') c = if c' = c then countOf s c + 1 else countOf s c := by
  cases c <;> cases c' <;> rfl

/-- The count of a status is the number of manifests with that status. -/
theorem countOf_tally (c : HealthStatusCode) (ms : List RawManifest) :
    countOf (tally live ms).summary c = UInt64.ofNat (ms.countP (hasStatus live c)) := by
  induction ms using List.reverseRecOn with
  | nil => cases c <;> rfl
  | append_singleton ms m ih =>
      rw [tally_concat, List.countP_append, List.countP_singleton]
      cases hm : healthOf live m with
      | none => simp [Tally.add, hasStatus, hm, ih]
      | some h =>
          rw [Tally.add, countOf_bump, ih]
          by_cases hc : h.status = c
          · simp [hasStatus, hm, hc]
          · simp [hasStatus, hm, hc]

/-- The six statuses split the manifests that count. -/
theorem countP_counted (ms : List RawManifest) :
    ms.countP (counted live) =
      ms.countP (hasStatus live .healthy) + ms.countP (hasStatus live .progressing) +
        ms.countP (hasStatus live .degraded) + ms.countP (hasStatus live .suspended) +
        ms.countP (hasStatus live .missing) + ms.countP (hasStatus live .unknown) := by
  induction ms with
  | nil => rfl
  | cons m ms ih =>
      simp only [List.countP_cons, ih, counted_eq_isSome]
      cases hm : healthOf live m with
      | none => simp [hasStatus, hm]
      | some h =>
          cases hs : h.status <;> simp [hasStatus, hm, hs] <;> omega

/-! ### The worst status -/

/-- A status is worse when it comes later in the order. -/
theorem HealthStatusCode.isWorse_iff {a b : HealthStatusCode} :
    a.isWorse b = true ↔ HealthStatusCode.healthOrder.idxOf a <
      HealthStatusCode.healthOrder.idxOf b := decide_eq_true_iff

/-- A code is not worse than another when it comes no earlier in the order of healths. -/
theorem HealthStatusCode.isWorse_eq_false_iff {a b : HealthStatusCode} :
    a.isWorse b = false ↔ HealthStatusCode.healthOrder.idxOf b ≤
      HealthStatusCode.healthOrder.idxOf a := by
  rw [← Bool.not_eq_true, HealthStatusCode.isWorse_iff, Nat.not_lt]

/-- The status of one manifest comes no later in the order than another one. -/
def NoWorse (live : List DynamicObject) (h : HealthStatus) (m : RawManifest) : Prop :=
  ∀ h', healthOf live m = some h' →
    HealthStatusCode.healthOrder.idxOf h'.status ≤ HealthStatusCode.healthOrder.idxOf h.status

/-- The manifest is the first that contributes this health, and the status of no manifest comes
later in the order. -/
def FirstWorst (live : List DynamicObject) (ms : List RawManifest) (h : HealthStatus) : Prop :=
  ∃ pre m post, ms = pre ++ m :: post ∧ healthOf live m = some h ∧
    (∀ m' ∈ pre, hasStatus live h.status m' = false) ∧ ∀ m' ∈ ms, NoWorse live h m'

/-- A manifest that is no worse than the worst so far does not take its place, also when both are
equally bad. That is how the first of the worst stays. -/
theorem FirstWorst.concat_le {ms : List RawManifest} {h : HealthStatus}
    (hw : FirstWorst live ms h) {m : RawManifest} (hm : NoWorse live h m) :
    FirstWorst live (ms ++ [m]) h := by
  obtain ⟨pre, m₀, post, rfl, hfirst, hpre, hall⟩ := hw
  refine ⟨pre, m₀, post ++ [m], by simp, hfirst, hpre, ?_⟩
  intro m' hm' h' hh'
  rcases List.mem_append.mp hm' with hold | hnew
  · exact hall m' hold h' hh'
  · rw [List.mem_singleton.mp hnew] at hh'
    exact hm h' hh'

/-- A worse manifest at the end is the first of its status. -/
theorem firstWorst_concat_worse {ms : List RawManifest} {m : RawManifest} {h : HealthStatus}
    (hm : healthOf live m = some h)
    (hall : ∀ m' ∈ ms, ∀ h', healthOf live m' = some h' →
      HealthStatusCode.isWorse h'.status h.status = true) :
    FirstWorst live (ms ++ [m]) h := by
  refine ⟨ms, m, [], by simp, hm, ?_, ?_⟩
  · intro m' hm'
    cases hh' : healthOf live m' with
    | none => simp [hasStatus, hh']
    | some h' =>
        have hlt := HealthStatusCode.isWorse_iff.mp (hall m' hm' h' hh')
        have hne : h'.status ≠ h.status := fun heq => by simp [heq] at hlt
        simp [hasStatus, hh', hne]
  · intro m' hm' h' hh'
    rcases List.mem_append.mp hm' with hold | hnew
    · exact (HealthStatusCode.isWorse_iff.mp (hall m' hold h' hh')).le
    · rw [List.mem_singleton.mp hnew, hm, Option.some_inj] at hh'
      rw [hh']

/-- A status becomes the worst one when there is none or it is strictly worse. -/
theorem worst_add_some (t : Tally) (new : HealthStatus) :
    ((t.add (some new)).worst = some new ∧
        ∀ old, t.worst = some old → HealthStatusCode.isWorse old.status new.status = true) ∨
      ∃ old, t.worst = some old ∧ (t.add (some new)).worst = some old ∧
        HealthStatusCode.isWorse old.status new.status = false := by
  cases hworst : t.worst with
  | none =>
      left
      simp [Tally.add, hworst]
  | some old =>
      simp only [Tally.add, hworst]
      by_cases hworse : HealthStatusCode.isWorse old.status new.status = true
      · left
        simp [hworse]
      · right
        simp [hworse]

/-- There is no worst status exactly as long as no manifest counts. -/
theorem worst_tally_none {ms : List RawManifest} :
    (tally live ms).worst = none ↔ ∀ m ∈ ms, healthOf live m = none := by
  -- The fold runs from the left, so the list is taken apart at its end.
  induction ms using List.reverseRecOn with
  | nil => simp [tally]
  | append_singleton ms m ih =>
      rw [tally_concat]
      cases hm : healthOf live m with
      | none =>
          simp only [Tally.add, ih, List.mem_append, List.mem_singleton]
          constructor
          · rintro hall m' (hold | rfl)
            · exact hall m' hold
            · exact hm
          · exact fun hall m' hold => hall m' (.inl hold)
      -- A verdict always leaves a worst one, either its own or one that was there.
      | some new =>
          have hsome : ((tally live ms).add (some new)).worst ≠ none := by
            rcases worst_add_some (tally live ms) new with ⟨heq, -⟩ | ⟨old, -, heq, -⟩
            · simp [heq]
            · simp [heq]
          refine ⟨fun hnone => absurd hnone hsome, fun hall => ?_⟩
          rw [hall m (List.mem_append_right ms (List.mem_singleton_self m))] at hm
          cases hm

/-- The worst status of the loop is that of the first worst manifest. -/
theorem worst_tally {ms : List RawManifest} {h : HealthStatus}
    (hworst : (tally live ms).worst = some h) : FirstWorst live ms h := by
  induction ms using List.reverseRecOn generalizing h with
  | nil => cases hworst
  | append_singleton ms m ih =>
      rw [tally_concat] at hworst
      cases hm : healthOf live m with
      | none =>
          rw [hm] at hworst
          exact (ih hworst).concat_le (by simp [NoWorse, hm])
      | some new =>
          rw [hm] at hworst
          rcases worst_add_some (tally live ms) new with ⟨heq, hworse⟩ | ⟨old, hold, heq, hnot⟩
          · rw [heq, Option.some_inj] at hworst
            subst hworst
            refine firstWorst_concat_worse hm fun m' hm' h' hh' => ?_
            -- Strictly worse than the worst so far, so worse than all before it.
            obtain ⟨old, hold⟩ := Option.ne_none_iff_exists'.mp fun hnone => by
              rw [worst_tally_none.mp hnone m' hm'] at hh'
              cases hh'
            obtain ⟨pre, m₀, post, hms, hfirst, hpre, hall⟩ := ih hold
            have hle := hall m' hm' h' hh'
            have hlt := HealthStatusCode.isWorse_iff.mp (hworse old hold)
            exact HealthStatusCode.isWorse_iff.mpr (hle.trans_lt hlt)
          · rw [heq, Option.some_inj] at hworst
            subst hworst
            refine (ih hold).concat_le fun h' hh' => ?_
            rw [hm, Option.some_inj] at hh'
            exact HealthStatusCode.isWorse_eq_false_iff.mp (hh' ▸ hnot)

/-! ### The summary -/

/-- The sum of the six counts. -/
def HealthSummary.total (s : HealthSummary) : Nat :=
  s.healthy.toNat + s.progressing.toNat + s.degraded.toNat + s.suspended.toNat +
    s.missing.toNat + s.unknown.toNat

/-- A list with a `usize` length does not overflow a count. -/
theorem toNat_countOf_assess {ms : List RawManifest} (hlen : ms.length < 2 ^ 64)
    (c : HealthStatusCode) :
    (countOf (assess ms live) c).toNat = ms.countP (hasStatus live c) := by
  have hcount : countOf (assess ms live) c = countOf (tally live ms).summary c := by
    cases c <;> rfl
  rw [hcount, countOf_tally]
  exact UInt64.toNat_ofNat_of_lt' (Nat.lt_of_le_of_lt List.countP_le_length hlen)

/-- The counts of a summary add up to the number of counted manifests, below the bound of the
counters. -/
theorem total_assess {ms : List RawManifest} (hlen : ms.length < 2 ^ 64) :
    HealthSummary.total (assess ms live) = ms.countP (counted live) := by
  rw [countP_counted, ← toNat_countOf_assess hlen, ← toNat_countOf_assess hlen,
    ← toNat_countOf_assess hlen, ← toNat_countOf_assess hlen, ← toNat_countOf_assess hlen,
    ← toNat_countOf_assess hlen]
  rfl

/-- The worst status and its message are those of the tally. -/
theorem worst_assess (ms : List RawManifest) :
    (assess ms live).worst = (tally live ms).worst.map (·.status.asStr) ∧
      (assess ms live).worstMessage = (tally live ms).worst.map (·.message) := ⟨rfl, rfl⟩

/-- Nothing is counted when no manifest has a health. -/
theorem countP_counted_eq_zero (ms : List RawManifest) :
    ms.countP (counted live) = 0 ↔ ∀ m ∈ ms, healthOf live m = none := by
  simp [List.countP_eq_zero, counted_eq_isSome]

/-- Different codes have different ranks, so that of two worst ones both are equal. -/
theorem HealthStatusCode.rank_injective : Function.Injective HealthStatusCode.rank := by
  intro a b h
  cases a <;> cases b <;> first | rfl | exact absurd h (by decide)

/-- Two lists of the same manifests have the same worst status. -/
theorem FirstWorst.status_eq {ms ms' : List RawManifest} (hperm : ms.Perm ms')
    {h h' : HealthStatus} (hw : FirstWorst live ms h) (hw' : FirstWorst live ms' h') :
    h.status = h'.status := by
  obtain ⟨pre, m, post, hms, hm, -, hall⟩ := hw
  obtain ⟨pre', m', post', hms', hm', -, hall'⟩ := hw'
  have hmem : m ∈ ms' := hperm.mem_iff.mp (by simp [hms])
  have hmem' : m' ∈ ms := hperm.mem_iff.mpr (by simp [hms'])
  have hle := hall m' hmem' h' hm'
  have hle' := hall' m hmem h hm
  exact HealthStatusCode.rank_injective (le_antisymm hle' hle)

/-- The worst status does not depend on the order of the manifests, although its message may. -/
theorem worst_assess_perm {ms ms' : List RawManifest} (hperm : ms.Perm ms') :
    (assess ms' live).worst = (assess ms live).worst := by
  have hiff : (tally live ms').worst = none ↔ (tally live ms).worst = none := by
    simp only [worst_tally_none, hperm.mem_iff]
  rw [(worst_assess ms').1, (worst_assess ms).1]
  cases hw : (tally live ms).worst with
  | none => rw [hiff.mpr hw]
  | some h =>
      cases hw' : (tally live ms').worst with
      | none =>
          rw [hiff.mp hw'] at hw
          cases hw
      | some h' =>
          have heq := (worst_tally hw).status_eq hperm (worst_tally hw')
          rw [Option.map_some, Option.map_some, heq]

/-- The counts add up to the number of manifests that have a health or are missing. There is
a worst status when that number is not zero. It is the status of the first manifest that none
is worse than, with its message. The order of the manifests matters for the message only. -/
theorem assess_aggregates (live : List DynamicObject) (ms : List RawManifest)
    (hlen : ms.length < 2 ^ 64) :
    HealthSummary.total (assess ms live) = ms.countP (counted live) ∧
      ((assess ms live).worst = none ↔ ms.countP (counted live) = 0) ∧
      (∀ text, (assess ms live).worst = some text →
        ∃ h, FirstWorst live ms h ∧ text = h.status.asStr ∧
          (assess ms live).worstMessage = some h.message ∧
          1 ≤ (countOf (assess ms live) h.status).toNat) ∧
      ∀ ms', ms.Perm ms' →
        (∀ c, countOf (assess ms' live) c = countOf (assess ms live) c) ∧
          (assess ms' live).worst = (assess ms live).worst := by
  refine ⟨total_assess hlen, ?_, ?_, ?_⟩
  · rw [(worst_assess ms).1, Option.map_eq_none_iff, worst_tally_none, countP_counted_eq_zero]
  · intro text htext
    rw [(worst_assess ms).1, Option.map_eq_some_iff] at htext
    obtain ⟨h, hworst, rfl⟩ := htext
    -- The text is that of the first manifest whose verdict none exceeds.
    have hfirst := worst_tally hworst
    refine ⟨h, hfirst, rfl, by rw [(worst_assess ms).2, hworst]; rfl, ?_⟩
    obtain ⟨pre, m, post, hms, hm, -⟩ := hfirst
    rw [toNat_countOf_assess hlen]
    refine List.countP_pos_iff.mpr ⟨m, by simp [hms], ?_⟩
    simp [hasStatus, hm]
  -- Counts and the worst verdict are about the members, and the order moves none of them.
  · intro ms' hperm
    refine ⟨fun c => ?_, worst_assess_perm hperm⟩
    have hlen' : ms'.length < 2 ^ 64 := hperm.length_eq ▸ hlen
    rw [← UInt64.toNat_inj, toNat_countOf_assess hlen', toNat_countOf_assess hlen,
      hperm.countP_eq]

/-- The Service waits for its address. It is the match of both manifests. -/
theorem assess_aggregates_web :
    HealthSummary.total (assess [webService, webDeployment] (webFamily webService.gvk)) =
        [webService, webDeployment].countP (counted (webFamily webService.gvk)) ∧
      ((assess [webService, webDeployment] (webFamily webService.gvk)).worst = none ↔
        [webService, webDeployment].countP (counted (webFamily webService.gvk)) = 0) ∧
      (∀ text, (assess [webService, webDeployment] (webFamily webService.gvk)).worst =
          some text →
        ∃ h, FirstWorst (webFamily webService.gvk) [webService, webDeployment] h ∧
          text = h.status.asStr ∧
          (assess [webService, webDeployment] (webFamily webService.gvk)).worstMessage =
            some h.message ∧
          1 ≤ (countOf (assess [webService, webDeployment] (webFamily webService.gvk))
            h.status).toNat) ∧
      ∀ ms', [webService, webDeployment].Perm ms' →
        (∀ c, countOf (assess ms' (webFamily webService.gvk)) c =
            countOf (assess [webService, webDeployment] (webFamily webService.gvk)) c) ∧
          (assess ms' (webFamily webService.gvk)).worst =
            (assess [webService, webDeployment] (webFamily webService.gvk)).worst :=
  assess_aggregates _ _ (by decide)

end LeanCd.ResourceHealth
