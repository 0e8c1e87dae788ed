import LeanCd.ResourceHealth

/-!
# `LeanCd.Proofs.UpdateStrategy`: the update strategy in the health of a rollout

A StatefulSet and a DaemonSet keep their strategy at the path `spec.updateStrategy.type`.
`statefulsetHealth` and `daemonsetHealth` look for one key `updateStrategy.type` in `spec`.
No manifest of Kubernetes has that key. So both checks take every object for one without a
strategy, although `statefulsetHealth` reads `rollingUpdate.partition` at its path.

`expectedStatefulset` and `expectedDaemonset` are the health by the strategy at its path.
`strategy_followed_iff` says of which objects the two checks report it. For a StatefulSet
it is a table of the rollout the code sees and the rollout the object has. Without the
single key the code always sees `byRevision`. Then `OnDelete` needs equal revisions, and a
partitioned rollout needs that the revisions are equal exactly when the partition is done.

The checks are functions of the object, so everything is a case distinction. The counts of the
status may be anything that a 64-bit number holds, and the partition may be negative. That is why
the comparison of the partition has an exactness condition of its own.
-/

set_option autoImplicit false

namespace LeanCd.ResourceHealth

/-- The object is not being deleted, and its generation has been observed. -/
structure Observed (o : DynamicObject) : Prop where
  live : o.metadata.deletionTimestamp = none
  generation : generation o ≤ observedGeneration o

/-! ### What the two kinds report -/

/-- `spec.updateStrategy.type`. -/
def strategyType (o : DynamicObject) : Option String :=
  ((spec o).get "updateStrategy").bind (strOf · "type")

/-- The key under which the checks look for the strategy. -/
def singleKey (o : DynamicObject) : Option String := strOf (spec o) "updateStrategy.type"

/-- `spec.updateStrategy.rollingUpdate.partition`. -/
def partition (o : DynamicObject) : Option Int :=
  (((spec o).get "updateStrategy").bind (·.get "rollingUpdate")).bind (i64Of · "partition")

/-- `spec.replicas`. -/
def replicas (o : DynamicObject) : Option Int := i64Of (spec o) "replicas"

/-- A count in `status`, zero when it is missing. -/
def statusCount (o : DynamicObject) (key : String) : Int := (i64Of (status o) key).getD 0

/-- Some of the replicas are not ready. -/
def replicasShort (o : DynamicObject) : Bool :=
  (replicas o).any (statusCount o "readyReplicas" < ·)

/-- `status.updateRevision` is `status.currentRevision`. -/
def revisionsEqual (o : DynamicObject) : Bool :=
  (strOf (status o) "updateRevision").getD "" == (strOf (status o) "currentRevision").getD ""

/-- What the health of a StatefulSet with ready replicas goes by. -/
inductive Rollout where
  | byRevision
  | onDelete
  /-- A rolling update with a partition and a replica count. -/
  | partitioned
deriving DecidableEq

/-- The rollout under a strategy. -/
def rolloutOf (strategy : Option String) (o : DynamicObject) : Rollout :=
  if strategy = some "RollingUpdate" ∧ (replicas o).isSome ∧ (partition o).isSome then
    .partitioned
  else if strategy = some "OnDelete" then .onDelete
  else .byRevision

/-- The replicas above the partition have been updated. -/
def partitionDone (o : DynamicObject) : Bool :=
  decide ((replicas o).getD 0 - (partition o).getD 0 ≤ statusCount o "updatedReplicas")

/-- `partitionDone` with the difference of the code, which saturates. -/
def partitionDoneSaturating (o : DynamicObject) : Bool :=
  decide (saturatingSub ((replicas o).getD 0) ((partition o).getD 0) ≤
    statusCount o "updatedReplicas")

/-- The rollout is complete. -/
def Rollout.done (o : DynamicObject) : Rollout → Bool
  | .byRevision => revisionsEqual o
  | .onDelete => true
  | .partitioned => partitionDone o

/-- The health of a StatefulSet by the strategy at its path. -/
def expectedStatefulset (o : DynamicObject) : HealthStatusCode :=
  if replicasShort o then .progressing
  else if (rolloutOf (strategyType o) o).done o then .healthy
  else .progressing

/-- Both counts of a DaemonSet reach the desired count. -/
def rolledOut (o : DynamicObject) : Bool :=
  decide (statusCount o "desiredNumberScheduled" ≤ statusCount o "updatedNumberScheduled") &&
    decide (statusCount o "desiredNumberScheduled" ≤ statusCount o "numberAvailable")

/-- The health of a DaemonSet by the strategy at its path. -/
def expectedDaemonset (o : DynamicObject) : HealthStatusCode :=
  if strategyType o = some "OnDelete" then .healthy
  else if rolledOut o then .healthy
  else .progressing

/-! ### What the checks report -/

/-- The rollout is complete, as `statefulset_health` decides it. -/
def Rollout.seenDone (o : DynamicObject) : Rollout → Bool
  | .byRevision => revisionsEqual o
  | .onDelete => true
  | .partitioned => partitionDoneSaturating o

/-- The strategy the code works with is empty when there is none. -/
theorem getD_empty_eq_iff {s : Option String} {t : String} (ht : t ≠ "") :
    s.getD "" = t ↔ s = some t := by
  cases s with
  | none => simp [ht.symm]
  | some s => simp

/-- The check of a StatefulSet is the table of the rollout it sees. -/
theorem statefulsetHealth_status {o : DynamicObject} (h : Observed o)
    (hseen : observedGeneration o ≠ 0) :
    (statefulsetHealth o).status =
      if replicasShort o then .progressing
      else if (rolloutOf (singleKey o) o).seenDone o then .healthy
      else .progressing := by
  -- The controller has seen this generation, so neither guard of the code holds.
  have hguard : ¬(observedGeneration o = 0 ∨ generation o > observedGeneration o) := by
    have hgen := h.generation
    omega
  have hrolling : (strOf (spec o) "updateStrategy.type").getD "" = "RollingUpdate" ↔
      singleKey o = some "RollingUpdate" := getD_empty_eq_iff (by decide)
  have honDelete : (strOf (spec o) "updateStrategy.type").getD "" = "OnDelete" ↔
      singleKey o = some "OnDelete" := getD_empty_eq_iff (by decide)
  unfold statefulsetHealth
  simp only [if_neg hguard, hrolling, honDelete]
  by_cases hshort : replicasShort o = true
  · -- Both sides stop at the ready replicas.
    have hany : (i64Of (spec o) "replicas").any
        ((i64Of (status o) "readyReplicas").getD 0 < ·) = true := hshort
    rw [if_pos hany, if_pos hshort]
    rfl
  · have hany : ¬(i64Of (spec o) "replicas").any
        ((i64Of (status o) "readyReplicas").getD 0 < ·) = true := hshort
    rw [if_neg hany, if_neg hshort]
    -- By the key that the code reads: a rolling update, on delete, or nothing of the two.
    by_cases hroll : singleKey o = some "RollingUpdate"
    · cases hr : i64Of (spec o) "replicas" with
      | none =>
          simp [hroll, rolloutOf, replicas, hr, Rollout.seenDone, revisionsEqual, progressing,
            apply_ite HealthStatus.status]
      | some r =>
          cases hp : partition o with
          | none =>
              unfold partition at hp
              simp [hroll, rolloutOf, partition, hp, Rollout.seenDone, revisionsEqual, progressing,
                apply_ite HealthStatus.status]
          | some p =>
              unfold partition at hp
              simp [hroll, rolloutOf, replicas, hr, partition, hp, Rollout.seenDone,
                partitionDoneSaturating, statusCount, progressing, apply_ite HealthStatus.status]
              simp only [← not_lt, ite_not]
    · by_cases hdelete : singleKey o = some "OnDelete"
      -- With neither the revisions decide, as they do in the recreate strategy.
      · simp [hdelete, rolloutOf, Rollout.seenDone]
      · simp [hroll, hdelete, rolloutOf, Rollout.seenDone, revisionsEqual, progressing,
          apply_ite HealthStatus.status]

/-- The check of a DaemonSet leaves the counts out when it sees `OnDelete`. -/
theorem daemonsetHealth_status {o : DynamicObject} (h : Observed o) :
    (daemonsetHealth o).status =
      if singleKey o = some "OnDelete" then .healthy
      else if rolledOut o then .healthy
      else .progressing := by
  have hguard : ¬generation o > observedGeneration o := not_lt.mpr h.generation
  unfold daemonsetHealth
  rw [if_neg hguard]
  -- On delete nothing is rolled, so the set is healthy at once.
  by_cases hdelete : singleKey o = some "OnDelete"
  · have hkey : strOf (spec o) "updateStrategy.type" = some "OnDelete" := hdelete
    rw [if_pos hkey, if_pos hdelete]
  · have hkey : ¬strOf (spec o) "updateStrategy.type" = some "OnDelete" := hdelete
    rw [if_neg hkey, if_neg hdelete]
    unfold rolledOut statusCount
    -- Fewer than desired are updated, or fewer are available, or all are there.
    by_cases hupdated : (i64Of (status o) "updatedNumberScheduled").getD 0 <
        (i64Of (status o) "desiredNumberScheduled").getD 0
    · simp [hupdated, progressing]
    · by_cases havailable : (i64Of (status o) "numberAvailable").getD 0 <
          (i64Of (status o) "desiredNumberScheduled").getD 0
      · simp [hupdated, havailable, progressing]
      · simp [hupdated, havailable, healthyStatus, not_lt.mp hupdated, not_lt.mp havailable]

/-! ### Where they agree -/

/-- A count is an `i64`. -/
theorem statusCount_bounds (o : DynamicObject) (key : String) :
    Text.i64Min ≤ statusCount o key ∧ statusCount o key ≤ Text.i64Max := by
  unfold statusCount
  cases h : i64Of (status o) key with
  | none => decide
  | some i =>
      obtain ⟨v, -, hv⟩ := Option.bind_eq_some_iff.mp h
      unfold Value.asI64 at hv
      split at hv
      · obtain ⟨hrange, hi⟩ := Option.ite_none_right_eq_some.mp hv
        cases hi
        exact hrange
      · cases hv

/-- The partition is decided as it should be. The difference saturates when the partition is
negative, and then the count of updated replicas may reach it. -/
def exactPartition (o : DynamicObject) : Bool :=
  decide ((replicas o).getD 0 - (partition o).getD 0 ≤ Text.i64Max) ||
    decide (statusCount o "updatedReplicas" ≠ Text.i64Max)

/-- The saturating comparison and the exact one agree exactly when the difference does not saturate,
or the updated replicas do not reach the bound. -/
theorem partitionDoneSaturating_eq_iff (o : DynamicObject) :
    partitionDoneSaturating o = partitionDone o ↔ exactPartition o = true := by
  have hbounds := statusCount_bounds o "updatedReplicas"
  rw [Bool.eq_iff_iff]
  simp only [partitionDoneSaturating, partitionDone, exactPartition, saturatingSub,
    Bool.or_eq_true, decide_eq_true_eq, max_le_iff, min_le_iff]
  omega

/-- The rollout that the code sees is done exactly when the rollout of the object is. -/
def Rollout.Agrees (o : DynamicObject) : (seen rollout : Rollout) → Prop
  | .byRevision, .byRevision => True
  | .byRevision, .onDelete => revisionsEqual o
  | .byRevision, .partitioned => revisionsEqual o = partitionDone o
  | .onDelete, .byRevision => revisionsEqual o
  | .onDelete, .onDelete => True
  | .onDelete, .partitioned => partitionDone o
  | .partitioned, .byRevision => partitionDoneSaturating o = revisionsEqual o
  | .partitioned, .onDelete => partitionDoneSaturating o
  | .partitioned, .partitioned => exactPartition o

/-- A check that sees one rollout and does another is right when the two are done at the same time.
-/
theorem Rollout.agrees_iff (o : DynamicObject) (seen rollout : Rollout) :
    seen.Agrees o rollout ↔ seen.seenDone o = rollout.done o := by
  cases seen <;> cases rollout <;>
    simp [Rollout.Agrees, Rollout.seenDone, Rollout.done, partitionDoneSaturating_eq_iff]

/-- The health of a StatefulSet follows its strategy exactly when replicas are not ready, or
the rollout that the code sees agrees with the one that the object has. The health of a
DaemonSet does exactly when the code sees `OnDelete` where the object has it, or both counts
reach the desired count. -/
theorem strategy_followed_iff (o : DynamicObject) (h : Observed o) :
    (observedGeneration o ≠ 0 →
        ((getResourceHealth "apps" "StatefulSet" o).map (·.status) =
            some (expectedStatefulset o) ↔
          replicasShort o ∨
            (rolloutOf (singleKey o) o).Agrees o (rolloutOf (strategyType o) o))) ∧
      ((getResourceHealth "apps" "DaemonSet" o).map (·.status) = some (expectedDaemonset o) ↔
        (singleKey o = some "OnDelete" ↔ strategyType o = some "OnDelete") ∨ rolledOut o) := by
  constructor
  · intro hseen
    -- The workload is live and has a check, so its verdict is the strategy's.
    have hrun : getResourceHealth "apps" "StatefulSet" o = some (statefulsetHealth o) := by
      simp [getResourceHealth, h.live, hasHealthCheck, checkOf]
    rw [hrun, Option.map_some, Option.some.injEq, statefulsetHealth_status h hseen,
      Rollout.agrees_iff, expectedStatefulset]
    by_cases hshort : replicasShort o = true
    -- With too few ready replicas both strategies agree.
    · simp [hshort]
    · cases (rolloutOf (singleKey o) o).seenDone o <;>
        cases (rolloutOf (strategyType o) o).done o <;> simp [hshort]
  · have hrun : getResourceHealth "apps" "DaemonSet" o = some (daemonsetHealth o) := by
      simp [getResourceHealth, h.live, hasHealthCheck, checkOf]
    rw [hrun, Option.map_some, Option.some.injEq, daemonsetHealth_status h, expectedDaemonset]
    by_cases hkey : singleKey o = some "OnDelete" <;>
      by_cases htype : strategyType o = some "OnDelete" <;>
      cases rolledOut o <;> simp [hkey, htype]

/-- A StatefulSet under `OnDelete`. Its Pods are ready, and they run two revisions. -/
def onDeleteSet : DynamicObject :=
  ⟨none, ⟨some "db", some "prod", none, none, some 2, none, []⟩,
    [("spec", .object
        [("replicas", .number (.int 3)),
          ("updateStrategy", .object [("type", .string "OnDelete")])]),
      ("status", .object
        [("observedGeneration", .number (.int 2)), ("readyReplicas", .number (.int 3)),
          ("currentRevision", .string "db-1"), ("updateRevision", .string "db-2")])]⟩

/-- A DaemonSet under `RollingUpdate` with all Pods updated and available. -/
def rolledOutSet : DynamicObject :=
  ⟨none, ⟨some "log", some "prod", none, none, some 1, none, []⟩,
    [("spec", .object [("updateStrategy", .object [("type", .string "RollingUpdate")])]),
      ("status", .object
        [("observedGeneration", .number (.int 1)),
          ("desiredNumberScheduled", .number (.int 4)),
          ("updatedNumberScheduled", .number (.int 4)), ("numberAvailable", .number (.int 4))])]⟩

/-- The equivalence at the two objects. -/
theorem strategy_followed_examples :
    ((getResourceHealth "apps" "StatefulSet" onDeleteSet).map (·.status) =
        some (expectedStatefulset onDeleteSet) ↔
      replicasShort onDeleteSet ∨
        (rolloutOf (singleKey onDeleteSet) onDeleteSet).Agrees onDeleteSet
          (rolloutOf (strategyType onDeleteSet) onDeleteSet)) ∧
    ((getResourceHealth "apps" "DaemonSet" rolledOutSet).map (·.status) =
        some (expectedDaemonset rolledOutSet) ↔
      (singleKey rolledOutSet = some "OnDelete" ↔ strategyType rolledOutSet = some "OnDelete") ∨
        rolledOut rolledOutSet) :=
  ⟨(strategy_followed_iff onDeleteSet ⟨rfl, by decide⟩).1 (by decide),
    (strategy_followed_iff rolledOutSet ⟨rfl, by decide⟩).2⟩

/-- The Pods of `onDeleteSet` wait for their deletion. The check reports a rollout in
progress. -/
theorem onDeleteSet_progressing :
    Observed onDeleteSet ∧ observedGeneration onDeleteSet ≠ 0 ∧
      expectedStatefulset onDeleteSet = .healthy ∧
      (getResourceHealth "apps" "StatefulSet" onDeleteSet).map (·.status) =
        some .progressing :=
  ⟨⟨rfl, by decide⟩, by decide, by decide, by decide⟩

end LeanCd.ResourceHealth
