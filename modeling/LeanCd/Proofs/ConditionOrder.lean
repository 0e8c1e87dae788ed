import LeanCd.Lib.Grouping
import LeanCd.ResourceHealth
import Mathlib.Data.List.Nodup
import Mathlib.Data.List.Pairwise

/-!
# `LeanCd.Proofs.ConditionOrder`: health and the order of the conditions

`status.conditions` is a map by type, and the API server may list its entries in any order.
The checks read it in three ways. Most look one condition up by its type. `jobHealth`
goes over the list and sets flags. `hpaHealth` takes the first condition with a verdict.

`withConditions` puts other conditions into an object. `order_independent_iff` shows that
the status is the same for every order of the conditions, unless the object is a
HorizontalPodAutoscaler with a degraded condition and one that says it is able to scale.
Such an object has orders in which it is `Healthy`.

A condition type occurs once in such a map, which is the hypothesis `TypesDistinct`. For the
checks that look one type up it makes the result a function of the map (`Reordered`). For the Job
a permutation of the flags is enough. For the autoscaler nothing is, and the exception names the
pairs of conditions that decide it.
-/

set_option autoImplicit false

namespace LeanCd.ResourceHealth

/-! ### Keys that come once -/

/-- Two elements with one key are the same, when no key comes twice. -/
theorem eq_of_nodup_filterMap {α β : Type} {l : List α} {f : α → Option β} {a b : α} {k : β}
    (hl : (l.filterMap f).Nodup) (ha : a ∈ l) (hb : b ∈ l) (hka : f a = some k)
    (hkb : f b = some k) : a = b := by
  have hpair := List.pairwise_filterMap.mp hl
  induction l with
  | nil => cases ha
  | cons c l ih =>
      obtain ⟨hc, hrest⟩ := List.pairwise_cons.mp hpair
      rcases List.mem_cons.mp ha with rfl | ha <;> rcases List.mem_cons.mp hb with rfl | hb
      · rfl
      · exact absurd rfl (hc b hb k hka k hkb)
      · exact absurd rfl (hc _ ‹_› k hkb k hka)
      · exact ih (List.pairwise_filterMap.mpr hrest) ha hb hrest

/-! ### Objects that differ in the order of their conditions -/

/-- The object with these conditions. -/
def withConditions (o : DynamicObject) (cs : List Value) : DynamicObject :=
  let fields := (status o).asObject.getD []
  let status := Value.object (Value.setField fields "conditions" (.array cs))
  { o with data := Value.setField o.data "status" status }

/-- No type comes twice. -/
def TypesDistinct (cs : List Value) : Prop := (cs.filterMap (strOf · "type")).Nodup

instance (cs : List Value) : Decidable (TypesDistinct cs) :=
  inferInstanceAs (Decidable (List.Nodup _))

/-- The status after the conditions were replaced, as the object it is in JSON. -/
theorem status_withConditions (o : DynamicObject) (cs : List Value) :
    status (withConditions o cs) =
      .object (Value.setField ((status o).asObject.getD []) "conditions" (.array cs)) := by
  show (List.lookup "status" (Value.setField o.data "status" _)).getD .null = _
  rw [Value.lookup_setField_self]
  rfl

/-- The conditions that were put in are read back. -/
theorem conditions_withConditions (o : DynamicObject) (cs : List Value) :
    conditions (status (withConditions o cs)) = some cs := by
  rw [status_withConditions, conditions, Value.get_object, Value.lookup_setField_self]
  rfl

/-- What the checks read of an object, up to the order of its conditions. -/
structure Reordered (o o' : DynamicObject) : Prop where
  metadata : o'.metadata = o.metadata
  spec : spec o' = spec o
  fields : ∀ key, key ≠ "conditions" → (status o').get key = (status o).get key
  condition : ∀ type, condition (status o') type = condition (status o) type

/-- An object whose conditions were permuted is a reordered one. -/
theorem reordered_withConditions {o : DynamicObject} {cs cs' : List Value}
    (hcs : conditions (status o) = some cs) (htypes : TypesDistinct cs) (hperm : cs'.Perm cs) :
    Reordered o (withConditions o cs') where
  metadata := rfl
  spec := by
    show (List.lookup "spec" (Value.setField o.data "status" _)).getD .null = _
    rw [Value.lookup_setField_of_ne _ _ (by decide)]
    rfl
  fields := by
    intro key hkey
    rw [status_withConditions, Value.get_object, Value.lookup_setField_of_ne _ _ hkey]
    unfold Value.get
    cases (status o).asObject with
    | none => rfl
    | some fields => rfl
  condition := by
    -- A type that occurs once is found in every order.
    intro type
    unfold condition
    rw [hcs, conditions_withConditions]
    refine (Grouping.find?_eq_of_perm hperm.symm fun a ha b hb hta htb => ?_).symm
    exact eq_of_nodup_filterMap htypes ha hb (beq_iff_eq.mp hta) (beq_iff_eq.mp htb)

/-! ### The checks that look conditions up -/

namespace Reordered

variable {o o' : DynamicObject} (h : Reordered o o')
include h

/-- A number of the status is elsewhere than in the conditions, so it is the same. -/
theorem i64Of_eq {key : String} (hkey : key ≠ "conditions") :
    i64Of (status o') key = i64Of (status o) key := by
  unfold i64Of
  rw [h.fields key hkey]

/-- A text of the status is the same for the same reason. -/
theorem strOf_eq {key : String} (hkey : key ≠ "conditions") :
    strOf (status o') key = strOf (status o) key := by
  unfold strOf
  rw [h.fields key hkey]

/-- The generation is in the metadata, and stays. -/
theorem generation_eq : generation o' = generation o := by
  unfold generation
  rw [h.metadata]

/-- The observed generation is in the status, beside the conditions. -/
theorem observedGeneration_eq : observedGeneration o' = observedGeneration o := by
  unfold observedGeneration
  rw [h.i64Of_eq (by decide)]

/-- The reason of a condition is looked up by its type, which occurs once, so the order is no
matter. -/
theorem conditionReasonIs_eq (type reason : String) :
    conditionReasonIs (status o') type reason = conditionReasonIs (status o) type reason := by
  unfold conditionReasonIs
  rw [h.condition]

/-- The same of its status. -/
theorem conditionStatusTrue_eq (type : String) :
    conditionStatusTrue (status o') type = conditionStatusTrue (status o) type := by
  unfold conditionStatusTrue
  rw [h.condition]

/-- The same of its message. -/
theorem conditionMessage_eq (type : String) :
    conditionMessage (status o') type = conditionMessage (status o) type := by
  unfold conditionMessage
  rw [h.condition]

/-- The ingress points are beside the conditions. -/
theorem hasIngress_eq : hasIngress o' = hasIngress o := by
  unfold hasIngress
  rw [h.fields _ (by decide)]

/-- A Deployment has the same health: counts of the status, and conditions by type. -/
theorem deploymentHealth_eq : deploymentHealth o' = deploymentHealth o := by
  simp (disch := decide) only [deploymentHealth, h.spec, h.generation_eq,
    h.observedGeneration_eq, h.conditionReasonIs_eq, h.i64Of_eq]

/-- A StatefulSet has the same health. -/
theorem statefulsetHealth_eq : statefulsetHealth o' = statefulsetHealth o := by
  simp (disch := decide) only [statefulsetHealth, h.spec, h.generation_eq,
    h.observedGeneration_eq, h.i64Of_eq, h.strOf_eq]

/-- A ReplicaSet has the same health. -/
theorem replicasetHealth_eq : replicasetHealth o' = replicasetHealth o := by
  simp (disch := decide) only [replicasetHealth, h.spec, h.generation_eq,
    h.observedGeneration_eq, h.conditionStatusTrue_eq, h.conditionMessage_eq, h.i64Of_eq]

/-- A DaemonSet has the same health. -/
theorem daemonsetHealth_eq : daemonsetHealth o' = daemonsetHealth o := by
  simp (disch := decide) only [daemonsetHealth, h.spec, h.generation_eq,
    h.observedGeneration_eq, h.i64Of_eq]

/-- A Pod has the same health: its phase, its containers, and the ready condition by type. -/
theorem podHealth_eq : podHealth o' = podHealth o := by
  simp (disch := decide) only [podHealth, h.conditionStatusTrue_eq, h.strOf_eq, h.fields]

/-- A Service has the same health, which comes from the load balancer's ingress. -/
theorem serviceHealth_eq : serviceHealth o' = serviceHealth o := by
  simp only [serviceHealth, h.spec, h.hasIngress_eq]

/-- An Ingress has the same health. -/
theorem ingressHealth_eq : ingressHealth o' = ingressHealth o := by
  simp only [ingressHealth, h.hasIngress_eq]

/-- A PersistentVolumeClaim has the same health, which is its phase. -/
theorem pvcHealth_eq : pvcHealth o' = pvcHealth o := by
  simp (disch := decide) only [pvcHealth, h.strOf_eq]

/-- An APIService has the same health: one condition, by type. -/
theorem apiserviceHealth_eq : apiserviceHealth o' = apiserviceHealth o := by
  simp only [apiserviceHealth, h.condition]

/-- A Workflow has the same health, which is its phase. -/
theorem workflowHealth_eq : workflowHealth o' = workflowHealth o := by
  simp (disch := decide) only [workflowHealth, h.strOf_eq]

end Reordered

/-! ### The Job: flags -/

/-- The condition is true, and of that type. -/
def conditionHolds (type : String) (c : Value) : Bool :=
  strOf c "status" == some "True" && (strOf c "type").getD "" == type

/-- One condition sets the flag of its type, and each of the three types completes the Job. -/
theorem jobCondition_flags (seen : JobSeen) (c : Value) :
    (jobCondition seen c).failed = (seen.failed || conditionHolds "Failed" c) ∧
      (jobCondition seen c).suspended = (seen.suspended || conditionHolds "Suspended" c) ∧
      (jobCondition seen c).complete = (seen.complete || (conditionHolds "Complete" c ||
        conditionHolds "Failed" c || conditionHolds "Suspended" c)) := by
  unfold jobCondition conditionHolds
  by_cases hstatus : strOf c "status" = some "True"
  · simp only [hstatus, ne_eq, not_true_eq_false, if_false, beq_self_eq_true, Bool.true_and]
    split_ifs with hcomplete hfailed hsuspended
    · simp [hcomplete]
    · simp [hfailed]
    · simp [hsuspended]
    · simp [hcomplete, hfailed, hsuspended]
  · simp [hstatus]

/-- The flags after a list of conditions. -/
theorem foldl_jobCondition (cs : List Value) (seen : JobSeen) :
    (cs.foldl jobCondition seen).failed = (seen.failed || cs.any (conditionHolds "Failed")) ∧
      (cs.foldl jobCondition seen).suspended =
        (seen.suspended || cs.any (conditionHolds "Suspended")) ∧
      (cs.foldl jobCondition seen).complete =
        (seen.complete || cs.any fun c => conditionHolds "Complete" c ||
          conditionHolds "Failed" c || conditionHolds "Suspended" c) := by
  induction cs generalizing seen with
  | nil => simp
  | cons c cs ih =>
      obtain ⟨hfailed, hsuspended, hcomplete⟩ := ih (jobCondition seen c)
      obtain ⟨hf, hs, hc⟩ := jobCondition_flags seen c
      rw [List.foldl_cons, hfailed, hsuspended, hcomplete, hf, hs, hc]
      simp only [List.any_cons, Bool.or_assoc, and_self]

/-- The status of a Job by what its conditions set. -/
theorem jobHealth_status {o : DynamicObject} {cs : List Value}
    (hcs : (conditions (status o)).getD [] = cs) :
    (jobHealth o).status =
      if !cs.any fun c => conditionHolds "Complete" c || conditionHolds "Failed" c ||
          conditionHolds "Suspended" c then .progressing
      else if cs.any (conditionHolds "Failed") then .degraded
      else if cs.any (conditionHolds "Suspended") then .suspended
      else .healthy := by
  obtain ⟨hfailed, hsuspended, hcomplete⟩ := foldl_jobCondition cs ⟨false, false, false, ""⟩
  unfold jobHealth
  simp only [hcs, hfailed, hsuspended, hcomplete, Bool.false_or,
    apply_ite HealthStatus.status, progressing]

/-- Flags do not depend on the order. -/
theorem jobHealth_perm {o o' : DynamicObject} {cs cs' : List Value}
    (hcs : conditions (status o) = some cs) (hcs' : conditions (status o') = some cs')
    (hperm : cs'.Perm cs) : (jobHealth o').status = (jobHealth o).status := by
  have hlist : (conditions (status o)).getD [] = cs := by simp [hcs]
  have hlist' : (conditions (status o')).getD [] = cs' := by simp [hcs']
  rw [jobHealth_status hlist, jobHealth_status hlist']
  simp only [hperm.any_eq]

/-! ### The HorizontalPodAutoscaler: the first verdict -/

/-- A condition that `hpa_health` takes for degraded. -/
def hpaDegraded (c : Value) : Bool :=
  isHpaDegraded ((strOf c "type").getD "") ((strOf c "reason").getD "")

/-- A condition that says the autoscaler is able to scale. -/
def hpaAble (c : Value) : Bool :=
  !hpaDegraded c &&
    ((strOf c "type").getD "" == "AbleToScale" || (strOf c "type").getD "" == "ScalingLimited") &&
    (strOf c "status").getD "" == "True"

/-- Some condition is degraded, and another one is able to scale. -/
def Mixed (cs : List Value) : Prop := (∃ c ∈ cs, hpaDegraded c) ∧ ∃ c ∈ cs, hpaAble c

/-- What one condition says of an autoscaler: a verdict of its own, or nothing. -/
theorem hpaCondition_status (c : Value) :
    (hpaCondition c).map (·.status) =
      if hpaDegraded c then some .degraded else if hpaAble c then some .healthy else none := by
  unfold hpaCondition hpaAble
  by_cases hdegraded : hpaDegraded c = true
  · have h : isHpaDegraded ((strOf c "type").getD "") ((strOf c "reason").getD "") = true :=
      hdegraded
    simp [h, hdegraded]
  · have h : ¬isHpaDegraded ((strOf c "type").getD "") ((strOf c "reason").getD "") = true :=
      hdegraded
    simp [h, hdegraded]

/-- A verdict is one of two. -/
theorem hpaCondition_cases {c : Value} {verdict : HealthStatus}
    (h : hpaCondition c = some verdict) :
    verdict.status = .degraded ∧ hpaDegraded c ∨ verdict.status = .healthy ∧ hpaAble c := by
  have hstatus := hpaCondition_status c
  rw [h, Option.map_some] at hstatus
  split at hstatus
  next hdegraded => exact .inl ⟨Option.some.inj hstatus, hdegraded⟩
  next =>
    split at hstatus
    next hable => exact .inr ⟨Option.some.inj hstatus, hable⟩
    next => cases hstatus

/-- The verdict of the first condition that has one. -/
def firstVerdict (cs : List Value) : Option HealthStatusCode :=
  (cs.findSome? hpaCondition).map (·.status)

/-- An autoscaler has the verdict of the first of its conditions that has one. So the order decides
where two conditions say different things. -/
theorem hpaHealth_status {o : DynamicObject} {cs : List Value}
    (hcs : conditions (status o) = some cs) :
    (hpaHealth o).status = (firstVerdict cs).getD .progressing := by
  unfold hpaHealth firstVerdict
  rw [hcs]
  cases cs with
  | nil => rfl
  | cons c cs =>
      show (((c :: cs).findSome? hpaCondition).getD _).status = _
      cases (c :: cs).findSome? hpaCondition <;> rfl

/-- Without a mixture the first verdict is the only one. -/
theorem firstVerdict_perm {cs cs' : List Value} (hperm : cs'.Perm cs) (hmixed : ¬Mixed cs) :
    firstVerdict cs' = firstVerdict cs := by
  unfold firstVerdict
  cases h : cs.findSome? hpaCondition with
  -- No condition has a verdict, in whichever order.
  | none =>
      have hnone : cs'.findSome? hpaCondition = none := by
        rw [List.findSome?_eq_none_iff] at h ⊢
        intro c hc
        exact h c (hperm.mem_iff.mp hc)
      rw [hnone]
  | some verdict =>
      obtain ⟨c, hc, hverdict⟩ := List.exists_of_findSome?_eq_some h
      cases h' : cs'.findSome? hpaCondition with
      | none =>
          rw [List.findSome?_eq_none_iff] at h'
          rw [h' c (hperm.mem_iff.mpr hc)] at hverdict
          cases hverdict
      | some verdict' =>
          obtain ⟨c', hc', hverdict'⟩ := List.exists_of_findSome?_eq_some h'
          have hc' := hperm.mem_iff.mp hc'
          rw [Option.map_some, Option.map_some]
          -- Both have one. Different ones would make the conditions mixed.
          rcases hpaCondition_cases hverdict with ⟨hs, hd⟩ | ⟨hs, hd⟩ <;>
            rcases hpaCondition_cases hverdict' with ⟨hs', hd'⟩ | ⟨hs', hd'⟩
          · rw [hs, hs']
          · exact absurd ⟨⟨c, hc, hd⟩, c', hc', hd'⟩ hmixed
          · exact absurd ⟨⟨c', hc', hd'⟩, c, hc, hd⟩ hmixed
          · rw [hs, hs']

/-- Every condition may come first. -/
theorem exists_perm_cons {c : Value} {cs : List Value} (hc : c ∈ cs) :
    ∃ rest, (c :: rest).Perm cs := by
  obtain ⟨before, after, rfl⟩ := List.append_of_mem hc
  exact ⟨before ++ after, List.perm_middle.symm⟩

/-- A condition with a verdict decides when it comes first. -/
theorem firstVerdict_cons {c : Value} {rest : List Value} {s : HealthStatusCode}
    (h : (hpaCondition c).map (·.status) = some s) : firstVerdict (c :: rest) = some s := by
  obtain ⟨verdict, hverdict, rfl⟩ := Option.map_eq_some_iff.mp h
  simp [firstVerdict, hverdict]

/-- A mixture has an order for each of the two verdicts. -/
theorem exists_firstVerdict {cs : List Value} (hmixed : Mixed cs) (s : HealthStatusCode)
    (hs : s = .degraded ∨ s = .healthy) : ∃ cs', cs'.Perm cs ∧ firstVerdict cs' = some s := by
  obtain ⟨⟨c, hc, hdegraded⟩, c', hc', hable⟩ := hmixed
  rcases hs with rfl | rfl
  · obtain ⟨rest, hperm⟩ := exists_perm_cons hc
    refine ⟨c :: rest, hperm, firstVerdict_cons ?_⟩
    rw [hpaCondition_status, if_pos hdegraded]
  · obtain ⟨rest, hperm⟩ := exists_perm_cons hc'
    have hnot : ¬hpaDegraded c' = true := by
      intro hd
      simp [hpaAble, hd] at hable
    refine ⟨c' :: rest, hperm, firstVerdict_cons ?_⟩
    rw [hpaCondition_status, if_neg hnot, if_pos hable]

/-! ### Every kind -/

/-- The status of an object is the same for every order of its conditions. -/
def OrderIndependent (group kind : String) (o : DynamicObject) (cs : List Value) : Prop :=
  ∀ cs', cs'.Perm cs →
    (getResourceHealth group kind (withConditions o cs')).map (·.status) =
      (getResourceHealth group kind o).map (·.status)

/-- A dispatch keeps the status when each of its checks does. -/
theorem ite_status_eq {c : Prop} [Decidable c] {f g : DynamicObject → HealthStatus}
    {o o' : DynamicObject} (hf : c → (f o').status = (f o).status)
    (hg : (g o').status = (g o).status) :
    ((if c then f else g) o').status = ((if c then f else g) o).status := by
  split
  next hc => exact hf hc
  next => exact hg

/-- Every check but that of the HorizontalPodAutoscaler. -/
theorem checkOf_status_eq {group kind : String} {o : DynamicObject} {cs cs' : List Value}
    (hcs : conditions (status o) = some cs) (htypes : TypesDistinct cs) (hperm : cs'.Perm cs)
    (hkind : kind ≠ "HorizontalPodAutoscaler") :
    (checkOf group kind (withConditions o cs')).status = (checkOf group kind o).status := by
  have h := reordered_withConditions hcs htypes hperm
  unfold checkOf
  apply ite_status_eq fun _ => congrArg _ h.deploymentHealth_eq
  apply ite_status_eq fun _ => congrArg _ h.statefulsetHealth_eq
  apply ite_status_eq fun _ => congrArg _ h.replicasetHealth_eq
  apply ite_status_eq fun _ => congrArg _ h.daemonsetHealth_eq
  apply ite_status_eq fun _ => congrArg _ h.podHealth_eq
  apply ite_status_eq fun _ => jobHealth_perm hcs (conditions_withConditions o cs') hperm
  apply ite_status_eq fun _ => congrArg _ h.serviceHealth_eq
  apply ite_status_eq fun _ => congrArg _ h.ingressHealth_eq
  apply ite_status_eq fun _ => congrArg _ h.pvcHealth_eq
  apply ite_status_eq fun hhpa => absurd hhpa hkind
  apply ite_status_eq fun _ => congrArg _ h.apiserviceHealth_eq
  rw [h.workflowHealth_eq]

/-- The HorizontalPodAutoscaler has one supported group. -/
theorem group_of_hpa {group : String}
    (h : hasHealthCheck group "HorizontalPodAutoscaler" = true) : group = "autoscaling" := by
  simpa [hasHealthCheck] using h

/-- The status of a live object of a supported kind is that of its check. -/
theorem getResourceHealth_live {group kind : String} {o : DynamicObject}
    (hlive : o.metadata.deletionTimestamp = none) (hcheck : hasHealthCheck group kind = true) :
    (getResourceHealth group kind o).map (·.status) = some (checkOf group kind o).status := by
  simp [getResourceHealth, hlive, hcheck]

/-- The check of a HorizontalPodAutoscaler after a reordering. -/
theorem checkOf_hpa {group : String} {o : DynamicObject} {cs : List Value}
    (hcs : conditions (status o) = some cs) :
    (checkOf group "HorizontalPodAutoscaler" o).status =
      (firstVerdict cs).getD .progressing := hpaHealth_status hcs

/-- The status depends on the order of the conditions exactly for a live
HorizontalPodAutoscaler with a degraded condition and one that is able to scale. -/
theorem order_independent_iff (group kind : String) (o : DynamicObject) (cs : List Value)
    (hcs : conditions (status o) = some cs) (htypes : TypesDistinct cs) :
    OrderIndependent group kind o cs ↔
      ¬(group = "autoscaling" ∧ kind = "HorizontalPodAutoscaler" ∧
        o.metadata.deletionTimestamp = none ∧ Mixed cs) := by
  constructor
  · rintro h ⟨rfl, rfl, hlive, hmixed⟩
    -- The object would have to report the verdict of every order.
    have hall : ∀ s, s = .degraded ∨ s = .healthy → s = (firstVerdict cs).getD .progressing := by
      intro s hs
      obtain ⟨cs', hperm, hfirst⟩ := exists_firstVerdict hmixed s hs
      have heq := h cs' hperm
      rw [getResourceHealth_live (o := withConditions o cs') hlive (by decide),
        getResourceHealth_live hlive (by decide),
        checkOf_hpa (conditions_withConditions o cs'), checkOf_hpa hcs, hfirst] at heq
      exact Option.some.inj heq
    exact absurd ((hall .degraded (.inl rfl)).trans (hall .healthy (.inr rfl)).symm) (by decide)
  · intro hnot cs' hperm
    by_cases hlive : o.metadata.deletionTimestamp = none
    · by_cases hcheck : hasHealthCheck group kind = true
      · rw [getResourceHealth_live (o := withConditions o cs') hlive hcheck,
          getResourceHealth_live hlive hcheck]
        by_cases hkind : kind = "HorizontalPodAutoscaler"
        · subst hkind
          have hmixed : ¬Mixed cs := fun h => hnot ⟨group_of_hpa hcheck, rfl, hlive, h⟩
          rw [checkOf_hpa (conditions_withConditions o cs'), checkOf_hpa hcs,
            firstVerdict_perm hperm hmixed]
        · rw [checkOf_status_eq hcs htypes hperm hkind]
      · simp [getResourceHealth, hcheck, withConditions]
    · simp [getResourceHealth, Option.isSome_iff_ne_none, hlive, withConditions]

/-- A condition of an autoscaler. -/
def hpaEntry (type status reason : String) : Value := .object
  [("type", .string type), ("status", .string status), ("reason", .string reason)]

/-- The metrics of the workload cannot be read. The workload could be scaled. -/
def hpaConditions : List Value :=
  [hpaEntry "ScalingActive" "False" "FailedGetResourceMetric",
    hpaEntry "AbleToScale" "True" "SucceededGetScale"]

/-- An autoscaler with these conditions. -/
def hpaWith (cs : List Value) : DynamicObject :=
  ⟨none, ⟨some "web", some "prod", none, none, none, none, []⟩,
    [("status", .object [("conditions", .array cs)])]⟩

/-- An autoscaler that can be scaled has one status. -/
theorem orderIndependent_able :
    OrderIndependent "autoscaling" "HorizontalPodAutoscaler" (hpaWith hpaConditions.tail)
        hpaConditions.tail ↔
      ¬("autoscaling" = "autoscaling" ∧
        "HorizontalPodAutoscaler" = "HorizontalPodAutoscaler" ∧
        (hpaWith hpaConditions.tail).metadata.deletionTimestamp = none ∧
        Mixed hpaConditions.tail) :=
  order_independent_iff _ _ _ _ rfl (by decide)

/-- With the degraded condition first the autoscaler is degraded. With the other one first
it is healthy. -/
theorem hpaConditions_order :
    TypesDistinct hpaConditions ∧ conditions (status (hpaWith hpaConditions)) = some hpaConditions ∧
      hpaConditions.reverse.Perm hpaConditions ∧
      (getResourceHealth "autoscaling" "HorizontalPodAutoscaler" (hpaWith hpaConditions)).map
        (·.status) = some .degraded ∧
      (getResourceHealth "autoscaling" "HorizontalPodAutoscaler"
        (withConditions (hpaWith hpaConditions) hpaConditions.reverse)).map (·.status) =
          some .healthy :=
  ⟨by decide, rfl, List.reverse_perm _, by decide, by decide⟩

end LeanCd.ResourceHealth
