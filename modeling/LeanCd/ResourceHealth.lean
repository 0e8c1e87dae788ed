import LeanCd.Drift
import LeanCd.State

/-!
# `LeanCd.ResourceHealth`: the health of live objects

`resource_health.rs`: one check per supported kind, each a function of the object's
own `spec` and `status`, and the aggregate over the manifests.

A check looks at the generation, at counts and at conditions, in an order of its own, and each of
them answers with a status and a message. `assess` finds the live object of each manifest and sums
up: a count for each status, and the worst with its message. An object that is being deleted, or
of a kind without a check, has its verdict before any of this.
-/

set_option autoImplicit false

namespace LeanCd

/-- `resource_health::HealthStatusCode`. -/
inductive HealthStatusCode where
  | healthy
  | progressing
  | degraded
  | suspended
  | missing
  | unknown
deriving DecidableEq

/-- `resource_health::HealthStatus`. -/
structure HealthStatus where
  status : HealthStatusCode
  message : String
deriving DecidableEq

namespace HealthStatusCode

/-- `as_str`. -/
def asStr : HealthStatusCode → String
  | healthy => "Healthy"
  | progressing => "Progressing"
  | degraded => "Degraded"
  | suspended => "Suspended"
  | missing => "Missing"
  | unknown => "Unknown"

/-- `HEALTH_ORDER`, worst last. -/
def healthOrder : List HealthStatusCode :=
  [healthy, suspended, progressing, missing, degraded, unknown]

/-- `rank`. -/
def rank (c : HealthStatusCode) : Nat := healthOrder.idxOf c

/-- `is_worse`. -/
def isWorse (current new : HealthStatusCode) : Bool := decide (current.rank < new.rank)

end HealthStatusCode

namespace ResourceHealth

/-! ### Reading a live object -/

/-- A top-level field of the object, `null` when absent. -/
def top (o : DynamicObject) (key : String) : Value := (Value.field o.data key).getD .null

/-- `spec`. -/
def spec (o : DynamicObject) : Value := top o "spec"

/-- `status`. -/
def status (o : DynamicObject) : Value := top o "status"

/-- `i64_of`. -/
def i64Of (v : Value) (key : String) : Option Int := (v.get key).bind Value.asI64

/-- `str_of`. -/
def strOf (v : Value) (key : String) : Option String := (v.get key).bind Value.asStr

/-- `bool_of`. -/
def boolOf (v : Value) (key : String) : Option Bool := (v.get key).bind Value.asBool

/-- `generation`. -/
def generation (o : DynamicObject) : Int := o.metadata.generation.getD 0

/-- `observed_generation`. -/
def observedGeneration (o : DynamicObject) : Int :=
  (i64Of (status o) "observedGeneration").getD 0

/-- `status.conditions`, when it is an array. -/
def conditions (status : Value) : Option (List Value) :=
  (status.get "conditions").bind Value.asArray

/-- `condition`: the first condition of a type. -/
def condition (status : Value) (condType : String) : Option Value :=
  (conditions status).bind fun cs => cs.find? fun c => strOf c "type" == some condType

/-- `condition_reason_is`. -/
def conditionReasonIs (status : Value) (condType reason : String) : Bool :=
  ((condition status condType).bind (strOf · "reason")) == some reason

/-- `condition_status_true`. -/
def conditionStatusTrue (status : Value) (condType : String) : Bool :=
  ((condition status condType).bind (strOf · "status")) == some "True"

/-- `condition_message`. -/
def conditionMessage (status : Value) (condType : String) : String :=
  ((condition status condType).bind (strOf · "message")).getD ""

/-- `HealthStatus::healthy`. -/
def healthyStatus : HealthStatus := ⟨.healthy, ""⟩

/-- `progressing`. -/
def progressing (message : String) : HealthStatus := ⟨.progressing, message⟩

/-- `i64::saturating_sub`. -/
def saturatingSub (a b : Int) : Int := max Text.i64Min (min Text.i64Max (a - b))

/-! ### The checks -/

/-- `has_health_check`. -/
def hasHealthCheck (group kind : String) : Bool :=
  (group, kind) ∈
    [("apps", "Deployment"), ("apps", "StatefulSet"), ("apps", "ReplicaSet"),
      ("apps", "DaemonSet"), ("", "Pod"), ("batch", "Job"), ("", "Service"),
      ("networking.k8s.io", "Ingress"), ("extensions", "Ingress"),
      ("", "PersistentVolumeClaim"), ("autoscaling", "HorizontalPodAutoscaler"),
      ("apiregistration.k8s.io", "APIService"), ("argoproj.io", "Workflow")]

/-- `deployment_health`. -/
def deploymentHealth (o : DynamicObject) : HealthStatus :=
  let spec := spec o
  let status := status o
  if (boolOf spec "paused").getD false then ⟨.suspended, "Deployment is paused"⟩
  else if generation o ≤ observedGeneration o then
    if conditionReasonIs status "Progressing" "ProgressDeadlineExceeded" then
      ⟨.degraded, "Deployment exceeded its progress deadline"⟩
    else
      let updated := (i64Of status "updatedReplicas").getD 0
      let replicas := (i64Of status "replicas").getD 0
      let available := (i64Of status "availableReplicas").getD 0
      let specReplicas := i64Of spec "replicas"
      if specReplicas.any (· ≠ updated) then
        progressing ("Waiting for rollout to finish: " ++ toString updated ++ " out of " ++
          toString (specReplicas.getD 0) ++ " new replicas have been updated...")
      else if replicas > updated then
        progressing ("Waiting for rollout to finish: " ++ toString replicas ++
          " old replicas are pending termination...")
      else if available < updated then
        progressing ("Waiting for rollout to finish: " ++ toString available ++ " of " ++
          toString updated ++ " updated replicas are available...")
      else healthyStatus
  else
    progressing
      "Waiting for rollout to finish: observed deployment generation less than desired generation"

/-- `statefulset_health`. The update strategy is looked up under the single key
`updateStrategy.type`. -/
def statefulsetHealth (o : DynamicObject) : HealthStatus :=
  let spec := spec o
  let status := status o
  let specReplicas := i64Of spec "replicas"
  let ready := (i64Of status "readyReplicas").getD 0
  let strategy := (strOf spec "updateStrategy.type").getD ""
  let partition :=
    ((spec.get "updateStrategy").bind (·.get "rollingUpdate")).bind (i64Of · "partition")
  let updated := (i64Of status "updatedReplicas").getD 0
  let rolledOut : HealthStatus :=
    let currentRev := (strOf status "currentRevision").getD ""
    let updateRev := (strOf status "updateRevision").getD ""
    if strategy = "OnDelete" then
      ⟨.healthy, "statefulset has " ++ toString ready ++ " ready pods"⟩
    else if updateRev ≠ currentRev then
      progressing ("waiting for statefulset rolling update to complete " ++ toString updated ++
        " pods at revision " ++ updateRev ++ "...")
    else
      ⟨.healthy, "statefulset rolling update complete " ++ toString ready ++
        " pods at revision " ++ currentRev ++ "..."⟩
  if observedGeneration o = 0 ∨ generation o > observedGeneration o then
    progressing "Waiting for statefulset spec update to be observed..."
  else if specReplicas.any (ready < ·) then
    progressing ("Waiting for " ++ toString ready ++ " pods to be ready...")
  else if strategy = "RollingUpdate" then
    match specReplicas, partition with
    | some sr, some partition =>
        if updated < saturatingSub sr partition then
          progressing ("Waiting for partitioned roll out to finish: " ++ toString updated ++
            " out of " ++ toString (saturatingSub sr partition) ++
            " new pods have been updated...")
        else
          ⟨.healthy, "partitioned roll out complete: " ++ toString updated ++
            " new pods have been updated..."⟩
    | _, _ => rolledOut
  else rolledOut

/-- `replicaset_health`. -/
def replicasetHealth (o : DynamicObject) : HealthStatus :=
  let spec := spec o
  let status := status o
  if generation o ≤ observedGeneration o then
    if conditionStatusTrue status "ReplicaFailure" then
      ⟨.degraded, conditionMessage status "ReplicaFailure"⟩
    else
      let available := (i64Of status "availableReplicas").getD 0
      let specReplicas := i64Of spec "replicas"
      if specReplicas.any (available < ·) then
        progressing ("Waiting for rollout to finish: " ++ toString available ++ " out of " ++
          toString (specReplicas.getD 0) ++ " new replicas are available...")
      else healthyStatus
  else
    progressing
      "Waiting for rollout to finish: observed replica set generation less than desired generation"

/-- `daemonset_health`. The update strategy is looked up under the single key
`updateStrategy.type`. -/
def daemonsetHealth (o : DynamicObject) : HealthStatus :=
  let spec := spec o
  let status := status o
  let desired := (i64Of status "desiredNumberScheduled").getD 0
  let updated := (i64Of status "updatedNumberScheduled").getD 0
  let available := (i64Of status "numberAvailable").getD 0
  if generation o > observedGeneration o then
    progressing
      "Waiting for rollout to finish: observed daemon set generation less than desired generation"
  else if strOf spec "updateStrategy.type" = some "OnDelete" then
    ⟨.healthy, "daemon set " ++ toString updated ++ " out of " ++ toString desired ++
      " new pods have been updated"⟩
  else if updated < desired then
    progressing ("Waiting for daemon set rollout to finish: " ++ toString updated ++
      " out of " ++ toString desired ++ " new pods have been updated...")
  else if available < desired then
    progressing ("Waiting for daemon set rollout to finish: " ++ toString available ++ " of " ++
      toString desired ++ " updated pods are available...")
  else healthyStatus

/-- `is_waiting_error`. -/
def isWaitingError (reason : String) : Bool :=
  Text.startsWith reason "Err" || Text.endsWith reason "BackOff" || reason == "Error"

/-- The reason a container is waiting for. -/
def waitingReason (container : Value) : Option String :=
  ((container.get "state").bind (·.get "waiting")).bind (strOf · "reason")

/-- `pod_health`. -/
def podHealth (o : DynamicObject) : HealthStatus :=
  let status := status o
  let phase := (strOf status "phase").getD ""
  let message := (strOf status "message").getD ""
  if phase = "Pending" then progressing message
  else if phase = "Succeeded" then ⟨.healthy, message⟩
  else if phase = "Failed" then ⟨.degraded, message⟩
  else if phase = "Running" then
    if conditionStatusTrue status "Ready" then ⟨.healthy, message⟩
    else
      let containers := ((status.get "containerStatuses").bind Value.asArray).getD []
      match (containers.filterMap waitingReason).find? isWaitingError with
      | some reason => ⟨.degraded, "container stuck in " ++ reason⟩
      | none => progressing message
  else ⟨.unknown, message⟩

/-- What `job_health` has seen so far. -/
structure JobSeen where
  failed : Bool
  complete : Bool
  suspended : Bool
  message : String

/-- One condition of a Job. -/
def jobCondition (seen : JobSeen) (c : Value) : JobSeen :=
  let type := (strOf c "type").getD ""
  let message := (strOf c "message").getD ""
  if strOf c "status" ≠ some "True" then seen
  else if type = "Complete" then { seen with complete := true, message }
  else if type = "Failed" then { seen with failed := true, complete := true, message }
  else if type = "Suspended" then { seen with suspended := true, complete := true, message }
  else seen

/-- `job_health`. -/
def jobHealth (o : DynamicObject) : HealthStatus :=
  let seen := ((conditions (status o)).getD []).foldl jobCondition ⟨false, false, false, ""⟩
  if !seen.complete then progressing seen.message
  else if seen.failed then ⟨.degraded, seen.message⟩
  else if seen.suspended then ⟨.suspended, seen.message⟩
  else ⟨.healthy, seen.message⟩

/-- A non-empty `status.loadBalancer.ingress`. -/
def hasIngress (o : DynamicObject) : Bool :=
  ((((status o).get "loadBalancer").bind (·.get "ingress")).bind Value.asArray).any
    fun a => !a.isEmpty

/-- `service_health`. -/
def serviceHealth (o : DynamicObject) : HealthStatus :=
  if strOf (spec o) "type" ≠ some "LoadBalancer" then healthyStatus
  else if hasIngress o then healthyStatus
  else progressing "Waiting for loadBalancer ingress to be assigned"

/-- `ingress_health`. -/
def ingressHealth (o : DynamicObject) : HealthStatus :=
  if hasIngress o then healthyStatus else progressing "Waiting for ingress to be assigned"

/-- `pvc_health`. -/
def pvcHealth (o : DynamicObject) : HealthStatus :=
  let phase := (strOf (status o) "phase").getD ""
  if phase = "Bound" then healthyStatus
  else if phase = "Pending" then progressing "PVC is pending"
  else if phase = "Lost" then ⟨.degraded, "PVC is lost"⟩
  else ⟨.unknown, ""⟩

/-- `is_hpa_degraded`. -/
def isHpaDegraded (condType reason : String) : Bool :=
  (condType, reason) ∈
    [("AbleToScale", "FailedGetScale"), ("AbleToScale", "FailedUpdateScale"),
      ("ScalingActive", "FailedGetResourceMetric"), ("ScalingActive", "FailedGetObjectMetric"),
      ("ScalingActive", "FailedGetPodsMetric"), ("ScalingActive", "FailedGetExternalMetric"),
      ("ScalingActive", "FailedComputeMetricsReplicas"), ("ScalingActive", "InvalidSelector")]

/-- The verdict of one condition of a HorizontalPodAutoscaler. -/
def hpaCondition (c : Value) : Option HealthStatus :=
  let type := (strOf c "type").getD ""
  let reason := (strOf c "reason").getD ""
  let message := (strOf c "message").getD ""
  if isHpaDegraded type reason then some ⟨.degraded, message⟩
  else if (type = "AbleToScale" ∨ type = "ScalingLimited") ∧
      (strOf c "status").getD "" = "True" then
    some ⟨.healthy, message⟩
  else none

/-- `hpa_health`: the first condition with a verdict decides. -/
def hpaHealth (o : DynamicObject) : HealthStatus :=
  match conditions (status o) with
  | none | some [] => progressing "Waiting for HPA to report conditions"
  | some cs => (cs.findSome? hpaCondition).getD (progressing "Waiting for HPA to stabilize")

/-- `apiservice_health`. -/
def apiserviceHealth (o : DynamicObject) : HealthStatus :=
  match condition (status o) "Available" with
  | some c =>
      let message := (strOf c "message").getD ""
      if strOf c "status" = some "True" then ⟨.healthy, message⟩ else progressing message
  | none => progressing "Waiting to be processed"

/-- `workflow_health`. -/
def workflowHealth (o : DynamicObject) : HealthStatus :=
  let phase := (strOf (status o) "phase").getD ""
  let message := (strOf (status o) "message").getD ""
  if phase = "" ∨ phase = "Pending" ∨ phase = "Running" then progressing message
  else if phase = "Succeeded" then ⟨.healthy, message⟩
  else if phase = "Failed" ∨ phase = "Error" then ⟨.degraded, message⟩
  else ⟨.unknown, message⟩

/-- The check of a supported kind. -/
def checkOf (group kind : String) : DynamicObject → HealthStatus :=
  if kind = "Deployment" then deploymentHealth
  else if kind = "StatefulSet" then statefulsetHealth
  else if kind = "ReplicaSet" then replicasetHealth
  else if kind = "DaemonSet" then daemonsetHealth
  else if kind = "Pod" then podHealth
  else if kind = "Job" then jobHealth
  else if kind = "Service" then serviceHealth
  else if kind = "Ingress" then ingressHealth
  else if kind = "PersistentVolumeClaim" then pvcHealth
  else if kind = "HorizontalPodAutoscaler" then hpaHealth
  else if group = "apiregistration.k8s.io" then apiserviceHealth
  else workflowHealth

/-- `get_resource_health`. -/
def getResourceHealth (group kind : String) (o : DynamicObject) : Option HealthStatus :=
  if o.metadata.deletionTimestamp.isSome then some ⟨.progressing, "Pending deletion"⟩
  else if hasHealthCheck group kind then some (checkOf group kind o)
  else none

/-! ### The aggregate -/

/-- `HealthSummary::bump`. -/
def bump (h : HealthSummary) : HealthStatusCode → HealthSummary
  | .healthy => { h with healthy := h.healthy + 1 }
  | .progressing => { h with progressing := h.progressing + 1 }
  | .degraded => { h with degraded := h.degraded + 1 }
  | .suspended => { h with suspended := h.suspended + 1 }
  | .missing => { h with missing := h.missing + 1 }
  | .unknown => { h with unknown := h.unknown + 1 }

/-- The health of a manifest given the live object found for it. -/
def entryOf (m : RawManifest) : Option DynamicObject → Option HealthStatus
  | none => if hasHealthCheck m.group m.kind then some ⟨.missing, ""⟩ else none
  | some o => getResourceHealth m.group m.kind o

/-- The summary so far, and the worst status with its message. -/
structure Tally where
  summary : HealthSummary
  worst : Option HealthStatus

/-- Count one entry. The first of the worst entries keeps the message. -/
def Tally.add (t : Tally) : Option HealthStatus → Tally
  | none => t
  | some h =>
      { summary := bump t.summary h.status
        worst :=
          match t.worst with
          | none => some h
          | some w => if HealthStatusCode.isWorse w.status h.status then some h else some w }

/-- The summary of a list of entries. -/
def summarize (entries : List (Option HealthStatus)) : HealthSummary :=
  let t := entries.foldl Tally.add ⟨.default, none⟩
  { t.summary with
    worst := t.worst.map (·.status.asStr)
    worstMessage := t.worst.map (·.message) }

/-- `assess`. -/
def assess (manifests : List RawManifest) (live : List DynamicObject) : HealthSummary :=
  summarize (manifests.map fun m => entryOf m (Drift.findLiveMatch m live))

end ResourceHealth

end LeanCd
