import LeanCd.ResourceHealth

/-!
# `LeanCd.Proofs.StuckContainer`: Pods with a container that cannot start

`podHealth` looks for containers that wait with an error in Pods of the phase `Running` only.
An image that cannot be pulled keeps its Pod in the phase `Pending`, where the check answers
`Progressing` at once, although `isWaitingError` knows `ErrImagePull` and `ImagePullBackOff`.

`stuck_degraded_iff`: a Pod with a stuck container is degraded exactly when it is running.

The statuses of all containers are scanned, and one container that waits with an error is enough,
at whatever place it stands. The statement is about the two phases in which a Pod can have such a
container.
-/

set_option autoImplicit false

namespace LeanCd.ResourceHealth

/-- `status.phase`. -/
def podPhase (o : DynamicObject) : Option String := strOf (status o) "phase"

/-- `status.containerStatuses`. Without an array there are none. -/
def containerStatuses (o : DynamicObject) : List Value :=
  (((status o).get "containerStatuses").bind Value.asArray).getD []

/-- Some container waits with an error. -/
def Stuck (o : DynamicObject) : Prop :=
  ∃ c ∈ containerStatuses o, ∃ reason, waitingReason c = some reason ∧ isWaitingError reason

/-- The scan finds a stuck container at any place. -/
theorem Stuck.find {o : DynamicObject} (h : Stuck o) :
    ∃ reason, ((containerStatuses o).filterMap waitingReason).find? isWaitingError =
      some reason := by
  obtain ⟨c, hc, reason, hreason, herror⟩ := h
  rw [← Option.isSome_iff_exists, List.find?_isSome]
  exact ⟨reason, List.mem_filterMap.mpr ⟨c, hc, hreason⟩, herror⟩

/-- A running Pod with a stuck container is degraded, since the containers are scanned before the
default. -/
theorem podHealth_running {o : DynamicObject} (hphase : podPhase o = some "Running")
    (hready : conditionStatusTrue (status o) "Ready" = false) (h : Stuck o) :
    (podHealth o).status = .degraded := by
  obtain ⟨reason, hfind⟩ := h.find
  unfold podPhase at hphase
  unfold containerStatuses at hfind
  simp [podHealth, hphase, hready, hfind]

/-- A pending Pod is progressing, whatever its containers are doing: it is decided before the scan.
-/
theorem podHealth_pending {o : DynamicObject} (hphase : podPhase o = some "Pending") :
    (podHealth o).status = .progressing := by
  unfold podPhase at hphase
  simp [podHealth, hphase, progressing]

/-- The health of a Pod that is not being deleted is that of the Pod check. -/
theorem getResourceHealth_pod {o : DynamicObject} (hlive : o.metadata.deletionTimestamp = none) :
    getResourceHealth "" "Pod" o = some (podHealth o) := by
  simp [getResourceHealth, hlive, hasHealthCheck, checkOf]

/-- A Pod that is pending or running, is not ready and has a stuck container is degraded
exactly when it is running. -/
theorem stuck_degraded_iff (o : DynamicObject) (hlive : o.metadata.deletionTimestamp = none)
    (hphase : podPhase o = some "Pending" ∨ podPhase o = some "Running")
    (hready : conditionStatusTrue (status o) "Ready" = false) (hstuck : Stuck o) :
    (getResourceHealth "" "Pod" o).map (·.status) = some .degraded ↔
      podPhase o = some "Running" := by
  rw [getResourceHealth_pod hlive, Option.map_some, Option.some_inj]
  rcases hphase with hpending | hrunning
  · rw [podHealth_pending hpending, hpending]
    decide
  · exact iff_of_true (podHealth_running hrunning hready hstuck) hrunning

/-- A Pod of two containers. The second one waits for this reason. -/
def waitingPod (phase reason : String) : DynamicObject :=
  ⟨none, ⟨some "web", some "prod", none, none, none, none, []⟩,
    [("status", .object
      [("phase", .string phase),
        ("conditions", .array
          [.object [("type", .string "Ready"), ("status", .string "False")]]),
        ("containerStatuses", .array
          [.object [("state", .object [("running", .object [])])],
            .object [("state", .object
              [("waiting", .object [("reason", .string reason)])])]])])]⟩

/-- The Pod of the example is stuck for every waiting reason that is an error. -/
theorem stuck_waitingPod {phase reason : String} (h : isWaitingError reason = true) :
    Stuck (waitingPod phase reason) :=
  ⟨_, List.mem_cons_of_mem _ List.mem_cons_self, reason, rfl, h⟩

/-- In the phase Running the example is degraded. -/
theorem stuck_degraded_running :
    (getResourceHealth "" "Pod" (waitingPod "Running" "CrashLoopBackOff")).map (·.status) =
        some .degraded ↔
      podPhase (waitingPod "Running" "CrashLoopBackOff") = some "Running" :=
  stuck_degraded_iff _ rfl (.inr rfl) (by decide) (stuck_waitingPod (by decide))

/-- The image of the second container cannot be pulled. -/
theorem imagePull_progressing :
    (waitingPod "Pending" "ImagePullBackOff").metadata.deletionTimestamp = none ∧
      podPhase (waitingPod "Pending" "ImagePullBackOff") = some "Pending" ∧
      conditionStatusTrue (status (waitingPod "Pending" "ImagePullBackOff")) "Ready" = false ∧
      Stuck (waitingPod "Pending" "ImagePullBackOff") ∧
      (getResourceHealth "" "Pod" (waitingPod "Pending" "ImagePullBackOff")).map (·.status) =
        some .progressing :=
  ⟨rfl, rfl, by decide, stuck_waitingPod (by decide), by decide⟩

end LeanCd.ResourceHealth
