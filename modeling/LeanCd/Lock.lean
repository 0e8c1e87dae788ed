import LeanCd.KubeUtil
import LeanCd.Lib.Utf8

/-!
# `LeanCd.Lock`: the reconcile Lease

`lock.rs`: the name a process holds the Lease under, acquire, renew and release, with the
optimistic concurrency of the Lease API: creating an existing Lease and replacing a changed
one are conflicts.

`tryAcquire` reads the Lease, and creates it where there is none or replaces it where it is stale.
`renew` replaces it where it is the process's own, by holder and resource version. `release`
deletes it without a look. The two writes of `renew` and `tryAcquire` go through with the version
that was read, or not at all.

`Bytes` has the two functions on names once more, on bytes, with a result only where the slice of
the source does not panic. `LeanCd.Proofs.IdentityBytes` proves that they are the same.
-/

set_option autoImplicit false

namespace LeanCd

/-- `lock::LeaseGuard`: the Lease is held under this identity. -/
structure LeaseGuard where
  holder : String

/-- How an attempt to take the Lease ends, and how `acquire` ends. -/
inductive AcquireOutcome where
  | acquired (guard : LeaseGuard)
  | busy
  | err (e : Error)

namespace Lock

/-- The interval between two attempts. -/
def pollInterval : Nat := second / 2

/-- `holder_base`: the first of the two names that is set and not empty. -/
def holderBase (hostname podName : Option String) : String :=
  ((hostname.filter (· ≠ "")).or (podName.filter (· ≠ ""))).getD "leancd"

/-- The loop of `truncate_char_boundary`: the last character boundary up to `n`. -/
def lastBoundary (cs : List Char) : Nat → Nat
  | 0 => 0
  | n + 1 => if Text.isCharBoundary cs (n + 1) then n + 1 else lastBoundary cs n

/-- `truncate_char_boundary`. -/
def truncateCharBoundary (s : String) (maxBytes : Nat) : String :=
  if Text.byteLen s.toList ≤ maxBytes then s
  else String.ofList (Text.takeBytes (lastBoundary s.toList maxBytes) s.toList)

/-- `holder_identity`: `base:pid`, with the base cut to fit into 63 bytes. -/
def holderIdentity (base : String) (pid : UInt32) : String :=
  let suffix := ":" ++ toString pid.toNat
  let maxBase := 63 - Text.byteLen suffix.toList
  let chosen := if base = "" then "leancd" else truncateCharBoundary base maxBase
  chosen ++ suffix

/-- `truncate_char_boundary` on bytes. There is no result where a slice would panic. -/
def Bytes.truncateCharBoundary (s : Str) (maxBytes : Nat) : Option Str :=
  if s.len ≤ maxBytes then some s
  else s.sliceTo (walkBack s.isCharBoundary maxBytes)

/-- `:pid`. -/
def Bytes.suffix (pid : UInt32) : Str := .ofString (":" ++ toString pid.toNat)

/-- `holder_identity` on bytes. -/
def Bytes.holderIdentity (base : Str) (pid : UInt32) : Option Str := do
  let suffix := Bytes.suffix pid
  let maxBase := 63 - suffix.len
  let chosen ← if base.len = 0 then some (.ofString "leancd")
    else Bytes.truncateCharBoundary base maxBase
  return chosen ++ suffix

/-- `is_stale`: unknown times are never stale. The span is compared exactly. The source has it in
seconds as a float, which rounds at the nanosecond from a hundred days on. -/
def isStale (renewTime : Option Nat) (durationSecs : Option Int) (now : Nat) : Bool :=
  match durationSecs, renewTime with
  | some s, some renew => decide (0 < s) && decide ((renew : Int) + s * second ≤ now)
  | _, _ => false

/-- `MicroTime`: the server keeps whole microseconds. -/
def microTime (t : Nat) : Nat := t - t % 1000

/-- The lease duration as it is written: whole seconds, cast to `i32`. -/
def leaseSecs (cfg : Config) : Int := ((cfg.lockLeaseDuration / second : Nat) : Int).bmod (2 ^ 32)

/-- `build_lease`. -/
def buildLease (holder : String) (secs : Int) (now rv : Nat) : Lease where
  holder := some holder
  durationSecs := some secs
  renewTime := some (microTime now)
  resourceVersion := rv

variable {sc : Scopes}

/-- The answer to a write that lost a race. -/
def conflict : KubeError := ⟨some 409, "conflict"⟩

/-- The Lease, or a 404. -/
def serveGet : Pass sc Lease := fun w =>
  match w.lease with
  | some l => .ok l w
  | none => .error (.kube notFound) w

/-- Create the Lease, or a 409. -/
def serveCreate (l : Nat → Lease) : Pass sc Unit := fun w =>
  match w.lease with
  | some _ => .error (.kube conflict) w
  | none => .ok () { w with lease := some (l w.nextRv), nextRv := w.nextRv + 1 }

/-- Replace the Lease at the version `rv`, or a 409; a 404 when there is none. -/
def serveReplace (rv : Nat) (l : Nat → Lease) : Pass sc Unit := fun w =>
  match w.lease with
  | none => .error (.kube notFound) w
  | some cur =>
      if cur.resourceVersion = rv then
        .ok () { w with lease := some (l w.nextRv), nextRv := w.nextRv + 1 }
      else .error (.kube conflict) w

/-- Delete the Lease, or a 404. -/
def serveDelete : Pass sc Unit := fun w =>
  match w.lease with
  | none => .error (.kube notFound) w
  | some _ => .ok () { w with lease := none }

variable (env : Env sc) (cfg : Config)

/-- A conflict means another process was faster. -/
def takenOr (holder : String) : Except Error Unit → AcquireOutcome
  | .ok _ => .acquired ⟨holder⟩
  | .error (.kube e) => if e.code = some 409 then .busy else .err (.kube e)
  | .error e => .err e

/-- `try_acquire`: create a missing Lease, take a stale one, or report it busy. -/
def tryAcquire (holder : String) : Pass sc AcquireOutcome := do
  let now ← timestampNow env
  let lease := buildLease holder (leaseSecs cfg) now
  match ← Act.attempt (δ := Error) (call env .leaseGet serveGet) with
  | .ok existing =>
      -- The time was read before the Lease was.
      if isStale existing.renewTime existing.durationSecs now then
        return takenOr holder
          (← Act.attempt (call env .leaseReplace (serveReplace existing.resourceVersion lease)))
      else return .busy
  | .error (.kube e) =>
      if e.code = some 404 then
        return takenOr holder (← Act.attempt (call env .leaseCreate (serveCreate lease)))
      else return .err (.kube e)
  | .error e => return .err e

/-- The attempts of `acquire`, at most `fuel` of them. Every attempt but the last two
sleeps a whole poll interval, so the fuel `acquire` gives outlasts the deadline. -/
def acquireLoop (holder : String) (deadline : Nat) : Nat → Pass sc AcquireOutcome
  | 0 => return .busy
  | fuel + 1 => do
      if ← stopRequested env then return .busy
      else
        match ← tryAcquire env cfg holder with
        | .acquired guard => return .acquired guard
        | .err e => return .err e
        | .busy =>
            if deadline ≤ (← instantNow env) then return .busy
            else
              let remaining := deadline - (← instantNow env)
              -- The `select!` between the sleep and `wait_stop`. A stop during the sleep is
              -- found by the next attempt.
              if ← stopRequested env then return .busy
              else
                sleep (min remaining pollInterval)
                acquireLoop holder deadline fuel

/-- `acquire`. -/
def acquire (holder : String) : Pass sc AcquireOutcome := do
  let deadline := (← instantNow env) + cfg.lockWaitTimeout
  acquireLoop env cfg holder deadline (cfg.lockWaitTimeout / pollInterval + 2)

/-- `renew`: `false` when the Lease is gone, changed, or held by another process. -/
def renew (guard : LeaseGuard) : Pass sc Bool := do
  match ← Act.attempt (δ := Error) (call env .leaseGet serveGet) with
  | .error (.kube e) => if e.code = some 404 then return false else throw (.kube e)
  | .error e => throw e
  | .ok existing =>
      -- Another process has taken the Lease over.
      if existing.holder ≠ some guard.holder then return false
      else
        let now ← timestampNow env
        let lease := buildLease guard.holder (leaseSecs cfg) now
        match ← Act.attempt (δ := Error)
            (call env .leaseReplace (serveReplace existing.resourceVersion lease)) with
        | .ok _ => return true
        | .error (.kube e) =>
            if e.code = some 404 ∨ e.code = some 409 then return false else throw (.kube e)
        | .error e => throw e

/-- `LeaseGuard::release`: the Lease is deleted, whoever holds it. -/
def release : Pass sc Unit := do
  match ← Act.attempt (δ := Error) (call env .leaseDelete serveDelete) with
  | .ok _ => return ()
  | .error (.kube e) => if e.code = some 404 then return () else throw (.kube e)
  | .error e => throw e

end Lock

end LeanCd
