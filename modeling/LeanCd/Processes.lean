import LeanCd.Reconcile
import LeanCd.Lib.Transition

/-!
# `LeanCd.Processes`: several processes on one state ConfigMap

Any number of processes (a controller, one-shot syncs, rollbacks) run `run_once` against
one Lease and one state ConfigMap. A process takes one step for each call it makes to
either; a call is served, or it fails before or after the server acts. What a pass does
to the cluster between its read and its write of the state is open: the new state is
computed from the one it read and from anything else.

`owner`, `log` and the numbers of reads in the phases are history variables: the process
that wrote the current Lease, and the writes of the state, each with the number of
writes its read had seen.
-/

set_option autoImplicit false

namespace LeanCd

/-- Where a process is in `run_once`. -/
inductive ProcPhase where
  /-- Between two passes. -/
  | idle
  /-- `try_acquire`, with the time it read first. -/
  | leaseGet (now : Nat)
  | leaseCreate (now : Nat)
  | leaseReplace (now rv : Nat)
  /-- The Lease is busy: `acquire` tries again, or gives up. -/
  | leaseBusy
  /-- `reconcile_inner`, from its read of the state. -/
  | stateRead
  /-- The pass, with the state it read. -/
  | working (prev : Option State) (seen : Nat)
  /-- `renew`, after its read of the Lease at a version and a time. -/
  | renewing (prev : Option State) (seen rv started : Nat)
  /-- The pass, with the state it is about to write. -/
  | stateWrite (new : State) (seen : Nat)
  /-- The pass is over, and the Lease is released. -/
  | releasing (failed : Option Error)
  /-- `record_error`. -/
  | recordRead (e : Error)
  | recordWrite (new : State) (seen : Nat)
  | crashed

/-- The process holds the Lease, as far as it knows. -/
def ProcPhase.holds : ProcPhase → Bool
  | .stateRead | .working .. | .renewing .. | .stateWrite .. | .releasing _ => true
  | _ => false

/-- One write of the state: whether it ends a pass, the number of writes before the read
it was computed from, and the states before and after. -/
structure StateWritten where
  endsPass : Bool
  seen : Nat
  before : State
  after : State

/-- What the processes share. -/
structure Server where
  clock : Nat
  lease : Option Lease
  owner : Option Nat
  nextRv : Nat
  stateCm : Option Value
  log : List StateWritten

namespace Server

/-- What `state::read` returns. -/
def state (s : Server) : Option State := s.stateCm.map State.fromData

/-- A process writes the Lease. -/
def putLease (s : Server) (cfg : Config) (p : Nat) (holder : String) (now : Nat) : Server :=
  { s with
    lease := some (Lock.buildLease holder (Lock.leaseSecs cfg) now s.nextRv)
    owner := some p
    nextRv := s.nextRv + 1 }

/-- The Lease is deleted. -/
def dropLease (s : Server) : Server := { s with lease := none, owner := none }

/-- A process writes the state. -/
def putState (s : Server) (endsPass : Bool) (seen : Nat) (new : State) : Server :=
  { s with
    stateCm := some new.toData
    log := s.log ++ [⟨endsPass, seen, s.state.getD .default, new⟩] }

end Server

/-- Where a process goes after its pass. -/
def ProcPhase.afterPass : Option Error → ProcPhase
  | none => .idle
  | some e => .recordRead e

/-- One step of the process `p`. -/
inductive ProcStep (cfg : Config) (holder : String) (p : Nat) :
    Server → ProcPhase → Server → ProcPhase → Prop
  | begin (s : Server) : ProcStep cfg holder p s .idle s (.leaseGet s.clock)
  | crash (s : Server) (phase : ProcPhase) : ProcStep cfg holder p s phase s .crashed
  -- `try_acquire`. A write that is lost takes the Lease, and the process does not know.
  | leaseMissing (s : Server) (now : Nat) : s.lease = none →
      ProcStep cfg holder p s (.leaseGet now) s (.leaseCreate now)
  | leaseStale (s : Server) (now : Nat) (l : Lease) : s.lease = some l →
      Lock.isStale l.renewTime l.durationSecs now = true →
      ProcStep cfg holder p s (.leaseGet now) s (.leaseReplace now l.resourceVersion)
  | leaseFresh (s : Server) (now : Nat) (l : Lease) : s.lease = some l →
      Lock.isStale l.renewTime l.durationSecs now = false →
      ProcStep cfg holder p s (.leaseGet now) s .leaseBusy
  | create (s : Server) (now : Nat) : s.lease = none →
      ProcStep cfg holder p s (.leaseCreate now) (s.putLease cfg p holder now) .stateRead
  | createLost (s : Server) (now : Nat) (e : Error) : s.lease = none →
      ProcStep cfg holder p s (.leaseCreate now) (s.putLease cfg p holder now) (.recordRead e)
  | createConflict (s : Server) (now : Nat) : s.lease.isSome →
      ProcStep cfg holder p s (.leaseCreate now) s .leaseBusy
  | replace (s : Server) (now : Nat) (l : Lease) : s.lease = some l →
      ProcStep cfg holder p s (.leaseReplace now l.resourceVersion)
        (s.putLease cfg p holder now) .stateRead
  | replaceLost (s : Server) (now : Nat) (l : Lease) (e : Error) : s.lease = some l →
      ProcStep cfg holder p s (.leaseReplace now l.resourceVersion)
        (s.putLease cfg p holder now) (.recordRead e)
  | replaceConflict (s : Server) (now rv : Nat) (l : Lease) : s.lease = some l →
      l.resourceVersion ≠ rv → ProcStep cfg holder p s (.leaseReplace now rv) s .leaseBusy
  | replaceMissing (s : Server) (now rv : Nat) : s.lease = none →
      ProcStep cfg holder p s (.leaseReplace now rv) s (.recordRead (.kube notFound))
  | leaseGetFails (s : Server) (now : Nat) (e : Error) :
      ProcStep cfg holder p s (.leaseGet now) s (.recordRead e)
  | createFails (s : Server) (now : Nat) (e : Error) :
      ProcStep cfg holder p s (.leaseCreate now) s (.recordRead e)
  | replaceFails (s : Server) (now rv : Nat) (e : Error) :
      ProcStep cfg holder p s (.leaseReplace now rv) s (.recordRead e)
  | retry (s : Server) : ProcStep cfg holder p s .leaseBusy s (.leaseGet s.clock)
  | skip (s : Server) : ProcStep cfg holder p s .leaseBusy s .idle
  -- `reconcile_inner`. Its calls to the cluster and to git are inside `compute`.
  | read (s : Server) :
      ProcStep cfg holder p s .stateRead s (.working s.state s.log.length)
  | readFails (s : Server) (e : Error) :
      ProcStep cfg holder p s .stateRead s (.releasing (some e))
  | renewGet (s : Server) (prev : Option State) (seen : Nat) (l : Lease) : s.lease = some l →
      l.holder = some holder →
      ProcStep cfg holder p s (.working prev seen) s
        (.renewing prev seen l.resourceVersion s.clock)
  -- The new renew time is read between the GET and the REPLACE.
  | renew (s : Server) (prev : Option State) (seen started now : Nat) (l : Lease) :
      s.lease = some l → started ≤ now → now ≤ s.clock →
      ProcStep cfg holder p s (.renewing prev seen l.resourceVersion started)
        (s.putLease cfg p holder now) (.working prev seen)
  | renewFails (s : Server) (prev : Option State) (seen rv started : Nat) :
      ProcStep cfg holder p s (.renewing prev seen rv started) s (.working prev seen)
  | compute (s : Server) (prev : Option State) (seen : Nat) (sync : SyncOutcome)
      (c : Classified) (b : Reconcile.BranchOutcome) (health : HealthSummary) (epoch : UInt64) :
      ProcStep cfg holder p s (.working prev seen) s
        (.stateWrite (Reconcile.newState prev sync c b health epoch) seen)
  | passFails (s : Server) (prev : Option State) (seen : Nat) (e : Error) :
      ProcStep cfg holder p s (.working prev seen) s (.releasing (some e))
  /-- A dry run writes no state, and records no error. -/
  | dryRunEnds (s : Server) (prev : Option State) (seen : Nat) :
      ProcStep cfg holder p s (.working prev seen) s (.releasing none)
  | write (s : Server) (new : State) (seen : Nat) :
      ProcStep cfg holder p s (.stateWrite new seen) (s.putState true seen new)
        (.releasing none)
  | writeLost (s : Server) (new : State) (seen : Nat) (e : Error) :
      ProcStep cfg holder p s (.stateWrite new seen) (s.putState true seen new)
        (.releasing (some e))
  | writeFails (s : Server) (new : State) (seen : Nat) (e : Error) :
      ProcStep cfg holder p s (.stateWrite new seen) s (.releasing (some e))
  | release (s : Server) (failed : Option Error) :
      ProcStep cfg holder p s (.releasing failed) s.dropLease (.afterPass failed)
  | releaseFails (s : Server) (failed : Option Error) :
      ProcStep cfg holder p s (.releasing failed) s (.afterPass failed)
  -- `record_error`. Nothing orders its two calls against another process's pass.
  | recordRead (s : Server) (e : Error) :
      ProcStep cfg holder p s (.recordRead e) s
        (.recordWrite (Reconcile.errorState e s.state) s.log.length)
  | recordReadFails (s : Server) (e : Error) : ProcStep cfg holder p s (.recordRead e) s .idle
  | recordWrite (s : Server) (new : State) (seen : Nat) :
      ProcStep cfg holder p s (.recordWrite new seen) (s.putState false seen new) .idle
  | recordWriteFails (s : Server) (new : State) (seen : Nat) :
      ProcStep cfg holder p s (.recordWrite new seen) s .idle

/-- The processes, by number, and what they share. -/
structure Processes where
  server : Server
  procs : Nat → ProcPhase

namespace Processes

/-- One process takes a step, or time passes. Every process has its configuration and
its name. -/
inductive Step (cfg : Nat → Config) (holder : Nat → String) : Processes → Processes → Prop
  | proc (s : Processes) (p : Nat) (server : Server) (phase : ProcPhase) :
      ProcStep (cfg p) (holder p) p s.server (s.procs p) server phase →
      Step cfg holder s ⟨server, Function.update s.procs p phase⟩
  | time (s : Processes) (d : Nat) :
      Step cfg holder s { s with server := { s.server with clock := s.server.clock + d } }

/-- No process runs yet. The Lease and the state are those of earlier ones. -/
structure Initial (s : Processes) : Prop where
  idle : ∀ p, s.procs p = .idle
  log : s.server.log = []
  owner : s.server.owner = none
  rv : ∀ l, s.server.lease = some l → l.resourceVersion < s.server.nextRv

/-- The runs of processes with their own configurations. -/
def fleet (cfg : Nat → Config) (holder : Nat → String) : Transition.System Processes where
  init := Initial
  step := Step cfg holder

end Processes

end LeanCd
