import LeanCd.Proofs.LeaseHeld
import Mathlib.Logic.Relation

/-!
# `LeanCd.Proofs.Reclaim`: an abandoned Lease can be taken over

A process that crashes leaves its Lease behind, and nothing but its lifetime ends it. The
lifetime is a number of seconds that was cast to an `i32`, and a number that is not positive
makes a Lease that is never stale.

`reclaimable_iff`: where every lifetime is positive, and only there, a process that is between
two passes can take the Lease in every reachable state, with no help of the others, and waits
for no longer than a lifetime.

The converse is by a Lease that no time ends: when one process writes a lifetime that is not
positive and crashes, the Lease is never stale (`Shut`), and no process alone can open it. The
positive part waits for the lifetime of the writer, whoever that was, which the invariant
`Written` gives.
-/

set_option autoImplicit false

namespace LeanCd.Processes

open Transition Relation

variable {cfg : Nat → Config} {holder : Nat → String} {p : Nat}

/-- The fleet on a cluster without a Lease. -/
def freshFleet (cfg : Nat → Config) (holder : Nat → String) : System Processes where
  init s := Initial s ∧ s.server.lease = none
  step := Step cfg holder

/-- One process takes a step and the others none, or time passes. -/
inductive Alone (cfg : Nat → Config) (holder : Nat → String) (p : Nat) :
    Processes → Processes → Prop
  | proc (s : Processes) (server : Server) (phase : ProcPhase) :
      ProcStep (cfg p) (holder p) p s.server (s.procs p) server phase →
      Alone cfg holder p s ⟨server, Function.update s.procs p phase⟩
  | time (s : Processes) (d : Nat) :
      Alone cfg holder p s { s with server := { s.server with clock := s.server.clock + d } }

/-- The lifetime that a process writes into its Leases. -/
def lifetime (cfg : Config) : Nat := (Lock.leaseSecs cfg).toNat * second

/-- The process can take the Lease on its own, and waits for no longer than a lifetime. -/
def Reclaims (cfg : Nat → Config) (holder : Nat → String) (p : Nat) (s : Processes) : Prop :=
  ∃ t, ReflTransGen (Alone cfg holder p) s t ∧ t.procs p = .stateRead ∧
    ∃ q, t.server.clock ≤ s.server.clock + lifetime (cfg q)

/-- A run from a fresh start is a run of the fleet. -/
theorem reachable_of_fresh {s : Processes} (hs : (freshFleet cfg holder).Reachable s) :
    (fleet cfg holder).Reachable s := by
  induction hs with
  | init h => exact .init h.1
  | step _ hstep ih => exact ih.step hstep

/-! ### What is written -/

/-- The Lease was written by one of the processes, at a time that has come. -/
def Written (cfg : Nat → Config) (s : Server) : Prop :=
  ∀ l, s.lease = some l → ∃ q now, now ≤ s.clock ∧ l.renewTime = some (Lock.microTime now) ∧
    l.durationSecs = some (Lock.leaseSecs (cfg q))

/-- A Lease that a process puts carries the process's own lifetime. -/
theorem written_putLease {s : Server} (p : Nat) {now : Nat} (hnow : now ≤ s.clock)
    (name : String) : Written cfg (s.putLease (cfg p) p name now) := by
  intro l hl
  cases hl
  exact ⟨p, now, hnow, rfl, rfl⟩

/-- A step of a process keeps this of the Lease. -/
theorem Written.step {name : String} {s s' : Server} {phase phase' : ProcPhase}
    (h : Written cfg s) (hsaw : Saw s name phase)
    (hstep : ProcStep (cfg p) name p s phase s' phase') : Written cfg s' := by
  -- The time of a CREATE or a REPLACE was read by the process before, and a renewal reads one.
  cases hstep with
  | create | createLost => exact written_putLease p hsaw name
  | replace | replaceLost => exact written_putLease p hsaw.1 name
  | renew prev seen started now l hl hstarted hnow => exact written_putLease p hnow name
  | release => exact nofun
  | _ => exact h

/-- The invariant of the runs: every Lease was written by some process, with its own lifetime and at
a time that is past. -/
theorem written_invariant : (freshFleet cfg holder).Invariant fun s => Written cfg s.server where
  init := by
    rintro s ⟨-, hnone⟩ l hl
    rw [hnone] at hl
    cases hl
  step := by
    intro s t hs h hstep
    cases hstep with
    | proc p server phase hproc =>
        exact h.step ((seen_invariant.holds (reachable_of_fresh hs)).phases p) hproc
    | time d =>
        intro l hl
        obtain ⟨q, now, hnow, hrenew, hsecs⟩ := h l hl
        exact ⟨q, now, Nat.le_add_right_of_le hnow, hrenew, hsecs⟩

/-! ### A process that finds the Lease free or stale -/

/-- A step of the process, as a step of a process alone. -/
theorem Alone.next {s : Processes} {server server' : Server} {phase phase' : ProcPhase}
    (h : ReflTransGen (Alone cfg holder p) s ⟨server, Function.update s.procs p phase⟩)
    (hstep : ProcStep (cfg p) (holder p) p server phase server' phase') :
    ReflTransGen (Alone cfg holder p) s ⟨server', Function.update s.procs p phase'⟩ := by
  have hself : Function.update s.procs p phase p = phase := Function.update_self ..
  have hlast := h.tail (.proc _ server' phase' (by dsimp only; rw [hself]; exact hstep))
  dsimp only at hlast
  rwa [Function.update_idem] at hlast

/-- Without a Lease an idle process takes one in two calls. -/
theorem reclaims_of_none {s : Processes} (hidle : s.procs p = .idle)
    (hnone : s.server.lease = none) : Reclaims cfg holder p s := by
  have hbegin : ReflTransGen (Alone cfg holder p) s
      ⟨s.server, Function.update s.procs p (.leaseGet s.server.clock)⟩ :=
    .single (.proc s _ _ (by rw [hidle]; exact .begin s.server))
  have hget := Alone.next hbegin (.leaseMissing s.server _ hnone)
  have hcreate := Alone.next hget (.create s.server _ hnone)
  exact ⟨_, hcreate, Function.update_self .., p, Nat.le_add_right _ _⟩

/-- With a Lease whose lifetime is positive an idle process waits until it is over, and then takes
it. -/
theorem reclaims_of_lifetime {s : Processes} (hidle : s.procs p = .idle) {l : Lease}
    (hl : s.server.lease = some l) {q now : Nat} (hnow : now ≤ s.server.clock)
    (hrenew : l.renewTime = some (Lock.microTime now))
    (hsecs : l.durationSecs = some (Lock.leaseSecs (cfg q))) (hpos : 0 < Lock.leaseSecs (cfg q)) :
    Reclaims cfg holder p s := by
  -- The process sleeps for a lifetime, and finds the Lease stale.
  let later : Server := { s.server with clock := s.server.clock + lifetime (cfg q) }
  have hstale : Lock.isStale l.renewTime l.durationSecs later.clock = true := by
    have hmicro : Lock.microTime now ≤ now := Nat.sub_le _ _
    have hcast : ((lifetime (cfg q) : Nat) : Int) = Lock.leaseSecs (cfg q) * second := by
      rw [lifetime, Int.natCast_mul, Int.toNat_of_nonneg (Int.le_of_lt hpos)]
    rw [hrenew, hsecs]
    simp only [Lock.isStale, Bool.and_eq_true, decide_eq_true_eq]
    refine ⟨hpos, ?_⟩
    rw [← hcast]
    exact Int.ofNat_le.mpr (Nat.add_le_add_right (hmicro.trans hnow) _)
  have hwait : ReflTransGen (Alone cfg holder p) s ⟨later, s.procs⟩ :=
    .single (.time s (lifetime (cfg q)))
  have hbegin : ReflTransGen (Alone cfg holder p) s
      ⟨later, Function.update s.procs p (.leaseGet later.clock)⟩ :=
    hwait.tail (.proc _ _ _ (by dsimp only; rw [hidle]; exact .begin later))
  have hget := Alone.next hbegin (.leaseStale later _ l hl hstale)
  have hreplace := Alone.next hget (.replace later _ l hl)
  exact ⟨_, hreplace, Function.update_self .., q, Nat.le_refl _⟩

/-! ### A Lease that never ends -/

/-- A process that has not found the Lease free or stale. -/
def standsBy : ProcPhase → Bool
  | .idle | .leaseGet _ | .leaseBusy | .recordRead _ | .recordWrite .. | .crashed => true
  | _ => false

/-- The Lease is never stale, and the process waits. -/
structure Shut (p : Nat) (s : Processes) : Prop where
  fresh : ∃ l, s.server.lease = some l ∧ ∀ now, Lock.isStale l.renewTime l.durationSecs now = false
  waits : standsBy (s.procs p) = true

/-- A process alone does not open a Lease whose lifetime is not positive: it never goes stale. -/
theorem Shut.alone {s t : Processes} (h : Shut p s) (hstep : Alone cfg holder p s t) :
    Shut p t := by
  obtain ⟨⟨l, hl, hfresh⟩, hwaits⟩ := h
  cases hstep with
  -- Time makes no Lease stale that is fresh at any time.
  | time d => exact ⟨⟨l, hl, hfresh⟩, hwaits⟩
  | proc server phase hproc =>
      have hnext : server.lease = s.server.lease ∧ standsBy phase = true := by
        generalize s.procs p = old at hproc hwaits
        -- The phases in which the process stands by reach only each other.
        cases hproc with
        | begin | crash | leaseFresh | leaseGetFails | retry | skip | recordRead | recordReadFails
        | recordWrite | recordWriteFails => exact ⟨rfl, rfl⟩
        -- There is a Lease, so it is not missing.
        | leaseMissing now hnone =>
            rw [hl] at hnone
            cases hnone
        -- It is never stale, so nobody takes it over.
        | leaseStale now l' hl' hstale =>
            rw [hl, Option.some_inj] at hl'
            rw [← hl', hfresh] at hstale
            cases hstale
        | _ => cases hwaits
      refine ⟨⟨l, hnext.1.trans hl, hfresh⟩, ?_⟩
      dsimp only
      rw [Function.update_self]
      exact hnext.2

/-- So it cannot be reclaimed. -/
theorem not_reclaims_of_shut {s : Processes} (h : Shut p s) : ¬Reclaims cfg holder p s := by
  rintro ⟨t, hruns, hread, -⟩
  have hshut : Shut p t := by
    clear hread
    induction hruns with
    | refl => exact h
    | tail _ hstep ih => exact ih.alone hstep
  have hwaits := hshut.waits
  rw [hread] at hwaits
  cases hwaits

/-- A Lease without a positive lifetime is never stale. -/
theorem isStale_buildLease (name : String) {secs : Int} (h : ¬0 < secs) (written rv now : Nat) :
    Lock.isStale (Lock.buildLease name secs written rv).renewTime
      (Lock.buildLease name secs written rv).durationSecs now = false := by
  simp [Lock.isStale, Lock.buildLease, h]

/-- A process that writes no positive lifetime takes the Lease and crashes. -/
theorem exists_shut {q : Nat} (h : ¬0 < Lock.leaseSecs (cfg q)) :
    ∃ s, (freshFleet cfg holder).Reachable s ∧ s.procs (q + 1) = .idle ∧ Shut (q + 1) s := by
  -- The other process takes the Lease and crashes.
  let taken : Server := unused.putLease (cfg q) q (holder q) 0
  have hinit : (freshFleet cfg holder).Reachable ⟨unused, fun _ => .idle⟩ :=
    .init ⟨⟨fun _ => rfl, rfl, rfl, fun l hl => by cases hl⟩, rfl⟩
  have hnext : ∀ {server server' : Server} {procs : Nat → ProcPhase} {phase phase' : ProcPhase},
      procs q = phase → (freshFleet cfg holder).Reachable ⟨server, procs⟩ →
      ProcStep (cfg q) (holder q) q server phase server' phase' →
      (freshFleet cfg holder).Reachable ⟨server', Function.update procs q phase'⟩ := by
    rintro server server' procs phase phase' rfl hreach hstep
    exact hreach.step (.proc _ q server' phase' hstep)
  -- Four steps: the attempt begins, finds none, creates one, and the process is gone.
  have hbegin := hnext rfl hinit (.begin unused)
  have hget := hnext (Function.update_self ..) hbegin (.leaseMissing unused 0 rfl)
  have hcreate := hnext (Function.update_self ..) hget (.create unused 0 rfl)
  have hcrash := hnext (Function.update_self ..) hcreate (.crash taken .stateRead)
  have hidle : ∀ phase, Function.update (Function.update (Function.update (Function.update
      (fun _ : Nat => ProcPhase.idle) q (.leaseGet 0)) q (.leaseCreate 0)) q .stateRead) q phase
        (q + 1) = .idle := by
    intro phase
    simp
  refine ⟨_, hcrash, hidle _, ⟨_, rfl, isStale_buildLease (holder q) h 0 1⟩, ?_⟩
  exact congrArg standsBy (hidle .crashed)

/-- **No crash locks the others out, exactly when every lifetime is positive.** In every state
that a fleet reaches from a cluster without a Lease, each process that is between two passes can
take the Lease, whatever the others have left behind, after at most a lifetime. -/
theorem reclaimable_iff :
    (∀ s p, (freshFleet cfg holder).Reachable s → s.procs p = .idle →
      Reclaims cfg holder p s) ↔ ∀ q, 0 < Lock.leaseSecs (cfg q) := by
  constructor
  · intro hall q
    by_contra hpos
    obtain ⟨s, hreach, hidle, hshut⟩ := @exists_shut cfg holder q hpos
    exact not_reclaims_of_shut hshut (hall s (q + 1) hreach hidle)
  · intro hpos s p hreach hidle
    cases hl : s.server.lease with
    | none => exact reclaims_of_none hidle hl
    | some l =>
        obtain ⟨q, now, hnow, hrenew, hsecs⟩ := written_invariant.holds hreach l hl
        exact reclaims_of_lifetime hidle hl hnow hrenew hsecs (hpos q)

end LeanCd.Processes
