import LeanCd.Calm
import LeanCd.Processes

/-!
# `LeanCd.Proofs.LeaseHeld`: who holds the Lease

Many processes take, renew and release one Lease, each by several API calls. Two things
are said about every interleaving of these calls.

`at_most_one_holder`: as long as no live holder lets its Lease go stale, at most one
process is between a successful acquire and its release.

`ownLeaseOnly_of_noLiveTakeover`: as long as no process takes a Lease over from a live
holder, a process renews and releases its own Lease only. Renewing does so in every run,
since it checks the holder and the version. A release deletes whatever Lease there is:
`release_displaces_holder` is a run in which a pass that has overrun its Lease deletes
the one of the process that took it over.

`Seen` is the invariant of all runs: what a process has read of the Lease is still true
of that version. `Held` is the one of the runs without such a takeover: a process that
holds the Lease is the one that wrote it last.

The system is `LeanCd.Processes`. Time passes between any two steps, calls fail before or after
the server acts, and a process may crash in any phase, after which its Lease stays. A step of one
process is summed up by its effect on the Lease (`LeaseEffect`), so an invariant is checked
against the effects and not against every rule.
-/

set_option autoImplicit false

namespace LeanCd

/-- A Lease that is stale stays so as long as nobody renews it. -/
theorem Lock.isStale_mono {renewTime : Option Nat} {durationSecs : Option Int} {now later : Nat}
    (hle : now ≤ later) (h : isStale renewTime durationSecs now = true) :
    isStale renewTime durationSecs later = true := by
  unfold isStale at h ⊢
  cases durationSecs with
  | none => cases h
  | some s =>
      cases renewTime with
      | none => cases h
      | some renew =>
          simp only [Bool.and_eq_true, decide_eq_true_eq] at h ⊢
          omega

namespace Processes

open Transition

variable {cfg : Nat → Config} {holder : Nat → String}

/-! ### The properties and their conditions -/

/-- No live holder's Lease is stale. -/
def NeverStale (s : Processes) : Prop :=
  ∀ p l, (s.procs p).holds = true → s.server.owner = some p → s.server.lease = some l →
    Lock.isStale l.renewTime l.durationSecs s.server.clock = false

/-- The runs in which no live holder's Lease goes stale. -/
def liveFleet (cfg : Nat → Config) (holder : Nat → String) : System Processes :=
  (fleet cfg holder).restrict fun _ t => NeverStale t

/-- A process whose REPLACE of a stale Lease is carried out does not take the Lease from
a live holder. -/
def NoLiveTakeover (s t : Processes) : Prop :=
  ∀ p now rv, s.procs p = .leaseReplace now rv → t.procs p ≠ s.procs p →
    t.server.lease ≠ s.server.lease → ∀ q, s.server.owner = some q → (s.procs q).holds = false

/-- A process changes the Lease by a renewal only where it carries the name of the
process, and by a release only where the process also was the last to write it. -/
structure OwnLeaseOnly (cfg : Nat → Config) (holder : Nat → String) (s : Processes) : Prop where
  renews : ∀ p prev seen rv started server phase, s.procs p = .renewing prev seen rv started →
    ProcStep (cfg p) (holder p) p s.server (s.procs p) server phase →
    server.lease ≠ s.server.lease → ∃ l, s.server.lease = some l ∧ l.holder = some (holder p)
  releases : ∀ p failed server phase, s.procs p = .releasing failed →
    ProcStep (cfg p) (holder p) p s.server (s.procs p) server phase →
    server.lease ≠ s.server.lease →
      (∃ l, s.server.lease = some l ∧ l.holder = some (holder p)) ∧ s.server.owner = some p

/-! ### What one step does to the Lease -/

/-- The Lease and the clock are as before. -/
structure SameLease (s t : Server) : Prop where
  clock : t.clock = s.clock
  lease : t.lease = s.lease
  owner : t.owner = s.owner
  nextRv : t.nextRv = s.nextRv

/-- Nothing happened to the Lease. -/
theorem SameLease.refl (s : Server) : SameLease s s := ⟨rfl, rfl, rfl, rfl⟩

/-- What a process has read of the Lease. Of the version it read that is still true. -/
def Saw (s : Server) (name : String) : ProcPhase → Prop
  | .leaseGet now | .leaseCreate now => now ≤ s.clock
  | .leaseReplace now rv => now ≤ s.clock ∧ rv < s.nextRv ∧
      ∀ l, s.lease = some l → l.resourceVersion = rv →
        Lock.isStale l.renewTime l.durationSecs now = true
  | .renewing _ _ rv _ => rv < s.nextRv ∧
      ∀ l, s.lease = some l → l.resourceVersion = rv → l.holder = some name
  | _ => True

/-- Why a process may write the Lease: there is none, it found it stale, or it renews. -/
inductive MayPut (s : Server) : ProcPhase → Prop
  | missing (phase : ProcPhase) : s.lease = none → phase.holds = false → MayPut s phase
  | stale (l : Lease) (now : Nat) : s.lease = some l →
      MayPut s (.leaseReplace now l.resourceVersion)
  | renew (prev : Option State) (seen started : Nat) (l : Lease) : s.lease = some l →
      MayPut s (.renewing prev seen l.resourceVersion started)

/-- The effect of a step of `p` on the Lease, and the phase after it. -/
inductive LeaseEffect (cfg : Config) (name : String) (p : Nat) (s : Server) (phase : ProcPhase) :
    Server → ProcPhase → Prop
  | same (server : Server) (phase' : ProcPhase) : SameLease s server →
      (phase'.holds = true → phase.holds = true) → (Saw s name phase → Saw server name phase') →
      LeaseEffect cfg name p s phase server phase'
  | put (now : Nat) (phase' : ProcPhase) : MayPut s phase → phase' ≠ phase →
      Saw (s.putLease cfg p name now) name phase' →
      LeaseEffect cfg name p s phase (s.putLease cfg p name now) phase'
  | drop (failed : Option Error) : phase = .releasing failed →
      LeaseEffect cfg name p s phase s.dropLease (.afterPass failed)

/-- A process that has finished its pass holds nothing any more. -/
@[simp] theorem holds_afterPass (failed : Option Error) :
    (ProcPhase.afterPass failed).holds = false := by
  cases failed <;> rfl

/-- And what it saw of the Lease is no longer asked for. -/
theorem saw_afterPass (s : Server) (name : String) (failed : Option Error) :
    Saw s name (.afterPass failed) := by
  cases failed <;> trivial

/-- What one step of one process does to the Lease. One case for each call that a phase may make,
and all but the writes of the Lease leave it as it was. -/
theorem procStep_leaseEffect {cfg : Config} {name : String} {p : Nat} {s s' : Server}
    {phase phase' : ProcPhase} (hrv : ∀ l, s.lease = some l → l.resourceVersion < s.nextRv)
    (h : ProcStep cfg name p s phase s' phase') : LeaseEffect cfg name p s phase s' phase' := by
  have hsame := SameLease.refl s
  -- One case per rule of `ProcStep`. Most rules leave the Lease alone, and the new phase
  -- holds it only if the old one did.
  cases h with
  | begin | retry => exact .same _ _ hsame nofun fun _ => Nat.le_refl _
  | crash | leaseFresh | createConflict | replaceConflict | replaceMissing | leaseGetFails
  | createFails | replaceFails | skip | recordReadFails | recordWriteFails | recordRead =>
      exact .same _ _ hsame nofun fun _ => trivial
  | leaseMissing => exact .same _ _ hsame nofun id
  -- The GET saw the Lease that the REPLACE will name, so staleness is promised of that
  -- version only.
  | leaseStale now l hl hstale =>
      refine .same _ _ hsame nofun fun hnow => ⟨hnow, hrv l hl, fun l' hl' _ => ?_⟩
      rw [hl, Option.some_inj] at hl'
      exact hl' ▸ hstale
  | create now hnone | createLost now e hnone =>
      exact .put now _ (.missing _ hnone rfl) nofun trivial
  | replace now l hl | replaceLost now l e hl => exact .put now _ (.stale l now hl) nofun trivial
  | read | readFails | renewFails | compute | passFails | dryRunEnds | writeFails =>
      exact .same _ _ hsame (fun _ => rfl) fun _ => trivial
  -- The same for the name that renewing has found.
  | renewGet prev seen l hl hname =>
      refine .same _ _ hsame (fun _ => rfl) fun _ => ⟨hrv l hl, fun l' hl' _ => ?_⟩
      rw [hl, Option.some_inj] at hl'
      exact hl' ▸ hname
  | renew prev seen started now l hl =>
      exact .put now _ (.renew prev seen started l hl) nofun trivial
  | write | writeLost => exact .same _ _ ⟨rfl, rfl, rfl, rfl⟩ (fun _ => rfl) fun _ => trivial
  | release failed => exact .drop failed rfl
  | releaseFails failed =>
      exact .same _ _ hsame (fun h => by rw [holds_afterPass] at h; cases h)
        fun _ => saw_afterPass s name failed
  | recordWrite => exact .same _ _ ⟨rfl, rfl, rfl, rfl⟩ nofun fun _ => trivial

/-! ### All runs -/

/-- What the processes have seen of the Lease, and what the Lease itself says. -/
structure Seen (holder : Nat → String) (s : Processes) : Prop where
  phases : ∀ p, Saw s.server (holder p) (s.procs p)
  rv : ∀ l, s.server.lease = some l → l.resourceVersion < s.server.nextRv
  owner : ∀ p, s.server.owner = some p →
    ∃ l, s.server.lease = some l ∧ l.holder = some (holder p)

/-- What a process saw of the Lease is still true when the Lease did not change. -/
theorem Saw.same {s t : Server} {name : String} {phase : ProcPhase} (h : Saw s name phase)
    (hsame : SameLease s t) : Saw t name phase := by
  cases phase with
  | leaseGet | leaseCreate => exact h.trans_eq hsame.clock.symm
  | leaseReplace =>
      rw [Saw, hsame.clock, hsame.nextRv, hsame.lease]
      exact h
  | renewing =>
      rw [Saw, hsame.nextRv, hsame.lease]
      exact h
  | _ => trivial

/-- The new Lease has a version that no process has seen. -/
theorem Saw.put {s : Server} {name : String} {phase : ProcPhase} (h : Saw s name phase)
    (cfg : Config) (p : Nat) (writer : String) (now : Nat) :
    Saw (s.putLease cfg p writer now) name phase := by
  cases phase with
  | leaseReplace started rv =>
      refine ⟨h.1, Nat.lt_succ_of_lt h.2.1, fun l hl heq => ?_⟩
      cases hl
      exact absurd heq (Nat.ne_of_gt h.2.1)
  | renewing prev seen rv started =>
      refine ⟨Nat.lt_succ_of_lt h.1, fun l hl heq => ?_⟩
      cases hl
      exact absurd heq (Nat.ne_of_gt h.1)
  | _ => exact h

/-- What a process saw is still true after the Lease was dropped, for a version that was seen is an
old one. -/
theorem Saw.drop {s : Server} {name : String} {phase : ProcPhase} (h : Saw s name phase) :
    Saw s.dropLease name phase := by
  cases phase with
  | leaseReplace => exact ⟨h.1, h.2.1, nofun⟩
  | renewing => exact ⟨h.1, nofun⟩
  | _ => exact h

/-- Time does not change what a process saw. It only makes the Lease older. -/
theorem Saw.elapse {s : Server} {name : String} {phase : ProcPhase} (h : Saw s name phase)
    (d : Nat) : Saw { s with clock := s.clock + d } name phase := by
  cases phase with
  | leaseGet | leaseCreate => exact Nat.le_add_right_of_le h
  | leaseReplace => exact ⟨Nat.le_add_right_of_le h.1, h.2⟩
  | _ => exact h

/-- After a step of `p`, what holds of every process follows from what holds of the new
phase of `p` and of the others. -/
theorem forall_update {s : Processes} {p : Nat} {phase : ProcPhase}
    {P : Nat → ProcPhase → Prop} (hp : P p phase) (hothers : ∀ q, q ≠ p → P q (s.procs q))
    (q : Nat) :
    P q (Function.update s.procs p phase q) := by
  rcases eq_or_ne q p with rfl | hne
  · rw [Function.update_self]
    exact hp
  · rw [Function.update_of_ne hne]
    exact hothers q hne

/-- A step of one process keeps what all of them saw: the process that steps by its own effect, the
others because a written Lease gets a new version. -/
theorem Seen.effect {s : Processes} (h : Seen holder s) {p : Nat} {server : Server}
    {phase : ProcPhase}
    (heff : LeaseEffect (cfg p) (holder p) p s.server (s.procs p) server phase) :
    Seen holder ⟨server, Function.update s.procs p phase⟩ := by
  cases heff with
  -- The Lease is as it was, so what the others saw of it holds still.
  | same server phase hsame _ hsaw =>
      refine ⟨forall_update (P := fun q => Saw server (holder q)) (hsaw (h.phases p))
        fun q _ => (h.phases q).same hsame, ?_, ?_⟩
      · rw [hsame.lease, hsame.nextRv]
        exact h.rv
      · rw [hsame.owner, hsame.lease]
        exact h.owner
  -- The writer has seen its own version. The others saw an older one, which is now out of date.
  | put now phase _ _ hsaw =>
      refine ⟨forall_update (P := fun q => Saw _ (holder q)) hsaw
        fun q _ => (h.phases q).put (cfg p) p (holder p) now, fun l hl => ?_, fun q hq => ?_⟩
      · cases hl
        exact Nat.lt_succ_self _
      · cases hq
        exact ⟨_, rfl, rfl⟩
  -- Without the Lease there is nothing to have seen.
  | drop failed _ =>
      exact ⟨forall_update (P := fun q => Saw _ (holder q)) (saw_afterPass _ _ failed)
        fun q _ => (h.phases q).drop, nofun, nofun⟩

/-- What a process has seen of the Lease is true of it in every run. -/
theorem seen_invariant : (fleet cfg holder).Invariant (Seen holder) where
  init := by
    intro s h
    refine ⟨fun p => ?_, h.rv, fun p hp => ?_⟩
    · rw [h.idle p]
      trivial
    · rw [h.owner] at hp
      cases hp
  step := by
    rintro s t - h hstep
    cases hstep with
    | proc p server phase hproc => exact h.effect (procStep_leaseEffect h.rv hproc)
    | time d => exact ⟨fun p => (h.phases p).elapse d, h.rv, h.owner⟩

/-- A renewal finds its own name on the Lease it replaces. -/
theorem Seen.renews {s : Processes} (h : Seen holder s) {p : Nat} {prev : Option State}
    {seen rv started : Nat} (hphase : s.procs p = .renewing prev seen rv started)
    {server : Server} {phase : ProcPhase}
    (hstep : ProcStep (cfg p) (holder p) p s.server (s.procs p) server phase)
    (hchanged : server.lease ≠ s.server.lease) :
    ∃ l, s.server.lease = some l ∧ l.holder = some (holder p) := by
  have hsaw := h.phases p
  cases procStep_leaseEffect h.rv hstep with
  | same _ _ hsame => exact absurd hsame.lease hchanged
  | drop failed hdrop =>
      rw [hphase] at hdrop
      cases hdrop
  | put now _ hmay _ _ =>
      rw [hphase] at hmay hsaw
      cases hmay with
      | missing _ _ hholds => cases hholds
      | renew prev seen started l hl => exact ⟨l, hl, hsaw.2 l hl rfl⟩

/-! ### The runs without a takeover of a live holder -/

/-- A process that holds the Lease is the one that wrote it last. -/
def Held (s : Processes) : Prop := ∀ p, (s.procs p).holds = true → s.server.owner = some p

/-- Two processes that hold the Lease are one. -/
theorem Held.eq {s : Processes} (h : Held s) {p q : Nat} (hp : (s.procs p).holds = true)
    (hq : (s.procs q).holds = true) : p = q :=
  Option.some.inj ((h p hp).symm.trans (h q hq))

/-- The owner has written the Lease, so it is there. -/
theorem Held.lease {s : Processes} (h : Held s) (hseen : Seen holder s) {p : Nat}
    (hp : (s.procs p).holds = true) : ∃ l, s.server.lease = some l ∧ l.holder = some (holder p) :=
  hseen.owner p (h p hp)

/-- A step without a takeover of a live holder keeps the Lease with the process that holds it. -/
theorem Held.effect {s : Processes} (h : Held s) (hseen : Seen holder s) {p : Nat}
    {server : Server} {phase : ProcPhase}
    (heff : LeaseEffect (cfg p) (holder p) p s.server (s.procs p) server phase)
    (hlive : NoLiveTakeover s ⟨server, Function.update s.procs p phase⟩) :
    Held ⟨server, Function.update s.procs p phase⟩ := by
  cases heff with
  | same server phase hsame hholds _ =>
      refine forall_update (P := fun q phase => phase.holds = true → server.owner = some q) ?_ ?_
      · exact fun hnew => hsame.owner.trans (h p (hholds hnew))
      · exact fun q _ hq => hsame.owner.trans (h q hq)
  | put now phase hmay hmoved _ =>
      refine forall_update (P := fun q phase => phase.holds = true → some p = some q)
        (fun _ => rfl) ?_
      intro q hne hq
      -- Another holder would have written the Lease that is there. That contradicts every
      -- reason to write it.
      generalize hphase : s.procs p = old at hmay
      cases hmay with
      | missing _ hnone _ =>
          obtain ⟨l, hl, -⟩ := h.lease hseen hq
          rw [hnone] at hl
          cases hl
      | stale l started hl =>
          have hchanged : (s.server.putLease (cfg p) p (holder p) now).lease ≠ s.server.lease := by
            rw [hl]
            intro heq
            have hrv := congrArg Lease.resourceVersion (Option.some.inj heq)
            exact absurd hrv (Nat.ne_of_gt (hseen.rv l hl))
          have hmoves : Function.update s.procs p phase p ≠ s.procs p := by
            rwa [Function.update_self]
          rw [hlive p started _ hphase hmoves hchanged q (h q hq)] at hq
          cases hq
      | renew prev seen started l hl =>
          exact absurd (h.eq hq (by rw [hphase]; rfl)) hne
  | drop failed hdrop =>
      have hp : (s.procs p).holds = true := by rw [hdrop]; rfl
      refine forall_update (P := fun q phase => phase.holds = true → none = some q) ?_ ?_
      · intro hnew
        rw [holds_afterPass] at hnew
        cases hnew
      · exact fun q hne hq => absurd (h.eq hq hp) hne

/-- Time passing changes neither the Lease nor a phase. -/
theorem held_invariant : ((fleet cfg holder).restrict NoLiveTakeover).Invariant Held where
  init := by
    intro s h p hp
    rw [h.idle p] at hp
    cases hp
  step := by
    rintro s t hs h ⟨hstep, hlive⟩
    have hseen := seen_invariant.holds hs.of_restrict
    cases hstep with
    | proc p server phase hproc => exact h.effect hseen (procStep_leaseEffect hseen.rv hproc) hlive
    | time d => exact h

/-! ### The runs in which no live holder's Lease goes stale -/

/-- A Lease that is not stale is not taken over: the version the process found stale is
the one it replaces. -/
theorem noLiveTakeover_of_neverStale {s t : Processes} (hseen : Seen holder s)
    (hlive : NeverStale s) (hstep : Step cfg holder s t) : NoLiveTakeover s t := by
  intro p now rv hphase hmoved hchanged q howner
  cases hstep with
  -- Time alone moves no process.
  | time d => exact absurd rfl hmoved
  | proc p' server phase hproc =>
      have hp : p = p' := by
        by_contra hne
        exact hmoved (Function.update_of_ne hne _ _)
      subst hp
      have hsaw := hseen.phases p
      cases procStep_leaseEffect hseen.rv hproc with
      | same _ _ hsame => exact absurd hsame.lease hchanged
      -- The one that gives the Lease back is not about to write it.
      | drop failed hdrop =>
          rw [hphase] at hdrop
          cases hdrop
      | put _ _ hmay _ _ =>
          rw [hphase] at hmay hsaw
          cases hmay with
          -- Only a missing Lease is created, and this one has an owner.
          | missing _ hnone _ =>
              obtain ⟨l, hl, -⟩ := hseen.owner q howner
              rw [hnone] at hl
              cases hl
          -- A Lease taken over looked stale, and with the clock ahead it would be stale now.
          | stale l started hl =>
              by_contra hq
              rw [Bool.not_eq_false] at hq
              have hstale := Lock.isStale_mono hsaw.1 (hsaw.2.2 l hl rfl)
              rw [hlive q l hq howner hl] at hstale
              cases hstale

/-- In these runs no Lease is taken over from a live holder. -/
theorem reachable_of_live {s : Processes} (hs : (liveFleet cfg holder).Reachable s) :
    ((fleet cfg holder).restrict NoLiveTakeover).Reachable s ∧ NeverStale s := by
  induction hs with
  | init hinit =>
      refine ⟨.init hinit, fun p l hholds => ?_⟩
      rw [hinit.idle p] at hholds
      cases hholds
  | step _ hstep ih =>
      obtain ⟨hreach, hlive⟩ := ih
      have hseen := seen_invariant.holds hreach.of_restrict
      exact ⟨hreach.step ⟨hstep.1, noLiveTakeover_of_neverStale hseen hlive hstep.1⟩, hstep.2⟩

/-- In a run in which no live holder's Lease goes stale nobody takes one over, so the Lease of a
holder is the one it took. -/
theorem held_of_live {s : Processes} (hs : (liveFleet cfg holder).Reachable s) : Held s :=
  held_invariant.holds (reachable_of_live hs).1

/-! ### Runs of two processes -/

/-- Two processes. -/
def pair (server : Server) (first second : ProcPhase) : Processes where
  server := server
  procs
    | 0 => first
    | 1 => second
    | _ => .idle

/-- A step of the first of two processes, as a pair again. -/
theorem update_pair_first (server : Server) (first second phase : ProcPhase) :
    Function.update (pair server first second).procs 0 phase =
      (pair server phase second).procs := by
  funext p
  match p with
  | 0 | 1 => rfl
  | _ + 2 => rfl

/-- A step of the second. -/
theorem update_pair_second (server : Server) (first second phase : ProcPhase) :
    Function.update (pair server first second).procs 1 phase = (pair server first phase).procs := by
  funext p
  match p with
  | 0 | 1 => rfl
  | _ + 2 => rfl

section
variable {server server' : Server} {first second phase : ProcPhase}

/-- The Lease of the server, if any, is not stale. -/
def Fresh (s : Server) : Prop :=
  ∀ l, s.lease = some l → Lock.isStale l.renewTime l.durationSecs s.clock = false

/-- A Lease that is fresh is not stale, whoever asks for it. -/
theorem Fresh.neverStale (h : Fresh server) : NeverStale (pair server first second) :=
  fun _ l _ _ hl => h l hl

/-- The first process takes a step. -/
theorem step_first (hstep : ProcStep (cfg 0) (holder 0) 0 server first server' phase) :
    Step cfg holder (pair server first second) (pair server' phase second) := by
  have hproc : Step cfg holder (pair server first second) _ :=
    .proc (pair server first second) 0 server' phase hstep
  rwa [update_pair_first] at hproc

/-- The second process takes a step. -/
theorem step_second (hstep : ProcStep (cfg 1) (holder 1) 1 server second server' phase) :
    Step cfg holder (pair server first second) (pair server' first phase) := by
  have hproc : Step cfg holder (pair server first second) _ :=
    .proc (pair server first second) 1 server' phase hstep
  rwa [update_pair_second] at hproc

/-- A step of the first process of a pair, where the Lease is fresh afterwards, is one of the live
fleet. -/
theorem live_first (hstep : ProcStep (cfg 0) (holder 0) 0 server first server' phase)
    (hfresh : Fresh server') :
    (liveFleet cfg holder).step (pair server first second) (pair server' phase second) :=
  ⟨step_first hstep, hfresh.neverStale⟩

/-- The same of the second process. -/
theorem live_second (hstep : ProcStep (cfg 1) (holder 1) 1 server second server' phase)
    (hfresh : Fresh server') :
    (liveFleet cfg holder).step (pair server first second) (pair server' first phase) :=
  ⟨step_second hstep, hfresh.neverStale⟩

end

/-- The Lease and the state do not exist yet. -/
def unused : Server := ⟨0, none, none, 1, none, []⟩

/-- Two idle processes on an unused server are at the start of a run. -/
theorem initial_unused : Initial (pair unused .idle .idle) where
  idle p := by
    match p with
    | 0 | 1 => rfl
    | _ + 2 => rfl
  log := rfl
  owner := rfl
  rv l hl := by cases hl

/-- The controller, and a sync. -/
def settingsHolder (p : Nat) : String := if p = 0 then "controller" else "sync"

/-- Without a Lease there is none that could be stale. -/
theorem Fresh.of_none {s : Server} (h : s.lease = none) : Fresh s := fun l hl => by
  rw [h] at hl
  cases hl

/-- A Lease is fresh when it was just written. -/
theorem fresh_putLease (p : Nat) (name : String) (s : Server) (h : s.clock = 0) :
    Fresh (s.putLease settingsCfg p name 0) := fun l hl => by
  cases hl
  show Lock.isStale (some (Lock.microTime 0)) (some (Lock.leaseSecs settingsCfg)) s.clock = false
  rw [h]
  decide

/-- What ends the controller's pass. -/
def fetchError : Error := .git "git fetch failed: timeout"

/-- The controller holds the Lease. -/
theorem reachable_held :
    (liveFleet (fun _ => settingsCfg) settingsHolder).Reachable
      (pair (unused.putLease settingsCfg 0 "controller" 0) .stateRead .idle) := by
  have hinit : (liveFleet (fun _ => settingsCfg) settingsHolder).Reachable
      (pair unused .idle .idle) := .init initial_unused
  have hbegin := hinit.step (live_first (.begin _) (.of_none rfl))
  have hget := hbegin.step (live_first (.leaseMissing _ _ rfl) (.of_none rfl))
  exact hget.step (live_first (.create _ _ rfl) (fresh_putLease 0 "controller" unused rfl))

/-! ### At most one holder -/

/-- As long as no live holder lets its Lease go stale, at most one process is between a
successful acquire and its release. -/
theorem at_most_one_holder {s : Processes} (hs : (liveFleet cfg holder).Reachable s) (p q : Nat) :
    (s.procs p).holds = true → (s.procs q).holds = true → p = q :=
  (held_of_live hs).eq

/-- The sync finds the Lease busy: the controller holds it, and the sync does not. -/
theorem at_most_one_holder_busy :
    (pair (unused.putLease settingsCfg 0 "controller" 0) .stateRead .leaseBusy).procs 0 =
      .stateRead ∧
    ((pair (unused.putLease settingsCfg 0 "controller" 0) .stateRead .leaseBusy).procs 1).holds ≠
      true := by
  have hfresh := fresh_putLease 0 "controller" unused rfl
  have hbegin := reachable_held.step (live_second (.begin _) hfresh)
  have hbusy := hbegin.step (live_second (.leaseFresh _ _ _ rfl (by decide)) hfresh)
  exact ⟨rfl, fun hsync => absurd (at_most_one_holder hbusy 0 1 rfl hsync) (by decide)⟩

/-! ### Own Leases only -/

/-- As long as no process takes a Lease over from a live holder, a process renews and
releases its own Lease only. -/
theorem ownLeaseOnly_of_noLiveTakeover {s : Processes}
    (hs : ((fleet cfg holder).restrict NoLiveTakeover).Reachable s) :
    OwnLeaseOnly cfg holder s where
  renews _ _ _ _ _ _ _ hphase hstep hchanged :=
    (seen_invariant.holds hs.of_restrict).renews hphase hstep hchanged
  releases p failed _ _ hphase _ _ := by
    have hheld := held_invariant.holds hs
    have hp : (s.procs p).holds = true := by rw [hphase]; rfl
    exact ⟨hheld.lease (seen_invariant.holds hs.of_restrict) hp, hheld p hp⟩

/-- The controller's pass has failed, and it releases the Lease it wrote. -/
theorem ownLeaseOnly_releasing :
    OwnLeaseOnly (fun _ => settingsCfg) settingsHolder
      (pair (unused.putLease settingsCfg 0 "controller" 0) (.releasing (some fetchError))
        .idle) := by
  have hfresh := fresh_putLease 0 "controller" unused rfl
  have hfails := reachable_held.step (live_first (.readFails _ fetchError) hfresh)
  exact ownLeaseOnly_of_noLiveTakeover (reachable_of_live hfails).1

/-- The Lease the controller wrote at the start. -/
def overrun : Server := unused.putLease settingsCfg 0 "controller" 0

/-- A minute later, when the Lease is stale. -/
def expired : Server := { overrun with clock := overrun.clock + settingsCfg.lockLeaseDuration }

/-- The sync has taken the Lease over. -/
def takenOver : Server := expired.putLease settingsCfg 1 "sync" expired.clock

/-- The controller's pass overruns its Lease, and the sync takes the Lease over. Then the
controller's pass ends. -/
theorem reachable_takenOver :
    (fleet (fun _ => settingsCfg) settingsHolder).Reachable
      (pair takenOver (.releasing (some fetchError)) .stateRead) := by
  have hheld := reachable_held.of_restrict
  have htime := hheld.step (.time _ settingsCfg.lockLeaseDuration)
  have hbegin : (fleet (fun _ => settingsCfg) settingsHolder).Reachable
      (pair expired .stateRead (.leaseGet expired.clock)) := htime.step (step_second (.begin _))
  have hstale := hbegin.step (step_second (.leaseStale _ _ _ rfl (by decide)))
  have htaken := hstale.step (step_second (.replace _ _ _ rfl))
  exact htaken.step (step_first (.readFails _ fetchError))

/-- The controller's release deletes the Lease of the sync, which is live and renews in
time. The controller's next pass acquires the Lease, and both hold it. -/
theorem release_displaces_holder :
    (¬ ∀ s, (fleet (fun _ => settingsCfg) settingsHolder).Reachable s →
      OwnLeaseOnly (fun _ => settingsCfg) settingsHolder s) ∧
    ∃ s, (fleet (fun _ => settingsCfg) settingsHolder).Reachable s ∧
      (s.procs 0).holds = true ∧ (s.procs 1).holds = true := by
  constructor
  · intro hall
    obtain ⟨⟨l, hl, hname⟩, -⟩ := (hall _ reachable_takenOver).releases 0 _ _ _ rfl
      (.release _ _) (by decide)
    cases hl
    exact absurd hname (by decide)
  · have hreleased := reachable_takenOver.step (step_first (.release _ _))
    have hrecord := hreleased.step (step_first (.recordReadFails _ _))
    have hbegin := hrecord.step (step_first (.begin _))
    have hget := hbegin.step (step_first (.leaseMissing _ _ rfl))
    exact ⟨_, hget.step (step_first (.create _ _ rfl)), rfl, rfl⟩

end Processes

end LeanCd
