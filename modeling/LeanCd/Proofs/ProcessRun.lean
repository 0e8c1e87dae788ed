import LeanCd.Commands
import LeanCd.Proofs.FailedPass
import LeanCd.Proofs.LeaseHeld
import LeanCd.Proofs.RenewalGap

/-!
# `LeanCd.Proofs.ProcessRun`: a subcommand is a process

`LeanCd.Processes` takes a process apart into the calls it makes for the Lease and for the
state. `Command.pass` is the code of a whole pass against the API server. `pass_moves`: every
run of it goes through the steps of a process, with the outside between any two of them, and
ends between two passes again. While nobody else touches the Lease it is a run of the fleet, so
the invariants of the fleet are invariants of the code.

`Goes` says that the process gets to a phase by the time the code gets to a world. Between
two renewals a pass is a log of interactions, none of which is a step of its own.

The Lease comes first: the three calls of `tryAcquire` are three steps, and so are those of
`renew` and `release`. Inside the pass `Works` says that the process is computing, from a state
that it has read, and its renewals are steps on the side. The outside of the code is the other
processes of the fleet, which is why the code's environment is asked for answers that a server
gives (`Genuine`).
-/

set_option autoImplicit false

namespace LeanCd.Lock

open Act

variable {sc : Scopes} {w : World sc} {Q : Except Error Unit → World sc → Prop}

/-- A CREATE stores the Lease where there is none. -/
theorem after_serveCreate_iff {l : Nat → Lease} :
    After (serveCreate l) w Q ↔
      match w.lease with
      | some _ => Q (.error (.kube conflict)) w
      | none => Q (.ok ()) { w with lease := some (l w.nextRv), nextRv := w.nextRv + 1 } := by
  unfold After serveCreate
  cases w.lease <;> rfl

/-- A REPLACE stores the Lease over the version it names. -/
theorem after_serveReplace_iff {rv : Nat} {l : Nat → Lease} :
    After (serveReplace rv l) w Q ↔
      match w.lease with
      | none => Q (.error (.kube notFound)) w
      | some cur =>
          if cur.resourceVersion = rv then
            Q (.ok ()) { w with lease := some (l w.nextRv), nextRv := w.nextRv + 1 }
          else Q (.error (.kube conflict)) w := by
  unfold After serveReplace
  cases w.lease with
  | none => rfl
  | some cur =>
      dsimp only
      split <;> rfl

/-- A DELETE removes the Lease. -/
theorem after_serveDelete_iff :
    After serveDelete w Q ↔
      match w.lease with
      | none => Q (.error (.kube notFound)) w
      | some _ => Q (.ok ()) { w with lease := none } := by
  unfold After serveDelete
  cases w.lease <;> rfl

/-- The Lease is held under the name that it was asked for. -/
def Named (holder : String) (o : AcquireOutcome) : Prop :=
  ∀ guard, o = .acquired guard → guard = ⟨holder⟩

/-- A REPLACE or a CREATE that was tried ends in a guard of that holder, or in none. -/
theorem named_takenOr (holder : String) (res : Except Error Unit) :
    Named holder (takenOr holder res) := by
  intro guard h
  unfold takenOr at h
  split at h
  · exact (AcquireOutcome.acquired.inj h).symm
  · split at h <;> cases h
  · cases h

variable {env : Env sc} {cfg : Config} {holder : String}

/-- An attempt that succeeds returns a guard with the name it was asked with. -/
theorem returns_tryAcquire : Returns (tryAcquire env cfg holder) (Named holder) := by
  refine (Returns.any _).bind fun now _ => (Returns.any _).bind fun read _ => ?_
  split
  · split
    · exact (Returns.any _).bind fun res _ => .pure (named_takenOr holder res)
    · exact .pure (by simp [Named])
  · split
    · exact (Returns.any _).bind fun res _ => .pure (named_takenOr holder res)
    · exact .pure (by simp [Named])
  · exact .pure (by simp [Named])

/-- So does the loop of attempts. -/
theorem returns_acquireLoop (deadline fuel : Nat) :
    Returns (acquireLoop env cfg holder deadline fuel) (Named holder) := by
  induction fuel with
  | zero => exact .pure (by simp [Named])
  | succ fuel ih =>
      refine (Returns.any _).bind fun stopped _ => ?_
      split
      · exact .pure (by simp [Named])
      refine returns_tryAcquire.bind fun o ho => ?_
      split
      · exact .pure ho
      · exact .pure (by simp [Named])
      refine (Returns.any _).bind fun now _ => ?_
      split
      · exact .pure (by simp [Named])
      refine (Returns.any _).bind fun now' _ => (Returns.any _).bind fun stopped _ => ?_
      split
      · exact .pure (by simp [Named])
      · exact (Returns.any _).bind fun _ _ => ih

/-- So does an acquire. -/
theorem returns_acquire : Returns (acquire env cfg holder) (Named holder) :=
  (Returns.any _).bind fun _ _ => returns_acquireLoop _ _

end LeanCd.Lock

namespace LeanCd.Processes

open Act Relation

variable {sc : Scopes} {env : Env sc} {cfg : Config} {holder : String} {p : Nat}

/-! ### One process and the outside -/

/-- A process after a number of interactions, and the server. -/
structure Solo where
  step : Nat
  server : Server
  phase : ProcPhase

/-- The outside at one interaction: others do with the Lease what they do, and time goes on. -/
def interfere (env : Env sc) (n : Nat) (s : Server) : Server :=
  { s with
    clock := env.wallClock n
    lease := env.otherLease n s.lease
    owner := if env.otherLease n s.lease = s.lease then s.owner else none }

/-- One interaction, or one step of the process. -/
inductive Solo.Step (env : Env sc) (cfg : Config) (holder : String) (p : Nat) :
    Solo → Solo → Prop
  | outside (x : Solo) : x.server.clock ≤ env.wallClock x.step →
      Solo.Step env cfg holder p x ⟨x.step + 1, interfere env x.step x.server, x.phase⟩
  | own (x : Solo) (server : Server) (phase : ProcPhase) :
      ProcStep cfg holder p x.server x.phase server phase →
      Solo.Step env cfg holder p x ⟨x.step, server, phase⟩

/-- The server shows the world, with that text of the state. Its clock stands where the last
interaction left it. -/
structure Shows (env : Env sc) (text : Option Value) (w : World sc) (n : Nat) (s : Server) :
    Prop where
  step : n = w.step
  clock : s.clock = env.wallClock (w.step - 1)
  lease : s.lease = w.lease
  nextRv : s.nextRv = w.nextRv
  stateCm : s.stateCm = text

/-- A 404 or a 409 is an answer of the API server about the Lease or the state that is there,
and not the text of a fault. -/
structure Genuine (env : Env sc) : Prop where
  leaseGet : ∀ n e, env.fault n .leaseGet = .refused e ∨ env.fault n .leaseGet = .lost e →
    e.code ≠ some 404
  leaseCreate : ∀ n e, env.fault n .leaseCreate = .refused e ∨
    env.fault n .leaseCreate = .lost e → e.code ≠ some 409
  leaseReplace : ∀ n e, env.fault n .leaseReplace = .refused e ∨
    env.fault n .leaseReplace = .lost e → e.code ≠ some 409
  stateGet : ∀ n e, env.fault n .stateGet = .refused e ∨ env.fault n .stateGet = .lost e →
    e.code ≠ some 404

/-- From `x`, the process gets to a phase by the time the code gets to a world. -/
def Goes (env : Env sc) (cfg : Config) (holder : String) (p : Nat) (x : Solo)
    (text : Option Value) (w : World sc) (phase : ProcPhase) : Prop :=
  ∃ y, ReflTransGen (Solo.Step env cfg holder p) x y ∧ Shows env text w y.step y.server ∧
    y.phase = phase

namespace Goes

variable {x : Solo} {text : Option Value} {w : World sc} {phase phase' : ProcPhase}

/-- A step of the process that changes nothing. -/
theorem moves (h : Goes env cfg holder p x text w phase)
    (hstep : ∀ s : Server, Shows env text w w.step s → ProcStep cfg holder p s phase s phase') :
    Goes env cfg holder p x text w phase' := by
  obtain ⟨y, hruns, hshows, rfl⟩ := h
  have hown := hstep y.server (hshows.step ▸ hshows)
  exact ⟨_, hruns.tail (.own y y.server phase' hown), hshows, rfl⟩

/-- A step of the process that changes the server. -/
theorem changes {w' : World sc} {text' : Option Value}
    (h : Goes env cfg holder p x text w phase)
    (hstep : ∀ s : Server, Shows env text w w.step s →
      ∃ s', ProcStep cfg holder p s phase s' phase' ∧ Shows env text' w' w.step s') :
    Goes env cfg holder p x text' w' phase' := by
  obtain ⟨y, hruns, hshows, rfl⟩ := h
  obtain ⟨s', hown, hshows'⟩ := hstep y.server (hshows.step ▸ hshows)
  exact ⟨_, hruns.tail (.own y s' phase' hown), hshows.step ▸ hshows', rfl⟩

/-- One interaction. -/
theorem interaction (hclock : Monotone env.wallClock) {t : World sc}
    (h : Goes env cfg holder p x text w phase) (hstep : t.step = w.step + 1)
    (hlease : t.lease = env.otherLease w.step w.lease) (hrv : t.nextRv = w.nextRv) :
    Goes env cfg holder p x text t phase := by
  obtain ⟨y, hruns, hshows, hphase⟩ := h
  have htime : y.server.clock ≤ env.wallClock y.step := by
    rw [hshows.clock, hshows.step]
    exact hclock (Nat.sub_le _ _)
  refine ⟨_, hruns.tail (.outside y htime), ⟨?_, ?_, ?_, ?_, hshows.stateCm⟩, hphase⟩
  · exact (congrArg (· + 1) hshows.step).trans hstep.symm
  · rw [hstep, Nat.add_sub_cancel, ← hshows.step]
    rfl
  · rw [hlease, ← hshows.lease, ← hshows.step]
    rfl
  · exact hshows.nextRv.trans hrv.symm

/-- When time passes and the others act, the process is still in its phase. -/
theorem ticked (hclock : Monotone env.wallClock) (h : Goes env cfg holder p x text w phase) :
    Goes env cfg holder p x text (w.ticked env) phase := h.interaction hclock rfl rfl rfl

/-- The same of a call before it is served. -/
theorem called (hclock : Monotone env.wallClock) (req : Request sc)
    (h : Goes env cfg holder p x text w phase) :
    Goes env cfg holder p x text (w.called env req) phase := h.interaction hclock rfl rfl rfl

/-- A world that differs in nothing that the server shows. -/
theorem congr {t : World sc} (h : Goes env cfg holder p x text w phase) (hstep : t.step = w.step)
    (hlease : t.lease = w.lease) (hrv : t.nextRv = w.nextRv) :
    Goes env cfg holder p x text t phase := by
  obtain ⟨y, hruns, hshows, hphase⟩ := h
  refine ⟨y, hruns, ⟨?_, ?_, ?_, ?_, hshows.stateCm⟩, hphase⟩
  · rw [hshows.step, hstep]
  · rw [hshows.clock, hstep]
  · rw [hshows.lease, hlease]
  · rw [hshows.nextRv, hrv]

end Goes

/-- The server after a write of the Lease shows the world after it. -/
theorem Shows.putLease {text : Option Value} {w : World sc} {n : Nat} {s : Server}
    (h : Shows env text w n s) (now : Nat) :
    Shows env text { w with
      lease := some (Lock.buildLease holder (Lock.leaseSecs cfg) now w.nextRv)
      nextRv := w.nextRv + 1 } n (s.putLease cfg p holder now) where
  step := h.step
  clock := h.clock
  lease := by rw [← h.nextRv]; rfl
  nextRv := congrArg (· + 1) h.nextRv
  stateCm := h.stateCm

/-! ### The Lease -/

section
variable (hapi : Genuine env) (hclock : Monotone env.wallClock) {x : Solo} {text : Option Value}
  {w : World sc}

/-- Where an attempt to take the Lease leaves the process. -/
def afterAttempt : AcquireOutcome → ProcPhase
  | .acquired _ => .stateRead
  | .busy => .leaseBusy
  | .err e => .recordRead e

/-- Where `acquire` leaves it. -/
def afterAcquire : AcquireOutcome → ProcPhase
  | .acquired _ => .stateRead
  | .busy => .idle
  | .err e => .recordRead e

/-- A call that fails before the server acts, or after it did, is an error of the attempt
unless it is a conflict. -/
theorem takenOr_error {e : KubeError} (he : e.code ≠ some 409) :
    Lock.takenOr holder (.error (.kube e)) = .err (.kube e) := if_neg he

include hclock

/-- The CREATE of an attempt is a step of the protocol: the Lease is written, or another process was
first, or the call was lost. -/
theorem after_leaseCreate (hapi : Genuine env) {now : Nat}
    (h : Goes env cfg holder p x text w (.leaseCreate now)) :
    After (call env .leaseCreate
      (Lock.serveCreate (Lock.buildLease holder (Lock.leaseSecs cfg) now))) w fun res t =>
        Goes env cfg holder p x text t (afterAttempt (Lock.takenOr holder res)) := by
  have h := h.called hclock .leaseCreate
  simp only [after_call, Lock.after_serveCreate_iff]
  cases hfault : env.fault w.step .leaseCreate with
  | none =>
      cases hl : (w.called env .leaseCreate).lease with
      -- None is there, so the server creates it, and the abstract server does so too.
      | none =>
          exact h.changes fun s hs => ⟨_, .create s now (hs.lease.trans hl), hs.putLease now⟩
      -- Someone else has created one since the read.
      | some l =>
          refine h.moves fun s hs => .createConflict s now ?_
          rw [hs.lease, hl]
          rfl
  | refused e =>
      dsimp only
      rw [takenOr_error (hapi.leaseCreate _ _ (.inl hfault))]
      exact h.moves fun s _ => .createFails s now _
  -- The answer is lost. What the server did decides which abstract step this was, and the process
  -- goes on as after a failure in both cases.
  | lost e =>
      dsimp only
      rw [takenOr_error (hapi.leaseCreate _ _ (.inr hfault))]
      cases hl : (w.called env .leaseCreate).lease with
      | none =>
          exact h.changes fun s hs => ⟨_, .createLost s now _ (hs.lease.trans hl), hs.putLease now⟩
      | some l => exact h.moves fun s _ => .createFails s now _

/-- The REPLACE of an attempt is one too, with the version that was read. -/
theorem after_leaseReplace (hapi : Genuine env) {now rv : Nat}
    (h : Goes env cfg holder p x text w (.leaseReplace now rv)) :
    After (call env .leaseReplace
      (Lock.serveReplace rv (Lock.buildLease holder (Lock.leaseSecs cfg) now))) w fun res t =>
        Goes env cfg holder p x text t (afterAttempt (Lock.takenOr holder res)) := by
  have h := h.called hclock .leaseReplace
  simp only [after_call, Lock.after_serveReplace_iff]
  cases hfault : env.fault w.step .leaseReplace with
  | none =>
      cases hl : (w.called env .leaseReplace).lease with
      -- The Lease went since it was read.
      | none => exact h.moves fun s hs => .replaceMissing s now rv (hs.lease.trans hl)
      | some l =>
          dsimp only
          split
          -- The version is the one that was read, so the write is stored.
          next hrv =>
            subst hrv
            exact h.changes fun s hs => ⟨_, .replace s now l (hs.lease.trans hl), hs.putLease now⟩
          next hrv => exact h.moves fun s hs => .replaceConflict s now rv l (hs.lease.trans hl) hrv
  | refused e =>
      dsimp only
      rw [takenOr_error (hapi.leaseReplace _ _ (.inl hfault))]
      exact h.moves fun s _ => .replaceFails s now rv _
  | lost e =>
      -- As for a create, the server may have stored the write before the answer was lost.
      dsimp only
      rw [takenOr_error (hapi.leaseReplace _ _ (.inr hfault))]
      cases hl : (w.called env .leaseReplace).lease with
      | none => exact h.moves fun s _ => .replaceFails s now rv _
      | some l =>
          dsimp only
          split
          next hrv =>
            subst hrv
            exact h.changes fun s hs =>
              ⟨_, .replaceLost s now l _ (hs.lease.trans hl), hs.putLease now⟩
          next => exact h.moves fun s _ => .replaceFails s now rv _

/-- An attempt to take the Lease, by a process that begins or tries again. -/
theorem after_tryAcquire (hapi : Genuine env)
    (h : Goes env cfg holder p x text w .idle ∨ Goes env cfg holder p x text w .leaseBusy) :
    After (Lock.tryAcquire env cfg holder) w fun res t =>
      ∃ o, res = .ok o ∧ Goes env cfg holder p x text t (afterAttempt o) := by
  -- An attempt starts from rest or after a busy Lease, and both begin with the clock.
  have hread : Goes env cfg holder p x text ((w.ticked env).called env .leaseGet)
      (.leaseGet (env.wallClock w.step)) := by
    refine Goes.called hclock .leaseGet ?_
    rcases h with h | h
    · refine (h.ticked hclock).moves fun s hs => ?_
      rw [← show s.clock = env.wallClock w.step from hs.clock]
      exact .begin s
    · refine (h.ticked hclock).moves fun s hs => ?_
      rw [← show s.clock = env.wallClock w.step from hs.clock]
      exact .retry s
  -- An error that is not a 404 ends the attempt whatever follows it.
  have hfails : ∀ (e : KubeError) (create : Pass sc AcquireOutcome),
      env.fault (w.ticked env).step .leaseGet = .refused e ∨
        env.fault (w.ticked env).step .leaseGet = .lost e →
      After (if e.code = some 404 then create else return .err (.kube e))
        ((w.ticked env).called env .leaseGet) fun res t =>
          ∃ o, res = .ok o ∧ Goes env cfg holder p x text t (afterAttempt o) := by
    intro e create he
    rw [if_neg (hapi.leaseGet _ _ he)]
    exact ⟨_, rfl, hread.moves fun s _ => .leaseGetFails s _ _⟩
  unfold Lock.tryAcquire timestampNow
  simp only [after_bind, after_tick, after_pure, after_attempt, after_call, Lock.after_serveGet]
  cases hfault : env.fault (w.ticked env).step .leaseGet with
  | none =>
      cases hl : ((w.ticked env).called env .leaseGet).lease with
      -- None is there: the attempt goes on with a create.
      | none =>
          have hcreate := hread.moves fun s hs => .leaseMissing s _ (hs.lease.trans hl)
          dsimp only
          rw [after_ite, if_pos (show notFound.code = some 404 from rfl), after_bind, after_attempt]
          refine (after_leaseCreate hclock hapi hcreate).mono ?_
          intro res t ht
          exact ⟨_, rfl, ht⟩
      | some l =>
          dsimp only
          rw [after_ite]
          split
          -- It is stale: the attempt goes on with a replace.
          next hstale =>
            have hreplace := hread.moves fun s hs =>
              .leaseStale s _ l (hs.lease.trans hl) hstale
            rw [after_bind, after_attempt]
            refine (after_leaseReplace hclock hapi hreplace).mono ?_
            intro res t ht
            exact ⟨_, rfl, ht⟩
          next hfresh =>
            -- It is held, and the process waits.
            refine ⟨_, rfl, hread.moves fun s hs => ?_⟩
            exact .leaseFresh s _ l (hs.lease.trans hl) (Bool.eq_false_iff.mpr hfresh)
  | refused e => exact hfails e _ (.inl hfault)
  | lost e =>
      cases hl : ((w.ticked env).called env .leaseGet).lease with
      | none => exact hfails e _ (.inr hfault)
      | some l => exact hfails e _ (.inr hfault)

/-- A process that waits for the Lease, up to the end of its wait. -/
theorem after_acquireLoop (hapi : Genuine env) (deadline fuel : Nat) {w : World sc}
    (h : Goes env cfg holder p x text w .idle ∨ Goes env cfg holder p x text w .leaseBusy) :
    After (Lock.acquireLoop env cfg holder deadline fuel) w fun res t =>
      ∃ o, res = .ok o ∧ Goes env cfg holder p x text t (afterAcquire o) := by
  -- The signal and the deadline give the attempt up, which is a step of its own.
  have hgives : ∀ {t : World sc}, Goes env cfg holder p x text t .idle ∨
      Goes env cfg holder p x text t .leaseBusy → Goes env cfg holder p x text t .idle := by
    intro t ht
    rcases ht with ht | ht
    · exact ht
    · exact ht.moves fun s _ => .skip s
  -- The clock calls between the attempts move no phase.
  have htick : ∀ {t : World sc},
      Goes env cfg holder p x text t .idle ∨ Goes env cfg holder p x text t .leaseBusy →
        Goes env cfg holder p x text (t.ticked env) .idle ∨
          Goes env cfg holder p x text (t.ticked env) .leaseBusy :=
    fun ht => ht.imp (Goes.ticked hclock) (Goes.ticked hclock)
  induction fuel generalizing w with
  | zero => exact ⟨_, rfl, hgives h⟩
  | succ fuel ih =>
      unfold Lock.acquireLoop stopRequested
      simp only [after_bind, after_tick, after_pure]
      rw [after_ite]
      split
      · exact ⟨_, rfl, hgives (htick h)⟩
      · rw [after_bind]
        refine (after_tryAcquire hclock hapi (htick h)).mono ?_
        rintro res t ⟨o, rfl, ht⟩
        cases o with
        | acquired guard => exact ⟨_, rfl, ht⟩
        | err e => exact ⟨_, rfl, ht⟩
        -- The Lease is busy. Three clock calls and a sleep lie before the next attempt.
        | busy =>
            have hone := htick (.inr ht)
            have hthree := htick (htick hone)
            unfold instantNow
            simp only [after_bind, after_tick, after_pure, after_get]
            rw [after_ite]
            split
            · exact ⟨_, rfl, hgives hone⟩
            · simp only [after_bind, after_tick, after_pure, after_get]
              rw [after_ite]
              split
              · exact ⟨_, rfl, hgives hthree⟩
              · rw [after_bind, sleep, after_modify]
                exact ih (hthree.imp (fun h => h.congr rfl rfl rfl) fun h => h.congr rfl rfl rfl)

/-- An acquire is a run of attempts, with idle times in between. -/
theorem after_acquire (hapi : Genuine env) (h : Goes env cfg holder p x text w .idle) :
    After (Lock.acquire env cfg holder) w fun res t =>
      ∃ o, res = .ok o ∧ Goes env cfg holder p x text t (afterAcquire o) := by
  unfold Lock.acquire instantNow
  simp only [after_bind, after_tick, after_pure, after_get]
  exact after_acquireLoop hclock hapi _ _ (.inl (h.ticked hclock))

/-- A release deletes the Lease, or leaves it. -/
theorem after_release {failed : Option Error}
    (h : Goes env cfg holder p x text w (.releasing failed)) :
    After (Lock.release env) w fun _ t => Goes env cfg holder p x text t (.afterPass failed) := by
  have hfails := (h.called hclock .leaseDelete).moves fun s _ => .releaseFails s failed
  have hdeletes : Goes env cfg holder p x text { w.called env .leaseDelete with lease := none }
      (.afterPass failed) :=
    (h.called hclock .leaseDelete).changes fun s hs =>
      ⟨_, .release s failed, hs.step, hs.clock, rfl, hs.nextRv, hs.stateCm⟩
  have hcall : After (call env .leaseDelete Lock.serveDelete) w fun _ t =>
      Goes env cfg holder p x text t (.afterPass failed) := by
    simp only [after_call, Lock.after_serveDelete_iff]
    -- A delete that was refused leaves the Lease for the next process to reclaim.
    cases env.fault w.step .leaseDelete with
    | refused e => exact hfails
    | none | lost e =>
        cases (w.called env .leaseDelete).lease with
        | none => exact hfails
        | some l => exact hdeletes
  rw [Lock.release, after_bind, after_attempt]
  refine hcall.mono ?_
  intro res t ht
  dsimp only
  -- A failed release is logged only.
  split
  · exact ht
  · rw [after_ite]
    split <;> exact ht
  · exact ht

/-! ### Inside a pass -/

/-- The process is inside its pass, with the state it read. -/
def Works (env : Env sc) (cfg : Config) (holder : String) (p : Nat) (x : Solo)
    (text : Option Value) (w : World sc) (prev : Option State) : Prop :=
  ∃ seen, Goes env cfg holder p x text w (.working prev seen)

/-- The REPLACE of a renewal renews the version that was read, or fails. -/
theorem after_renewReplace {prev : Option State} {seen rv started now : Nat}
    (hstarted : started ≤ now) (hnow : now ≤ env.wallClock w.step)
    (h : Goes env cfg holder p x text w (.renewing prev seen rv started)) :
    After (call env .leaseReplace
      (Lock.serveReplace rv (Lock.buildLease holder (Lock.leaseSecs cfg) now))) w fun _ t =>
        Goes env cfg holder p x text t (.working prev seen) := by
  have h := h.called hclock .leaseReplace
  -- A renewal that was not stored is a step that changes no Lease.
  have hfails := h.moves fun s _ => .renewFails s prev seen rv started
  simp only [after_call, Lock.after_serveReplace_iff]
  cases env.fault w.step .leaseReplace with
  | refused e => exact hfails
  | none | lost e =>
      cases hl : (w.called env .leaseReplace).lease with
      | none => exact hfails
      | some l =>
          dsimp only
          split
          -- The Lease is as it was read, so the renewal stores the new time.
          next hrv =>
            subst hrv
            refine h.changes fun s hs => ?_
            have hle : now ≤ s.clock := hnow.trans_eq hs.clock.symm
            exact ⟨_, .renew s prev seen started now l (hs.lease.trans hl) hstarted hle,
              hs.putLease now⟩
          next => exact hfails

/-- A renewal: a GET, the time, and a REPLACE of the version that the GET returned. -/
theorem after_renew {prev : Option State} (h : Works env cfg holder p x text w prev) :
    After (Lock.renew env cfg ⟨holder⟩) w fun _ t => Works env cfg holder p x text t prev := by
  obtain ⟨seen, h⟩ := h
  have hread := h.called hclock .leaseGet
  have hstays : Works env cfg holder p x text (w.called env .leaseGet) prev := ⟨seen, hread⟩
  -- What a renewal's read returns is reported at most, and the work goes on.
  have hfails : ∀ e : KubeError, After (if e.code = some 404 then return false
      else throw (.kube e) : Pass sc Bool) (w.called env .leaseGet) fun _ t =>
        Works env cfg holder p x text t prev := by
    intro e
    rw [after_ite]
    split <;> exact hstays
  unfold Lock.renew timestampNow
  simp only [after_bind, after_attempt, after_call, Lock.after_serveGet]
  cases env.fault w.step .leaseGet with
  | refused e => exact hfails e
  | lost e =>
      cases (w.called env .leaseGet).lease with
      | none => exact hfails e
      | some l => exact hfails e
  | none =>
      cases hl : (w.called env .leaseGet).lease with
      | none => exact hfails notFound
      | some l =>
          dsimp only
          rw [after_ite]
          split
          -- Someone else holds the Lease, and the renewal leaves it alone.
          next => exact hstays
          -- It is still this process's own.
          next hown =>
            have hget : Goes env cfg holder p x text (w.called env .leaseGet)
                (.renewing prev seen l.resourceVersion (env.wallClock w.step)) := by
              refine hread.moves fun s hs => ?_
              rw [← show s.clock = env.wallClock w.step from hs.clock]
              exact .renewGet s prev seen l (hs.lease.trans hl) (not_not.mp hown)
            simp only [after_bind, after_tick, after_pure, after_attempt]
            have hwrite := @after_renewReplace _ _ cfg holder p hclock x text _ prev seen _ _
              (env.wallClock (w.called env .leaseGet).step) (hclock (Nat.le_succ _))
              (hclock (Nat.le_succ _)) (hget.ticked hclock)
            refine hwrite.mono ?_
            intro res t ht
            -- However the write was answered, the process is at its work.
            have hworks : Works env cfg holder p x text t prev := ⟨seen, ht⟩
            split
            · exact hworks
            · rw [after_ite]
              split <;> exact hworks
            · exact hworks

/-- A renewal within a pass is a GET and a REPLACE of the protocol. Its failures leave the pass
going. -/
theorem after_touchLease {prev : Option State} (h : Works env cfg holder p x text w prev) :
    After (Reconcile.touchLease env cfg ⟨holder⟩) w fun _ t =>
      Works env cfg holder p x text t prev := by
  rw [Reconcile.touchLease, Hooks.renewBestEffort, after_bind, after_attempt]
  exact after_renew hclock h

/-- Between the steps of its own, a pass is a log of interactions. -/
theorem works_of_performs {prev : Option State} {log : List Interaction} {t : World sc}
    (hlog : Performs (interactions env cfg ⟨holder⟩) log w t)
    (h : Works env cfg holder p x text w prev) : Works env cfg holder p x text t prev := by
  have hquiet : ∀ {s t : World sc}, unnoticed.rel s t → Works env cfg holder p x text s prev →
      Works env cfg holder p x text t prev := by
    intro s t hst hs
    obtain ⟨seen, hs⟩ := hs
    simp only [unnoticed, Frame.fixed, Prod.mk.injEq] at hst
    exact ⟨seen, hs.congr hst.1 hst.2.2.2.1 hst.2.2.2.2.1⟩
  -- An entry of the log is one call or one renewal, and only the renewal touches the Lease.
  induction hlog with
  | done hst => exact hquiet hst h
  | @step a acts s u v t hsu ha _ ih =>
      refine ih ?_
      obtain ⟨seen, hu⟩ := hquiet hsu h
      cases a with
      | call => exact ⟨seen, hu.interaction hclock ha.step ha.lease ha.nextRv⟩
      | look =>
          cases ha
          exact ⟨seen, hu.ticked hclock⟩
      -- A list changes nothing the process keeps.
      | list k =>
          obtain ⟨g, sel, live, hrun, -⟩ := ha
          have hticked : After (KubeUtil.listAll env g sel) u fun _ t =>
              Works env cfg holder p x text t prev := by
            rw [KubeUtil.after_listAll]
            cases env.fault u.step (.list g) with
            | none => exact ⟨seen, (hu.called hclock (.list g)).congr rfl rfl rfl⟩
            | refused e | lost e => exact ⟨seen, hu.called hclock (.list g)⟩
          exact hticked.of_run hrun
      | renewal => exact (after_touchLease hclock ⟨seen, hu⟩).of_run ha

/-- A part of a pass that writes neither the Lease nor the state is a run of computing steps, one
for each of its interactions. -/
theorem after_works {α : Type} {m : Pass sc α} {Q : Except Error α → List Interaction → Prop}
    {prev : Option State} (hm : Logs (interactions env cfg ⟨holder⟩) m Q)
    (hkeeps : Keeps (stateKept sc) m) (h : Works env cfg holder p x w.stateCm w prev) :
    After m w fun _ t => Works env cfg holder p x t.stateCm t prev := by
  refine ((hm w).and (hkeeps.after w)).mono ?_
  rintro _ t ⟨⟨_, hlog, -⟩, hkept⟩
  rw [show t.stateCm = w.stateCm from hkept]
  exact works_of_performs hclock hlog h

/-- What a pass is released with. -/
def failure {α : Type} : Except Error α → Option Error
  | .ok _ => none
  | .error e => some e

omit hclock in
/-- A pass that fails is over. -/
theorem Works.fails {prev : Option State} (h : Works env cfg holder p x text w prev) (e : Error) :
    Goes env cfg holder p x text w (.releasing (some e)) := by
  obtain ⟨seen, h⟩ := h
  exact h.moves fun s _ => .passFails s prev seen e

/-! ### The state -/

omit hclock in
/-- A read of the state returns what is stored, or fails. -/
theorem after_genuineRead (hapi : Genuine env) (w : World sc) :
    After (State.read env) w fun res t =>
      t = w.called env .stateGet ∧ (res = .ok t.stored ∨ ∃ e, res = .error e) := by
  rw [State.read, after_bind, after_attempt, after_call]
  cases hget : env.fault w.step .stateGet with
  -- No error of the state's read is a 404, so none is taken for an absent ConfigMap.
  | refused e =>
      dsimp only
      rw [after_ite, if_neg (hapi.stateGet _ _ (.inl hget))]
      exact ⟨rfl, .inr ⟨_, rfl⟩⟩
  -- The answer is lost, and it would have been the one that the server gave.
  | lost e =>
      dsimp only
      rw [Reconcile.after_stateServeGet]
      cases (w.called env .stateGet).stateCm <;> dsimp only <;>
        rw [after_ite, if_neg (hapi.stateGet _ _ (.inr hget))] <;> exact ⟨rfl, .inr ⟨_, rfl⟩⟩
  | none =>
      dsimp only
      rw [Reconcile.after_stateServeGet]
      have hstored : (w.called env .stateGet).stored =
          (w.called env .stateGet).stateCm.map State.fromData := rfl
      cases hcm : (w.called env .stateGet).stateCm with
      | none =>
          rw [hcm] at hstored
          exact ⟨rfl, .inl (congrArg Except.ok hstored.symm)⟩
      | some v =>
          rw [hcm] at hstored
          exact ⟨rfl, .inl (congrArg Except.ok hstored.symm)⟩

/-- The read that a pass begins with. -/
theorem after_stateRead (hapi : Genuine env) (h : Goes env cfg holder p x w.stateCm w .stateRead) :
    After (State.read env) w fun res t =>
      (∀ prev, res = .ok prev → Works env cfg holder p x t.stateCm t prev) ∧
        ∀ e, res = .error e → Goes env cfg holder p x t.stateCm t (.releasing (some e)) := by
  refine (after_genuineRead hapi w).mono ?_
  rintro res t ⟨rfl, hres⟩
  have h : Goes env cfg holder p x (w.called env .stateGet).stateCm (w.called env .stateGet)
      .stateRead := h.called hclock .stateGet
  constructor
  · rintro prev rfl
    rcases hres with hok | ⟨e, herror⟩
    -- The read moves the abstract process, which remembers the length of the log it has seen.
    · obtain ⟨y, hruns, hshows, hphase⟩ := h
      have hread : ProcStep cfg holder p y.server y.phase y.server
          (.working y.server.state y.server.log.length) := by
        rw [hphase]
        exact .read y.server
      have hprev : y.server.state = prev := by
        rw [Server.state, hshows.stateCm]
        exact (Except.ok.inj hok).symm
      rw [hprev] at hread
      exact ⟨_, _, hruns.tail (.own y _ _ hread), hshows, rfl⟩
    · cases herror
  · rintro e rfl
    exact h.moves fun s _ => .readFails s e

/-- The write that ends a pass. -/
theorem after_stateWrite {new : State} {seen : Nat}
    (h : Goes env cfg holder p x w.stateCm w (.stateWrite new seen)) :
    After (State.write env new) w fun res t =>
      Goes env cfg holder p x t.stateCm t (.releasing (failure res)) := by
  have h : Goes env cfg holder p x (w.called env .statePatch).stateCm (w.called env .statePatch)
      (.stateWrite new seen) := h.called hclock .statePatch
  rw [State.write, after_call, State.servePatch]
  simp only [after_modify]
  cases env.fault w.step .statePatch with
  | none =>
      exact h.changes fun s hs =>
        ⟨_, .write s new seen, hs.step, hs.clock, hs.lease, hs.nextRv, rfl⟩
  | refused e => exact h.moves fun s _ => .writeFails s new seen _
  | lost e =>
      exact h.changes fun s hs =>
        ⟨_, .writeLost s new seen _, hs.step, hs.clock, hs.lease, hs.nextRv, rfl⟩

/-- A read and a write, outside of the Lease. -/
theorem after_recordError (hapi : Genuine env) (e : Error)
    (h : Goes env cfg holder p x w.stateCm w (.recordRead e)) :
    After (Reconcile.recordError env e) w fun _ t =>
      Goes env cfg holder p x t.stateCm t .idle := by
  rw [Reconcile.recordError, after_bind]
  refine (after_genuineRead hapi w).mono ?_
  rintro res t ⟨rfl, hres⟩
  have h : Goes env cfg holder p x (w.called env .stateGet).stateCm (w.called env .stateGet)
      (.recordRead e) := h.called hclock .stateGet
  rcases hres with rfl | ⟨e', rfl⟩
  -- The error goes into the state that was read, so it is written over that one.
  · obtain ⟨seen, h⟩ : ∃ seen, Goes env cfg holder p x (w.called env .stateGet).stateCm
        (w.called env .stateGet)
          (.recordWrite (Reconcile.errorState e (w.called env .stateGet).stored) seen) := by
      obtain ⟨y, hruns, hshows, hphase⟩ := h
      have hread : ProcStep cfg holder p y.server y.phase y.server
          (.recordWrite (Reconcile.errorState e y.server.state) y.server.log.length) := by
        rw [hphase]
        exact .recordRead y.server e
      have hstored : y.server.state = (w.called env .stateGet).stored := by
        rw [Server.state, hshows.stateCm]
        rfl
      rw [hstored] at hread
      exact ⟨_, _, hruns.tail (.own y _ _ hread), hshows, rfl⟩
    have h := h.called hclock .statePatch
    dsimp only
    rw [State.write, after_call, State.servePatch]
    simp only [after_modify]
    cases env.fault (w.called env .stateGet).step .statePatch with
    | refused e' => exact h.moves fun s _ => .recordWriteFails s _ seen
    -- The write was stored, whether the answer came back or not.
    | none | lost e' =>
        exact h.changes fun s hs =>
          ⟨_, .recordWrite s _ seen, hs.step, hs.clock, hs.lease, hs.nextRv, rfl⟩
  · exact h.moves fun s _ => .recordReadFails s e

/-! ### The pass -/

/-- The part of a pass that changes the cluster and the state. -/
theorem after_execute {prev : Option State} (sync : SyncOutcome) (c : Classified)
    (h : Works env cfg holder p x w.stateCm w prev) :
    After (Reconcile.execute env cfg ⟨holder⟩ prev sync c) w fun res t =>
      Goes env cfg holder p x t.stateCm t (.releasing (failure res)) := by
  -- The branch writes no state, so the state is the one that was read.
  have hb := @benign_stateKept _ env
  have hbranch : Keeps (stateKept sc) (Reconcile.branch env cfg ⟨holder⟩ prev sync c) :=
    hb.branch (blind_stateKept.allowsApply _ _) (blind_stateKept.allowsHooks _)
      blind_stateKept.serveDelete _ prev sync
  rw [Reconcile.execute, after_bind]
  refine (after_works hclock (gap_branch c prev sync) hbranch h).mono ?_
  intro res t ht
  cases res with
  | error e => exact ht.fails e
  | ok outcome =>
      dsimp only
      rw [after_bind]
      refine ((after_works hclock (gap_nextState c prev sync outcome)
        (hb.nextState _ prev sync c outcome) ht).and
          ((Benign.returns_nextState _ prev sync c outcome).after t)).mono ?_
      rintro res u ⟨hu, hreturns⟩
      cases res with
      | error e => exact hu.fails e
      | ok new =>
          obtain ⟨health, epoch, rfl⟩ := hreturns new rfl
          obtain ⟨seen, hu⟩ := hu
          -- The next state is computed from the one that was read, and written after it.
          have hcompute := hu.moves fun s _ =>
            .compute s prev seen sync c outcome health epoch
          dsimp only
          rw [after_bind]
          refine (after_stateWrite hclock hcompute).mono ?_
          intro res v hv
          cases res with
          | error e => exact hv
          | ok _ => exact hv.congr rfl rfl rfl

/-- What a pass does between the read and the write of the state is such a part, and then come the
health check and the write. -/
theorem after_converge {r : Reconciler} (hr : r.cfg = cfg) {prev : Option State}
    (sync : SyncOutcome) (h : Works env cfg holder p x w.stateCm w prev) :
    After (Reconcile.converge env r ⟨holder⟩ prev sync) w fun res t =>
      Goes env cfg holder p x t.stateCm t (.releasing (failure res)) := by
  have hb := @benign_stateKept _ env
  rw [Reconcile.converge, after_bind, after_ofExcept, hr]
  cases Reconcile.desired env sync.sha cfg (Reconcile.prevApplied prev) with
  | error e => exact h.fails e
  | ok c =>
      dsimp only
      rw [after_ite]
      split
      -- A dry run applies without the state.
      · rw [after_bind]
        refine (after_works hclock (calls_applyAll true c.main [])
          (hb.applyAll (blind_stateKept.allowsApply true c.main) []) h).mono ?_
        intro res t ht
        cases res with
        | error e => exact ht.fails e
        | ok _ =>
            obtain ⟨seen, ht⟩ := ht
            exact ht.moves fun s _ => .dryRunEnds s prev seen
      · exact after_execute hclock sync c h

/-- The pass inside its Lease. -/
theorem after_reconcileInner (hapi : Genuine env) {r : Reconciler} (hr : r.cfg = cfg)
    (h : Goes env cfg holder p x w.stateCm w .stateRead) :
    After (Reconcile.reconcileInner env r ⟨holder⟩) w fun res t =>
      Goes env cfg holder p x t.stateCm t (.releasing (failure res)) := by
  have hb := @benign_stateKept _ env
  rw [Reconcile.reconcileInner, after_bind]
  refine (after_stateRead hclock hapi h).mono ?_
  rintro res t ⟨hok, herror⟩
  cases res with
  | error e => exact herror e rfl
  | ok prev =>
      dsimp only
      rw [after_bind]
      -- The checkout is part of the work: its calls are entries of the log.
      have hcheckout : Logs (interactions env cfg ⟨holder⟩) (Reconcile.checkoutOf env r prev)
          fun _ _ => True := by
        have hcalls := @calls_checkout _ env r.cfg ⟨holder⟩ r.secrets
          (Reconcile.prevShaRef r.forceTarget prev) (r.forceTarget.getD .branch)
        rw [← hr]
        exact Logs.mono hcalls fun _ _ _ => trivial
      refine (after_works hclock hcheckout (hb.checkout _ _) (hok prev rfl)).mono ?_
      intro res u hu
      cases res with
      | error e => exact hu.fails e
      | ok sync =>
          dsimp only
          rw [after_bind, hr]
          refine ((after_touchLease hclock hu).and ((hb.touchLease _).after u)).mono ?_
          rintro res v ⟨hv, hkept⟩
          -- A renewal after the checkout leaves the ConfigMap as it is.
          have hkept : v.stateCm = u.stateCm := hkept
          rw [← hkept] at hv
          cases res with
          | error e => exact hv.fails e
          | ok _ => exact after_converge hclock hr sync hv

/-- A pass under its Lease, up to the record of its error. -/
theorem after_reconcile (hapi : Genuine env) (r : Reconciler)
    (h : Goes env r.cfg r.holder p x w.stateCm w .idle) :
    After (Reconcile.reconcile env r) w fun res t =>
      Goes env r.cfg r.holder p x t.stateCm t (.afterPass (failure res)) := by
  have hb := @benign_stateKept _ env
  rw [Reconcile.reconcile, after_bind]
  refine (((after_acquire hclock hapi h).and ((hb.acquire r.holder).after w)).and
    (Lock.returns_acquire.after w)).mono ?_
  rintro _ t ⟨⟨⟨o, rfl, ht⟩, hkept⟩, hnamed⟩
  rw [← show t.stateCm = w.stateCm from hkept] at ht
  cases o with
  -- Without the Lease the pass ends here.
  | busy => exact ht
  | err e => exact ht
  -- The guard names this process.
  | acquired guard =>
      cases hnamed _ rfl guard rfl
      simp only [after_bind, after_attempt, after_ofExcept]
      refine (after_reconcileInner hclock hapi rfl ht).mono ?_
      intro res u hu
      -- The release comes whatever the pass has come to.
      refine ((after_release hclock hu).and (hb.release.after u)).mono ?_
      rintro _ v ⟨hv, hkept⟩
      rw [← show v.stateCm = u.stateCm from hkept] at hv
      exact hv

/-- A run of a subcommand that runs a pass: it begins and ends between two passes. -/
theorem after_pass (hapi : Genuine env) (cmd : Command) (secrets : Secrets)
    (h : Goes env cfg holder p x w.stateCm w .idle) :
    After (cmd.pass env cfg secrets holder) w fun _ t =>
      Goes env cfg holder p x t.stateCm t .idle := by
  have hrun : After (Reconcile.runOnce env (cmd.reconciler cfg secrets holder)) w fun _ t =>
      Goes env cfg holder p x t.stateCm t .idle := by
    refine Reconcile.after_runOnce_of ((after_reconcile hclock hapi _ h).mono fun res t ht => ?_)
    constructor
    · rintro rfl
      have ht : Goes env cfg holder p x t.stateCm t .idle := ht
      exact (ht.ticked hclock).congr rfl rfl rfl
    · rintro e rfl
      exact after_recordError hclock hapi e ht
  cases cmd with
  | controller => exact hrun
  | rollback target => exact hrun
  | sync =>
      unfold Command.pass
      dsimp only
      split
      · refine (after_reconcile hclock hapi _ h).mono fun res t ht => ?_
        -- A dry run returns its error, and records none.
        cases res with
        | ok _ => exact ht
        | error e => exact Goes.moves ht fun s _ => .recordReadFails s e
      · exact hrun

end

/-! ### In the fleet -/

/-- Nobody else touches the Lease. -/
def LeaseAlone (env : Env sc) : Prop := ∀ n l, env.otherLease n l = l

/-- While nobody else touches the Lease, the process and the outside take steps of the fleet. -/
theorem reachable_of_solo {cfgs : Nat → Config} {holders : Nat → String} (halone : LeaseAlone env)
    {x y : Solo} (h : ReflTransGen (Solo.Step env (cfgs p) (holders p) p) x y)
    {procs : Nat → ProcPhase}
    (hx : (fleet cfgs holders).Reachable ⟨x.server, Function.update procs p x.phase⟩) :
    (fleet cfgs holders).Reachable ⟨y.server, Function.update procs p y.phase⟩ := by
  induction h with
  | refl => exact hx
  | @tail y z _ hstep ih =>
      cases hstep with
      -- Time passes for all processes alike.
      | outside htime =>
          have htick := ih.step (.time _ (env.wallClock y.step - y.server.clock))
          dsimp only at htick
          rw [Nat.add_sub_cancel' htime] at htick
          have hsame : interfere env y.step y.server =
              { y.server with clock := env.wallClock y.step } := by
            unfold interfere
            rw [halone, if_pos rfl]
          dsimp only
          rw [hsame]
          exact htick
      -- A step of the one process leaves the phases of the others as they are.
      | own server phase hown =>
          have hself : Function.update procs p y.phase p = y.phase := Function.update_self ..
          have hnext := ih.step (.proc _ p server phase (by dsimp only; rw [hself]; exact hown))
          dsimp only at hnext
          rw [Function.update_idem] at hnext
          exact hnext

/-- **A run of a subcommand is a run of a process.** Whatever fails, and whatever the others do
with the Lease between two of its calls, the code takes the steps of one process, and leaves the
Lease and the state as these do. Where nobody else touches the Lease, it leads from a reachable
state of the fleet to a reachable state. -/
theorem pass_moves (hapi : Genuine env) (hclock : Monotone env.wallClock) (cmd : Command)
    (secrets : Secrets) {cfgs : Nat → Config} {holders : Nat → String} (p : Nat) {w : World sc}
    {s : Server} (hs : Shows env w.stateCm w w.step s) :
    ∃ s', ReflTransGen (Solo.Step env (cfgs p) (holders p) p) ⟨w.step, s, .idle⟩
        ⟨(state (cmd.pass env (cfgs p) secrets (holders p) w)).step, s', .idle⟩ ∧
      Shows env (state (cmd.pass env (cfgs p) secrets (holders p) w)).stateCm
        (state (cmd.pass env (cfgs p) secrets (holders p) w))
        (state (cmd.pass env (cfgs p) secrets (holders p) w)).step s' ∧
      (LeaseAlone env → ∀ procs : Nat → ProcPhase, procs p = .idle →
        (fleet cfgs holders).Reachable ⟨s, procs⟩ →
          (fleet cfgs holders).Reachable ⟨s', procs⟩) := by
  have hstart : Goes env (cfgs p) (holders p) p ⟨w.step, s, .idle⟩ w.stateCm w .idle :=
    ⟨_, .refl, hs, rfl⟩
  obtain ⟨y, hruns, hshows, hphase⟩ := after_pass hclock hapi cmd secrets hstart
  obtain ⟨n, s', phase⟩ := y
  cases hphase
  cases hshows.step
  refine ⟨s', hruns, hshows, fun halone procs hidle hreach => ?_⟩
  have hupdate : Function.update procs p .idle = procs := by
    rw [← hidle, Function.update_eq_self]
  have hend := @reachable_of_solo _ _ p cfgs holders halone _ _ hruns procs
  dsimp only at hend
  rw [hupdate] at hend
  exact hend hreach

/-- The example's API server gives genuine answers. -/
theorem genuine_synced : Genuine syncedEnv where
  leaseGet n e h := by rcases h with h | h <;> cases h
  leaseCreate n e h := by rcases h with h | h <;> cases h
  leaseReplace n e h := by rcases h with h | h <;> cases h
  stateGet n e h := by rcases h with h | h <;> cases h

/-- The first pass of a controller leads from the initial state of the fleet to a state in
which its own state is stored. -/
theorem pass_moves_first :
    ∃ s : Server, s.stateCm.isSome = true ∧
      (fleet (fun _ => settingsCfg) settingsHolder).Reachable ⟨s, fun _ => .idle⟩ := by
  have hshows : Shows syncedEnv none (World.fresh ∅ none : World .namespacedOnly) 0
      { unused with nextRv := 0 } := ⟨rfl, rfl, rfl, rfl, rfl⟩
  have hinit : Initial ⟨{ unused with nextRv := 0 }, fun _ => .idle⟩ :=
    ⟨fun _ => rfl, rfl, rfl, fun l hl => by cases hl⟩
  obtain ⟨s, -, hs, hreach⟩ := @pass_moves _ _ genuine_synced monotone_const .controller
    ⟨none, none, none⟩ (fun _ => settingsCfg) settingsHolder 0 (World.fresh ∅ none) _ hshows
  refine ⟨s, ?_, hreach (fun _ _ => rfl) _ rfl (.init hinit)⟩
  rw [hs.stateCm]
  decide +kernel

end LeanCd.Processes
