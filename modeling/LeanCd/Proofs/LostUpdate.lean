import LeanCd.Proofs.LeaseHeld

/-!
# `LeanCd.Proofs.LostUpdate`: whether a completed pass's state survives

A pass reads and writes the state inside the Lease; `record_error` does both after the
Lease was released. `nothingLost_of_undisturbed`: as long as no live holder's Lease goes
stale, and no pass writes its state while an error is being recorded, no write of the
state discards what a completed pass wrote. `recording_reverts_pass` is a run of two
processes without the second condition: a failed pass takes back the applied set and the
commit of another.

The invariant, `Good`, says for each process what its phase promises: a process inside
its pass has read the state after the last completed pass, and so has a process that
records an error. That no two processes are inside a pass comes from `LeaseHeld`.

The log of the system has every write with the number of writes that its read had seen. A write
discards another when that other came after the read. So nothing is lost when each write of the
log has seen the last completed pass before it, which is what `NothingLost` says.
-/

set_option autoImplicit false

namespace LeanCd.Processes

open Transition

variable {cfg : Nat → Config} {holder : Nat → String}

/-! ### The property -/

/-- The read that saw `seen` writes was not before the end of any completed pass. -/
def ReadAfter (log : List StateWritten) (seen : Nat) : Prop :=
  ∀ i w, log[i]? = some w → w.endsPass = true → i < seen

/-- Every write after the end of a pass was computed from a read after it, and recording
an error keeps the applied set and the commit. -/
structure NothingLost (log : List StateWritten) : Prop where
  readAfter : ∀ j w, log[j]? = some w → ReadAfter (log.take j) w.seen
  recorded : ∀ w ∈ log, w.endsPass = false →
    w.after.applied = w.before.applied ∧ w.after.lastSha = w.before.lastSha

/-- The number of completed passes. -/
def completed (s : Processes) : Nat := s.server.log.countP (·.endsPass)

/-- No pass writes its state while a process is between the read and the write of
`record_error`. -/
def Undisturbed (s t : Processes) : Prop :=
  ∀ q new seen, s.procs q = .recordWrite new seen → t.completed = s.completed

/-! ### The invariant -/

/-- A new state keeps what the stored one says about the last completed pass. -/
structure KeepsPass (s : Server) (new : State) : Prop where
  applied : new.applied = (s.state.getD .default).applied
  lastSha : new.lastSha = (s.state.getD .default).lastSha

/-- What the phase of a process promises about the state. -/
def Local (s : Server) : ProcPhase → Prop
  | .working _ seen | .renewing _ seen _ _ | .stateWrite _ seen => ReadAfter s.log seen
  | .recordWrite new seen => ReadAfter s.log seen ∧ KeepsPass s new
  | _ => True

/-- The invariant. -/
structure Good (s : Processes) : Prop where
  phases : ∀ p, Local s.server (s.procs p)
  nothingLost : NothingLost s.server.log

/-! ### What one step does to the state -/

/-- The effect of a step on the state, and the phase after it. -/
inductive Effect (s : Server) (phase : ProcPhase) : Server → ProcPhase → Prop
  | none (server : Server) (phase' : ProcPhase) : server.stateCm = s.stateCm →
      server.log = s.log → (Local s phase → Local s phase') → Effect s phase server phase'
  | write (new : State) (seen : Nat) (failed : Option Error) : phase = .stateWrite new seen →
      Effect s phase (s.putState true seen new) (.releasing failed)
  | record (new : State) (seen : Nat) : phase = .recordWrite new seen →
      Effect s phase (s.putState false seen new) .idle

/-- Every read sees the writes so far. -/
theorem readAfter_length (log : List StateWritten) : ReadAfter log log.length :=
  fun _ _ h _ => (List.getElem?_eq_some_iff.mp h).1

/-- Recording an error keeps what the state says about the last completed pass. -/
theorem keepsPass_errorState (s : Server) (e : Error) :
    KeepsPass s (Reconcile.errorState e s.state) := ⟨rfl, rfl⟩

/-- A process that has finished its pass knows nothing of the state that a later step relies on. -/
theorem local_afterPass (s : Server) (failed : Option Error) : Local s (.afterPass failed) := by
  cases failed <;> trivial

/-- What one step of one process does to the state. Only two steps write it: the end of a pass, and
the record of an error. -/
theorem procStep_effect {cfg : Config} {name : String} {p : Nat} {s s' : Server}
    {phase phase' : ProcPhase} (h : ProcStep cfg name p s phase s' phase') :
    Effect s phase s' phase' := by
  -- One case per rule of `ProcStep`. Most rules leave the state alone, and the new phase
  -- promises nothing that the old one did not.
  cases h with
  | write new seen => exact .write new seen none rfl
  | writeLost new seen e => exact .write new seen (some e) rfl
  | recordWrite new seen => exact .record new seen rfl
  | read => exact .none _ _ rfl rfl fun _ => readAfter_length _
  | recordRead e =>
      exact .none _ _ rfl rfl fun _ => ⟨readAfter_length _, keepsPass_errorState s e⟩
  | renewGet | renew | renewFails | compute => exact .none _ _ rfl rfl id
  | release failed | releaseFails failed =>
      exact .none _ _ rfl rfl fun _ => local_afterPass s failed
  | _ => exact .none _ _ rfl rfl fun _ => trivial

/-! ### What one step keeps -/

/-- What was put is what is read. -/
@[simp] theorem state_putState (s : Server) (endsPass : Bool) (seen : Nat) (new : State) :
    (s.putState endsPass seen new).state = some new := by
  show some (State.fromData new.toData) = some new
  rw [State.fromData_toData]

/-- The record of an error is no pass, so what was read before it is as recent as it was. -/
theorem ReadAfter.snoc_record {log : List StateWritten} {seen : Nat} (h : ReadAfter log seen)
    {w : StateWritten} (hw : w.endsPass = false) : ReadAfter (log ++ [w]) seen := by
  -- The new write ends no pass, so no read has to come after it.
  intro i v hi hv
  rw [List.getElem?_append] at hi
  split at hi
  · exact h i v hi hv
  · rw [List.getElem?_singleton] at hi
    split at hi
    · cases hi
      rw [hw] at hv
      cases hv
    · cases hi

/-- Where nothing was written nothing was lost. -/
theorem NothingLost.nil : NothingLost [] where
  readAfter j w hj := by
    rw [List.getElem?_nil] at hj
    cases hj
  recorded := List.forall_mem_nil _

/-- A write from a read after the last completed pass loses nothing. -/
theorem NothingLost.snoc {log : List StateWritten} (h : NothingLost log) {w : StateWritten}
    (hread : ReadAfter log w.seen)
    (hrec : w.endsPass = false →
      w.after.applied = w.before.applied ∧ w.after.lastSha = w.before.lastSha) :
    NothingLost (log ++ [w]) where
  readAfter j v hj := by
    rw [List.getElem?_append] at hj
    split at hj
    -- An older write: what came before it is the same.
    next hlt =>
      rw [List.take_append_of_le_length (Nat.le_of_lt hlt)]
      exact h.readAfter j v hj
    -- The new write: before it is the whole old log.
    next hge =>
      rw [List.getElem?_singleton] at hj
      split at hj
      next heq =>
        cases hj
        have hlen : j = log.length := by omega
        rw [hlen, List.take_left]
        exact hread
      next => cases hj
  recorded v hv hends := by
    rcases List.mem_append.mp hv with hv | hv
    · exact h.recorded v hv hends
    · rw [List.mem_singleton.mp hv] at hends ⊢
      exact hrec hends

/-- A promise about the state is kept by a step that leaves the state alone. -/
theorem Local.same {s t : Server} {phase : ProcPhase} (h : Local s phase)
    (hstate : t.stateCm = s.stateCm) (hlog : t.log = s.log) : Local t phase := by
  cases phase with
  | working | renewing | stateWrite =>
      show ReadAfter t.log _
      rw [hlog]
      exact h
  | recordWrite new seen =>
      obtain ⟨hread, hkeeps⟩ := h
      have hsame : t.state = s.state := congrArg (Option.map State.fromData) hstate
      exact ⟨hlog.symm ▸ hread, hsame ▸ hkeeps.applied, hsame ▸ hkeeps.lastSha⟩
  | _ => trivial

/-- The end of a pass disturbs no process that neither holds the Lease nor records an
error. -/
theorem Local.write {s : Server} {phase : ProcPhase} (hidle : phase.holds = false)
    (hrec : ∀ new seen, phase ≠ .recordWrite new seen) (seen : Nat) (new : State) :
    Local (s.putState true seen new) phase := by
  cases phase with
  | recordWrite new seen => exact absurd rfl (hrec new seen)
  | working | renewing | stateWrite => cases hidle
  | _ => trivial

/-- Recording an error disturbs no process. -/
theorem Local.record {s : Server} {phase : ProcPhase} (h : Local s phase) {new : State}
    (hkeeps : KeepsPass s new) (seen : Nat) : Local (s.putState false seen new) phase := by
  cases phase with
  | working | renewing | stateWrite => exact ReadAfter.snoc_record h rfl
  -- Both errors keep the applied set and the commit, so the order of the writes does not
  -- matter.
  | recordWrite new' seen' =>
      refine ⟨h.1.snoc_record rfl, ?_, ?_⟩
      · rw [state_putState, Option.getD_some, h.2.applied, hkeeps.applied]
      · rw [state_putState, Option.getD_some, h.2.lastSha, hkeeps.lastSha]
  | _ => trivial

/-- A step of a process keeps the invariant. -/
theorem Good.effect {s : Processes} (h : Good s) (hheld : Held s) {p : Nat} {server : Server}
    {phase : ProcPhase} (heff : Effect s.server (s.procs p) server phase)
    (hcalm : Undisturbed s ⟨server, Function.update s.procs p phase⟩) :
    Good ⟨server, Function.update s.procs p phase⟩ := by
  have hlocal := h.phases p
  cases heff with
  -- No write: the phases of the others keep their promise as they are.
  | none server phase hstate hlog hkeep =>
      refine ⟨forall_update (P := fun _ => Local server) ((hkeep hlocal).same hstate hlog)
        fun q _ => (h.phases q).same hstate hlog, ?_⟩
      show NothingLost server.log
      rw [hlog]
      exact h.nothingLost
  | write new seen failed hphase =>
      have hp : (s.procs p).holds = true := by rw [hphase]; rfl
      rw [hphase] at hlocal
      refine ⟨forall_update (P := fun _ => Local _) trivial fun q hne => Local.write ?_ ?_ seen new,
        h.nothingLost.snoc hlocal nofun⟩
      -- The process that writes holds the Lease, so no other does.
      · by_contra hq
        rw [Bool.not_eq_false] at hq
        exact hne (hheld.eq hq hp)
      -- A process that records an error sees a completed pass here, and that is what
      -- `Undisturbed` excludes.
      · intro new' seen' hrec
        have := hcalm q new' seen' hrec
        simp [completed, Server.putState, List.countP_append] at this
  | record new seen hphase =>
      rw [hphase] at hlocal
      obtain ⟨hread, hkeeps⟩ := hlocal
      exact ⟨forall_update (P := fun _ => Local _) trivial
        fun q _ => (h.phases q).record hkeeps seen,
        h.nothingLost.snoc hread fun _ => ⟨hkeeps.applied, hkeeps.lastSha⟩⟩

/-! ### The runs -/

/-- At the start no state was written, and no process has read one. -/
theorem good_initial {s : Processes} (h : Initial s) : Good s where
  phases p := by rw [h.idle p]; trivial
  nothingLost := by
    rw [h.log]
    exact .nil

/-- Each step of a run that meets the condition keeps the invariant. A pass writes under the Lease,
and a record under the condition, so the state that either brings back is the one it has read. -/
theorem good_invariant :
    ((liveFleet cfg holder).restrict Undisturbed).Invariant Good where
  init := good_initial
  step := by
    rintro s t hs h ⟨⟨hstep, -⟩, hcalm⟩
    cases hstep with
    | proc p server phase hproc =>
        exact h.effect (held_of_live hs.of_restrict) (procStep_effect hproc) hcalm
    | time d => exact ⟨fun p => (h.phases p).same rfl rfl, h.nothingLost⟩

/-- As long as no pass completes between the read and the write of `record_error`, what a
completed pass wrote is overwritten only by what was computed from a later read, and
recording an error changes neither the applied set nor the commit. -/
theorem nothingLost_of_undisturbed {s : Processes}
    (h : ((liveFleet cfg holder).restrict Undisturbed).Reachable s) :
    NothingLost s.server.log :=
  (good_invariant.holds h).nothingLost

/-! ### A run in which an error takes a pass back -/

/-- The state of the sync's pass. -/
def syncState : State :=
  Reconcile.newState none ⟨"c1", true⟩ ⟨[], [settings none], [], [], []⟩ ⟨[], [], none, []⟩
    .default 0

/-- The server after the controller's failed pass. -/
def released : Server := (unused.putLease settingsCfg 0 "controller" 0).dropLease

/-- The server after the sync's pass. -/
def synced : Server :=
  ((released.putLease settingsCfg 1 "sync" 0).putState true 0 syncState).dropLease

/-- The controller's pass fails: it releases the Lease, and reads the state. -/
theorem reachable_released :
    ((liveFleet (fun _ => settingsCfg) settingsHolder).restrict Undisturbed).Reachable
      (pair released (.recordWrite (Reconcile.errorState fetchError none) 0) .idle) := by
  have hcalm {s t : Processes} (h : t.completed = s.completed) : Undisturbed s t := fun _ _ _ _ => h
  have hfresh := fresh_putLease 0 "controller" unused rfl
  have hinit : ((liveFleet (fun _ => settingsCfg) settingsHolder).restrict Undisturbed).Reachable
      (pair unused .idle .idle) := .init initial_unused
  have hbegin := hinit.step ⟨live_first (.begin _) (.of_none rfl), hcalm rfl⟩
  have hget := hbegin.step ⟨live_first (.leaseMissing _ _ rfl) (.of_none rfl), hcalm rfl⟩
  have hheld := hget.step ⟨live_first (.create _ _ rfl) hfresh, hcalm rfl⟩
  have hread := hheld.step ⟨live_first (.read _) hfresh, hcalm rfl⟩
  have hfails := hread.step ⟨live_first (.passFails _ _ _ fetchError) hfresh, hcalm rfl⟩
  have hreleased := hfails.step ⟨live_first (.release _ _) (.of_none rfl), hcalm rfl⟩
  exact hreleased.step ⟨live_first (.recordRead _ _) (.of_none rfl), hcalm rfl⟩

/-- The controller records its error, and nothing is lost. -/
theorem nothingLost_of_undisturbed_released :
    NothingLost (released.putState false 0 (Reconcile.errorState fetchError none)).log :=
  nothingLost_of_undisturbed
    (reachable_released.step ⟨live_first (.recordWrite _ _ _) (.of_none rfl), fun _ _ _ _ => rfl⟩)

/-- Before the controller writes, the sync completes a pass. -/
theorem reachable_synced :
    (liveFleet (fun _ => settingsCfg) settingsHolder).Reachable
      (pair synced (.recordWrite (Reconcile.errorState fetchError none) 0) .idle) := by
  have hfresh := fresh_putLease 1 "sync" released rfl
  have hbegin := reachable_released.of_restrict.step (live_second (.begin _) (.of_none rfl))
  have hget := hbegin.step (live_second (.leaseMissing _ _ rfl) (.of_none rfl))
  have hheld := hget.step (live_second (.create _ _ rfl) hfresh)
  have hread := hheld.step (live_second (.read _) hfresh)
  have hpass := hread.step (live_second
    (.compute _ _ _ ⟨"c1", true⟩ ⟨[], [settings none], [], [], []⟩ ⟨[], [], none, []⟩ .default 0)
    hfresh)
  have hwritten := hpass.step (live_second (.write _ _ _) hfresh)
  exact hwritten.step (live_second (.release _ _) (.of_none rfl))

/-- Recording an error takes back the applied set and the commit of another process's
pass. -/
theorem recording_reverts_pass :
    ¬ ∀ s, (liveFleet (fun _ => settingsCfg) settingsHolder).Reachable s →
      NothingLost s.server.log := by
  intro hall
  have hwritten := reachable_synced.step (live_first (.recordWrite _ _ _) (.of_none rfl))
  have hkeeps := (hall _ hwritten).recorded _ (List.mem_append_right _ (.head _)) rfl
  -- The controller's state has no commit, and the sync's pass had recorded `c1`.
  rw [show (synced.state.getD .default) = syncState from by decide +kernel] at hkeeps
  exact absurd hkeeps.2 (by decide)

end LeanCd.Processes
