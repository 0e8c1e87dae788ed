import LeanCd.Proofs.Contention
import LeanCd.Proofs.FirstPass
import LeanCd.Proofs.Interactions
import LeanCd.Proofs.Settled

/-!
# `LeanCd.Proofs.RenewalGap`: the calls between two renewals of the Lease

A pass renews its Lease after the checkout, around the health assessment, and at every look at a
hook that it awaits. Between two of these points it applies all manifests, lists all kinds,
deletes all candidates, or runs hooks that it does not await.

`renewal_gap` bounds the calls between two renewals by the size of the repository, of the
applied set and of what the pass lists. `renewal_gap_unbounded` shows that no bound does without
them: a pass over `n` manifests makes at least `n` calls, and renews the Lease three times.

The calls are counted in `World.traffic`, the ghost history of what was sent. `Sent` is the part
of it that a run adds, which is unique (`Sent.unique`), so a statement about it leaves no call
out. The bound is proved on a log of interactions, where a function is followed along its text,
and carried over to the traffic entry by entry (`Accounts`).

The weights: a request or a git command weighs one, a read of the Lease that begins a renewal is a
mark, and an object that a list call returned is counted on the side, as `prune` deletes what it
lists.
-/

set_option autoImplicit false

namespace LeanCd

open Act Interaction

variable {sc : Scopes} {env : Env sc} {cfg : Config} {guard : LeaseGuard}

/-- The calls of a stretch without a renewal, less three for every object that was listed. -/
def spare (log : List Interaction) : Nat := gauge.stretch log - 3 * listed log

instance subadditive_spare : Subadditive spare :=
  (Subadditive.stretch gauge).sub fun l m => by rw [listed_append, Nat.mul_add]

/-- Between two renewals the program makes at most this many calls, and three for every object
that it lists. -/
abbrev Gap {ε α : Type} (env : Env sc) (cfg : Config) (guard : LeaseGuard)
    (m : EStateM ε (World sc) α) (n : Nat) : Prop :=
  Within (interactions env cfg guard) spare m n

/-- A bound on the stretches of a log is a gap, with nothing to spare. -/
theorem gap_of_stretch {ε α : Type} {m : EStateM ε (World sc) α} {n : Nat}
    (h : Within (interactions env cfg guard) gauge.stretch m n) : Gap env cfg guard m n :=
  Logs.mono h fun _ _ hlog => (Nat.sub_le _ _).trans hlog

/-- A program without a renewal has its calls for a gap. -/
theorem gap_of_calls {ε α : Type} {m : EStateM ε (World sc) α} {n : Nat}
    (h : Calls env cfg guard m n) : Gap env cfg guard m n := gap_of_stretch h.stretch

/-- A renewal enters one mark, whatever comes of it. -/
theorem logs_touchLease : Logs (interactions env cfg guard)
    (Reconcile.touchLease env cfg guard) fun res log => ∃ u, res = .ok u ∧ log = [.renewal] :=
  Logs.action (Hooks.total_renewBestEffort guard) fun _ _ _ h => h

/-- So it ends one stretch and starts another, and is no gap of its own. -/
theorem gap_touchLease : Gap env cfg guard (Reconcile.touchLease env cfg guard) 0 := by
  refine Logs.mono logs_touchLease ?_
  intro res log hlog
  obtain ⟨_, -, rfl⟩ := hlog
  exact Nat.le_refl 0

/-- A prune renews nothing. It lists every applied kind, and deletes what was applied or listed,
which the objects listed pay for. -/
theorem gap_prune (prev current : List ResourceKey) :
    Gap env cfg guard (Prune.prune env cfg prev current) (5 * prev.length) := by
  refine Logs.mono (Prune.logs_prune prev current) ?_
  intro res log hlog
  have hstretch := gauge.stretch_le_total log
  unfold spare
  omega

/-! ### Hooks -/

/-- Every look at an awaited hook renews the Lease first. -/
theorem paced_waitLoop (m : RawManifest) (deadline fuel : Nat) :
    Paced gauge (interactions env cfg guard)
      (Hooks.waitLoop env cfg m guard deadline fuel) 0 1 := by
  induction fuel with
  | zero => exact .pure _
  | succ fuel ih =>
      -- A turn renews first, so the read and the sleep after it stand in a stretch of their own.
      refine Paced.mark (a := .renewal) (k := 1 + 0) rfl (Hooks.total_renewBestEffort guard)
        (fun _ _ _ h => h) fun _ => ?_
      refine Paced.brief_bind (calls_getObject _ _ _ _).attempt ?_ (Nat.le_refl 1)
      intro polled
      dsimp only
      split
      · exact .pure _
      · exact .pure _
      -- What comes before the next turn costs nothing.
      · refine Paced.brief_bind (j := 0) (k := 0) calls_instantNow ?_ (Nat.zero_le 1)
        intro now
        split
        · exact .pure _
        · have hsleep : Calls env cfg guard (sleep Hooks.pollInterval) 0 := .quiet fun _ => rfl
          exact Paced.brief_bind hsleep (fun _ => ih) (Nat.zero_le 1)

/-- The wait for a hook renews before each of its polls, so at most one poll lies between two
renewals. -/
theorem gap_completionOf (m : RawManifest) :
    Gap env cfg guard (Hooks.completionOf env cfg m guard) 1 := by
  unfold Hooks.completionOf
  split
  · refine gap_of_stretch (Paced.stretch (k := 0 + 0) ?_)
    exact Paced.brief_bind calls_instantNow (fun _ => paced_waitLoop m _ _) (Nat.zero_le 1)
  · exact .pure _

/-- A deletion that the policy asks for is one call. -/
theorem gap_deleteHookIf (asked : Bool) (m : RawManifest) :
    Gap env cfg guard (Hooks.deleteHookIf env cfg asked m) 1 := by
  unfold Hooks.deleteHookIf
  split
  · exact gap_of_calls ((calls_delete _ _ _ _).attempt.bind_free fun _ => .pure _)
  · exact .pure _

/-- A hook that is applied: the PATCH, the poll before the first renewal, the deletion. -/
theorem gap_applyHook (info : HookInfo) :
    Gap env cfg guard (Hooks.applyHook env cfg info guard) 3 := by
  unfold Hooks.applyHook
  split
  · exact .pure _
  · refine (gap_of_calls (calls_apply _ _ _ _).attempt).bind (n := 2) ?_
    intro applied
    split
    · exact .pure _
    · refine (gap_completionOf _).bind (n := 1) fun completion => ?_
      exact (gap_deleteHookIf _ _).bind_free fun _ => .pure _

/-- A whole hook: a deletion and a discovery before that. -/
theorem gap_runOne (info : HookInfo) :
    Gap env cfg guard (Hooks.runOne env cfg info guard) 5 := by
  refine (gap_of_calls (calls_resolve _).attempt).bind (n := 4) ?_
  intro resolved
  split
  · exact .pure _
  · exact (gap_deleteHookIf _ _).bind (n := 3) fun _ => gap_applyHook info

/-- A hook that is not awaited renews nothing. -/
theorem gap_runHooks (hooks : List HookInfo) :
    Gap env cfg guard (Hooks.runHooks env cfg guard hooks) (5 * hooks.length) := by
  induction hooks with
  | nil => exact .pure _
  | cons info rest ih =>
      have hround : Gap env cfg guard (Hooks.runHooks env cfg guard (info :: rest))
          (0 + (5 + 5 * rest.length)) := by
        refine (gap_of_calls (calls_note rfl)).bind fun _ => ?_
        refine (gap_runOne info).bind ?_
        intro failure
        split
        · exact .pure _
        · exact ih.bind_free fun _ => .pure _
      exact hround.mono (by rw [List.length_cons]; omega)

/-- The hooks of a phase add up, for those that nobody waits for renew nothing. -/
theorem gap_runPhase (hooks : List HookInfo) :
    Gap env cfg guard (Hooks.runPhase env cfg hooks guard) (5 * hooks.length) := by
  have hrun : Gap env cfg guard (Hooks.runPhase env cfg hooks guard)
      (5 * (Hooks.sortByWeight hooks).length) := gap_runHooks _
  rwa [Hooks.sortByWeight, List.length_insertionSort] at hrun

/-! ### The pass -/

/-- The hooks before an apply are such a phase. -/
theorem gap_preHooks (label : String) (hooks : List HookInfo) :
    Gap env cfg guard (Reconcile.preHooks env cfg guard label hooks) (5 * hooks.length) := by
  refine (gap_runPhase hooks).bind_free ?_
  intro outcome
  split
  · exact .pure _
  · exact .throw _

/-- So are those after it. -/
theorem gap_postHooks (label : String) (hooks : List HookInfo) :
    Gap env cfg guard (Reconcile.postHooks env cfg guard label hooks) (5 * hooks.length) := by
  refine (gap_runPhase hooks).bind_free ?_
  intro outcome
  split
  · exact .pure _
  · exact .pure _

section
variable (c : Classified)

/-- The calls of a branch between two renewals, without those of `prune`. -/
def branchCalls : Nat := 4 * c.main.length + 5 * c.hooks.length

/-- The hooks of a commit are those of its four phases. -/
theorem length_hooks : c.hooks.length =
    c.pre.length + c.post.length + c.preDelete.length + c.postDelete.length := by
  simp only [Classified.hooks, List.length_append]

/-- A teardown: a prune between its two phases of hooks. -/
theorem gap_teardownBranch (applied : List ResourceKey) :
    Gap env cfg guard (Reconcile.teardownBranch env cfg guard c applied)
      (branchCalls c + 5 * applied.length) := by
  have hbranch : Gap env cfg guard (Reconcile.teardownBranch env cfg guard c applied)
      (5 * c.preDelete.length + (5 * applied.length + 5 * c.postDelete.length)) :=
    (gap_preHooks _ _).bind fun _ => (gap_prune _ _).bind fun _ =>
      (gap_postHooks _ _).bind_free fun _ => .pure _
  refine hbranch.mono ?_
  rw [branchCalls, length_hooks]
  omega

/-- A full apply: the applies of all manifests between the hooks. -/
theorem gap_fullApplyBranch :
    Gap env cfg guard (Reconcile.fullApplyBranch env cfg guard c) (branchCalls c) := by
  have hbranch : Gap env cfg guard (Reconcile.fullApplyBranch env cfg guard c)
      (5 * c.pre.length + (2 * c.main.length + (2 * c.main.length + 5 * c.post.length))) :=
    (gap_preHooks _ _).bind fun _ => (gap_of_calls (calls_applyAll _ _ _)).bind fun _ =>
      (gap_of_calls (calls_collectForHealth _)).bind fun _ =>
        (gap_postHooks _ _).bind_free fun _ => .pure _
  refine hbranch.mono ?_
  rw [branchCalls, length_hooks]
  omega

/-- A branch with a drift check: the check, and an apply of everything when there is a drift. -/
theorem gap_driftBranch :
    Gap env cfg guard (Reconcile.driftBranch env cfg guard c) (branchCalls c) := by
  have hbranch : Gap env cfg guard (Reconcile.driftBranch env cfg guard c)
      (2 * c.main.length + (5 * c.pre.length + (2 * c.main.length + 5 * c.post.length))) := by
    refine (gap_of_calls (calls_detectDrift _)).bind ?_
    intro found
    dsimp only
    split
    · exact .pure _
    · exact (gap_preHooks _ _).bind fun _ => (gap_of_calls (calls_applyAll _ _ _)).bind fun _ =>
        (gap_postHooks _ _).bind_free fun _ => .pure _
  refine hbranch.mono ?_
  rw [branchCalls, length_hooks]
  omega

/-- Hence every branch, with a prune after the apply. -/
theorem gap_branch (prev : Option State) (sync : SyncOutcome) :
    Gap env cfg guard (Reconcile.branch env cfg guard prev sync c)
      (branchCalls c + 5 * (Reconcile.prevApplied prev).length) := by
  unfold Reconcile.branch Reconcile.syncBranch
  split
  · exact gap_teardownBranch c _
  · refine Within.bind ?_ fun outcome => (gap_prune _ _).bind_free fun _ => .pure _
    split
    · exact gap_fullApplyBranch c
    · exact gap_driftBranch c

/-- The health check between its two renewals lists every main kind at most once. -/
theorem gap_nextState (prev : Option State) (sync : SyncOutcome)
    (outcome : Reconcile.BranchOutcome) :
    Gap env cfg guard (Reconcile.nextState env cfg guard prev sync c outcome)
      (2 * c.main.length) := by
  have hnext : Gap env cfg guard (Reconcile.nextState env cfg guard prev sync c outcome)
      (0 + 2 * c.main.length) :=
    gap_touchLease.bind fun _ => (gap_of_calls (calls_healthOf _ _)).bind_free fun _ =>
      (gap_of_calls (calls_timestampNow.bind_free fun _ => .pure _)).bind_free fun _ =>
        gap_touchLease.bind_free fun _ => .pure _
  exact hnext.mono (by omega)

/-- The calls of a pass between two renewals, without those that come from the applied set. -/
def passCalls : Nat := 6 * c.main.length + 5 * c.hooks.length

/-- The execution of a pass: a branch, the health check, and the write of the state. -/
theorem gap_execute (prev : Option State) (sync : SyncOutcome) :
    Gap env cfg guard (Reconcile.execute env cfg guard prev sync c)
      (passCalls c + 5 * (Reconcile.prevApplied prev).length + 1) := by
  have hexecute : Gap env cfg guard (Reconcile.execute env cfg guard prev sync c)
      (branchCalls c + 5 * (Reconcile.prevApplied prev).length +
        (2 * c.main.length + 1)) := by
    refine (gap_branch c prev sync).bind fun outcome => ?_
    refine (gap_nextState c prev sync outcome).bind fun next => ?_
    refine (gap_of_calls (calls_stateWrite _)).bind_free fun _ => ?_
    exact gap_of_calls (.quiet fun _ => rfl)
  refine hexecute.mono ?_
  rw [branchCalls, passCalls]
  omega

end

/-- A dry run and a live one, from the checkout on. -/
theorem gap_converge {r : Reconciler} {prev : Option State} {sync : SyncOutcome} {n : Nat}
    (hsize : ∀ c, Reconcile.desired env sync.sha r.cfg (Reconcile.prevApplied prev) = .ok c →
      passCalls c ≤ n) :
    Gap env r.cfg guard (Reconcile.converge env r guard prev sync)
      (n + 5 * (Reconcile.prevApplied prev).length + 1) := by
  unfold Reconcile.converge
  cases hc : Reconcile.desired env sync.sha r.cfg (Reconcile.prevApplied prev) with
  | error e => exact .throw e
  | ok c =>
      have hn := hsize c hc
      rw [Act.ofExcept, pure_bind]
      split
      · refine Within.mono (k := 2 * c.main.length) (gap_of_calls ?_) ?_
        · exact (calls_applyAll true c.main []).bind_free fun _ => .pure _
        · unfold passCalls at hn
          omega
      · exact (gap_execute c prev sync).mono (by omega)

/-- The read of the state is one call. What it returns has no more applied keys than what is
stored. -/
theorem after_stateRead_gap (cfg : Config) (guard : LeaseGuard) (w : World sc) :
    After (State.read env) w fun res t =>
      (∃ log, Performs (interactions env cfg guard) log w t ∧ spare log ≤ 1) ∧
        ∀ prev, res = .ok prev → (Reconcile.prevApplied prev).length ≤
          (Reconcile.prevApplied w.stored).length := by
  have hcalls : Gap env cfg guard (State.read env) 1 := gap_of_calls calls_stateRead
  refine After.mono (After.and (hcalls w) (Reconcile.after_stateRead_or env w)) ?_
  intro res t h
  refine ⟨h.1, ?_⟩
  intro prev hprev
  rcases h.2 prev hprev with hstored | ⟨hnone, -⟩
  · rw [hstored]
  · rw [hnone]
    exact Nat.zero_le _

/-- The pass from its checkout on. -/
theorem gap_fromCheckout {r : Reconciler} {n : Nat}
    (hsize : ∀ sha applied c, Reconcile.desired env sha r.cfg applied = .ok c →
      c.main.length + c.hooks.length ≤ n) (prev : Option State) :
    Gap env r.cfg guard (do
      let sync ← Reconcile.checkoutOf env r prev
      Reconcile.touchLease env r.cfg guard
      Reconcile.converge env r guard prev sync)
      (45 + (0 + (6 * n + 5 * (Reconcile.prevApplied prev).length + 1))) := by
  refine (gap_of_calls (calls_checkout _ _)).bind fun sync => ?_
  refine gap_touchLease.bind fun _ => gap_converge fun c hc => ?_
  have hc := hsize _ _ c hc
  unfold passCalls
  omega

/-! ### What goes over the network -/

/-- What a run sent and received, in the order in which it did. The history of the network has
its newest entry first, and grew by it. -/
def Sent (s t : World sc) (sent : List (Traffic sc)) : Prop :=
  t.traffic = sent.reverse ++ s.traffic

/-- A run sent one thing only. -/
theorem Sent.unique {s t : World sc} {sent sent' : List (Traffic sc)} (h : Sent s t sent)
    (h' : Sent s t sent') : sent = sent' :=
  List.reverse_injective (List.append_cancel_right (h.symm.trans h'))

/-- What one run sent, and then another one. -/
theorem Sent.append {s t u : World sc} {sent sent' : List (Traffic sc)} (h : Sent s t sent)
    (h' : Sent t u sent') : Sent s u (sent ++ sent') := by
  unfold Sent at h h' ⊢
  rw [h', h, List.reverse_append, List.append_assoc]

/-- The log of what a run sends. -/
def wire (sc : Scopes) : Vocabulary (World sc) (Traffic sc) := .history World.traffic

/-- A call sends its request, whatever comes of it. -/
theorem wire_call {α : Type} {req : Request sc} {act : Pass sc α}
    (hact : Keeps (wire sc).quiet act) :
    Logs (wire sc) (call env req act) fun _ sent => sent = [.request req] := by
  intro s
  have hsent : After (call env req act) s fun _ t => (wire sc).runs (.request req) s t := by
    rw [after_call]
    cases env.fault s.step req with
    | none => exact hact _
    | refused e => rfl
    | lost e => exact hact _
  exact hsent.mono fun _ _ h => ⟨_, .one h, rfl⟩

/-- A renewal reads the Lease, and then writes it or not. It sends nothing else. -/
theorem wire_renew : Logs (wire sc) (Lock.renew env cfg guard) fun _ sent =>
    sent = [.request .leaseGet] ∨ sent = [.request .leaseGet, .request .leaseReplace] := by
  -- A replace changes the Lease alone.
  have hreplace : ∀ rv l, Keeps (wire sc).quiet (Lock.serveReplace rv l) := by
    intro rv l w
    unfold Lock.serveReplace
    cases w.lease with
    | none => rfl
    | some cur =>
        dsimp only
        split <;> rfl
  refine (wire_call Benign.leaseServeGet).attempt_bind ?_
  rintro res _ rfl
  split
  -- Without a Lease, or after an error, the read was the only request.
  · split
    · exact .pure (.inl rfl)
    · exact .throw (.inl rfl)
  · exact .throw (.inl rfl)
  · split
    · exact .pure (.inl rfl)
    -- It is still this client's, and the write is the second request.
    · refine Logs.quiet_bind (fun _ => rfl) (fun _ => ⟨_, _, rfl⟩) fun now => ?_
      refine (wire_call (hreplace _ _)).attempt_bind ?_
      rintro res _ rfl
      split
      · exact .pure (.inr rfl)
      · split
        · exact .pure (.inr rfl)
        · exact .throw (.inr rfl)
      · exact .throw (.inr rfl)

/-- A renewal sends the read of the Lease, and a REPLACE where the Lease is the own one. -/
theorem wire_touchLease : Logs (wire sc) (Reconcile.touchLease env cfg guard) fun _ sent =>
    sent = [.request .leaseGet] ∨ sent = [.request .leaseGet, .request .leaseReplace] := by
  refine wire_renew.attempt_bind ?_
  intro res sent hsent
  refine .pure ?_
  rw [List.append_nil]
  exact hsent

/-! ### What a log accounts for -/

/-- What a run sent is its log in full: each interaction stands for the calls that it consists
of, with the objects that its list calls brought back. The run changed at most as many objects
as it made calls. -/
structure Accounts (log : List Interaction) (s t : World sc) (sent : List (Traffic sc)) :
    Prop where
  traffic : Sent s t sent
  refines : Refines Interaction.gauge Traffic.gauge 1 log sent
  listed : Traffic.listed sent = Interaction.listed log
  effects : t.effects.length ≤ s.effects.length + Traffic.gauge.total sent

/-- One interaction. -/
structure Entry (a : Interaction) (s t : World sc) (sent : List (Traffic sc)) : Prop where
  traffic : Sent s t sent
  stands : Stands Interaction.gauge Traffic.gauge 1 a sent
  listed : Traffic.listed sent = Interaction.listed [a]
  effects : t.effects.length ≤ s.effects.length + Traffic.gauge.total sent

/-- A call is one piece of traffic, which counts like the call. -/
theorem entry_of_call {s t : World sc} (h : Called env s t) :
    ∃ sent, Entry .call s t sent := by
  obtain ⟨x, ⟨hmark, hweight⟩, hsent⟩ := Called.traffic h
  have htotal : Traffic.gauge.total [x] = 1 := by simp [Gauge.total, hmark, hweight]
  refine ⟨[x], hsent, .work rfl ?_ htotal.le, ?_, ?_⟩
  · simp [Gauge.marks, hmark]
  -- An answer weighs nothing, so what weighs like a call is no answer.
  · cases x with
    | objects n => cases hweight
    | _ => rfl
  · rw [htotal]
    exact Called.effects h

/-- A list call that was served sends its request and brings its objects back. It changes
nothing. -/
theorem after_listAll_sent (g : GvkKey) (sel : String × String) (s : World sc) :
    After (KubeUtil.listAll env g sel) s fun res t => ∀ live, res = .ok live →
      Sent s t [.request (.list g), .objects live.length] ∧ t.effects = s.effects := by
  rw [KubeUtil.after_listAll]
  cases env.fault s.step (.list g) with
  | none =>
      intro live hlive
      cases hlive
      exact ⟨rfl, rfl⟩
  | refused e | lost e =>
      intro live hlive
      cases hlive

/-- A list call is its request with the objects that came back, which add no weight. -/
theorem entry_of_list {g : GvkKey} {sel : String × String} {live : List DynamicObject}
    {s t : World sc} (h : KubeUtil.listAll env g sel s = .ok live t) :
    ∃ sent, Entry (.list live.length) s t sent := by
  obtain ⟨hsent, heffects⟩ := (after_listAll_sent g sel s).of_run h live rfl
  refine ⟨_, hsent, .work rfl rfl (Nat.le_refl 1), rfl, ?_⟩
  exact (congrArg List.length heffects).le.trans (Nat.le_add_right _ _)

/-- A renewal is the read of the Lease, with the write that may follow. It changes no object. -/
theorem entry_of_renewal {s t : World sc}
    (h : Reconcile.touchLease env cfg guard s = .ok () t) :
    ∃ sent, Entry .renewal s t sent := by
  obtain ⟨sent, hperforms, hsent⟩ := (@wire_touchLease _ env cfg guard s).of_run h
  have htrace : t.trace = s.trace :=
    (Prod.mk.inj ((benign_untouched.touchLease guard).of_ok h)).1
  have heffects : t.effects.length ≤ s.effects.length + Traffic.gauge.total sent := by
    unfold World.effects
    rw [htrace]
    exact Nat.le_add_right _ _
  -- The read is the mark, and the write follows it.
  rcases hsent with rfl | rfl
  · exact ⟨_, hperforms.of_history, .mark rfl rfl rfl (Nat.zero_le 1), rfl, heffects⟩
  · exact ⟨_, hperforms.of_history, .mark rfl rfl rfl (Nat.le_refl 1), rfl, heffects⟩

/-- Each interaction of the log accounts for what it sent. The calls of a log are the calls on the
wire, with at most one more for a renewal. -/
theorem exists_entry {a : Interaction} {s t : World sc}
    (h : Interaction.Runs env cfg guard a s t) : ∃ sent, Entry a s t sent := by
  cases a with
  | call => exact entry_of_call h
  | list k =>
      obtain ⟨g, sel, live, hrun, rfl⟩ := h
      exact entry_of_list hrun
  | look =>
      -- Only the clock moves: nothing was sent and nothing has changed.
      obtain rfl : t = s.ticked env := h
      exact ⟨[], rfl, .work rfl rfl (Nat.le_refl 0), rfl, Nat.le_refl _⟩
  | renewal => exact entry_of_renewal h

/-- The log of a run is what it sends, for the one list of requests that it did send. -/
theorem exists_accounts {log : List Interaction} {s t : World sc}
    (h : Performs (interactions env cfg guard) log s t) : ∃ sent, Accounts log s t sent := by
  -- Between two entries nothing is sent and nothing changes.
  have hquiet : ∀ {s t : World sc}, unnoticed.rel s t → t.traffic = s.traffic ∧
      t.effects = s.effects := by
    intro s t h
    simp only [unnoticed, Frame.fixed, Prod.mk.injEq] at h
    exact ⟨h.2.2.2.2.2.2, h.2.2.2.2.2.1⟩
  induction h with
  | done h =>
      obtain ⟨htraffic, heffects⟩ := hquiet h
      exact ⟨[], htraffic, .nil, rfl, by rw [heffects]; exact Nat.le_add_right _ _⟩
  | @step a log s s' t u h ha _ ih =>
      obtain ⟨htraffic, heffects⟩ := hquiet h
      obtain ⟨first, hfirst⟩ := exists_entry ha
      -- One entry has one piece of traffic, and the rest follows by induction.
      obtain ⟨rest, hrest⟩ := ih
      have hstart : Sent s t first := hfirst.traffic.trans (congrArg _ htraffic)
      refine ⟨first ++ rest, hstart.append hrest.traffic, .cons hfirst.stands hrest.refines, ?_, ?_⟩
      -- The traffic is that of the parts, which say the same of lists and of effects.
      · rw [Traffic.listed_append, hfirst.listed, hrest.listed]
        exact (Interaction.listed_append [a] log).symm
      · have hone := hfirst.effects
        have hall := hrest.effects
        rw [Gauge.total_append]
        rw [heffects] at hone
        omega

/-! ### The bound -/

/-- What a pass sends from the read of its state to its end, where it is about to release the
Lease. The history of the network holds it, so there is no other. -/
def PassSends (env : Env sc) (r : Reconciler) (guard : LeaseGuard) (w : World sc)
    (P : List (Traffic sc) → Prop) : Prop :=
  After (Reconcile.reconcileInner env r guard) w fun _ t => ∃ sent, Sent w t sent ∧ P sent

/-- The program renews the Lease at most this often. -/
abbrev Renewals {ε α : Type} (env : Env sc) (cfg : Config) (guard : LeaseGuard)
    (m : EStateM ε (World sc) α) (n : Nat) : Prop :=
  Within (interactions env cfg guard) gauge.marks m n

/-- A renewal is one renewal. -/
theorem renewals_touchLease : Renewals env cfg guard (Reconcile.touchLease env cfg guard) 1 := by
  refine Logs.mono logs_touchLease ?_
  intro res log hlog
  obtain ⟨_, -, rfl⟩ := hlog
  exact Nat.le_refl 1

/-- A prune makes none. -/
theorem renewals_prune (prev current : List ResourceKey) :
    Renewals env cfg guard (Prune.prune env cfg prev current) 0 :=
  Logs.mono (Prune.logs_prune prev current) fun _ _ hlog => hlog.1.le

/-- Without hooks there is none before an apply. -/
theorem renewals_preHooks_nil (label : String) :
    Renewals env cfg guard (Reconcile.preHooks env cfg guard label []) 0 :=
  .pure ()

/-- Nor after it. -/
theorem renewals_postHooks_nil (label : String) :
    Renewals env cfg guard (Reconcile.postHooks env cfg guard label []) 0 :=
  .pure none

/-- Outside hooks, a branch renews nothing. -/
theorem renewals_branch (main : List RawManifest) (prev : Option State) (sync : SyncOutcome) :
    Renewals env cfg guard
      (Reconcile.branch env cfg guard prev sync ⟨[], main, [], [], []⟩) 0 := by
  unfold Reconcile.branch Reconcile.syncBranch
  -- A teardown, whose hooks are none here.
  split
  · refine (renewals_preHooks_nil _).bind_free fun _ => ?_
    refine (renewals_prune _ _).bind_free fun _ => ?_
    exact (renewals_postHooks_nil _).bind_free fun _ => .pure _
  · refine Within.bind_free ?_ fun _ => (renewals_prune _ _).bind_free fun _ => .pure _
    -- Full apply and drift check: neither renews, as there is no hook.
    split
    · refine (renewals_preHooks_nil _).bind_free fun _ => ?_
      refine (calls_applyAll _ _ _).marks.bind_free fun _ => ?_
      refine (calls_collectForHealth _).marks.bind_free fun _ => ?_
      exact (renewals_postHooks_nil _).bind_free fun _ => .pure _
    · refine (calls_detectDrift _).marks.bind_free ?_
      intro found
      dsimp only
      split
      · exact .pure _
      · refine (renewals_preHooks_nil _).bind_free fun _ => ?_
        refine (calls_applyAll _ _ _).marks.bind_free fun _ => ?_
        exact (renewals_postHooks_nil _).bind_free fun _ => .pure _

/-- A pass over a repository without hooks renews the Lease at most three times. -/
theorem renewals_reconcileInner {r : Reconciler}
    (hplain : ∀ sha applied c, Reconcile.desired env sha r.cfg applied = .ok c →
      ∃ main, c = ⟨[], main, [], [], []⟩) :
    Renewals env r.cfg guard (Reconcile.reconcileInner env r guard) 3 := by
  -- Of the three renewals one comes after the checkout, one before the health and one at the end.
  refine calls_stateRead.marks.bind (n := 0 + (1 + 2)) fun prev => ?_
  refine (calls_checkout _ _).marks.bind fun sync => ?_
  refine renewals_touchLease.bind fun _ => ?_
  unfold Reconcile.converge
  cases hc : Reconcile.desired env sync.sha r.cfg (Reconcile.prevApplied prev) with
  | error e => exact .throw e
  | ok c =>
      obtain ⟨main, rfl⟩ := hplain _ _ c hc
      rw [Act.ofExcept, pure_bind]
      split
      · exact (calls_applyAll _ _ _).marks.bind (n := 2) fun _ => .pure _
      · refine (renewals_branch main prev sync).bind (n := 2 + 0) fun outcome => ?_
        refine Within.bind ?_ fun next => (calls_stateWrite _).marks.bind (n := 0) fun _ => ?_
        · refine renewals_touchLease.bind (n := 0 + (0 + 1)) fun _ => ?_
          refine (calls_healthOf _ _).marks.bind fun _ => ?_
          refine (calls_timestampNow.bind_free fun _ => .pure _).marks.bind fun _ => ?_
          exact renewals_touchLease.bind (n := 0) fun _ => .pure _
        · exact Brief.marks (n := 0) (.quiet fun _ => rfl)

/-! ### Repositories of any size -/

/-- The pass over `n` manifests sends `n` calls at least, and renews the Lease three times at
most. So one of its four stretches is no shorter than a quarter of them. -/
theorem stretch_bulk {n bound : Nat} {held : World .namespacedOnly}
    (hacquired : Lock.acquire (bulkEnv n) (syncedPass .off).cfg (syncedPass .off).holder
      (.fresh ∅ none) = .ok (.acquired ⟨"pod:1"⟩) held)
    (hpass : PassSends (bulkEnv n) (syncedPass .off) ⟨"pod:1"⟩ held
      fun sent => Traffic.gauge.stretch sent ≤ bound) : n ≤ 4 * bound := by
  have hkept := Prod.mk.inj ((benign_untouched.acquire _).of_ok hacquired)
  -- The Lease was taken, and nothing else was changed for it.
  have heffects : held.effects = [] := by
    unfold World.effects
    rw [hkept.1]
    rfl
  -- Every manifest of the first pass is applied, and each apply changes something.
  have hchanges : After (Reconcile.reconcileInner (bulkEnv n) (syncedPass .off) ⟨"pod:1"⟩) held
      fun _ t => (bulk n).length ≤ t.effects.length :=
    after_reconcileInner_first (fun _ _ => rfl) rfl (sends_bulk n) (total_checkout_bulk n none)
      (fun sha => desired_bulk n sha []) hkept.2
  have hrenewals : Renewals (bulkEnv n) (syncedPass .off).cfg ⟨"pod:1"⟩
      (Reconcile.reconcileInner (bulkEnv n) (syncedPass .off) ⟨"pod:1"⟩) 3 :=
    renewals_reconcileInner fun sha applied c hc =>
      ⟨bulk n, Except.ok.inj (hc.symm.trans (desired_bulk n sha applied))⟩
  -- The traffic that was sent is the one the log accounts for, as there is only one.
  obtain ⟨sent, hsent, hstretch⟩ := hpass
  obtain ⟨log, hperforms, hmarks⟩ := hrenewals held
  obtain ⟨sent', haccounts⟩ := exists_accounts hperforms
  obtain rfl := haccounts.traffic.unique hsent
  have hgrew := haccounts.effects
  have hn : n ≤ Traffic.gauge.total sent' := by
    have hchanges : (bulk n).length ≤ _ := hchanges
    rw [bulk, List.length_replicate] at hchanges
    rw [heffects] at hgrew
    simpa using hchanges.trans hgrew
  -- With three renewals there are four stretches.
  have hequal : Traffic.gauge.marks sent' ≤ 3 := haccounts.refines.marks_eq.trans_le hmarks
  calc n ≤ Traffic.gauge.total sent' := hn
    _ ≤ (Traffic.gauge.marks sent' + 1) * Traffic.gauge.stretch sent' :=
        Traffic.gauge.total_le sent'
    _ ≤ 4 * bound := Nat.mul_le_mul (by omega) hstretch

end LeanCd
