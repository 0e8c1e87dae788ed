import LeanCd.Lib.Log
import LeanCd.Proofs.Documents
import LeanCd.Proofs.PassStart
import LeanCd.Proofs.Totality

/-!
# `LeanCd.Proofs.Actions`: the actions of a pass

Seen from outside, a pass performs actions: it looks for drift, runs a hook, tries to apply a
manifest, prunes. An action is a run of the function of the source that does it, so a log of
actions says which functions ran, in which order, and what they returned.

Each action makes the changes that `Action.events` allows it: a hook changes the objects of its
own manifest, an attempt to apply patches the object of its manifest or nothing, and a prune
only deletes.

A hook is the longest of the three, so its log is built from the logs of its parts:
`logs_finishHook`, `logs_applyHook`, `logs_runOne`. What the other clients do in between is not an
action. `othersSince` keeps it apart, so that the cluster an action looks at is the cluster of its
moment.
-/

set_option autoImplicit false

namespace LeanCd

open Act

variable {sc : Scopes} {env : Env sc} {cfg : Config}

/-! ### Changes -/

/-- The changes of the cluster, as the history has them. -/
def changes (sc : Scopes) : Vocabulary (World sc) (Event sc) := .history World.trace

/-- A performance of changes is read off the traces of its ends: the events that were added are
those of the performance, in order. -/
theorem changes_iff {es : List (Event sc)} {s t : World sc} :
    Performs (changes sc) es s t ↔ t.trace = es.reverse ++ s.trace := by
  refine ⟨Performs.of_history, ?_⟩
  intro h
  induction es generalizing s with
  | nil => exact .done h
  | cons e es ih =>
      have hrest : t.trace = es.reverse ++ e :: s.trace := by simpa using h
      exact .step (t := s) (u := { s with trace := e :: s.trace }) rfl rfl (ih hrest)

/-- A step without effects on the trace changes nothing, so it is a quiet one. -/
theorem benign_changes : Benign env (changes sc).quiet :=
  ⟨⟨fun _ => rfl, fun _ _ => rfl⟩, fun _ _ => rfl, fun _ _ _ => rfl⟩

/-- A note is one change, namely the event that it notes. -/
theorem logs_note (e : Event sc) :
    Logs (changes sc) (note e) fun res es => ∃ u, res = .ok u ∧ es = [e] :=
  Logs.action (total_note e) fun s _ t h => by cases h; rfl

/-- A call changes what the served request changes, or nothing. -/
theorem logs_call {α : Type} {req : Request sc} {act : Pass sc α} {L : Language (Event sc)}
    (hact : Logs (changes sc) act fun _ es => es ∈ L) :
    Logs (changes sc) (call env req act) fun res es =>
      es ∈ optional L ∧ ∀ a, res = .ok a → es ∈ L := by
  unfold call
  refine Logs.quiet_bind ((@benign_changes _ env).transmit _) (fun _ => ⟨_, _, rfl⟩) ?_
  intro _
  refine Logs.quiet_bind benign_changes.tick (fun _ => ⟨_, _, rfl⟩) ?_
  intro n
  cases env.fault n req with
  | none => exact hact.mono fun res es hes => ⟨mem_optional hes, fun _ _ => hes⟩
  | refused e => exact .throw ⟨nil_mem_optional, by simp⟩
  | lost e =>
      refine hact.attempt_bind ?_
      intro res es hes
      refine .throw ⟨?_, by simp⟩
      rw [List.append_nil]
      exact mem_optional hes

namespace Reconcile

/-- Applying the manifest patches the object it sends. -/
def patches (env : Env sc) (cfg : Config) (m : RawManifest) : Language (Event sc) :=
  {es | ∃ o id, Sends env cfg m o id ∧ es = [.patched id o]}

/-- Deleting the object of a manifest. -/
def deletion (cfg : Config) (m : RawManifest) : Language (Event sc) :=
  {[.deleted ((ResourceKey.fromManifest m).denotes sc cfg.namespace)]}

/-- An apply that returns an object patched exactly the object that the manifest denotes. One that
fails may have patched it, when only the response was lost. -/
theorem logs_apply {m : RawManifest} {value : Value}
    (hvalue : Hooks.labelledValue env cfg m = .ok value) :
    Logs (changes sc) (KubeUtil.apply env cfg.namespace m.gvk value false) fun res es =>
      es ∈ optional (patches env cfg m) ∧ ∀ o, res = .ok o → es ∈ patches env cfg m := by
  unfold KubeUtil.apply
  split
  · exact .throw ⟨nil_mem_optional, by simp⟩
  next o ho =>
    split
    · exact .throw ⟨nil_mem_optional, by simp⟩
    next name hname =>
      refine logs_call ?_
      intro s
      exact ⟨_, .one rfl, o, _, ⟨value, name, hvalue, ho, hname, rfl⟩, rfl⟩

/-- A delete that the policies of a hook ask for. Its outcome is ignored. -/
theorem logs_deleteHookIf (asked : Bool) (m : RawManifest) :
    Logs (changes sc) (Hooks.deleteHookIf env cfg asked m) fun _ es =>
      es ∈ optional (deletion cfg m) := by
  unfold Hooks.deleteHookIf
  split
  · have hserve : Logs (changes sc)
        (KubeUtil.serveDelete env ((ResourceKey.fromManifest m).denotes sc cfg.namespace))
        fun _ es => es ∈ optional (deletion cfg m) := by
      intro s
      rw [Prune.after_serveDelete]
      cases s.cluster.lookup ((ResourceKey.fromManifest m).denotes sc cfg.namespace) with
      | none => exact ⟨[], .done rfl, nil_mem_optional⟩
      | some live => exact ⟨_, .one rfl, mem_optional rfl⟩
    refine (logs_call hserve).attempt_bind ?_
    intro res es hes
    refine .pure ?_
    simpa using hes.1
  · exact .pure nil_mem_optional

/-! ### A hook -/

/-- The changes of a hook, which ends with a failure or without one: its object is deleted, or
not, then applied, and deleted again, or not. Only a hook that fails may not be applied. -/
def hookEvents (env : Env sc) (cfg : Config) (info : HookInfo) (failure : Option String) :
    Language (Event sc) :=
  {[.hookStarted info.key]} * optional (deletion cfg info.manifest) *
    (if failure.isSome then optional (patches env cfg info.manifest)
      else patches env cfg info.manifest) *
    optional (deletion cfg info.manifest)

/-- Start a hook, and see it through. -/
def startHook (env : Env sc) (cfg : Config) (guard : LeaseGuard) (info : HookInfo) :
    Pass sc (Option String) := do
  note (.hookStarted info.key)
  Hooks.runOne env cfg info guard

/-- After a hook has run at most its own object is deleted, if the policy asks for it. -/
theorem logs_finishHook (info : HookInfo) (guard : LeaseGuard) :
    Logs (changes sc) (Hooks.finishHook env cfg info guard) fun _ es =>
      es ∈ optional (deletion cfg info.manifest) := by
  refine Logs.quiet_bind (benign_changes.completionOf _ guard)
    (Hooks.total_completionOf _ guard) ?_
  intro completion
  refine (logs_deleteHookIf _ info.manifest).bind (fun _ _ hes => hes) ?_
  intro _ es hes
  refine .pure ?_
  rwa [List.append_nil]

/-- A hook that is applied is patched, and at most deleted again afterwards. When it reports a
failure the patch may be missing. -/
theorem logs_applyHook (info : HookInfo) (guard : LeaseGuard) :
    Logs (changes sc) (Hooks.applyHook env cfg info guard) fun res es =>
      ∀ failure, res = .ok failure →
        es ∈ (if failure.isSome then optional (patches env cfg info.manifest)
          else patches env cfg info.manifest) * optional (deletion cfg info.manifest) := by
  unfold Hooks.applyHook
  split
  next e he =>
    -- The manifest cannot be labelled. Nothing is sent.
    refine .pure ?_
    intro failure hfailure
    cases hfailure
    exact Language.append_mem_mul (a := []) nil_mem_optional nil_mem_optional
  next value hvalue =>
    refine (logs_apply hvalue).attempt_bind ?_
    intro applied es h
    obtain ⟨hmaybe, hok⟩ := h
    cases applied with
    | error e =>
        -- The apply failed, after the server had patched the object or before.
        refine .pure ?_
        intro failure hfailure
        cases hfailure
        exact Language.append_mem_mul hmaybe nil_mem_optional
    -- Only after an apply that was answered is anything deleted.
    | ok o =>
        refine (logs_finishHook info guard).mono ?_
        intro res es' hes' failure hfailure
        refine Language.append_mem_mul ?_ hes'
        split
        · exact hmaybe
        · exact hok o rfl

/-- A whole hook: a deletion before the creation if the policy asks for it, then what `applyHook`
changes. -/
theorem logs_runOne (info : HookInfo) (guard : LeaseGuard) :
    Logs (changes sc) (Hooks.runOne env cfg info guard) fun res es =>
      ∀ failure, res = .ok failure →
        es ∈ optional (deletion cfg info.manifest) *
          ((if failure.isSome then optional (patches env cfg info.manifest)
            else patches env cfg info.manifest) * optional (deletion cfg info.manifest)) := by
  have hresolve : Keeps (changes sc).quiet (KubeUtil.resolve env info.manifest.gvk) :=
    keeps_resolve benign_changes.toInteracts _
  refine Logs.quiet_bind hresolve.attempt (.attempt _) ?_
  intro resolved
  cases resolved with
  | error e =>
      -- The kind is unknown to the server. Nothing is done.
      refine .pure ?_
      intro failure hfailure
      cases hfailure
      exact Language.append_mem_mul (a := []) nil_mem_optional
        (Language.append_mem_mul (a := []) nil_mem_optional nil_mem_optional)
  | ok _ =>
      -- The delete before the creation, then the hook.
      refine (logs_deleteHookIf _ info.manifest).bind ?_ ?_
      · intro e es hes failure hfailure
        cases hfailure
      · intro _ es hes
        refine (logs_applyHook info guard).mono ?_
        intro res es' hes' failure hfailure
        exact Language.append_mem_mul hes (hes' failure hfailure)

/-- A hook makes its changes in order. -/
theorem logs_startHook (info : HookInfo) (guard : LeaseGuard) :
    Logs (changes sc) (startHook env cfg guard info) fun res es =>
      ∀ failure, res = .ok failure → es ∈ hookEvents env cfg info failure := by
  refine (logs_note _).bind_ok ?_
  intro _ started hstarted
  refine (logs_runOne info guard).mono ?_
  intro res es hes failure hfailure
  have hmem := Language.append_mem_mul (l := {[.hookStarted info.key]}) hstarted
    (hes failure hfailure)
  rwa [← mul_assoc, ← mul_assoc] at hmem

/-! ### An attempt to apply -/

/-- The changes of an attempt to apply: an attempt that succeeds patches the object. -/
def attemptEvents (env : Env sc) (cfg : Config) (m : RawManifest) (failed : Bool) :
    Language (Event sc) :=
  if failed then optional ({[.applyStarted (.fromManifest m)]} * optional (patches env cfg m))
  else {[.applyStarted (.fromManifest m)]} * patches env cfg m

/-- An attempt to apply patches the manifest's object. When the attempt counts as failed the patch
may be missing. -/
theorem logs_attemptApply (m : RawManifest) (cache : KubeUtil.DiscoveryCache) :
    Logs (changes sc) (attemptApply env cfg false m cache) fun res es =>
      ∀ failed cache', res = .ok (failed, cache') → es ∈ attemptEvents env cfg m failed := by
  have hresolve : Keeps (changes sc).quiet (KubeUtil.getOrResolve env cache m.gvk) :=
    keeps_getOrResolve benign_changes.toInteracts _ _
  refine Logs.quiet_bind hresolve.attempt (.attempt _) ?_
  intro resolved
  cases resolved with
  | error e =>
      -- The kind is unknown to the server. Nothing is started.
      refine .pure ?_
      intro failed cache' hres
      cases hres
      exact nil_mem_optional
  | ok cache =>
      dsimp only
      split
      · exact .throw (by simp)
      next value hvalue =>
        -- From here on the start is in the trace, and the patch may follow.
        refine (logs_note _).bind_ok ?_
        intro _ started hstarted
        refine (logs_apply hvalue).attempt_bind ?_
        intro applied es h
        obtain ⟨hmaybe, hok⟩ := h
        have hstarted : started ∈ ({[.applyStarted (.fromManifest m)]} : Language (Event sc)) :=
          hstarted
        cases applied with
        | error e =>
            refine .pure ?_
            intro failed cache' hres
            cases hres
            rw [List.append_nil]
            exact mem_optional (Language.append_mem_mul hstarted hmaybe)
        | ok o =>
            refine .pure ?_
            intro failed cache' hres
            cases hres
            rw [List.append_nil]
            exact Language.append_mem_mul hstarted (hok o rfl)

/-! ### The actions -/

/-- A prune deletes the objects of candidates. -/
def pruneEvents (cfg : Config) (prev : Option State) (c : Classified) : Language (Event sc) :=
  {es | ∀ e ∈ es, ∃ k, Prune.Candidate sc (prevApplied prev) (ResourceKey.keysOf c.main) k ∧
    e = .deleted (k.denotes sc cfg.namespace)}

/-- A prune only deletes, and only what the specification lets it delete. -/
theorem logs_prune (prev : Option State) (c : Classified) :
    Logs (changes sc) (Prune.prune env cfg (prevApplied prev) (ResourceKey.keysOf c.main))
      fun _ es => es ∈ pruneEvents cfg prev c := by
  intro s
  have hdeletes : Keeps _ (Prune.prune env cfg (prevApplied prev) (ResourceKey.keysOf c.main)) :=
    Prune.prune_deletes_candidates _ _
  obtain ⟨new, htrace, hnew⟩ := hdeletes s
  refine ⟨new.reverse, changes_iff.mpr (by rw [htrace, List.reverse_reverse]), ?_⟩
  intro e he
  obtain ⟨id, ⟨k, hk, hid⟩, rfl⟩ := hnew e (List.mem_reverse.mp he)
  exact ⟨k, hk, by rw [hid]⟩

/-- What a pass does to the cluster, and what came of it. -/
inductive Action where
  | detect (drifts : List DriftItem)
  | hook (info : HookInfo) (failure : Option String)
  | attempt (m : RawManifest) (failed : Bool)
  | prune (deleted : List ResourceKey)

namespace Action

/-- An action is a run of the function that performs it. -/
def Runs (env : Env sc) (cfg : Config) (guard : LeaseGuard) (prev : Option State)
    (c : Classified) : Action → World sc → World sc → Prop
  | .detect drifts, s, t => ∃ live, detectDrift env cfg c.main s = .ok (drifts, live) t
  | .hook info failure, s, t => startHook env cfg guard info s = .ok failure t
  | .attempt m failed, s, t => ∃ cache cache',
      attemptApply env cfg false m cache s = .ok (failed, cache') t
  | .prune deleted, s, t =>
      Prune.prune env cfg (prevApplied prev) (ResourceKey.keysOf c.main) s = .ok deleted t

/-- The changes that an action makes. -/
def events (env : Env sc) (cfg : Config) (prev : Option State) (c : Classified) :
    Action → Language (Event sc)
  | .detect _ => 1
  | .hook info failure => hookEvents env cfg info failure
  | .attempt m failed => attemptEvents env cfg m failed
  | .prune _ => pruneEvents cfg prev c

end Action

/-- The live objects after `k` interactions, the first of them the `n`-th, that only the others used
to change them. -/
def othersSince (env : Env sc) (n : Nat) (c : Cluster sc) : Nat → Cluster sc
  | 0 => c
  | k + 1 => env.others (n + k) (othersSince env n c k)

/-- What the others do over several interactions can be cut in two. -/
theorem othersSince_add (n : Nat) (c : Cluster sc) (j k : Nat) :
    othersSince env (n + j) (othersSince env n c j) k = othersSince env n c (j + k) := by
  induction k with
  | zero => rfl
  | succ k ih =>
      show env.others (n + j + k) _ = env.others (n + (j + k)) (othersSince env n c (j + k))
      rw [ih, Nat.add_assoc]

/-- The pass only interacted: it changed nothing on the server, and the live objects are what the
others have made of them in these interactions. -/
def onlyInteracts (env : Env sc) : Frame (World sc) where
  rel w t := untouched.rel w t ∧
    ∃ k, t.step = w.step + k ∧ t.cluster = othersSince env w.step w.cluster k
  refl w := ⟨untouched.refl w, 0, rfl, rfl⟩
  trans := by
    rintro w t u ⟨hwt, j, hstep, hcluster⟩ ⟨htu, k, hstep', hcluster'⟩
    refine ⟨untouched.trans hwt htu, j + k, ?_, ?_⟩
    · rw [hstep', hstep, Nat.add_assoc]
    · rw [hcluster', hstep, hcluster, othersSince_add]

/-- Each interaction lets the others act once, and nothing else is done to the cluster by a quiet
step. -/
theorem benign_onlyInteracts : Benign env (onlyInteracts env) where
  tick _ := ⟨rfl, 1, rfl, rfl⟩
  transmit _ _ := ⟨rfl, 0, rfl, rfl⟩
  sleep _ _ := ⟨rfl, 0, rfl, rfl⟩
  lease _ _ _ := ⟨rfl, 0, rfl, rfl⟩

/-- The actions of a pass. Its reads of the cluster and its calls about the Lease are quiet: between
two actions the live objects change by what the others do. -/
def actions (env : Env sc) (cfg : Config) (guard : LeaseGuard) (prev : Option State)
    (c : Classified) : Vocabulary (World sc) Action where
  quiet := onlyInteracts env
  runs := Action.Runs env cfg guard prev c

section
variable {guard : LeaseGuard} {prev : Option State} {c : Classified}

/-- An action makes its changes. -/
theorem Action.Runs.changes {a : Action} {s t : World sc} (h : a.Runs env cfg guard prev c s t) :
    ∃ es ∈ a.events env cfg prev c, Performs (changes sc) es s t := by
  cases a with
  | detect drifts =>
      obtain ⟨live, hrun⟩ := h
      exact ⟨[], Language.nil_mem_one, .done ((benign_changes.detectDrift c.main).of_ok hrun)⟩
  | hook info failure =>
      obtain ⟨es, hperforms, hes⟩ := (logs_startHook info guard s).of_run h
      exact ⟨es, hes failure rfl, hperforms⟩
  | attempt m failed =>
      obtain ⟨cache, cache', hrun⟩ := h
      obtain ⟨es, hperforms, hes⟩ := (logs_attemptApply m cache s).of_run hrun
      exact ⟨es, hes failed cache' rfl, hperforms⟩
  | prune deleted =>
      obtain ⟨es, hperforms, hes⟩ := (logs_prune prev c s).of_run h
      exact ⟨es, hes, hperforms⟩

/-- The changes of a log of actions are the changes of its actions in order. -/
theorem changes_of_actions {acts : List Action} {s t : World sc}
    (h : Performs (actions env cfg guard prev c) acts s t) :
    ∃ es ∈ (acts.map (Action.events env cfg prev c)).prod, t.trace = es.reverse ++ s.trace := by
  have hquiet : ∀ {s t : World sc}, (onlyInteracts env).rel s t → (changes sc).quiet.rel s t :=
    fun h => (Prod.mk.inj h.1).1
  obtain ⟨es, hes, hperforms⟩ := h.refine (W := changes sc) hquiet Action.Runs.changes
  exact ⟨es, hes, changes_iff.mp hperforms⟩

end

end Reconcile

end LeanCd
