import LeanCd.Proofs.Convergence
import LeanCd.Proofs.DriftSteady
import LeanCd.Proofs.PassRuns
import LeanCd.Proofs.PruneTurns
import LeanCd.Proofs.ServerChanges

/-!
# `LeanCd.Proofs.Quiescence`: a converged cluster is left alone

Where `Convergence` says what a pass brings about, this file says that it stays so without work.
`Retains` is what that takes of the API server: no main manifest differs from the object that
the server stores for it.

`history` are the runs from a cluster on which nothing was applied yet. `unmoved` are the runs
after it in which the branch does not move and no rollback is asked for.

`stays_at_rest`: after any history, however many passes then find the branch at the persisted
commit, they send no patch and start no hook, no main object changes, and every state they write
records an error or records no drift and no failed apply.

A pass over a converged cluster is a drift-check pass that finds nothing. The proof has three
parts: the live objects are as the server merged them (`AsMerged`), so no main manifest differs,
so the drift check is empty; what is left of the pass, the prune and the state, changes nothing
that matters (`Rests`). The invariant of the history supplies the first.
-/

set_option autoImplicit false

namespace LeanCd.Reconcile

open Act Drift Transition

variable {sc : Scopes} {env : Env sc} {cfg : Config}

/-! ### What the server stores -/

/-- No main manifest differs from the object that the server stores for it. -/
def Retains (env : Env sc) (cfg : Config) : Prop :=
  ∀ c, Declares env cfg c → ∀ m ∈ c.main, ∀ o, Sends env cfg m o (m.ident sc cfg) → ∀ prior,
    specsDiffer (manifestValue env.yaml m)
      (env.kube.toValue (serve (m.ident sc cfg) ⟨env.merge prior o, some o, some env.client⟩)) =
        false

/-- A main object that was applied is what the server made of what it was sent last. -/
def AsMerged (env : Env sc) (cfg : Config) (c : Cluster sc) : Prop :=
  ∀ id live o, MainObject env cfg id → c.lookup id = some live → live.lastApplied = some o →
    ∃ prior, live.object = env.merge prior o

/-- `AsMerged` as a frame. -/
abbrev asMerged (env : Env sc) (cfg : Config) : Frame (World sc) :=
  .preserves fun w => AsMerged env cfg w.cluster

/-- A patch that is served leaves the object as the server merged it. -/
theorem keeps_servePatch_asMerged (id : ObjId sc) (o : DynamicObject) (dryRun : Bool) :
    Keeps (asMerged env cfg) (KubeUtil.servePatch env id o dryRun) := by
  intro w hw
  cases dryRun with
  | true => exact hw
  | false =>
      intro id' live o' hid hlook hlast
      by_cases heq : id' = id
      · subst heq
        cases (AList.lookup_insert _).symm.trans hlook
        cases hlast
        exact ⟨_, rfl⟩
      · exact hw id' live o' hid ((AList.lookup_insert_ne heq).symm.trans hlook) hlast

section
variable (ho : Regular env cfg)
include ho

/-- The others do not touch main objects, so these are still as merged. -/
theorem benign_asMerged : Benign env (asMerged env cfg) := by
  refine benign_preserves fun n c hc id live o hid hlook => hc id live o hid ?_
  rw [← ho.quiet n c id fun hhook => ho.apart id hhook hid]
  exact hlook

/-- A delete leaves the other objects as merged. -/
theorem keeps_serveDelete_asMerged (id : ObjId sc) :
    Keeps (asMerged env cfg) (KubeUtil.serveDelete env id) := by
  intro w hw
  have hall : After (KubeUtil.serveDelete env id) w fun _ t => AsMerged env cfg t.cluster := by
    rw [Prune.after_serveDelete]
    cases w.cluster.lookup id with
    | none => exact hw
    | some live =>
        dsimp only
        rw [ho.erases]
        intro id' live' o hid hlook
        by_cases heq : id' = id
        · subst heq
          cases (AList.lookup_erase _ _).symm.trans hlook
        · exact hw id' live' o hid ((AList.lookup_erase_ne heq).symm.trans hlook)
  exact hall

/-- Every pass keeps it. -/
theorem passRule_asMerged : PassRule env cfg fun w => AsMerged env cfg w.cluster :=
  passRule_of_writes (benign_asMerged ho) (fun _ _ hw => hw) keeps_servePatch_asMerged
    (keeps_serveDelete_asMerged ho) (fun _ _ hw => hw) (fun _ _ hw => hw) fun _ _ hw => hw

end

/-! ### A converged cluster is in sync -/

/-- Whether a manifest is satisfied is seen at its own object. -/
theorem satisfied_iff {m : RawManifest} (hserved : (ResourceKey.fromManifest m).AsServed sc)
    (c : Cluster sc) : Satisfied env cfg c m ↔
      ∃ live, c.lookup (m.ident sc cfg) = some live ∧
        live.object.labelled cfg.selector = true ∧
        specsDiffer (manifestValue env.yaml m)
          (env.kube.toValue (serve (m.ident sc cfg) live)) = false := by
  have hns : (m.ident sc cfg).ns = m.ns := Scope.place_eq_self hserved _
  constructor
  · rintro ⟨_, hmem, hname, hns', hsame⟩
    obtain ⟨id, live, hlook, hg, hk, hlabel, rfl⟩ := Cluster.mem_list.mp hmem
    have hid : id = m.ident sc cfg :=
      ObjId.ext hg hk (hns'.trans hns.symm) (Option.some.inj hname)
    subst hid
    exact ⟨live, hlook, hlabel, hsame⟩
  · rintro ⟨live, hlook, hlabel, hsame⟩
    exact ⟨_, Cluster.mem_list.mpr ⟨_, live, hlook, rfl, rfl, hlabel, rfl⟩, rfl, hns, hsame⟩

section
variable (ho : Orderly env cfg) {c : Classified} (hc : Declares env cfg c)
include ho hc

/-- The other clients leave a cluster in sync. -/
theorem inSync_of_outside {k k' : Cluster sc}
    (hsame : ∀ id, ¬ HookObject env cfg id → k'.lookup id = k.lookup id)
    (hk : InSync env cfg c.main k) : InSync env cfg c.main k' := by
  intro m hm
  have hserved := ho.asServed c hc m hm
  rw [satisfied_iff hserved, hsame _ (ho.regular.not_hookObject hc hm),
    ← satisfied_iff hserved]
  exact hk m hm

/-- Objects in place that are what the server made of them are in sync. -/
theorem inSync_of_mainLive (hretains : Retains env cfg) {k : Cluster sc}
    (hmerged : AsMerged env cfg k) (hlive : ∀ m ∈ c.main, MainLive env cfg k m) :
    InSync env cfg c.main k := by
  intro m hm
  obtain ⟨live, o, hlook, hsends, hlast, hlabel, -⟩ := (hlive m hm).live
  obtain ⟨prior, hobject⟩ := hmerged _ live o ⟨c, hc, m, hm, rfl⟩ hlook hlast
  have hsame := hretains c hc m hm o hsends prior
  have hserve : serve (m.ident sc cfg) ⟨env.merge prior o, some o, some env.client⟩ =
      serve (m.ident sc cfg) live := by
    rw [← hobject]
    rfl
  rw [hserve] at hsame
  exact (satisfied_iff (ho.asServed c hc m hm) k).mpr ⟨live, hlook, hlabel, hsame⟩

end

/-! ### A pass over a converged cluster -/

/-- What a pass at rest may do: store a state that records an error, or no drift and no failed
apply, and take away a hook's object that has lost its annotation. -/
def AtRest (env : Env sc) (cfg : Config) (sha : String) : Event sc → Prop
  | .deleted id => HookObject env cfg id
  | .stateWritten v => ∃ s : State, v = s.toData ∧
      (s.lastError = none → s.lastSha = some sha ∧ s.driftCount = 0 ∧ s.applyFailures = [])
  | _ => False

/-- What a pass at rest does before it stores its state. -/
structure Still (env : Env sc) (cfg : Config) (sha : String) (w t : World sc) : Prop where
  events : (adds (AtRest env cfg sha)).rel w t
  objects : (outside (HookObject env cfg)).rel w t
  stateCm : t.stateCm = w.stateCm

/-- `Still` as a frame. -/
def still (env : Env sc) (cfg : Config) (sha : String) : Frame (World sc) where
  rel := Still env cfg sha
  refl w := ⟨(adds _).refl w, fun _ _ => rfl, rfl⟩
  trans h h' := ⟨(adds _).trans h.events h'.events, (outside _).trans h.objects h'.objects,
    h'.stateCm.trans h.stateCm⟩

/-- What stirs nothing leaves what was still so. -/
theorem keeps_still {sha : String} {w : World sc} {α : Type} {m : Pass sc α}
    (hm : Keeps (still env cfg sha) m) : Keeps (.preserves (Still env cfg sha w)) m :=
  fun v hv => (still env cfg sha).trans hv (hm v)

/-- What passes at rest leave: the objects, and the persisted commit and keys. -/
structure Rests (env : Env sc) (cfg : Config) (sha : String) (w t : World sc) : Prop where
  events : (adds (AtRest env cfg sha)).rel w t
  objects : (outside (HookObject env cfg)).rel w t
  lastSha : t.stored.bind (·.lastSha) = some sha
  applied : prevApplied t.stored = prevApplied w.stored

namespace Rests

variable {sha : String} {w t u : World sc}

/-- Rests add up: a quiet stretch after a quiet one is quiet. -/
theorem trans (h : Rests env cfg sha w t) (h' : Rests env cfg sha t u) :
    Rests env cfg sha w u where
  events := (adds _).trans h.events h'.events
  objects := (outside _).trans h.objects h'.objects
  lastSha := h'.lastSha
  applied := h'.applied.trans h.applied

/-- With the prior state in place, a world is at rest when nothing stirs. -/
theorem of_still (hsha : w.stored.bind (·.lastSha) = some sha) (h : Still env cfg sha w t) :
    Rests env cfg sha w t := by
  have hstored : t.stored = w.stored := congrArg (Option.map State.fromData) h.stateCm
  exact ⟨h.events, h.objects, by rw [hstored]; exact hsha, by rw [hstored]⟩

/-- A state that names the commit and its keys is stored. -/
theorem store (h : Still env cfg sha w t) {s : State} (hsha : s.lastSha = some sha)
    (happlied : s.applied = prevApplied w.stored)
    (hrest : s.lastError = none → s.driftCount = 0 ∧ s.applyFailures = [])
    (hcluster : u.cluster = t.cluster) (hstate : u.stateCm = some s.toData)
    (htrace : u.trace = .stateWritten s.toData :: t.trace) : Rests env cfg sha w u where
  events := (adds _).trans h.events (adds_cons htrace ⟨s, rfl, fun hnone => ⟨hsha, hrest hnone⟩⟩)
  objects id hid := by
    rw [hcluster]
    exact h.objects id hid
  lastSha := by
    rw [World.stored_of_stateCm hstate]
    exact hsha
  applied := by
    rw [World.stored_of_stateCm hstate]
    exact happlied

end Rests

section
variable (ho : Orderly env cfg) {sha : String}
include ho

/-- Interactions are quiet. The others may change hook objects only. -/
theorem benign_still : Benign env (still env cfg sha) where
  tick w := ⟨interacts_adds.tick w, ho.quiet.benign.tick w, rfl⟩
  transmit _ _ := ⟨(adds _).refl _, fun _ _ => rfl, rfl⟩
  sleep _ _ := ⟨(adds _).refl _, fun _ _ => rfl, rfl⟩
  lease _ _ _ := ⟨(adds _).refl _, fun _ _ => rfl, rfl⟩

/-- A delete of a hook object is allowed at rest. -/
theorem keeps_serveDelete_still {id : ObjId sc} (hid : HookObject env cfg id) :
    Keeps (still env cfg sha) (KubeUtil.serveDelete env id) := by
  intro w
  have hall : After (KubeUtil.serveDelete env id) w fun _ t => Still env cfg sha w t := by
    rw [Prune.after_serveDelete]
    cases w.cluster.lookup id with
    | none => exact (still env cfg sha).refl w
    | some live =>
        refine ⟨adds_cons rfl hid, fun id' hid' => ?_, rfl⟩
        dsimp only
        rw [ho.erases]
        exact AList.lookup_erase_ne fun heq => hid' (heq ▸ hid)
  exact hall

variable {c : Classified} {w : World sc} (hw : Settled env cfg w)
  (hsha : w.stored.bind (·.lastSha) = some sha) {applied : List ResourceKey}
  (hdesired : desired env sha cfg applied = .ok c)
include hw hsha hdesired

omit ho in
/-- The persisted keys are those of the commit, and its main objects are in place. -/
theorem synced : prevApplied w.stored = ResourceKey.keysOf c.main ∧
    ∀ m ∈ c.main, MainLive env cfg w.cluster m := by
  obtain ⟨applied', c', hdesired', hkeys, hlive⟩ := hw.synced sha hsha
  cases desired_unique hdesired' hdesired
  exact ⟨hkeys, hlive⟩

variable (hversions : SameVersions (ResourceKey.keysOf c.main) c)
include hversions

/-- A managed object that `prune` takes for an orphan is exempt. -/
theorem exempt_of_managed {k : ResourceKey}
    (hk : Prune.Candidate sc (ResourceKey.keysOf c.main) (ResourceKey.keysOf c.main) k)
    {live : Live} (hlook : w.cluster.lookup (k.denotes sc cfg.namespace) = some live)
    (hlabel : live.object.labelled cfg.selector = true) :
    Prune.shouldSkipDeletion live.object = true := by
  have hc : Declares env cfg c := ⟨sha, applied, hdesired⟩
  obtain ⟨hkeys, hmain⟩ := synced hw hsha hdesired
  have hkept : Kept w.cluster (k.denotes sc cfg.namespace) →
      Prune.shouldSkipDeletion live.object = true := by
    rintro ⟨live', hlook', hkeep⟩
    cases hlook.symm.trans hlook'
    simp [Prune.shouldSkipDeletion, hkeep]
  cases hhook : live.object.annotation hookAnnotation with
  | some event => simp [Prune.shouldSkipDeletion, hhook]
  | none =>
      rcases (hw.managed _ ⟨live, hlook, hlabel, hhook⟩).2 with ⟨k', hmem, hid⟩ | hkeep
      -- It is a main object of the commit, so the key comes from another version.
      · rw [hkeys] at hmem
        obtain ⟨m, hm, rfl⟩ := List.mem_map.mp hmem
        have hserved : ∀ k ∈ ResourceKey.keysOf c.main, k.AsServed sc := by
          intro k hk
          obtain ⟨m', hm', rfl⟩ := List.mem_map.mp hk
          exact ho.asServed c hc m' hm'
        obtain ⟨k'', hmem', hg, hkind, hversion⟩ :=
          version_ne_of_candidate ho.regular hc hserved hk hm hid.symm
        have hannotated := hversions k'' hmem' m hm hg hkind hversion
        obtain ⟨live', o, hlook', -, -, -, -, hkeep⟩ := (hmain m hm).live
        refine hkept ⟨live', ?_, hkeep hannotated⟩
        rw [← hid]
        exact hlook'
      · exact hkept hkeep

/-- A managed object that `prune` takes for an orphan stays, or it is a hook's. -/
theorem keeps_deleteKey_still {k : ResourceKey}
    (hk : Prune.Candidate sc (ResourceKey.keysOf c.main) (ResourceKey.keysOf c.main) k)
    {t : World sc} (ht : Still env cfg sha w t) {live : Live}
    (hlook : t.cluster.lookup (k.denotes sc cfg.namespace) = some live)
    (hlabel : live.object.labelled cfg.selector = true) (cache : KubeUtil.DiscoveryCache) :
    Keeps (.preserves (Still env cfg sha w)) (Prune.deleteKey env cfg cache k) := by
  have hin : Interacts env (still env cfg sha) := (benign_still ho).toInteracts
  by_cases hid : HookObject env cfg (k.denotes sc cfg.namespace)
  · exact keeps_still (Prune.keeps_deleteKey hin (keeps_serveDelete_still ho hid) cache)
  · rw [ht.objects _ hid] at hlook
    have hskip := exempt_of_managed ho hw hsha hdesired hversions hk hlook hlabel
    refine Prune.keeps_deleteKey_exempt
      ⟨keeps_still hin.tick, fun x => keeps_still (hin.transmit x)⟩ ?_ cache
    intro y hy live' hlook'
    rw [hy.objects _ hid, hlook] at hlook'
    cases hlook'
    exact hskip

/-- `prune` finds nothing that it may delete, apart from hooks' objects. -/
theorem keeps_prune_still {t : World sc} (ht : Still env cfg sha w t) :
    After (Prune.prune env cfg (ResourceKey.keysOf c.main) (ResourceKey.keysOf c.main)) t
      fun _ u => Still env cfg sha w u := by
  have hB : Benign env (still env cfg sha) := benign_still ho
  have hnone : Prune.deletionTargets (ResourceKey.keysOf c.main)
      (ResourceKey.keysOf c.main) = [] :=
    List.filter_eq_nil_iff.mpr fun k hk => by simpa using hk
  rw [Prune.prune, after_bind]
  refine (((returns_hashGvks _).after t).and ((keeps_hashGvks hB.toInteracts _).after t)).mono ?_
  rintro res u ⟨hgvks, hu⟩
  have hu := (still env cfg sha).trans ht hu
  cases res with
  | error e => exact hu
  | ok gvks =>
      dsimp only
      rw [after_bind]
      refine (((Prune.keeps_safetyNet hB.toInteracts _ gvks []).after u).and
        (((Prune.returns_safetyNet _ gvks []).after u).and
          (Prune.after_safetyNet_finds hB.toInteracts _ gvks ((still env cfg sha).refl u)
            (List.forall_mem_nil _)))).mono ?_
      rintro res v ⟨huv, horphan, hfound⟩
      have hv := (still env cfg sha).trans hu huv
      cases res with
      | error e => exact hv
      | ok found =>
          -- The safety net saw the label on every object that it found.
          have hturn : ∀ k ∈ found.1, ∀ cache, Keeps (.preserves (Still env cfg sha w))
              (Prune.deleteKey env cfg cache k) := by
            intro k hk cache
            obtain ⟨x, hx, -, -, live, hlook, hlabel⟩ :=
              ((hfound.2 found.1 found.2 rfl).2 k hk).managed
            obtain ⟨hgone, hg, hserved⟩ := horphan found rfl k hk
            have hcandidate : Prune.Candidate sc (ResourceKey.keysOf c.main)
                (ResourceKey.keysOf c.main) k :=
              ⟨hgone, .inr ⟨(hgvks gvks rfl _).mp hg, hserved⟩⟩
            exact keeps_deleteKey_still ho hw hsha hdesired hversions hcandidate
              ((still env cfg sha).trans hu hx) hlook hlabel cache
          have hdelete : Keeps (.preserves (Still env cfg sha w)) (do
              let targets ← hashKeys env (Prune.deletionTargets (ResourceKey.keysOf c.main)
                (ResourceKey.keysOf c.main) ++ found.1)
              Prune.deleteKeys env cfg targets found.2) := by
            have hkeys := @keeps_hashKeys _ _ _ hB.toInteracts
            refine (keeps_still (hkeys _)).bind_returns (returns_hashKeys _) ?_
            intro targets htargets
            refine Prune.keeps_turns (fun k hk => hturn k ?_) _
            have hk := (htargets k).mp hk
            rwa [hnone, List.nil_append] at hk
          exact hdelete v hv

variable (hretains : Retains env cfg) (hmerged : AsMerged env cfg w.cluster)
  (hstocked : cfg.watchMode = .cache → ∀ n, Stocked env c.main (env.cacheStores n))
  {sync : SyncOutcome} (hsame : sync.changed = false)
include hretains hmerged hstocked hsame

/-- The branch finds no drift, and nothing to prune. -/
theorem after_branch_still (guard : LeaseGuard) :
    After (branch env cfg guard w.stored sync c) w fun r t => Still env cfg sha w t ∧
      ∃ outcome, r = .ok outcome ∧ outcome.drifts = [] ∧ outcome.applyFailures = [] := by
  have hB : Benign env (still env cfg sha) := benign_still ho
  have hc : Declares env cfg c := ⟨sha, applied, hdesired⟩
  -- The stored set is that of the commit, and every main object carries what it declares.
  obtain ⟨hkeys, hmain⟩ := synced hw hsha hdesired
  have hsync : InSync env cfg c.main w.cluster := inSync_of_mainLive ho hc hretains hmerged hmain
  have hothers : ∀ n k, InSync env cfg c.main k → InSync env cfg c.main (env.others n k) :=
    fun n k => inSync_of_outside ho hc (ho.quiet n k)
  -- The state has a commit, so it is not the first pass.
  have hprev : w.stored.isSome = true := by
    cases hstored : w.stored with
    | some s => rfl
    | none =>
        rw [hstored] at hsha
        cases hsha
  -- The applied set is the current one, so it is empty only where nothing is declared.
  have hkeep : isTeardown c (prevApplied w.stored) = false := by
    rw [hkeys, isTeardown, ResourceKey.keysOf]
    cases c.main <;> rfl
  rw [branch, after_ite, hkeep, if_neg (by decide), after_bind, syncBranch, shouldFullApply,
    hprev, hsame, if_neg (by decide), driftBranch, after_bind]
  -- In cache mode the stores have to know the kinds. The lists are served in any case.
  have hsees : Sees env cfg c.main w.step :=
    ⟨fun _ => servedFrom_of_forall ho.served _ _, fun hmode => hstocked hmode _⟩
  refine (((hB.detectDrift c.main).after w).and
    ((detectDrift_free_iff hothers hsync).mpr hsees)).mono ?_
  rintro _ t ⟨ht, live, rfl⟩
  -- Nothing differs, so the branch returns before the hooks and the apply.
  dsimp only
  rw [List.isEmpty_nil, if_pos rfl, after_pure]
  dsimp only
  -- The set is unchanged, and the prune has nothing to remove.
  rw [hkeys, after_bind]
  refine ((keeps_prune_still ho hw hsha hdesired hversions ht).and
    ((Prune.total_prune _ _).after t)).mono ?_
  rintro _ u ⟨hu, deleted, rfl⟩
  exact ⟨hu, _, rfl, rfl, rfl⟩

/-- A pass over the persisted commit leaves the world at rest. -/
theorem after_execute_rests (hcommit : sync.sha = sha) (guard : LeaseGuard) :
    After (execute env cfg guard w.stored sync c) w fun _ t => Rests env cfg sha w t := by
  have hB : Benign env (still env cfg sha) := benign_still ho
  rw [execute, after_bind]
  refine (after_branch_still ho hw hsha hdesired hversions hretains hmerged hstocked hsame
    guard).mono ?_
  rintro _ t ⟨ht, outcome, rfl, hdrifts, hfailures⟩
  dsimp only
  rw [after_bind]
  refine (((hB.nextState guard w.stored sync c outcome).after t).and
    (((total_nextState guard w.stored sync c outcome).after t).and
      ((Benign.returns_nextState guard w.stored sync c outcome).after t))).mono ?_
  rintro _ u ⟨htu, ⟨s, rfl⟩, hstate⟩
  obtain ⟨health, epoch, rfl⟩ := hstate s rfl
  have hu : Still env cfg sha w (u.ticked env) :=
    (still env cfg sha).trans ((still env cfg sha).trans ht htu) (hB.tick u)
  -- The state that is written says so: no drift and no failure.
  have hcount : count outcome.drifts = 0 := by
    rw [hdrifts]
    rfl
  dsimp only
  rw [after_bind, after_stateWrite ho]
  dsimp only
  rw [after_modify]
  -- What is written keeps the commit and the applied set, which is all that later passes read.
  exact Rests.store hu (congrArg some hcommit) (synced hw hsha hdesired).1.symm
    (fun _ => ⟨hcount, hfailures⟩) rfl rfl rfl

end

/-! ### The runs -/

section
variable (ho : Orderly env cfg) {sha : String}
include ho

/-- The record of an error. -/
theorem after_recordError_rests {w : World sc} (hsha : w.stored.bind (·.lastSha) = some sha)
    (e : Error) : After (recordError env e) w fun _ t => Rests env cfg sha w t := by
  have hB : Benign env (still env cfg sha) := benign_still ho
  have hticked : Still env cfg sha w ((w.ticked env).ticked env) :=
    (still env cfg sha).trans (hB.tick w) (hB.tick _)
  rw [recordError, after_bind, after_stateRead ho]
  dsimp only
  rw [after_stateWrite ho]
  cases hstored : w.stored with
  | none =>
      rw [hstored] at hsha
      cases hsha
  -- The error is set on top of the state that was read, so commit and applied set stay.
  | some s =>
      rw [hstored] at hsha
      have happlied : (errorState e (some s)).applied = prevApplied w.stored := by
        rw [hstored]
        rfl
      exact Rests.store (s := errorState e (some s)) hticked hsha happlied (fun h => by cases h) rfl
        rfl rfl

variable (hretains : Retains env cfg) (hne : sha ≠ "")
  (hstocked : cfg.watchMode = .cache → ∀ applied c, desired env sha cfg applied = .ok c →
    ∀ n, Stocked env c.main (env.cacheStores n))
include hretains hne hstocked

/-- A pass that finds the branch at the persisted commit leaves the world at rest. -/
theorem after_reconcile_rests {r : Reconciler} (hr : r.cfg = cfg) (hforce : r.forceTarget = none)
    {w : World sc} (hw : Settled env cfg w) (hmerged : AsMerged env cfg w.cluster)
    (hsha : w.stored.bind (·.lastSha) = some sha) (hmeets : MeetsSameVersions env r w)
    (hstay : ∀ x : Started env r w, x.sync.sha = sha) :
    After (reconcile env r) w fun _ t => Rests env cfg sha w t := by
  subst hr
  have hB : Benign env (still env r.cfg sha) := benign_still ho
  rcases started_or_benign env r w with ⟨⟨x⟩⟩ | hbenign
  -- The pass comes to its start with the state of the call.
  · obtain ⟨hprev, hstored, -⟩ := started_reads ho x
    have hcommit := hstay x
    have hstart : Rests env r.cfg sha w x.start := .of_still hsha (x.rel hB)
    -- The commit is the recorded one, so the checkout counts as unchanged.
    have hsame : x.sync.changed = false := by
      rw [x.changed_eq, hforce, hprev, hcommit, prevShaRef, if_neg (by simp), hsha,
        Option.filter_some, if_pos (by simpa using hne)]
      simp
    have hrelease : ∀ t, Rests env r.cfg sha w t →
        After (Lock.release env) t fun _ u => Rests env r.cfg sha w u := fun t ht =>
      (hB.release.after t).mono fun _ u hu => ht.trans (.of_still ht.lastSha hu)
    rw [x.toEntered.after_reconcile, x.after_inner, converge, after_bind, after_ofExcept]
    cases hdesired : desired env x.sync.sha r.cfg (prevApplied x.prev) with
    -- The set cannot be parsed. Nothing is changed.
    | error e => exact hrelease _ hstart
    | ok c =>
        have hversions := hmeets x c hdesired
        rw [hprev] at hversions ⊢
        rw [hcommit] at hdesired
        rw [(synced hw hsha hdesired).1] at hversions
        -- What the pass has done before its start is the others' and the Lease's work.
        have hsettled : Settled env r.cfg x.start :=
          hw.hookWork ho (x.rel ho.regular.benign_hookWork)
        have hstarted : AsMerged env r.cfg x.start.cluster :=
          x.rel (benign_asMerged ho.regular) hmerged
        have hexecute := after_execute_rests ho hsettled hstart.lastSha hdesired hversions hretains
          hstarted (fun hmode => hstocked hmode _ c hdesired) hsame hcommit x.guard
        dsimp only
        rw [after_ite, ho.notDryRun, if_neg (by decide), ← hstored]
        exact hexecute.mono fun _ t ht => hrelease t (hstart.trans ht)
  -- The pass ended before, without the Lease or at its checkout.
  · exact (hbenign _ hB).mono fun _ t ht => .of_still hsha ht

/-- A whole pass at rest, with the record of its error if it fails. -/
theorem after_runOnce_rests {r : Reconciler} (hr : r.cfg = cfg) (hforce : r.forceTarget = none)
    {w : World sc} (hw : Settled env cfg w) (hmerged : AsMerged env cfg w.cluster)
    (hsha : w.stored.bind (·.lastSha) = some sha) (hmeets : MeetsSameVersions env r w)
    (hstay : ∀ x : Started env r w, x.sync.sha = sha) :
    After (runOnce env r) w fun _ t => Rests env cfg sha w t := by
  refine after_runOnce_of ((after_reconcile_rests ho hretains hne hstocked hr hforce hw hmerged hsha
    hmeets hstay).mono ?_)
  intro res t ht
  refine ⟨fun _ => ht.trans (.of_still ht.lastSha ?_), fun e _ => ?_⟩
  · obtain ⟨hevents, hobjects, hstate⟩ := (benign_still ho).tick t
    exact ⟨hevents, hobjects, hstate⟩
  · exact (after_recordError_rests ho ht.lastSha e).mono fun _ u hu => ht.trans hu

end

/-- The runs of passes that do not meet a kind under two versions, from a cluster on which nothing
was applied yet. -/
def history (env : Env sc) (cfg : Config) : System (World sc) where
  init w := Fresh env cfg w ∧ ∀ id live, w.cluster.lookup id = some live → live.lastApplied = none
  step := (passes env cfg (MeetsSameVersions env)).step

/-- The runs after a world in which no pass is forced to a target, and every pass that gets as
far as its checkout finds the branch at the commit. -/
def unmoved (env : Env sc) (cfg : Config) (sha : String) (w : World sc) : System (World sc) where
  init t := t = w
  step := (passes env cfg fun r t => MeetsSameVersions env r t ∧ r.forceTarget = none ∧
    ∀ x : Started env r t, x.sync.sha = sha).step

section
variable (ho : Orderly env cfg)
include ho

/-- Between passes the world is settled, and the main objects are what the server made of what it
was sent. -/
theorem after_runOnce_settled {r : Reconciler} (hr : r.cfg = cfg) {w : World sc}
    (hw : Settled env cfg w ∧ AsMerged env cfg w.cluster) (hmeets : MeetsSameVersions env r w) :
    After (runOnce env r) w fun _ t => Settled env cfg t ∧ AsMerged env cfg t.cluster := by
  have hsettled : After (runOnce env r) w fun _ t => Settled env cfg t ∧ True :=
    after_runOnce (Q := fun _ _ => True) ho
      ((settled_reconcile ho hr hw.1 hmeets).mono fun _ _ ht => ⟨ht, trivial⟩)
      (fun _ _ _ _ _ => trivial) fun _ _ _ _ => trivial
  have hmerged : After (runOnce env r) w fun _ t => AsMerged env cfg t.cluster :=
    (passRule_asMerged ho.regular).keeps_runOnce hr w hw.2
  exact (hsettled.and hmerged).mono fun _ _ ht => ⟨ht.1.1, ht.2⟩

/-- The invariant of the history: between passes the world is settled, and the main objects are as
merged. -/
theorem history_invariant :
    (history env cfg).Invariant fun w => Settled env cfg w ∧ AsMerged env cfg w.cluster where
  init := by
    rintro w ⟨hfresh, hnone⟩
    refine ⟨settled_of_fresh hfresh, fun id live o _ hlook hlast => ?_⟩
    rw [hnone id live hlook] at hlast
    cases hlast
  step := by
    rintro w t - hw ⟨r, hr, hmeets, rfl⟩
    exact after_runOnce_settled ho hr hw hmeets

end

/-- A pass gets to one checkout. -/
theorem Started.unique {r : Reconciler} {w : World sc} (x y : Started env r w) : x = y := by
  obtain ⟨⟨g, held, hacquired, prev, entered, hread⟩, sync, fetched, hsync, start, htouched⟩ := x
  obtain ⟨⟨g', held', hacquired', prev', entered', hread'⟩, sync', fetched', hsync', start',
    htouched'⟩ := y
  cases hacquired.symm.trans hacquired'
  cases hread.symm.trans hread'
  cases hsync.symm.trans hsync'
  cases htouched.symm.trans htouched'
  rfl

/-- The server stores the two documents as they are sent. -/
theorem retains_autoscalers {version : String}
    (h : desired (autoscalersEnv version) "c1" (syncedPass .off).cfg [] =
      .ok (autoscalers version)) :
    Retains (autoscalersEnv version) (syncedPass .off).cfg := by
  intro c hc m hm o hsends prior
  cases declares_autoscalers h hc
  obtain ⟨value, name, hvalue, ho, -, -⟩ := hsends
  rcases List.mem_cons.mp hm with rfl | hm
  · cases hvalue
    cases ho
    rfl
  · cases List.mem_singleton.mp hm
    cases hvalue
    cases ho
    rfl

end LeanCd.Reconcile
