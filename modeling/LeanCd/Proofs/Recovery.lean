import LeanCd.Proofs.SelfHealing

/-!
# `LeanCd.Proofs.Recovery`: the pass after interrupted ones

The state is written at the end of a pass. A pass that is killed or fails after it began to
apply leaves the cluster at one commit and the state at another. What the next pass makes of
it depends on the state alone: it applies everything when HEAD is not the persisted commit,
and it looks for orphans among the persisted keys and kinds.

`attempts` are the runs of passes in which any call of any pass may fail, which covers a pass
that is killed at any point: from there on every call is refused. `Lawful` is what such runs
preserve. `restored_of_reachable` says what the first pass that completes makes of a reachable
world, when its commit and the persisted set meet `Recoverable`, and `rollback_leaves_service`
is a killed rollback whose objects stay.

The completing pass is the only one about whose calls anything is assumed. `Recoverable` is a
condition on its commit and on the persisted set, which is what is left of the earlier passes.
`Cleared` and `Restored` are the states of the cluster after the prune and at the end.
-/

set_option autoImplicit false

namespace LeanCd

open Act

variable {sc : Scopes} {env : Env sc} {cfg : Config}

/-- The environment with other failures. -/
def Env.failing (env : Env sc) (fault : Nat → Request sc → Fault) : Env sc :=
  { env with fault := fault }

open Reconcile Prune

/-! ### What interrupted passes preserve -/

/-- The server has carried out an apply of the main object for this process. -/
def EverApplied (env : Env sc) (cfg : Config) (w : World sc) (id : ObjId sc) : Prop :=
  MainObject env cfg id ∧ ∃ o, .patched id o ∈ w.trace

/-- No main object has a hook annotation, every one that was applied carries the label, and
the persisted keys name the namespaces of their objects. -/
structure Lawful (env : Env sc) (cfg : Config) (w : World sc) : Prop where
  mains : MainsPlain env cfg w.cluster
  labelled : ∀ id, EverApplied env cfg w id → ∀ live, w.cluster.lookup id = some live →
    live.object.labelled cfg.selector = true
  served : ∀ k ∈ prevApplied w.stored, k.AsServed sc

/-- It stays so while main objects only disappear and none is applied. -/
theorem Lawful.congr {w t : World sc} (h : Lawful env cfg w)
    (hlook : ∀ id, MainObject env cfg id → ∀ live, t.cluster.lookup id = some live →
      w.cluster.lookup id = some live)
    (happlied : ∀ id, EverApplied env cfg t id → EverApplied env cfg w id)
    (hserved : ∀ k ∈ prevApplied t.stored, k.AsServed sc) : Lawful env cfg t where
  mains id live hid hlive := h.mains id live hid (hlook id hid live hlive)
  labelled id hid live hlive :=
    h.labelled id (happlied id hid) live (hlook id hid.1 live hlive)
  served := hserved

/-- What a pass preserves. -/
def lawful (env : Env sc) (cfg : Config) : Frame (World sc) := .preserves (Lawful env cfg)

/-- An event that is no patch of the object does not apply it. -/
theorem everApplied_of_cons {w t : World sc} {e : Event sc} (ht : t.trace = e :: w.trace)
    {id : ObjId sc} (he : MainObject env cfg id → ∀ o, e ≠ .patched id o)
    (hid : EverApplied env cfg t id) : EverApplied env cfg w id := by
  obtain ⟨hmain, o, ho⟩ := hid
  rw [ht] at ho
  exact ⟨hmain, o, (List.mem_cons.mp ho).resolve_left fun heq => he hmain o heq.symm⟩

namespace Regular

variable (ho : Regular env cfg) (fault : Nat → Request sc → Fault)
include ho

/-- Interactions keep a world lawful under every pattern of failures. -/
theorem benign_lawful : Benign (env.failing fault) (lawful env cfg) where
  tick w hw := by
    refine hw.congr (fun id hid live hlive => ?_) (fun _ h => h) hw.served
    have hsame := ho.quiet w.step w.cluster id fun hhook => ho.apart id hhook hid
    exact hsame.symm.trans hlive
  transmit _ _ hw := hw.congr (fun _ _ _ h => h) (fun _ h => h) hw.served
  sleep _ _ hw := hw.congr (fun _ _ _ h => h) (fun _ h => h) hw.served
  lease _ _ _ hw := hw.congr (fun _ _ _ h => h) (fun _ h => h) hw.served

/-- A delete takes objects away, so it keeps a world lawful. -/
theorem keeps_serveDelete_lawful (id : ObjId sc) :
    Keeps (lawful env cfg) (KubeUtil.serveDelete (env.failing fault) id) := by
  intro w hw
  have h : After (KubeUtil.serveDelete (env.failing fault) id) w fun _ t => Lawful env cfg t := by
    rw [after_serveDelete]
    -- Nothing to delete.
    cases w.cluster.lookup id with
    | none => exact hw
    | some live =>
        dsimp only
        rw [show (env.failing fault).onDelete = env.onDelete from rfl, ho.erases]
        -- One object fewer. What is still there was lawful before.
        refine hw.congr (fun id' _ live' hlive => ?_)
          (fun id' => everApplied_of_cons (e := .deleted id) rfl fun _ _ => nofun) hw.served
        have hlive : (w.cluster.erase id).lookup id' = some live' := hlive
        by_cases heq : id' = id
        · rw [heq, AList.lookup_erase] at hlive
          cases hlive
        · rwa [AList.lookup_erase_ne heq] at hlive
  exact h

/-- The hooks of a commit that is declared patch hook objects only. -/
theorem allowsHooks_lawful {c : Classified} (hc : Declares env cfg c) :
    AllowsHooks (env.failing fault) cfg (lawful env cfg) c.hooks where
  start i _ w hw := hw.congr (fun _ _ _ h => h)
    (fun _ => everApplied_of_cons (e := .hookStarted i.key) rfl fun _ _ => nofun) hw.served
  patch i hi o id' hsends w hw := by
    obtain ⟨sha, applied, hdesired⟩ := id hc
    have hsends : Sends env cfg i.manifest o id' := hsends
    obtain ⟨rfl, -⟩ := ((desired_sorted hdesired).hooks i hi).1.sends ho.yaml ho.kube hsends
    have hhook : HookObject env cfg (i.ident sc cfg) := ⟨c, hc, i, hi, rfl⟩
    refine hw.congr (fun id' hid live hlive => ?_) (fun id' => ?_) hw.served
    · have hne : id' ≠ i.ident sc cfg := fun heq => ho.apart _ hhook (heq ▸ hid)
      exact (AList.lookup_insert_ne hne).symm.trans hlive
    · refine everApplied_of_cons (e := .patched (i.ident sc cfg) o) rfl ?_
      intro hid o' heq
      cases heq
      exact ho.apart _ hhook hid
  delete i _ := ho.keeps_serveDelete_lawful fault _

/-- The patch of a main manifest puts its object in place, with the label. -/
theorem allowsApply_lawful {c : Classified} (hc : Declares env cfg c) :
    AllowsApply (env.failing fault) cfg (lawful env cfg) false c.main where
  start m _ w hw := hw.congr (fun _ _ _ h => h)
    (fun _ => everApplied_of_cons (e := .applyStarted (.fromManifest m)) rfl
      fun _ _ => nofun) hw.served
  patch m hm o id' hsends w hw := by
    obtain ⟨sha, applied, hdesired⟩ := id hc
    have hsends : Sends env cfg m o id' := hsends
    obtain ⟨rfl, -⟩ := ((desired_sorted hdesired).main m hm).1.sends ho.yaml ho.kube hsends
    -- `InPlace` counts the start of the apply, which changes no object.
    have hput : InPlace env cfg [m] w (Act.state (KubeUtil.servePatch env (m.ident sc cfg) o false
        { w with trace := .applyStarted (.fromManifest m) :: w.trace })) :=
      ho.inPlace_patch hc hm hsends hw.mains rfl ⟨rfl, rfl⟩
    have hmains : MainsPlain env cfg (w.cluster.insert (m.ident sc cfg) _) :=
      ho.mainsPlain_of_inPlace hput hw.mains
    refine ⟨hmains, fun id' hid live hlive => ?_, hw.served⟩
    by_cases heq : id' = m.ident sc cfg
    · subst heq
      obtain ⟨live', hlook, hlabel, -⟩ := (hput.main m List.mem_cons_self).managed
      cases hlive.symm.trans hlook
      exact hlabel
    · have hbefore : EverApplied env cfg w id' := by
        refine everApplied_of_cons (e := .patched (m.ident sc cfg) o) rfl (fun _ o' hsame => ?_) hid
        cases hsame
        exact heq rfl
      exact hw.labelled id' hbefore live ((AList.lookup_insert_ne heq).symm.trans hlive)

/-- A state of keys as served is a lawful one. -/
theorem keeps_stateWrite_lawful {s : State} (hs : ∀ k ∈ s.applied, k.AsServed sc) :
    Keeps (lawful env cfg) (State.write (env.failing fault) s) := by
  refine (ho.benign_lawful fault).stateWrite ?_
  intro w hw
  have hstored : World.stored { w with stateCm := some s.toData } = some s :=
    World.stored_of_stateCm rfl
  refine hw.congr (fun _ _ _ h => h)
    (fun _ => everApplied_of_cons (e := .stateWritten s.toData) rfl fun _ _ => nofun) ?_
  show ∀ k ∈ prevApplied (World.stored { w with stateCm := some s.toData }), k.AsServed sc
  rw [hstored]
  exact hs

/-- A branch of a pass over a declared commit keeps the world lawful, also when it stops in the
middle. -/
theorem keeps_execute_lawful {sha : String} {applied : List ResourceKey} {c : Classified}
    (hc : desired env sha cfg applied = .ok c) (guard : LeaseGuard) (prev : Option State)
    (sync : SyncOutcome) :
    Keeps (lawful env cfg) (execute (env.failing fault) cfg guard prev sync c) := by
  have hdeclares : Declares env cfg c := ⟨sha, applied, hc⟩
  have hB := ho.benign_lawful fault
  refine hB.execute (fun outcome health epoch => ?_) (fun w gvks hw => ?_)
    (hB.branch (ho.allowsApply_lawful fault hdeclares) (ho.allowsHooks_lawful fault hdeclares)
      (ho.keeps_serveDelete_lawful fault) guard prev sync)
  · refine ho.keeps_stateWrite_lawful fault ?_
    intro k hk
    obtain ⟨m, hm, rfl⟩ := List.mem_map.mp hk
    exact ho.asServed c hdeclares m hm
  · exact hw.congr (fun _ _ _ h => h) (fun _ h => h) hw.served

/-- Recording an error keeps the persisted keys, or forgets them. -/
theorem keeps_recordError_lawful (e : Error) :
    Keeps (lawful env cfg) (recordError (env.failing fault) e) := by
  intro w hw
  -- The read may report nothing, where the answer was a lost one.
  have hread : After (State.read (env.failing fault)) w fun res t =>
      Lawful env cfg t ∧ ∀ prev, res = .ok prev → prev = w.stored ∨ prev = none := by
    refine After.and ((ho.benign_lawful fault).stateRead w hw) ?_
    exact (after_stateRead_or _ w).mono fun _ _ h prev hprev => (h prev hprev).imp_right And.left
  have hall : After (recordError (env.failing fault) e) w fun _ t => Lawful env cfg t := by
    rw [recordError, after_bind]
    refine hread.mono ?_
    intro res t ht
    cases res with
    | error e => exact ht.1
    | ok prev =>
        refine ho.keeps_stateWrite_lawful fault (fun k hk => ?_) t ht.1
        -- The state that goes back holds the keys of the one that was read.
        rcases ht.2 prev rfl with rfl | rfl
        · refine hw.served k ?_
          cases hstored : w.stored with
          | none =>
              rw [hstored] at hk
              cases hk
          | some s =>
              rw [hstored] at hk
              exact hk
        · cases hk
  exact hall

end Regular

namespace Reconcile

/-! ### The runs -/

/-- The runs of passes under one configuration, each to the branch or to a target of its own,
in which any call of any pass may fail. -/
def attempts (env : Env sc) (cfg : Config) : Transition.System (World sc) where
  init w := w.stateCm = none ∧ w.trace = [] ∧ MainsPlain env cfg w.cluster
  step w t := ∃ (fault : Nat → Request sc → Fault) (r : Reconciler), r.cfg = cfg ∧
    t = Act.state (runOnce (env.failing fault) r w)

/-- After any number of attempts the world is lawful. -/
theorem lawful_of_reachable (ho : Regular env cfg) {w : World sc}
    (hw : (attempts env cfg).Reachable w) : Lawful env cfg w := by
  have hinv : (attempts env cfg).Invariant (Lawful env cfg) := by
    refine ⟨fun ⟨hstate, htrace, hmains⟩ => ⟨hmains, fun id hid => ?_, fun k hk => ?_⟩, ?_⟩
    · obtain ⟨-, o, hpatched⟩ := hid
      rw [htrace] at hpatched
      cases hpatched
    · rw [World.stored, hstate] at hk
      cases hk
    · rintro w t - hw ⟨fault, r, rfl, rfl⟩
      refine (ho.benign_lawful fault).runOnce ho.notDryRun (fun guard prev sync c hc => ?_)
        (ho.keeps_recordError_lawful fault) (fun _ _ hw => ?_) w hw
      · exact ho.keeps_execute_lawful fault hc guard prev sync
      · exact hw.congr (fun _ _ _ h => h) (fun _ h => h) hw.served
  exact hinv.holds hw

/-! ### One pass that completes -/

/-- What the next pass needs to find: by the persisted keys and kinds, every live object that
was applied, is not exempt, and is not declared by the commit; and its commit is not the
persisted one, or the drift check reports something, or the main objects are as the commit's
manifests left them. No persisted key has the kind of a main manifest under another version. -/
structure Recoverable (env : Env sc) {r : Reconciler} {w : World sc} (x : Started env r w)
    (c : Classified) : Prop where
  orphans : ∀ id live, EverApplied env r.cfg w id → w.cluster.lookup id = some live →
    shouldSkipDeletion live.object = false → (∀ m ∈ c.main, m.ident sc r.cfg ≠ id) →
      Findable r.cfg (prevApplied w.stored) id
  commit : prevShaRef r.forceTarget w.stored ≠ some x.sync.sha ∨
    Drift.noticed env r.cfg c.main x.start = true ∨ ∀ m ∈ c.main, MainLive env r.cfg w.cluster m
  versions : SameVersions (prevApplied w.stored) c

/-- Every main manifest is the last one applied to its object, and no other object that was
applied is live, unless it is exempt. -/
structure Restored (env : Env sc) (cfg : Config) (c : Classified) (t : World sc) : Prop where
  main : ∀ m ∈ c.main, MainLive env cfg t.cluster m
  orphans : ∀ id live, EverApplied env cfg t id → t.cluster.lookup id = some live →
    shouldSkipDeletion live.object = false → ∃ m ∈ c.main, m.ident sc cfg = id

/-- It stays so while main objects stay as they are and none is applied. -/
theorem Restored.congr (ho : Regular env cfg) {c : Classified} (hc : Declares env cfg c)
    {t u : World sc} (h : Restored env cfg c t)
    (hlook : ∀ id, ¬ HookObject env cfg id → u.cluster.lookup id = t.cluster.lookup id)
    (happlied : ∀ id, EverApplied env cfg u id → EverApplied env cfg t id) :
    Restored env cfg c u where
  main m hm := (h.main m hm).congr (hlook _ (ho.not_hookObject hc hm))
  orphans id live hid hlive := by
    rw [hlook id fun hhook => ho.apart id hhook hid.1] at hlive
    exact h.orphans id live (happlied id hid) hlive

/-- The rest of a pass keeps what its branch restored. -/
theorem benign_restored (ho : Regular env cfg) {c : Classified} (hc : Declares env cfg c) :
    Benign env (.preserves (Restored env cfg c)) where
  tick w hw := hw.congr ho hc (fun id hid => ho.quiet w.step w.cluster id hid) fun _ h => h
  transmit _ _ hw := hw.congr ho hc (fun _ _ => rfl) fun _ h => h
  sleep _ _ hw := hw.congr ho hc (fun _ _ => rfl) fun _ h => h
  lease _ _ _ hw := hw.congr ho hc (fun _ _ => rfl) fun _ h => h

/-! ### The apply of the pass -/

/-- The main objects are in place, and no other object but the hooks' has changed. -/
structure Placed (env : Env sc) (cfg : Config) (c : Classified) (w t : World sc) : Prop where
  main : ∀ m ∈ c.main, MainLive env cfg t.cluster m
  other : ∀ id, ¬ HookObject env cfg id → (∀ m ∈ c.main, m.ident sc cfg ≠ id) →
    t.cluster.lookup id = w.cluster.lookup id

section
variable (ho : Regular env cfg) {c : Classified} (hc : Declares env cfg c) (guard : LeaseGuard)
include ho hc

/-- Main objects that are in place stay so under hook work. -/
theorem placed_of_hookWork {w t : World sc} (hmain : ∀ m ∈ c.main, MainLive env cfg w.cluster m)
    (ht : HookWork env cfg w t) : Placed env cfg c w t :=
  ⟨fun m hm => (hmain m hm).congr (ht.outside _ (ho.not_hookObject hc hm)),
    fun id hid _ => ht.outside id hid⟩

variable (hs : env.Served)
include hs

/-- A branch that applies puts the main objects in place when it completes. -/
theorem after_applied_placed (label : String) {hooks : List HookInfo}
    (hsub : ∀ h ∈ hooks, h ∈ c.hooks) {rest : List ResourceKey → Pass sc BranchOutcome}
    (hrest : ∀ failed, Keeps (hookWork env cfg) (rest failed)) {w t : World sc}
    (hw : MainsPlain env cfg w.cluster) (ht : HookWork env cfg w t) :
    After (preHooks env cfg guard label hooks >>= fun _ =>
        applyAll env cfg false c.main [] >>= rest) t fun res u =>
      (∃ outcome, res = .ok outcome) → Placed env cfg c w u := by
  refine after_preHooks_bind ho hc guard label hsub (fun _ _ _ => nofun) ?_
  intro u hu
  have hwu := ht.trans hu
  rw [after_bind]
  refine (ho.after_applyAll hs hc (fun _ hm => hm) (ho.distinct c hc) [] u
    (ho.mainsPlain_of_hookWork hwu hw)).mono ?_
  rintro _ v ⟨⟨failed, rfl⟩, hv⟩
  dsimp only
  refine ((hrest failed).after v).mono ?_
  intro res x hx _
  have hplaced := (InPlace.after_hooks hwu hv).before_hooks
    (fun m hm => ho.not_hookObject hc hm) hx
  exact ⟨hplaced.main, hplaced.other⟩

/-- The branch of a pass that is not a teardown, where it applies or need not. -/
theorem after_syncBranch_placed (prev : Option State) (sync : SyncOutcome) {w : World sc}
    (hw : MainsPlain env cfg w.cluster)
    (h : shouldFullApply prev.isSome sync.changed = true ∨
      Drift.noticed env cfg c.main w = true ∨ ∀ m ∈ c.main, MainLive env cfg w.cluster m) :
    After (syncBranch env cfg guard prev sync c) w fun res t =>
      (∃ outcome, res = .ok outcome) → Placed env cfg c w t := by
  have hB := ho.benign_hookWork
  have hpre : ∀ h ∈ c.pre, h ∈ c.hooks := fun h hh => Classified.mem_hooks.mpr (.inl hh)
  have hpost : ∀ h ∈ c.post, h ∈ c.hooks := fun h hh => Classified.mem_hooks.mpr (.inr (.inl hh))
  rw [syncBranch, after_ite]
  split
  · refine after_applied_placed ho hc guard hs _ hpre (fun failed => ?_) hw
      ((hookWork env cfg).refl w)
    exact (hB.collectForHealth c.main).bind fun _ =>
      (hookWork_postHooks ho hc guard _ hpost).bind fun _ => Keeps.pure _
  next hfull =>
    rw [driftBranch, after_bind]
    refine (((hB.detectDrift c.main).after w).and
      (Drift.after_detectDrift_noticed c.main w)).mono ?_
    rintro _ t ⟨ht, drifts, live, rfl, hempty⟩
    dsimp only
    rw [after_ite]
    split
    next hnone =>
      -- Nothing was noticed, so the objects were in place before.
      rw [hnone] at hempty
      have hmain := (h.resolve_left hfull).resolve_left fun hnoticed => by
        rw [hnoticed] at hempty
        cases hempty
      exact fun _ => placed_of_hookWork ho hc hmain ht
    · refine after_applied_placed ho hc guard hs _ hpre (fun failed => ?_) hw ht
      exact (hookWork_postHooks ho hc guard _ hpost).bind fun _ => Keeps.pure _

end

/-! ### The prune of the pass -/

/-- What the pass meets when its branch starts: `Recoverable`, with the prior state. -/
structure Branching (env : Env sc) (cfg : Config) (prev : Option State) (c : Classified)
    (w : World sc) : Prop where
  lawful : Lawful env cfg w
  served : ∀ k ∈ prevApplied prev, k.AsServed sc
  orphans : ∀ id live, EverApplied env cfg w id → w.cluster.lookup id = some live →
    shouldSkipDeletion live.object = false → (∀ m ∈ c.main, m.ident sc cfg ≠ id) →
      Findable cfg (prevApplied prev) id
  versions : SameVersions (prevApplied prev) c

/-- The main objects are in place, and of the others that were applied before only exempt
ones are live. -/
structure Cleared (env : Env sc) (cfg : Config) (c : Classified) (w t : World sc) : Prop where
  main : ∀ m ∈ c.main, MainLive env cfg t.cluster m
  orphans : ∀ id live, EverApplied env cfg w id → t.cluster.lookup id = some live →
    shouldSkipDeletion live.object = false → ∃ m ∈ c.main, m.ident sc cfg = id

/-- Where all calls are served, those about an object go through. -/
theorem clears_of_served (hs : env.Served) (he : env.Erases) (prev : List ResourceKey)
    (id : ObjId sc) : Clears env cfg prev id :=
  ⟨fun n _ => hs n _, fun _ n _ => hs n _, fun n _ => hs n _, fun n _ => hs n _,
    fun n => he n id⟩

section
variable (ho : Regular env cfg) (hs : env.Served) {c : Classified} (hc : Declares env cfg c)
  {prev : Option State} {w : World sc} (hw : Branching env cfg prev c w)
include ho hs hc hw

/-- `prune` after the apply. -/
theorem after_prune_cleared {t : World sc} (ht : Placed env cfg c w t) :
    After (prune env cfg (prevApplied prev) (ResourceKey.keysOf c.main)) t fun _ u =>
      Cleared env cfg c w u := by
  have hmarks : env.MarksOnly := fun n id live marked h => by
    rw [ho.erases] at h
    cases h
  -- An object that was applied and left Git is found by its kind.
  have hgone : After (prune env cfg (prevApplied prev) (ResourceKey.keysOf c.main)) t
      fun _ u => ∀ id, MainObject env cfg id → Findable cfg (prevApplied prev) id →
        (∀ m ∈ c.main, m.ident sc cfg ≠ id) → ¬ Prunable cfg u.cluster id := by
    intro id hid hfound hne
    have hquiet : Interacts env (fades cfg id) := by
      refine ⟨fun u => ?_, fun _ _ h => h⟩
      rintro ⟨live, hlook, hrest⟩
      have hsame := ho.quiet u.step u.cluster id fun hhook => ho.apart id hhook hid
      exact ⟨live, hsame.symm.trans hlook, hrest⟩
    obtain ⟨k, hk, hkind⟩ := hfound
    refine (clears_of_served hs ho.erases _ id).after_prune hquiet hmarks _
      ⟨k, hk, hkind.elim sameKind_of_denotes fun h => h⟩ (fun k hk heq => ?_) t
    obtain ⟨m, hm, rfl⟩ := List.mem_map.mp hk
    exact hne m hm heq
  refine (hgone.and (after_prune hs ho.erases ho.quiet _ _ t)).mono ?_
  rintro _ u ⟨hgone, targets, hcandidates, -, hswept⟩
  refine ⟨fun m hm => (ht.main m hm).congr
    (lookup_main_of_swept ho hc hw.served ht.main hw.versions hcandidates hswept hm), ?_⟩
  intro id live hid hlive hskip
  by_contra hdeclared
  have hne : ∀ m ∈ c.main, m.ident sc cfg ≠ id := fun m hm heq => hdeclared ⟨m, hm, heq⟩
  have hnohook : ¬ HookObject env cfg id := fun hhook => ho.apart id hhook hid.1
  -- It was there before the apply, so the persisted set leads to it.
  have hbefore : w.cluster.lookup id = some live := by
    have hlive' := hlive
    rw [hswept id hnohook, ht.other id hnohook hne, Option.filter_eq_some_iff] at hlive'
    exact hlive'.1
  exact hgone id hid.1 (hw.orphans id live hid hbefore hskip hne) hne
    ⟨live, hlive, hw.lawful.labelled id hid live hbefore, hskip⟩

omit hs hw in
/-- What is cleared of former objects is not spoilt by hooks. -/
theorem Cleared.before_hooks {t u : World sc} (h : Cleared env cfg c w t)
    (hu : HookWork env cfg t u) : Cleared env cfg c w u where
  main m hm := (h.main m hm).congr (hu.outside _ (ho.not_hookObject hc hm))
  orphans id live hid hlive := by
    rw [hu.outside id fun hhook => ho.apart id hhook hid.1] at hlive
    exact h.orphans id live hid hlive

/-- A branch that completes, and its prune. -/
theorem after_branch_cleared (guard : LeaseGuard) (sync : SyncOutcome)
    (h : shouldFullApply prev.isSome sync.changed = true ∨
      Drift.noticed env cfg c.main w = true ∨ ∀ m ∈ c.main, MainLive env cfg w.cluster m) :
    After (branch env cfg guard prev sync c) w fun res t =>
      (∃ outcome, res = .ok outcome) → Cleared env cfg c w t := by
  rw [branch, after_ite]
  -- In a teardown nothing is declared, so there is nothing to place before the prune.
  split
  next hteardown =>
    have hmain : c.main = [] := by
      rw [isTeardown, Bool.and_eq_true, List.isEmpty_iff] at hteardown
      exact hteardown.1
    -- The hooks before the delete are the pass's own.
    refine after_preHooks_bind ho hc guard _
      (fun h hh => Classified.mem_hooks.mpr (.inr (.inr (.inl hh)))) (by simp) ?_
    intro t ht
    have hplaced := placed_of_hookWork ho hc (by rw [hmain]; exact List.forall_mem_nil _) ht
    refine After.bind_ok (by simp) ?_
    -- The prune clears what is declared nowhere, and the hooks after it touch other objects.
    refine (after_prune_cleared ho hs hc hw hplaced).mono ?_
    intro res u hu deleted _
    refine After.bind_ok (by simp) ?_
    refine ((hookWork_postHooks ho hc guard "post-delete"
      (fun h hh => Classified.mem_hooks.mpr (.inr (.inr (.inr hh))))).after u).mono ?_
    exact fun res v hv _ _ _ => hu.before_hooks ho hc hv
  -- In a sync every main object is placed first, and the prune comes after.
  · refine After.bind_ok (by simp) ?_
    refine (after_syncBranch_placed ho hc guard hs prev sync hw.lawful.mains h).mono ?_
    intro res t ht outcome hok
    refine After.bind_ok (by simp) ?_
    refine (after_prune_cleared ho hs hc hw (ht ⟨outcome, hok⟩)).mono ?_
    exact fun res u hu deleted _ _ => hu

end

/-! ### The whole pass -/

/-- The patches of a pass are of its hooks' and its main manifests' objects. -/
def patchesOf (env : Env sc) (cfg : Config) (c : Classified) : Frame (World sc) :=
  adds fun e => ∀ id o, e = .patched id o →
    HookObject env cfg id ∨ ∃ m ∈ c.main, m.ident sc cfg = id

section
variable (ho : Regular env cfg) {sha : String} {applied : List ResourceKey} {c : Classified}
  (hc : desired env sha cfg applied = .ok c)
include ho hc

/-- A branch patches main objects of its commit only, beside those of hooks. -/
theorem keeps_branch_patchesOf (guard : LeaseGuard) (prev : Option State) (sync : SyncOutcome) :
    Keeps (patchesOf env cfg c) (branch env cfg guard prev sync c) := by
  have hB : Benign env (patchesOf env cfg c) := benign_adds
  have hsorted := desired_sorted hc
  have hdelete := @keeps_serveDelete_adds _ env (fun e => ∀ id o, e = .patched id o →
    HookObject env cfg id ∨ ∃ m ∈ c.main, m.ident sc cfg = id) fun _ _ _ => nofun
  refine hB.branch (allowsApply_adds (fun _ _ _ _ => nofun) ?_)
    (allowsHooks_adds (fun _ _ _ => nofun) ?_ fun _ _ _ => nofun) hdelete guard prev sync
  · intro m hm o id hsends id' o' heq
    cases heq
    obtain ⟨rfl, -⟩ := (hsorted.main m hm).1.sends ho.yaml ho.kube hsends
    exact .inr ⟨m, hm, rfl⟩
  · intro i hi o id hsends id' o' heq
    cases heq
    obtain ⟨rfl, -⟩ := (hsorted.hooks i hi).1.sends ho.yaml ho.kube hsends
    exact .inl ⟨c, ⟨sha, applied, hc⟩, i, hi, rfl⟩

omit hc in
/-- Cleared of former objects, and patched as the commit says: the world is restored. -/
theorem Cleared.restored {w t : World sc} (h : Cleared env cfg c w t)
    (ht : (patchesOf env cfg c).rel w t) : Restored env cfg c t := by
  refine ⟨h.main, fun id live hid hlive hskip => ?_⟩
  obtain ⟨hmain, o, hpatched⟩ := hid
  obtain ⟨new, htrace, hnew⟩ := ht
  rw [htrace] at hpatched
  rcases List.mem_append.mp hpatched with hpatched | hpatched
  · exact (hnew _ hpatched id o rfl).resolve_left fun hhook => ho.apart id hhook hmain
  · exact h.orphans id live ⟨hmain, o, hpatched⟩ hlive hskip

/-- The part of a pass that changes the cluster and the state, when it completes. -/
theorem after_execute_restored (hs : env.Served) {prev : Option State} {w : World sc}
    (hw : Branching env cfg prev c w) (guard : LeaseGuard) (sync : SyncOutcome)
    (h : shouldFullApply prev.isSome sync.changed = true ∨
      Drift.noticed env cfg c.main w = true ∨ ∀ m ∈ c.main, MainLive env cfg w.cluster m) :
    After (execute env cfg guard prev sync c) w fun res t =>
      res = .ok () → Restored env cfg c t := by
  have hdeclares : Declares env cfg c := ⟨sha, applied, hc⟩
  have hB := benign_restored ho hdeclares
  refine hB.after_execute_ok (fun outcome health epoch => hB.stateWrite fun w hw => ?_)
    (fun w gvks hw => hw.congr ho hdeclares (fun _ _ => rfl) fun _ h => h) ?_
  · exact hw.congr ho hdeclares (fun _ _ => rfl)
      fun _ => everApplied_of_cons (e := .stateWritten _) rfl fun _ _ => nofun
  · refine ((after_branch_cleared ho hs hdeclares hw guard sync h).and
      ((keeps_branch_patchesOf ho hc guard prev sync).after w)).mono ?_
    rintro res t ⟨hcleared, hpatches⟩ outcome hok u _ _ hu _
    exact hu ((hcleared ⟨outcome, hok⟩).restored ho hpatches)

end

/-- In every run of passes with any failures, the first pass that completes with its calls
served, from a world it can recover, leaves every main manifest of its commit as the last one
applied to its object, and no other object that was ever applied, unless it is exempt. -/
theorem restored_of_reachable (ho : Regular env cfg) (hs : env.Served) {w : World sc}
    (hw : (attempts env cfg).Reachable w) {r : Reconciler} (hr : r.cfg = cfg)
    (x : Started env r w) {c : Classified}
    (hc : desired env x.sync.sha cfg (prevApplied x.prev) = .ok c) (hrec : Recoverable env x c)
    {t : World sc} (hrun : runOnce env r w = .ok () t) : Restored env cfg c t := by
  subst hr
  have hlawful := lawful_of_reachable ho hw
  have hprev : x.prev = w.stored := x.prev_eq_of_served hs
  -- Up to its start the pass has touched nothing but the Lease.
  have hstart : Uneventful env w x.start := fun F hF => x.rel hF
  have houtside := hstart _ ho.quiet.benign
  have hdeclares : Declares env r.cfg c := ⟨_, _, hc⟩
  have hsame : ∀ id, MainObject env r.cfg id →
      x.start.cluster.lookup id = w.cluster.lookup id :=
    fun id hid => houtside id fun hhook => ho.apart id hhook hid
  have happlied : ∀ id, EverApplied env r.cfg x.start id → EverApplied env r.cfg w id := by
    rintro id ⟨hmain, o, hpatched⟩
    exact ⟨hmain, o, hstart.trace ▸ hpatched⟩
  have hbranching : Branching env r.cfg x.prev c x.start := by
    rw [hprev]
    refine ⟨hstart _ (ho.benign_lawful env.fault) hlawful, hlawful.served, ?_, hrec.versions⟩
    intro id live hid hlive
    rw [hsame id hid.1] at hlive
    exact hrec.orphans id live (happlied id hid) hlive
  -- One of the three makes the branch apply, or everything is live already.
  have hcommit : shouldFullApply x.prev.isSome x.sync.changed = true ∨
      Drift.noticed env r.cfg c.main x.start = true ∨
        ∀ m ∈ c.main, MainLive env r.cfg x.start.cluster m := by
    refine hrec.commit.imp (fun hmoved => ?_) fun h => h.imp_right fun hmain m hm => ?_
    · rw [shouldFullApply, x.changed_eq, hprev, decide_eq_true hmoved, Bool.or_true]
    · exact (hmain m hm).congr (hsame _ ⟨c, hdeclares, m, hm, rfl⟩)
  have hB := benign_restored ho hdeclares
  have hall : After (runOnce env r) w fun res t => res = .ok () → Restored env r.cfg c t := by
    -- What follows the branch leaves the objects as they are.
    refine x.after_runOnce_ok ho.notDryRun (fun t now ht => ?_) fun c' hc' => ?_
    · exact (hB.tick t ht).congr ho hdeclares (fun _ _ => rfl) fun _ h => h
    · cases hc'.symm.trans hc
      refine (after_execute_restored ho hc hs hbranching x.guard x.sync hcommit).mono ?_
      exact fun res t ht hok u hu => hu _ hB (ht hok)
  exact (after_of_ok hrun).mp hall rfl

/-! ### A killed rollback -/

/-- A repository whose commit `c1` declares a Service, and every other one a ConfigMap. The
checkout is at `c1` from the interaction 30 up to another one, and time passes. -/
def releaseEnv (n : Nat) : Env .namespacedOnly :=
  { Env.calm _ (.table [("c1", [webValue "old"]), ("c2", [syncedValue])]
        [("old", webValue "old"), ("settings", syncedValue)])
      (fun k cmd => gitAt (if 30 ≤ k ∧ k < n then "c1" else "c2") k cmd)
      fun sha => .oneFile "/tmp/leancd-work-1/." (if sha = "c1" then "c1" else "c2") with
    wallClock := fun k => k * 10 * second }

/-- A rollback to `c1`. -/
def rollback : Reconciler := { syncedPass .off with forceTarget := some (.sha "c1") }

/-- From an interaction on, every call is refused. -/
def refusedFrom (k : Nat) : Nat → Request .namespacedOnly → Fault := fun n _ =>
  if k ≤ n then .refused ⟨none, "connection refused"⟩ else .none

/-- The world after a pass at `c2`. -/
def releasedWorld (n : Nat) : World .namespacedOnly :=
  Act.state (runOnce (releaseEnv n) (syncedPass .off) (.fresh ∅ none))

/-- The world after a rollback that was killed once it had applied the Service. -/
def killedWorld (n : Nat) : World .namespacedOnly :=
  Act.state (runOnce ((releaseEnv n).failing (refusedFrom 46)) rollback (releasedWorld n))

/-- What a commit of the repository declares. -/
def released (sha : String) : Classified :=
  ⟨[], [if sha = "c1" then web "old" else settings (some "default")], [], [], []⟩

/-- There are two trees, and neither depends on the checkout. -/
theorem desired_release (n : Nat) (sha : String) :
    desired (releaseEnv n) sha rollback.cfg [] = .ok (released sha) := by
  -- The two commits have one tree each, and every other name stands for the second.
  by_cases hsha : sha = "c1"
  · subst hsha
    show desired (releaseEnv 0) "c1" rollback.cfg [] = .ok (released "c1")
    decide +kernel
  · have htree : (releaseEnv n).tree sha = (releaseEnv 0).tree "c2" := by
      show WorkTree.oneFile _ (if sha = "c1" then "c1" else "c2") = WorkTree.oneFile _ "c2"
      rw [if_neg hsha]
    have hreleased : released sha = released "c2" := by
      unfold released
      rw [if_neg hsha]
      rfl
    have htwo : desired (releaseEnv 0) "c2" rollback.cfg [] = .ok (released "c2") := by
      decide +kernel
    rw [hreleased, ← htwo]
    unfold desired rootsOf
    rw [htree]
    rfl

/-- The commits of the example. -/
theorem declares_release {n : Nat} {c : Classified}
    (hc : Declares (releaseEnv n) rollback.cfg c) : ∃ sha, c = released sha := by
  obtain ⟨sha, applied, hdesired⟩ := hc
  exact ⟨sha, desired_unique hdesired (desired_release n sha)⟩

/-- Their main manifests can be sent. -/
theorem sendable_release (n : Nat) (sha : String) :
    ∀ m ∈ (released sha).main, Sendable (releaseEnv n) rollback.cfg m := by
  intro m hm
  cases List.mem_singleton.mp hm
  by_cases hsha : sha = "c1"
  · rw [if_pos hsha]
    refine ⟨⟨_, _, _, _, rfl, rfl, rfl, rfl⟩, fun v hv => ?_⟩
    cases hv
    exact .inr ⟨_, rfl⟩
  · rw [if_neg hsha]
    refine ⟨⟨_, _, _, _, rfl, rfl, rfl, rfl⟩, fun v hv => ?_⟩
    cases hv
    exact .inl rfl

/-- The example meets the assumptions of the recovery. -/
theorem regular_release (n : Nat) : Regular (releaseEnv n) rollback.cfg where
  yaml := @Yaml.table_roundTrips _ [("old", webValue "old"), ("settings", syncedValue)] (by decide)
  kube := KubeCrate.plain_reads
  merge := merges_replace
  erases _ _ _ := rfl
  quiet _ _ _ _ := rfl
  hooksStay _ _ h := h
  notDryRun := rfl
  sendable c hc := by
    obtain ⟨sha, rfl⟩ := declares_release hc
    exact sendable_release n sha
  asServed c hc m hm := by
    obtain ⟨sha, rfl⟩ := declares_release hc
    cases List.mem_singleton.mp hm
    split <;> rfl
  distinct c hc := by
    obtain ⟨sha, rfl⟩ := declares_release hc
    exact List.nodup_singleton _
  apart id hhook _ := by
    obtain ⟨c, hc, i, hi, -⟩ := hhook
    obtain ⟨sha, rfl⟩ := declares_release hc
    cases hi

/-- The world of the killed rollback is one that attempts lead to. -/
theorem killedWorld_reachable (n : Nat) :
    (attempts (releaseEnv n) rollback.cfg).Reachable (killedWorld n) := by
  have hinit : (attempts (releaseEnv n) rollback.cfg).Reachable (.fresh ∅ none) := by
    refine .init ⟨rfl, rfl, fun id live _ hlook => ?_⟩
    cases hlook
  have hreleased : (attempts (releaseEnv n) rollback.cfg).Reachable (releasedWorld n) :=
    hinit.step ⟨(releaseEnv n).fault, syncedPass .off, rfl, rfl⟩
  exact hreleased.step ⟨refusedFrom 46, rollback, rfl, rfl⟩

/-- A commit's manifests, as a pass finds them. -/
theorem desired_of_started {n : Nat} {r : Reconciler} {w : World .namespacedOnly}
    (x : Started (releaseEnv n) r w) {sha : String} (hsha : x.sync.sha = sha) :
    desired (releaseEnv n) x.sync.sha rollback.cfg (prevApplied x.prev) = .ok (released sha) := by
  subst hsha
  exact desired_of_main (desired_release n x.sync.sha) List.mem_cons_self _

/-- The checkout is at `c2` again, whose state is the persisted one. The pass finds nothing to
do and completes. The Service is live and managed, and no later pass will look for it. -/
theorem rollback_leaves_service :
    Regular (releaseEnv 60) rollback.cfg ∧ (releaseEnv 60).Served ∧
      (attempts (releaseEnv 60) rollback.cfg).Reachable (killedWorld 60) ∧
      ∃ (x : Started (releaseEnv 60) (syncedPass .off) (killedWorld 60))
        (t : World .namespacedOnly),
        desired (releaseEnv 60) x.sync.sha rollback.cfg (prevApplied x.prev) =
          .ok (released "c2") ∧
        runOnce (releaseEnv 60) (syncedPass .off) (killedWorld 60) = .ok () t ∧
        ¬ Restored (releaseEnv 60) rollback.cfg (released "c2") t := by
  -- The pass runs at the second commit, to which the rollback was to go back.
  have hstart : ∃ x ∈ Started.run (releaseEnv 60) (syncedPass .off) (killedWorld 60),
      x.sync.sha = "c2" := by decide +kernel
  obtain ⟨x, -, hsha⟩ := hstart
  obtain ⟨_, hrun⟩ := @run_eq_of_isOk _ _ _ (killedWorld 60)
    (runOnce (releaseEnv 60) (syncedPass .off)) (by decide +kernel)
  refine ⟨regular_release 60, fun _ _ => rfl, killedWorld_reachable 60, x, _,
    desired_of_started x hsha, hrun, fun h => ?_⟩
  -- The object of the old commit was applied by this process.
  have hpatched : (Act.state (runOnce (releaseEnv 60) (syncedPass .off) (killedWorld 60))).trace.any
      (fun
        | .patched id _ => id = (web "old").ident _ rollback.cfg
        | _ => false) = true := by
    decide +kernel
  -- It is there still, and nothing exempts it.
  have hlive : ((Act.state (runOnce (releaseEnv 60) (syncedPass .off)
      (killedWorld 60))).cluster.lookup ((web "old").ident _ rollback.cfg)).any
        (fun live => !shouldSkipDeletion live.object) = true := by
    decide +kernel
  generalize Act.state (runOnce (releaseEnv 60) (syncedPass .off) (killedWorld 60)) = t
    at h hpatched hlive
  obtain ⟨e, he, hid⟩ := List.any_eq_true.mp hpatched
  obtain ⟨live, hlook, hskip⟩ := Option.any_eq_true _ _ |>.mp hlive
  cases e with
  -- The entry is a patch of a main object, and the set of the second commit has none of that
  -- kind.
  | patched id o =>
      have hid : id = (web "old").ident _ rollback.cfg := of_decide_eq_true hid
      rw [hid] at he
      have hmain : MainObject (releaseEnv 60) rollback.cfg ((web "old").ident _ rollback.cfg) :=
        ⟨released "c1", ⟨"c1", [], desired_release 60 "c1"⟩, _, List.mem_cons_self, rfl⟩
      obtain ⟨m, hm, heq⟩ := h.orphans _ live ⟨hmain, o, he⟩ hlook (by simpa using hskip)
      cases List.mem_singleton.mp hm
      exact absurd (congrArg ObjId.kind heq) (by decide)
  | deleted | stateWritten | applyStarted | hookStarted => cases hid

/-- The rollback is run again, and restores its commit. -/
theorem rollback_restored :
    ∃ t, runOnce (releaseEnv 900) rollback (killedWorld 900) = .ok () t ∧
      Restored (releaseEnv 900) rollback.cfg (released "c1") t := by
  have hstart : ∃ x ∈ Started.run (releaseEnv 900) rollback (killedWorld 900),
      x.sync.sha = "c1" := by decide +kernel
  obtain ⟨x, -, hsha⟩ := hstart
  obtain ⟨_, hrun⟩ := @run_eq_of_isOk _ _ _ (killedWorld 900)
    (runOnce (releaseEnv 900) rollback) (by decide +kernel)
  have happlied : prevApplied (World.stored (killedWorld 900)) =
      [.fromManifest (settings (some "default"))] := by decide +kernel
  -- What the interrupted passes have patched are the two objects.
  have hpatched : (killedWorld 900).trace.all
      (fun
        | .patched id _ => id = (web "old").ident _ rollback.cfg ∨
            id = (settings (some "default")).ident _ rollback.cfg
        | _ => true) = true := by
    decide +kernel
  -- Only the service is an orphan, and its key is the one that was stored.
  have hrec : Recoverable (releaseEnv 900) x (released "c1") := by
    refine ⟨fun id live hid _ _ hne => ?_, .inl nofun, ?_⟩
    · obtain ⟨-, o, ho⟩ := hid
      rcases of_decide_eq_true (List.all_eq_true.mp hpatched _ ho) with rfl | rfl
      · exact absurd rfl (hne _ List.mem_cons_self)
      · exact ⟨_, by rw [happlied]; exact List.mem_cons_self, .inl rfl⟩
    · rw [happlied]
      rintro k hk m hm - hkind
      cases List.mem_singleton.mp hk
      cases List.mem_singleton.mp hm
      exact absurd hkind (by decide)
  exact ⟨_, hrun, restored_of_reachable (regular_release 900) (fun _ _ => rfl)
    (killedWorld_reachable 900) rfl x (desired_of_started x hsha) hrec hrun⟩

end Reconcile

end LeanCd
