import LeanCd.Calm
import LeanCd.Proofs.PassRuns
import LeanCd.Proofs.PruneTurns

/-!
# `LeanCd.Proofs.Bystanders`: what no run ever touches

An object that no manifest of any commit names, as a main resource or as a hook, can still be in
the way of `prune`. Two things shield it: its annotations exempt it, or it carries no managed
label and no persisted key denotes it.

`bystander_spared`: in every run of passes of any subcommand, whatever calls fail and whatever
the other clients do that leaves the shield up, the program sends no patch and no delete for a
shielded object, so whatever is true of it stays true unless another client changes it.

The shield is a condition on the cluster and on the persisted keys, and the others are asked to
leave it up. From there the proof is one frame, `sparing`: every patch and every delete of a pass
names an object of some manifest, of the applied set or of the safety net's list, and the shield
says that the bystander is none of these.
-/

set_option autoImplicit false

namespace LeanCd

open Act Prune Reconcile

variable {sc : Scopes}

/-- The server has changed the object for the process. -/
def Event.touches (id : ObjId sc) : Event sc → Prop
  | .patched id' _ | .deleted id' => id' = id
  | .stateWritten _ | .applyStarted _ | .hookStarted _ => False

/-- Environments, each with the configuration of a pass in it. -/
abbrev Settings (sc : Scopes) := Env sc → Config → Prop

/-- What keeps `prune` away from an object. -/
inductive Shield where
  /-- It is annotated to be kept, or as a hook. -/
  | exempt
  /-- It carries no managed label, and no persisted key denotes it. -/
  | foreign

namespace Shield

/-- The shield of an object on a cluster. -/
def covers (E : Settings sc) (id : ObjId sc) (c : Cluster sc) : Shield → Prop
  | exempt => ∀ live, c.lookup id = some live → shouldSkipDeletion live.object = true
  | foreign => ∀ env cfg, E env cfg → ¬ ManagedAt cfg c id

/-- What the shield asks of the keys of the applied set. -/
def Allows (E : Settings sc) (id : ObjId sc) (keys : List ResourceKey) : Shield → Prop
  | exempt => True
  | foreign => ∀ env cfg, E env cfg → ∀ k ∈ keys, k.denotes sc cfg.namespace ≠ id

/-- A shield looks at its own object only. -/
theorem covers_congr {E : Settings sc} {id : ObjId sc} {c d : Cluster sc} (shield : Shield)
    (hlook : d.lookup id = c.lookup id) (h : shield.covers E id c) : shield.covers E id d := by
  cases shield with
  | exempt =>
      intro live hlive
      exact h live (hlook ▸ hlive)
  | foreign =>
      intro env cfg hE hmanaged
      unfold ManagedAt at hmanaged
      rw [hlook] at hmanaged
      exact h env cfg hE hmanaged

end Shield

/-- The manifests of a commit, main resources and hooks. -/
def Classified.manifests (c : Classified) : List RawManifest :=
  c.main ++ c.hooks.map HookInfo.manifest

/-- No manifest of any commit names the object, by its key or by what is sent for it. -/
structure Unnamed (E : Settings sc) (id : ObjId sc) : Prop where
  key : ∀ {env cfg}, E env cfg → ∀ {sha applied c}, desired env sha cfg applied = .ok c →
    ∀ m ∈ c.manifests, ∀ {env' cfg'}, E env' cfg' →
      (ResourceKey.fromManifest m).denotes sc cfg'.namespace ≠ id
  sent : ∀ {env cfg}, E env cfg → ∀ {sha applied c}, desired env sha cfg applied = .ok c →
    ∀ m ∈ c.manifests, ∀ o, ¬ Sends env cfg m o id

/-- The object is nobody's business in the world: unnamed, and shielded as long as the other
clients leave the shield up. -/
structure Bystander (E : Settings sc) (shield : Shield) (id : ObjId sc) (w : World sc) :
    Prop where
  unnamed : Unnamed E id
  others : ∀ {env cfg}, E env cfg → ∀ n c, shield.covers E id c →
    shield.covers E id (env.others n c)
  covers : shield.covers E id w.cluster
  keys : shield.Allows E id (prevApplied w.stored)

/-- What a run keeps of an object: the shield, a property of what is stored, and that the
process has not touched it since. -/
structure Spared (E : Settings sc) (shield : Shield) (id : ObjId sc) (I : Option Live → Prop)
    (w t : World sc) : Prop where
  covers : shield.covers E id t.cluster
  keys : shield.Allows E id (prevApplied t.stored)
  value : I (t.cluster.lookup id)
  events : (adds fun e => ¬ e.touches id).rel w t

namespace Spared

variable {E : Settings sc} {shield : Shield} {id : ObjId sc} {I : Option Live → Prop}
  {w t u : World sc}

/-- A step that leaves the object and the state alone. -/
theorem step (h : Spared E shield id I w t) (hlook : u.cluster.lookup id = t.cluster.lookup id)
    (hstate : u.stateCm = t.stateCm) (hevents : (adds fun e => ¬ e.touches id).rel t u) :
    Spared E shield id I w u where
  covers := shield.covers_congr hlook h.covers
  keys := by
    rw [World.stored, hstate]
    exact h.keys
  value := hlook ▸ h.value
  events := (adds _).trans h.events hevents

end Spared

section
variable {E : Settings sc} {shield : Shield} {id : ObjId sc} {I : Option Live → Prop}
  {w : World sc} {env : Env sc} {cfg : Config}

/-- The frame of a run. -/
def sparing (E : Settings sc) (shield : Shield) (id : ObjId sc) (I : Option Live → Prop)
    (w : World sc) : Frame (World sc) :=
  .preserves (Spared E shield id I w)

/-- An event about another object does not touch this one. -/
theorem keeps_note_sparing {e : Event sc} (he : ¬ e.touches id) :
    Keeps (sparing E shield id I w) (note e) := fun _ h =>
  h.step rfl rfl (adds_cons rfl he)

/-- A patch of another object does not touch this one. -/
theorem keeps_servePatch_sparing {id' : ObjId sc} (hne : id' ≠ id) (o : DynamicObject)
    (dryRun : Bool) : Keeps (sparing E shield id I w) (KubeUtil.servePatch env id' o dryRun) := by
  intro _ h
  cases dryRun with
  | true => exact h
  | false => exact h.step (AList.lookup_insert_ne hne.symm) rfl (adds_cons rfl hne)

/-- A delete of another object does not touch this one. -/
theorem keeps_serveDelete_sparing {id' : ObjId sc} (hne : id' ≠ id) :
    Keeps (sparing E shield id I w) (KubeUtil.serveDelete env id') := by
  intro t h
  have hall : After (KubeUtil.serveDelete env id') t fun _ u => Spared E shield id I w u := by
    rw [after_serveDelete]
    cases t.cluster.lookup id' with
    | none => exact h
    | some live =>
        refine h.step ?_ rfl (adds_cons rfl hne)
        dsimp only
        cases env.onDelete t.step id' live with
        | none => exact AList.lookup_erase_ne hne.symm
        | some marked => exact AList.lookup_insert_ne hne.symm
  exact hall

/-- The steps of the others keep what the shield covers, as assumed of them. -/
theorem benign_sparing
    (hothers : ∀ n c, shield.covers E id c → shield.covers E id (env.others n c))
    (hI : ∀ n (c : Cluster sc), I (c.lookup id) → I ((env.others n c).lookup id)) :
    Benign env (sparing E shield id I w) where
  tick _ h := ⟨hothers _ _ h.covers, h.keys, hI _ _ h.value, h.events⟩
  transmit _ _ h := h.step rfl rfl ((adds _).refl _)
  sleep _ _ h := h.step rfl rfl ((adds _).refl _)
  lease _ _ _ h := h.step rfl rfl ((adds _).refl _)

/-! ### `prune` -/

/-- The safety net finds no key of an object without the label. -/
theorem after_safetyNet_foreign (hb : Benign env (sparing E .foreign id I w)) (hE : E env cfg)
    (current : List ResourceKey) (gvks : List GvkKey) {t : World sc}
    (h : Spared E .foreign id I w t) :
    After (safetyNet env cfg current gvks []) t fun res _ =>
      ∀ found cache, res = .ok (found, cache) →
        ∀ k ∈ found, k.denotes sc cfg.namespace ≠ id := by
  refine (after_safetyNet_finds hb.toInteracts current gvks ((sparing _ _ _ _ _).refl t)
    (List.forall_mem_nil _)).mono ?_
  intro res v hv found cache hres k hk hid
  obtain ⟨u, hu, -, -, hmanaged⟩ := ((hv.2 found cache hres).2 k hk).managed
  exact (hu h).covers env cfg hE (hid ▸ hmanaged)

/-- No turn of a key touches an exempt object. -/
theorem keeps_deleteKey_sparing (hb : Benign env (sparing E .exempt id I w)) (key : ResourceKey)
    (cache : KubeUtil.DiscoveryCache) :
    Keeps (sparing E .exempt id I w) (deleteKey env cfg cache key) := by
  by_cases hkey : key.denotes sc cfg.namespace = id
  · refine keeps_deleteKey_exempt hb.toInteracts ?_ cache
    rw [hkey]
    exact fun t h => h.covers
  · exact keeps_deleteKey hb.toInteracts (keeps_serveDelete_sparing hkey) cache

/-- `prune` spares a shielded object. -/
theorem keeps_prune_sparing (hb : Benign env (sparing E shield id I w)) (hE : E env cfg)
    {prev : List ResourceKey} (hprev : shield.Allows E id prev) (current : List ResourceKey) :
    Keeps (sparing E shield id I w) (prune env cfg prev current) := by
  cases shield with
  | exempt =>
      refine (keeps_hashGvks hb.toInteracts _).bind fun _ => ?_
      refine (keeps_safetyNet hb.toInteracts current _ []).bind fun _ => ?_
      refine (keeps_hashKeys hb.toInteracts _).bind fun _ => ?_
      exact keeps_turns (fun k _ => keeps_deleteKey_sparing hb k) _
  | foreign =>
      intro t h
      have hall : After (prune env cfg prev current) t fun _ u => Spared E .foreign id I w u := by
        rw [prune, after_bind]
        refine ((keeps_hashGvks hb.toInteracts _).after t).mono ?_
        intro res u hu
        cases res with
        | error e => exact hu h
        | ok gvks =>
            dsimp only
            rw [after_bind]
            refine (((keeps_safetyNet hb.toInteracts current gvks []).after u).and
              (after_safetyNet_foreign hb hE current gvks (hu h))).mono ?_
            intro res v hv
            cases res with
            | error e => exact hv.1 (hu h)
            | ok found =>
                -- No candidate denotes the object, so no delete is for it.
                have hdelete : Keeps (sparing E .foreign id I w) (do
                    let targets ← hashKeys env (deletionTargets prev current ++ found.1)
                    deleteKeys env cfg targets found.2) := by
                  refine (keeps_hashKeys hb.toInteracts _).bind_returns (returns_hashKeys _) ?_
                  intro targets htargets
                  refine keeps_deleteKeys hb.toInteracts (fun k hk => ?_) _
                  refine keeps_serveDelete_sparing ?_
                  rcases List.mem_append.mp ((htargets k).mp hk) with hk | hk
                  · exact hprev env cfg hE k (List.mem_filter.mp hk).1
                  · exact hv.2 found.1 found.2 rfl k hk
                exact hdelete v (hv.1 (hu h))
      exact hall

/-! ### A pass -/

section
variable (hu : Unnamed E id) (hE : E env cfg) {sha : String} {applied : List ResourceKey}
  {c : Classified} (hc : desired env sha cfg applied = .ok c)
include hu hE hc

/-- The applies of a pass are of manifests it names, and the object is none of theirs. -/
theorem allowsApply_sparing (dryRun : Bool) :
    AllowsApply env cfg (sparing E shield id I w) dryRun c.main where
  start m _ := keeps_note_sparing (fun h => h)
  patch m hm o id' hsends := by
    refine keeps_servePatch_sparing ?_ o dryRun
    rintro rfl
    exact hu.sent hE hc m (List.mem_append_left _ hm) o hsends

/-- The same of its hooks. -/
theorem allowsHooks_sparing : AllowsHooks env cfg (sparing E shield id I w) c.hooks where
  start i _ := keeps_note_sparing (fun h => h)
  patch i hi o id' hsends := by
    refine keeps_servePatch_sparing ?_ o false
    rintro rfl
    exact hu.sent hE hc i.manifest (List.mem_append_right _ (List.mem_map_of_mem hi)) o hsends
  delete i hi := keeps_serveDelete_sparing
    (hu.key hE hc i.manifest (List.mem_append_right _ (List.mem_map_of_mem hi)) hE)

/-- The keys of a commit do not denote the object. -/
theorem allows_keysOf : shield.Allows E id (ResourceKey.keysOf c.main) := by
  cases shield with
  | exempt => trivial
  | foreign =>
      intro env' cfg' hE' k hk
      obtain ⟨m, hm, rfl⟩ := List.mem_map.mp hk
      exact hu.key hE hc m (List.mem_append_left _ hm) hE'

/-- A branch of the pass puts the parts together: hooks and applies do not name the object, and the
prune passes it over because of its shield. -/
theorem keeps_branch_sparing (hb : Benign env (sparing E shield id I w)) {prev : Option State}
    (hprev : shield.Allows E id (prevApplied prev)) (guard : LeaseGuard) (sync : SyncOutcome) :
    Keeps (sparing E shield id I w) (branch env cfg guard prev sync c) := by
  have hhooks : AllowsHooks env cfg (sparing E shield id I w) c.hooks :=
    allowsHooks_sparing hu hE hc
  have hprune := keeps_prune_sparing hb hE hprev (ResourceKey.keysOf c.main)
  unfold Reconcile.branch
  split
  next =>
    have hpre := hhooks.sub fun i hi => Classified.mem_hooks.mpr (.inr (.inr (.inl hi)))
    have hpost := hhooks.sub fun i hi => Classified.mem_hooks.mpr (.inr (.inr (.inr hi)))
    exact (hb.preHooks hpre guard _).bind fun _ => hprune.bind fun _ =>
      (hb.postHooks hpost guard _).bind fun _ => Keeps.pure _
  next =>
    exact (hb.syncBranch (allowsApply_sparing hu hE hc false) hhooks guard prev sync).bind fun _ =>
      hprune.bind fun _ => Keeps.pure _

end

/-- A state whose keys do not denote the object is stored. -/
theorem keeps_stateWrite_sparing (hb : Benign env (sparing E shield id I w)) {s : State}
    (hs : shield.Allows E id s.applied) :
    Keeps (sparing E shield id I w) (State.write env s) := by
  refine hb.stateWrite ?_
  intro t h
  have hstored : World.stored { t with stateCm := some s.toData } = some s :=
    World.stored_of_stateCm rfl
  refine ⟨h.covers, ?_, h.value, (adds _).trans h.events (adds_cons rfl fun h => h)⟩
  show shield.Allows E id (prevApplied (World.stored { t with stateCm := some s.toData }))
  rw [hstored]
  exact hs

/-- What a pass knows as the applied set does not denote the object. -/
theorem Spared.allows_known {t : World sc} (h : Spared E shield id I w t) {prev : Option State}
    (hprev : Knows t prev) : shield.Allows E id (prevApplied prev) := by
  rcases hprev with rfl | rfl
  · exact h.keys
  · cases shield with
    | exempt => trivial
    | foreign => exact fun _ _ _ => List.forall_mem_nil _

/-- Every pass spares a shielded object that no manifest names. -/
theorem passRule_sparing (hu : Unnamed E id) (hE : E env cfg)
    (hb : Benign env (sparing E shield id I w)) :
    PassRule env cfg (Spared E shield id I w) where
  benign := hb
  validate sha applied c hc := allowsApply_sparing hu hE hc true
  execute guard prev sync c t ht hprev hc := by
    have hbranch := keeps_branch_sparing hu hE hc hb (ht.allows_known hprev) guard sync
    refine hb.execute (fun outcome health epoch => ?_) (fun t gvks h => ?_) hbranch t ht
    · exact keeps_stateWrite_sparing hb (allows_keysOf hu hE hc)
    · exact h.step rfl rfl ((adds _).refl _)
  record e prev t ht hprev := by
    refine keeps_stateWrite_sparing hb ?_ t ht
    cases prev with
    | none => exact ht.allows_known (.inr rfl)
    | some s => exact ht.allows_known hprev
  success t now ht := ht.step rfl rfl ((adds _).refl _)

end

/-- No run touches a bystander, and what is true of it stays true unless another client changes
it. -/
theorem bystander_spared {E : Settings sc} {shield : Shield} {id : ObjId sc} {w t : World sc}
    (h : Bystander E shield id w) (ht : (passesOf E w).Reachable t) :
    (adds fun e => ¬ e.touches id).rel w t ∧
      ∀ I : Option Live → Prop,
        (∀ env cfg, E env cfg → ∀ n (c : Cluster sc), I (c.lookup id) →
          I ((env.others n c).lookup id)) →
        I (w.cluster.lookup id) → I (t.cluster.lookup id) := by
  have hspared : ∀ I : Option Live → Prop,
      (∀ env cfg, E env cfg → ∀ n (c : Cluster sc), I (c.lookup id) →
        I ((env.others n c).lookup id)) →
      I (w.cluster.lookup id) → Spared E shield id I w t := by
    intro I hothers hI
    refine PassRule.holds (fun env cfg hE => ?_) ⟨h.covers, h.keys, hI, (adds _).refl w⟩ ht
    exact passRule_sparing h.unnamed hE (benign_sparing (h.others hE) (hothers env cfg hE))
  exact ⟨(hspared (fun _ => True) (fun _ _ _ _ _ _ => trivial) trivial).events,
    fun I hothers hI => (hspared I hothers hI).value⟩

/-! ### An object of someone else -/

/-- Passes over the repository with the one ConfigMap. -/
def syncedRuns : Settings .namespacedOnly := fun env cfg =>
  env = syncedEnv ∧ cfg = (syncedPass .off).cfg

/-- A ConfigMap without the label. -/
def strayId : ObjId .namespacedOnly :=
  (ResourceKey.mk "" "v1" "ConfigMap" (some "default") "stray").denotes _ "default"

/-- The world after a first pass, with the other ConfigMap in it. -/
def strayWorld : World .namespacedOnly :=
  { syncedWorld with
    cluster := syncedWorld.cluster.insert strayId
      ⟨⟨none, ⟨none, none, none, none, none, none, []⟩, []⟩, none, none⟩ }

/-- No commit of the example names the stray object. -/
theorem unnamed_stray : Unnamed syncedRuns strayId := by
  -- The commit of the example has one manifest, whatever was applied.
  have hsynced : ∀ {sha applied c},
      desired syncedEnv sha (syncedPass .off).cfg applied = .ok c →
        c.manifests = [settings (some "default")] := by
    intro sha applied c hc
    have hone : desired syncedEnv sha (syncedPass .off).cfg [] =
        .ok ⟨[], [settings (some "default")], [], [], []⟩ := by
      show desired syncedEnv "c1" (syncedPass .off).cfg [] = _
      decide +kernel
    rw [desired_unique hc hone]
    rfl
  constructor
  · rintro _ _ ⟨rfl, rfl⟩ sha applied c hc m hm _ _ ⟨rfl, rfl⟩
    rw [hsynced hc, List.mem_singleton] at hm
    subst hm
    decide
  · rintro _ _ ⟨rfl, rfl⟩ sha applied c hc m hm o ⟨value, name, hvalue, ho, hname, hid⟩
    rw [hsynced hc, List.mem_singleton] at hm
    subst hm
    -- What is sent for it is named `settings`.
    have hsent : ((Hooks.labelledValue syncedEnv (syncedPass .off).cfg
        (settings (some "default"))).toOption.bind fun v =>
          (syncedEnv.kube.fromValue v).toOption.bind (·.metadata.name)) = some "settings" := by
      decide +kernel
    rw [hvalue] at hsent
    have hsent : (syncedEnv.kube.fromValue value).toOption.bind (·.metadata.name) =
        some "settings" := hsent
    rw [ho] at hsent
    have hsent : o.metadata.name = some "settings" := hsent
    rw [hname, Option.some.injEq] at hsent
    have hstray : strayId.name = name := congrArg ObjId.name hid
    rw [hsent] at hstray
    exact absurd hstray (by decide)

/-- A pass of the controller leaves the other ConfigMap as it is. -/
theorem bystander_spared_stray :
    ∃ t, (passesOf syncedRuns strayWorld).Reachable t ∧ t.step ≠ 0 ∧
      t.cluster.lookup strayId = strayWorld.cluster.lookup strayId := by
  -- The stray object is no one's, carries no label, and the applied set of the start is empty.
  have hstray : Bystander syncedRuns .foreign strayId strayWorld := by
    refine ⟨unnamed_stray, ?_, ?_, ?_⟩
    · rintro _ _ ⟨rfl, rfl⟩ n c h
      exact h
    · rintro _ _ ⟨rfl, rfl⟩ ⟨live, hlook, hlabel⟩
      cases (AList.lookup_insert _).symm.trans hlook
      exact absurd hlabel (by decide)
    · rintro _ _ ⟨rfl, rfl⟩
      decide +kernel
  have hpass : (passesOf syncedRuns strayWorld).Reachable
      (Act.state (Command.controller.pass syncedEnv (syncedPass .off).cfg ⟨none, none, none⟩
        "pod:1" strayWorld)) :=
    .step (.init rfl) ⟨_, _, ⟨rfl, rfl⟩, .controller, _, _, rfl⟩
  refine ⟨_, hpass, by decide +kernel, ?_⟩
  exact (bystander_spared hstray hpass).2 (· = strayWorld.cluster.lookup strayId)
    (fun _ _ hE _ _ h => by rw [hE.1]; exact h) rfl

end LeanCd
