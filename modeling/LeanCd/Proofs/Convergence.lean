import LeanCd.Lib.Transition
import LeanCd.Proofs.PassStart
import LeanCd.Proofs.PlainCrates
import LeanCd.Proofs.Settled

/-!
# `LeanCd.Proofs.Convergence`: passes bring the cluster to the commit

`Converged` says that after a pass the managed live objects are the main manifests of
its commit and the kept objects of earlier ones, that each was last applied from its
manifest, and that the persisted applied set is the commit's key set.
`pass_converges` proves it for every pass in every run of `Orderly` passes, as long as
no pass meets a kind under two versions: one in the persisted applied set, the other in
its commit. `twoVersions_diverges` is a run of two passes over one commit with two
autoscalers, the second of which deletes both.

The history of a run is in the world: what was applied at some time is in its trace, and
`FormerlyApplied` reads it there. So the first part of `Converged` covers the objects of every
commit that came before. The proof is by the invariant `Settled`, and one pass is
`settled_reconcile`.
-/

set_option autoImplicit false

namespace LeanCd.Reconcile

open Act

variable {sc : Scopes} {env : Env sc} {cfg : Config}

/-! ### The property -/

/-- What a pass over the manifests leaves: `w` is the world before it and `t` after. -/
structure Converged (env : Env sc) (cfg : Config) (c : Classified) (w t : World sc) : Prop where
  managed : ∀ id, Managed cfg t.cluster id ↔
    (∃ m ∈ c.main, m.ident sc cfg = id) ∨ (FormerlyApplied cfg w id ∧ Kept w.cluster id)
  lastApplied : ∀ m ∈ c.main, ∃ live o, t.cluster.lookup (m.ident sc cfg) = some live ∧
    Sends env cfg m o (m.ident sc cfg) ∧ live.lastApplied = some o
  applied : t.stored.map (·.applied) = some (ResourceKey.keysOf c.main)

instance (applied : List ResourceKey) (c : Classified) : Decidable (SameVersions applied c) :=
  inferInstanceAs (Decidable (∀ k ∈ applied, ∀ m ∈ c.main, _ → _ → _ → _))

/-- The pass does not meet a kind under two versions. -/
def MeetsSameVersions (env : Env sc) (r : Reconciler) (w : World sc) : Prop :=
  ∀ x : Started env r w, ∀ c, desired env x.sync.sha r.cfg (prevApplied x.prev) = .ok c →
    SameVersions (prevApplied x.prev) c

/-- A cluster without managed objects, and no state. -/
structure Fresh (env : Env sc) (cfg : Config) (w : World sc) : Prop where
  stateCm : w.stateCm = none
  trace : w.trace = []
  managed : ∀ id, ¬ Managed cfg w.cluster id
  mains : MainsPlain env cfg w.cluster

/-- The runs of passes under one configuration, each to the branch or to a target of its
own, where every pass meets a condition. -/
def passes (env : Env sc) (cfg : Config) (P : Reconciler → World sc → Prop) :
    Transition.System (World sc) where
  init := Fresh env cfg
  step w t := ∃ r : Reconciler, r.cfg = cfg ∧ P r w ∧ t = Act.state (runOnce env r w)

/-- The cluster is reconciled, and the commit's keys are persisted. -/
theorem Reconciled.converged {c : Classified} {w t : World sc}
    (h : Reconciled env cfg c.main w t) {u : World sc} (hcluster : u.cluster = t.cluster)
    {s : State} (hstored : u.stored = some s) (happlied : s.applied = ResourceKey.keysOf c.main) :
    Converged env cfg c w u := by
  refine ⟨fun id => ?_, fun m hm => ?_, ?_⟩
  · rw [hcluster]
    exact h.managed id
  · obtain ⟨live, o, hlook, hsends, hlast, -⟩ := (h.main m hm).live
    exact ⟨live, o, by rw [hcluster]; exact hlook, hsends, hlast⟩
  · rw [hstored, Option.map_some, happlied]

/-- Hook work before the pass. -/
theorem Converged.after_hooks (ho : Orderly env cfg) {c : Classified} {w t u : World sc}
    (hw : Settled env cfg w) (hwt : HookWork env cfg w t) (h : Converged env cfg c t u) :
    Converged env cfg c w u where
  managed id := by
    rw [h.managed, hwt.former]
    -- An object that was applied is a main object, and hooks do not touch those.
    refine or_congr Iff.rfl
      (and_congr_right fun hformer => kept_congr (hwt.outside id fun hhook => ?_))
    exact ho.apart id hhook (hw.former id hformer).1
  lastApplied := h.lastApplied
  applied := h.applied

/-- Hook work after the pass. -/
theorem Converged.before_hooks (ho : Orderly env cfg) {c : Classified} (hc : Declares env cfg c)
    {w t u : World sc} (h : Converged env cfg c w t) (ht : Settled env cfg t)
    (htu : HookWork env cfg t u) : Converged env cfg c w u where
  managed id := by
    by_cases hid : HookObject env cfg id
    · rw [← h.managed]
      -- A hook object is not managed on either side.
      exact iff_of_false (htu.hooks ht.hooks id hid) (ht.hooks id hid)
    · rw [managed_congr (htu.outside id hid), h.managed]
  lastApplied m hm := by
    rw [htu.outside _ (ho.regular.not_hookObject hc hm)]
    exact h.lastApplied m hm
  applied := by
    rw [stored_of_hookWork htu]
    exact h.applied

/-! ### One pass -/

/-- The pass ended with a hook error, or it succeeded and converged. -/
def Ends (env : Env sc) (cfg : Config) (c : Classified) (w : World sc) (r : Except Error Unit)
    (t : World sc) : Prop :=
  Settled env cfg t ∧
    ((∃ text, r = .error (.hook text)) ∨ (r = .ok () ∧ Converged env cfg c w t))

section
variable (ho : Orderly env cfg)
include ho

/-- The write of a state. -/
theorem after_stateWrite {s : State} {w : World sc} {Q : Except Error Unit → World sc → Prop} :
    After (State.write env s) w Q ↔
      Q (.ok ()) { w.called env .statePatch with
        stateCm := some s.toData
        trace := .stateWritten s.toData :: w.trace } := by
  rw [State.write, ho.served.after_call]
  rfl

/-- The part of a pass that changes the cluster and the state. -/
theorem after_execute {c : Classified} {w : World sc} (hw : Settled env cfg w)
    (guard : LeaseGuard) {sync : SyncOutcome}
    (hdesired : desired env sync.sha cfg (prevApplied w.stored) = .ok c)
    (hsync : KnowsCommit w sync) (hversions : SameVersions (prevApplied w.stored) c) :
    After (execute env cfg guard w.stored sync c) w (Ends env cfg c w) := by
  have hB := ho.regular.benign_hookWork
  have hc : Declares env cfg c := ⟨sync.sha, _, hdesired⟩
  rw [execute, after_bind]
  refine (after_branch ho hw guard hdesired hsync hversions).mono ?_
  rintro _ t (⟨⟨text, rfl⟩, ht⟩ | ⟨⟨outcome, rfl⟩, ht⟩)
  -- A hook phase ended the pass before anything was applied or pruned.
  · exact ⟨hw.hookWork ho ht, .inl ⟨text, rfl⟩⟩
  · dsimp only
    rw [after_bind]
    refine (((hB.nextState guard w.stored sync c outcome).after t).and
      (((total_nextState guard w.stored sync c outcome).after t).and
        ((Benign.returns_nextState guard w.stored sync c outcome).after t))).mono ?_
    rintro _ u ⟨htu, ⟨s, rfl⟩, hstate⟩
    -- The state names the commit's keys and its revision, whatever the health is.
    obtain ⟨health, epoch, rfl⟩ := hstate s rfl
    have hu := ht.before_hooks ho hc (HookWork.trans htu (hB.called .statePatch u))
    dsimp only
    rw [after_bind, after_stateWrite ho]
    dsimp only
    rw [after_modify]
    have hstored : some (State.fromData (newState w.stored sync c outcome health epoch).toData) =
        some (newState w.stored sync c outcome health epoch) := by rw [State.fromData_toData]
    refine ⟨hu.settled ho hw hdesired rfl (fun id => ?_) hstored rfl rfl,
      .inr ⟨rfl, hu.converged rfl hstored rfl⟩⟩
    exact formerlyApplied_cons (e := .stateWritten _) rfl (fun _ => nofun) id

/-- A pass reads the stored state. -/
theorem after_stateRead {w : World sc} {Q : Except Error (Option State) → World sc → Prop} :
    After (State.read env) w Q ↔ Q (.ok w.stored) (w.called env .stateGet) := by
  rw [State.read, after_bind, after_attempt, ho.served.after_call]
  have hsame : (w.called env .stateGet).stateCm = w.stateCm := rfl
  unfold World.stored After State.serveGet
  rw [hsame]
  cases w.stateCm <;> rfl

/-- Recording an error keeps the persisted set and commit, and so a settled world. -/
theorem after_recordError {w : World sc} (hw : Settled env cfg w) (e : Error) :
    After (recordError env e) w fun _ t => Settled env cfg t := by
  have hB := ho.regular.benign_hookWork
  rw [recordError, after_bind, after_stateRead ho]
  dsimp only
  rw [after_stateWrite ho]
  have hticked := HookWork.trans (hB.called .stateGet w) (hB.called .statePatch _)
  refine hw.congr ho hticked.outside (hticked.hooks hw.hooks) (fun id => ?_) ?_ ?_
  -- The write of the state is no apply, so what was formerly applied is the same.
  · exact (formerlyApplied_cons (e := .stateWritten _) rfl (fun _ => nofun) id).trans
      (hticked.former id)
  -- The recorded state has the applied set of the one before, and so has its commit.
  · show ((some (State.fromData (errorState e w.stored).toData)).map (·.applied)).getD [] = _
    rw [State.fromData_toData]
    unfold errorState prevApplied
    cases w.stored <;> rfl
  · show (some (State.fromData (errorState e w.stored).toData)).bind (·.lastSha) = _
    rw [State.fromData_toData]
    unfold errorState
    cases w.stored <;> rfl

/-- What a pass that got as far as its checkout read: the stored state, and a commit that
is the persisted one unless it changed. -/
theorem started_reads {r : Reconciler} {w : World sc} (x : Started env r w) :
    x.prev = w.stored ∧ x.start.stored = w.stored ∧ KnowsCommit w x.sync := by
  have hprev : x.prev = w.stored := x.prev_eq_of_served ho.served
  refine ⟨hprev, stored_of_hookWork (x.rel ho.regular.benign_hookWork), fun hsame => ?_⟩
  rw [← hprev]
  exact x.lastSha_of_unchanged hsame

/-- A pass that got as far as its checkout, in a settled world. -/
theorem after_reconcile {r : Reconciler} (hr : r.cfg = cfg) {w : World sc}
    (hw : Settled env cfg w) (x : Started env r w) {c : Classified}
    (hdesired : desired env x.sync.sha cfg (prevApplied x.prev) = .ok c)
    (hversions : SameVersions (prevApplied x.prev) c) :
    After (reconcile env r) w (Ends env cfg c w) := by
  subst hr
  have hB := ho.regular.benign_hookWork
  obtain ⟨hprev, hstored, hsync⟩ := started_reads ho x
  have hstart : HookWork env r.cfg w x.start := x.rel hB
  have hc : Declares env r.cfg c := ⟨x.sync.sha, _, hdesired⟩
  rw [hprev] at hdesired hversions
  -- The pass is the branch, the health assessment and the write, and then the release.
  rw [x.toEntered.after_reconcile, x.after_inner, converge, hprev, hdesired, after_bind,
    after_ofExcept]
  dsimp only
  rw [after_ite, ho.notDryRun, if_neg (by decide), ← hstored]
  refine (after_execute ho (hw.hookWork ho hstart) x.guard (by rw [hstored]; exact hdesired)
    (by unfold KnowsCommit; rw [hstored]; exact hsync) (by rw [hstored]; exact hversions)).mono ?_
  rintro res t ⟨ht, hres⟩
  refine (hB.release.after t).mono fun _ u htu => ⟨ht.hookWork ho htu, hres.imp_right ?_⟩
  -- Hooks may still act after the write, which does not undo what was brought about.
  exact fun ⟨hok, hconv⟩ =>
    ⟨hok, (hconv.after_hooks ho hw hstart).before_hooks ho hc ht htu⟩

/-- What `run_once` adds to a pass: the time of a success, or the record of an error. -/
theorem after_runOnce {r : Reconciler} {w : World sc} {Q : Except Error Unit → World sc → Prop}
    (h : After (reconcile env r) w fun res t => Settled env cfg t ∧ Q res t)
    (hok : ∀ t u, Settled env cfg t → HookWork env cfg t u → Q (.ok ()) t → Q (.ok ()) u)
    (herror : ∀ e t u, Q (.error e) t → Q (.error e) u) :
    After (runOnce env r) w fun res t => Settled env cfg t ∧ Q res t := by
  refine after_runOnce_of (h.mono ?_)
  rintro res t ⟨ht, hQ⟩
  constructor
  · rintro rfl
    have hrecorded : HookWork env cfg t
        { t.ticked env with lastSuccess := some (env.wallClock t.step / second) } := by
      have htick := ho.regular.benign_hookWork.tick t
      exact ⟨htick.outside, htick.hooks, htick.former, htick.stateCm⟩
    exact ⟨ht.hookWork ho hrecorded, hok t _ ht hrecorded hQ⟩
  · rintro e rfl
    exact (after_recordError ho ht e).mono fun _ u hu => ⟨hu, herror e t u hQ⟩

/-- A pass leaves a settled world settled, if it does not meet a kind under two versions. -/
theorem settled_reconcile {r : Reconciler} (hr : r.cfg = cfg) {w : World sc}
    (hw : Settled env cfg w) (hmeets : MeetsSameVersions env r w) :
    After (reconcile env r) w fun _ t => Settled env cfg t := by
  have hB := ho.regular.benign_hookWork
  rcases started_or_benign env r w with ⟨⟨x⟩⟩ | hbenign
  -- The pass got as far as its checkout. It may still fail to parse, and then it only
  -- releases the Lease.
  · cases hdesired : desired env x.sync.sha r.cfg (prevApplied x.prev) with
    | ok c =>
        exact (after_reconcile ho hr hw x (hr ▸ hdesired) (hmeets x c hdesired)).mono
          fun _ t ht => ht.1
    | error e =>
        rw [x.toEntered.after_reconcile, x.after_inner, converge, hdesired, after_bind,
          after_ofExcept]
        exact (hB.release.after x.start).mono fun _ u hu =>
          hw.hookWork ho (HookWork.trans (x.rel hB) hu)
  · exact (hbenign (hookWork env cfg) hB).mono fun _ t ht => hw.hookWork ho ht

/-! ### The runs -/

omit ho in
/-- A fresh world is settled: no state is stored, and no object is managed. -/
theorem settled_of_fresh {w : World sc} (h : Fresh env cfg w) : Settled env cfg w := by
  have hstored : w.stored = none := by rw [World.stored, h.stateCm]; rfl
  have hformer : ∀ id, ¬ FormerlyApplied cfg w id := by
    rintro id ⟨k, hk, -⟩
    rw [h.trace] at hk
    cases hk
  refine ⟨fun id _ => h.managed id, h.mains, fun id hid => absurd hid (hformer id),
    fun id hid => absurd hid (h.managed id), fun k hk => ?_, fun sha hsha => ?_⟩
  · rw [hstored] at hk
    cases hk
  · rw [hstored] at hsha
    cases hsha

/-- Between the passes of a run, the world is settled. -/
theorem settled_invariant :
    (passes env cfg (MeetsSameVersions env)).Invariant (Settled env cfg) where
  init := settled_of_fresh
  step := by
    rintro w t - hw ⟨r, hr, hmeets, rfl⟩
    have h := after_runOnce (Q := fun _ _ => True) ho
      ((settled_reconcile ho hr hw hmeets).mono fun _ t ht => ⟨ht, trivial⟩)
      (fun _ _ _ _ _ => trivial) fun _ _ _ _ => trivial
    exact h.1

/-- In every run whose passes do not meet a kind under two versions, a pass that finds its
manifests ends with a hook error, or succeeds and brings the cluster to its commit. -/
theorem pass_converges {w : World sc}
    (hw : (passes env cfg (MeetsSameVersions env)).Reachable w) {r : Reconciler}
    (hr : r.cfg = cfg) (hmeets : MeetsSameVersions env r w) (x : Started env r w)
    {c : Classified} (hdesired : desired env x.sync.sha cfg (prevApplied x.prev) = .ok c) :
    After (runOnce env r) w fun res t =>
      (∃ text, res = .error (.hook text)) ∨ (res = .ok () ∧ Converged env cfg c w t) := by
  have hsettled := (settled_invariant ho).holds hw
  refine (after_runOnce (Q := fun res t => (∃ text, res = .error (.hook text)) ∨
    (res = .ok () ∧ Converged env cfg c w t)) ho
    (after_reconcile ho hr hsettled x hdesired (hmeets x c (hr ▸ hdesired))) ?_ ?_).mono
    fun _ t ht => ht.2
  · rintro t u ht htu (⟨text, htext⟩ | ⟨-, hconv⟩)
    · cases htext
    · exact .inr ⟨rfl, hconv.before_hooks ho ⟨_, _, hdesired⟩ ht htu⟩
  · rintro e t u (⟨text, htext⟩ | ⟨herror, -⟩)
    · exact .inl ⟨text, htext⟩
    · cases herror

end

/-! ### Two autoscalers -/

/-- The document of an autoscaler. -/
def autoscalerValue (version name : String) : Value := .object
  [("apiVersion", .string ("autoscaling/" ++ version)), ("kind", .string "HorizontalPodAutoscaler"),
    ("metadata", .object [("name", .string name), ("namespace", .string "web")])]

/-- Its manifest. -/
def autoscaler (version name : String) : RawManifest :=
  ⟨"autoscaling", version, "HorizontalPodAutoscaler", name, some "web", name, []⟩

/-- Two autoscalers, the second under a version of its own. -/
def autoscalers (version : String) : Classified :=
  ⟨[], [autoscaler "v2" "api", autoscaler version "worker"], [], [], []⟩

/-- The repository with the two documents. -/
def autoscalersEnv (version : String) : Env .namespacedOnly :=
  .calm _ (.table [("all", [autoscalerValue "v2" "api", autoscalerValue version "worker"])]
    [("api", autoscalerValue "v2" "api"), ("worker", autoscalerValue version "worker")])
    (gitAt "c1") fun _ => .oneFile "/tmp/leancd-work-1/." "all"

/-- The cluster before the first pass. -/
def emptyWorld : World .namespacedOnly := .fresh ∅ none

/-- The world after the first pass. -/
def autoscalersWorld (version : String) : World .namespacedOnly :=
  Act.state (runOnce (autoscalersEnv version) (syncedPass .off) emptyWorld)

/-- Every revision of the repository has the two manifests. -/
theorem declares_autoscalers {version : String}
    (h : desired (autoscalersEnv version) "c1" (syncedPass .off).cfg [] = .ok (autoscalers version))
    {c : Classified} (hc : Declares (autoscalersEnv version) (syncedPass .off).cfg c) :
    c = autoscalers version := by
  obtain ⟨sha, applied, hdesired⟩ := hc
  -- Every commit of the example has the same tree.
  have hsame : desired (autoscalersEnv version) sha (syncedPass .off).cfg [] =
      .ok (autoscalers version) := h
  exact desired_unique hdesired hsame

/-- The two manifests can be sent. -/
theorem sendable_autoscalers (version : String) :
    ∀ m ∈ (autoscalers version).main,
      Sendable (autoscalersEnv version) (syncedPass .off).cfg m := by
  intro m hm
  rcases List.mem_cons.mp hm with rfl | hm
  · refine ⟨⟨_, _, _, _, rfl, rfl, rfl, rfl⟩, fun v hv => ?_⟩
    cases hv
    exact .inl rfl
  · cases List.mem_singleton.mp hm
    refine ⟨⟨_, _, _, _, rfl, rfl, rfl, rfl⟩, fun v hv => ?_⟩
    cases hv
    exact .inl rfl

/-- The example with two autoscalers meets the assumptions, for both versions. -/
theorem orderly_autoscalers {version : String}
    (h : desired (autoscalersEnv version) "c1" (syncedPass .off).cfg [] =
      .ok (autoscalers version)) :
    Orderly (autoscalersEnv version) (syncedPass .off).cfg := by
  have hdocs : (["api", "worker"] : List String).Nodup := by decide
  refine orderly_calm hdocs rfl (fun _ => declares_autoscalers h)
    (sendable_autoscalers version) (fun m hm => ?_) ?_ (List.forall_mem_nil _)
  · rcases List.mem_cons.mp hm with rfl | hm
    · rfl
    · cases List.mem_singleton.mp hm
      rfl
  · refine List.nodup_cons.mpr ⟨fun hmem => ?_, List.nodup_singleton _⟩
    have hname : "api" = "worker" := congrArg ObjId.name (List.mem_singleton.mp hmem)
    exact absurd hname (by decide)

/-- The empty world is fresh under every configuration. -/
theorem fresh_emptyWorld (env : Env .namespacedOnly) (cfg : Config) : Fresh env cfg emptyWorld where
  stateCm := rfl
  trace := rfl
  managed := by
    rintro id ⟨live, hlook, -⟩
    cases hlook
  mains id live _ hlook := by cases hlook

/-- What a pass meets, from the stored state. -/
theorem meetsSameVersions_of_stored (ho : Orderly env cfg) {r : Reconciler} (hr : r.cfg = cfg)
    {w : World sc}
    (h : ∀ c, Declares env cfg c → SameVersions (prevApplied w.stored) c) :
    MeetsSameVersions env r w := by
  intro x c hdesired
  rw [(started_reads ho x).1] at hdesired ⊢
  exact h c ⟨_, _, hr ▸ hdesired⟩

/-- The second autoscaler is declared under `v1`. The second pass over the commit takes
both for orphans, succeeds, and leaves neither. -/
theorem twoVersions_diverges :
    Orderly (autoscalersEnv "v1") (syncedPass .off).cfg ∧
      (passes (autoscalersEnv "v1") (syncedPass .off).cfg fun _ _ => True).Reachable
        (autoscalersWorld "v1") ∧
      (∃ x : Started (autoscalersEnv "v1") (syncedPass .off) (autoscalersWorld "v1"),
        desired (autoscalersEnv "v1") x.sync.sha (syncedPass .off).cfg (prevApplied x.prev) =
          .ok (autoscalers "v1")) ∧
      After (runOnce (autoscalersEnv "v1") (syncedPass .off)) (autoscalersWorld "v1") fun res t =>
        res.isOk ∧ ¬ Converged (autoscalersEnv "v1") (syncedPass .off).cfg (autoscalers "v1")
          (autoscalersWorld "v1") t := by
  have hfirst : (passes (autoscalersEnv "v1") (syncedPass .off).cfg fun _ _ => True).Reachable
      emptyWorld := .init (fresh_emptyWorld _ _)
  have hstart : ∃ x ∈ Started.run (autoscalersEnv "v1") (syncedPass .off) (autoscalersWorld "v1"),
      desired (autoscalersEnv "v1") x.sync.sha (syncedPass .off).cfg (prevApplied x.prev) =
        .ok (autoscalers "v1") := by decide +kernel
  obtain ⟨x, -, hdesired⟩ := hstart
  refine ⟨orderly_autoscalers (by decide +kernel), hfirst.step ⟨_, rfl, trivial, rfl⟩,
    ⟨x, hdesired⟩, ?_, fun hconv => ?_⟩
  · show (Act.value (runOnce (autoscalersEnv "v1") (syncedPass .off)
      (autoscalersWorld "v1"))).isOk = true
    decide +kernel
  · obtain ⟨live, hlook, -⟩ :=
      (hconv.managed _).mpr (.inl ⟨autoscaler "v2" "api", List.mem_cons_self, rfl⟩)
    -- The object under `v2` is among the main objects, and it is gone.
    have hgone : (Act.state (runOnce (autoscalersEnv "v1") (syncedPass .off)
        (autoscalersWorld "v1"))).cluster.lookup
          ((autoscaler "v2" "api").ident _ (syncedPass .off).cfg) = none := by decide +kernel
    exact absurd (hgone.symm.trans hlook) nofun

/-- With both autoscalers under one version, the second pass converges. -/
theorem pass_converges_autoscalers :
    After (runOnce (autoscalersEnv "v2") (syncedPass .off)) (autoscalersWorld "v2") fun res t =>
      (∃ text, res = .error (.hook text)) ∨
        (res = .ok () ∧ Converged (autoscalersEnv "v2") (syncedPass .off).cfg (autoscalers "v2")
          (autoscalersWorld "v2") t) := by
  have hone : desired (autoscalersEnv "v2") "c1" (syncedPass .off).cfg [] =
      .ok (autoscalers "v2") := by decide +kernel
  have ho := orderly_autoscalers hone
  have hmeets : ∀ w, SameVersions (prevApplied w.stored) (autoscalers "v2") →
      MeetsSameVersions (autoscalersEnv "v2") (syncedPass .off) w := fun w h =>
    meetsSameVersions_of_stored ho rfl fun c hc => by rw [declares_autoscalers hone hc]; exact h
  have hfirst : (passes (autoscalersEnv "v2") (syncedPass .off).cfg
      (MeetsSameVersions (autoscalersEnv "v2"))).Reachable emptyWorld :=
    .init (fresh_emptyWorld _ _)
  have hsecond := hfirst.step ⟨_, rfl, hmeets emptyWorld (by decide +kernel), rfl⟩
  have hstart : ∃ x ∈ Started.run (autoscalersEnv "v2") (syncedPass .off) (autoscalersWorld "v2"),
      desired (autoscalersEnv "v2") x.sync.sha (syncedPass .off).cfg (prevApplied x.prev) =
        .ok (autoscalers "v2") := by decide +kernel
  obtain ⟨x, -, hdesired⟩ := hstart
  exact pass_converges ho hsecond rfl (hmeets _ (by decide +kernel)) x hdesired

end LeanCd.Reconcile
