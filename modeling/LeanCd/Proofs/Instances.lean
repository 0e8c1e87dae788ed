import LeanCd.Proofs.DeclaredHooks
import LeanCd.Proofs.Isolation
import LeanCd.Proofs.PassPrune
import LeanCd.Proofs.PassRuns

/-!
# `LeanCd.Proofs.Instances`: several instances in one cluster

Instances of the program share a cluster. Each has a managed label with a value of its own, a
Lease, a state ConfigMap and a repository. The passes of one instance go on while those of another
run: between any two calls of a pass the other clients may act, the other instances among them.

`instanceRuns` are the runs of one instance in such a cluster: its passes, each with an
environment, a commit and an applied set of its own, and what the other clients do between two
passes. What they do within a pass is in its environment. Nothing is assumed of the others except
that they apply under their own names (`Unforged`), which is what a pass of another instance does
(`unforged_pass`). They may apply an object that this instance declares, create it, relabel it or
take it away at any time.

The results:

* `isolated_of_run`: in every run whose passes meet the condition `KeepsToOwn`, each object that a
  prune deleted carried the label when it was read, was applied last by this instance when it was
  deleted, and had been patched by this instance before. So none was applied last by another
  instance, and none is an object whose apply always failed.
* `takenOver_deleted`: a run without the condition. Another instance applies an object, it leaves
  the repository of the first, and the prune of the first deletes it.
* `isolated_of_run_dropped`: a run with the condition, in which a prune deletes an object.

The condition is about a pass when its prune starts (`OnlyOwn`) and about what the others do while
it runs (`LeftAlone`). `Prune.isolated_iff` says that the first part is exact.

The proof has one invariant, `Backed`: what the instance applied last is in its own history. The
rest is `isolated_of_onlyOwn` at each prune.
-/

set_option autoImplicit false

namespace LeanCd

open Act Transition

variable {sc : Scopes} {env : Env sc} {cfg : Config}

/-! ### What the history says of the live objects -/

/-- Every object that the client applied last was patched in the history of the process. -/
def Backed (me : String) (w : World sc) : Prop :=
  ∀ id live, w.cluster.lookup id = some live → live.appliedBy = some me →
    ∃ o, .patched id o ∈ w.trace

/-- A step that leaves the objects alone keeps it. -/
theorem Backed.step {me : String} {w t : World sc} (h : Backed me w)
    (hcluster : t.cluster = w.cluster) (htrace : ∀ e ∈ w.trace, e ∈ t.trace) : Backed me t := by
  intro id live hlook hlast
  obtain ⟨o, ho⟩ := h id live (hcluster ▸ hlook) hlast
  exact ⟨o, htrace _ ho⟩

/-- Interactions keep the history complete: the others do not apply under this client's name, and
the rest does not touch the objects. -/
theorem Env.Recorded.benign (h : env.Recorded) : Benign env (.preserves (Backed env.client)) where
  tick w hw := by
    intro id live' hlook' hlast'
    obtain ⟨live, hlook, hlast⟩ := h.others w.step w.cluster id live' hlook' hlast'
    exact hw id live hlook hlast
  transmit _ _ hw := hw.step rfl fun _ he => he
  sleep _ _ hw := hw.step rfl fun _ he => he
  lease _ _ _ hw := hw.step rfl fun _ he => he

/-- A patch enters the object into the cluster and its event into the trace at once. -/
theorem keeps_servePatch_backed (id : ObjId sc) (o : DynamicObject) (dryRun : Bool) :
    Keeps (.preserves (Backed env.client)) (KubeUtil.servePatch env id o dryRun) := by
  intro w hw
  cases dryRun with
  | true => exact hw
  | false =>
      intro id' live hlook hlast
      by_cases heq : id' = id
      · subst heq
        exact ⟨o, List.mem_cons_self⟩
      · obtain ⟨o', ho'⟩ := hw id' live ((AList.lookup_insert_ne heq).symm.trans hlook) hlast
        exact ⟨o', List.mem_cons_of_mem _ ho'⟩

/-- A delete takes an object away or marks it. The one that is left had been applied by whom it was
before. -/
theorem Env.Recorded.keeps_serveDelete (h : env.Recorded) (id : ObjId sc) :
    Keeps (.preserves (Backed env.client)) (KubeUtil.serveDelete env id) := by
  intro w hw id' live' hlook' hlast'
  obtain ⟨live, hlook, hmark⟩ := (@live_before_delete _ env id w).2 id' live' hlook'
  obtain ⟨o, ho⟩ := hw id' live hlook (h.same hmark ▸ hlast')
  have hgrows : Keeps (adds fun _ : Event sc => True) (KubeUtil.serveDelete env id) :=
    keeps_serveDelete_adds (fun _ => trivial) id
  obtain ⟨new, htrace, -⟩ := hgrows w
  exact ⟨o, by rw [htrace]; exact List.mem_append_right _ ho⟩

namespace Reconcile

open Prune

/-- So every pass keeps the history complete. -/
theorem passRule_backed (h : env.Recorded) : PassRule env cfg (Backed env.client) :=
  passRule_of_writes h.benign (fun _ _ hw => hw.step rfl fun _ => List.mem_cons_of_mem _)
    keeps_servePatch_backed h.keeps_serveDelete
    (fun _ _ hw => hw.step rfl fun _ => List.mem_cons_of_mem _)
    (fun _ _ hw => hw.step rfl fun _ he => he) fun _ _ hw => hw.step rfl fun _ he => he

/-- What a pass of another instance does is done under the name of that instance. -/
theorem unforged_pass {me : String} (hname : env.client ≠ me)
    (hothers : ∀ n c, Unforged me c (env.others n c)) (hrecord : env.Recorded) {r : Reconciler}
    (w : World sc) : Unforged me w.cluster (state (runOnce env r w)).cluster := by
  have hrefl : Unforged me w.cluster w.cluster := fun _ live hlook hlast => ⟨live, hlook, hlast⟩
  -- The others write their own names, never this one.
  have hb : Benign env (.preserves fun t => Unforged me w.cluster t.cluster) := by
    refine benign_preserves fun n c hc id live' hlook' hlast' => ?_
    obtain ⟨live, hlook, hlast⟩ := hothers n c id live' hlook' hlast'
    exact hc id live hlook hlast
  have hrule : PassRule env r.cfg fun t => Unforged me w.cluster t.cluster := by
    refine passRule_of_writes hb (fun _ _ ht => ht) (fun id o dryRun t ht => ?_)
      (fun id t ht => ?_) (fun _ _ ht => ht) (fun _ _ ht => ht) fun _ _ ht => ht
    · cases dryRun with
      -- A dry patch is not stored, so no entry is touched.
      | true => exact ht
      | false =>
          intro id' live' hlook' hlast'
          -- The patched object now carries this client's name, which is not the other one.
          by_cases heq : id' = id
          · subst heq
            cases (AList.lookup_insert _).symm.trans hlook'
            exact absurd (Option.some.inj hlast') hname
          · exact ht id' live' ((AList.lookup_insert_ne heq).symm.trans hlook') hlast'
    -- A delete may leave a marked object, with the entry that it had.
    · intro id' live' hlook' hlast'
      obtain ⟨live, hlook, hmark⟩ := (@live_before_delete _ env id t).2 id' live' hlook'
      exact ht id' live hlook (hrecord.same hmark ▸ hlast')
  exact hrule.keeps_runOnce rfl w hrefl

/-! ### The runs of an instance -/

/-- An instance of the program: the name of its client, and its managed label. -/
structure Instance where
  client : String
  label : String × String
deriving DecidableEq

/-- A deletion by a prune, with the world in which the prune started. -/
structure Removal (sc : Scopes) where
  before : World sc
  deletion : Deletion sc

/-- What a prune deletes. -/
def PrunePoint.removals {r : Reconciler} {w : World sc} (x : PrunePoint env r w) :
    List (Removal sc) :=
  (readings env r.cfg (prevApplied x.prev) x.current x.before).map (⟨x.before, ·⟩)

/-- An instance as it stands in its run, and what its prunes have deleted. -/
structure InstanceRun (sc : Scopes) where
  world : World sc
  removals : List (Removal sc)

/-- A pass of an instance, which is one of any commit, with others acting within it; or others act
between two passes. -/
inductive InstanceStep (me : Instance) (P : Env sc → Reconciler → World sc → Prop) :
    InstanceRun sc → InstanceRun sc → Prop
  | pruning {s : InstanceRun sc} (env : Env sc) (r : Reconciler) (hclient : env.client = me.client)
      (hlabel : r.cfg.selector = me.label) (hmarks : env.MarksOnly) (hrecord : env.Recorded)
      (hP : P env r s.world) (x : PrunePoint env r s.world) :
      InstanceStep me P s ⟨state (runOnce env r s.world), x.removals ++ s.removals⟩
  | stopped {s : InstanceRun sc} (env : Env sc) (r : Reconciler) (hclient : env.client = me.client)
      (hlabel : r.cfg.selector = me.label) (hmarks : env.MarksOnly) (hrecord : env.Recorded)
      (hP : P env r s.world) (hno : IsEmpty (PrunePoint env r s.world)) :
      InstanceStep me P s ⟨state (runOnce env r s.world), s.removals⟩
  | others {s : InstanceRun sc} (cluster : Cluster sc)
      (hrecord : Unforged me.client s.world.cluster cluster) :
      InstanceStep me P s ⟨{ s.world with cluster }, s.removals⟩

/-- The runs of an instance that is new to the cluster, whose passes meet a condition. -/
def instanceRuns (sc : Scopes) (me : Instance) (P : Env sc → Reconciler → World sc → Prop) :
    System (InstanceRun sc) where
  init s := s.removals = [] ∧ Backed me.client s.world
  step := InstanceStep me P

/-- The condition on a pass: when its prune starts, every object that it takes up is exempt or the
instance's own, and while it runs the others leave these objects alone. -/
def KeepsToOwn (env : Env sc) (r : Reconciler) (w : World sc) : Prop :=
  ∀ x : PrunePoint env r w,
    OnlyOwn r.cfg env.client (prevApplied x.prev) x.current x.before.cluster ∧
      LeftAlone env r.cfg (prevApplied x.prev) x.current x.before x.after

/-- The deletion was one of the instance's own objects: it carried the label when it was read, no
other instance had applied it last when it was deleted, and an apply of it by the instance had been
carried out. -/
structure Removal.Isolated (me : Instance) (x : Removal sc) : Prop where
  managed : x.deletion.read.object.labelled me.label = true
  last : x.deletion.removed.appliedBy = some me.client
  applied : ∃ o, .patched x.deletion.id o ∈ x.before.trace

/-! ### One pass -/

/-- A frame that a branch respects is respected before its prune. -/
theorem keeps_beforePrune {F : Frame (World sc)} (hb : Benign env F) {c : Classified}
    (hmain : AllowsApply env cfg F false c.main) (hhooks : AllowsHooks env cfg F c.hooks)
    (guard : LeaseGuard) (prev : Option State) (sync : SyncOutcome) :
    Keeps F (beforePrune env cfg guard prev sync c) := by
  have hpre := hhooks.sub fun i hi => Classified.mem_hooks.mpr (.inr (.inr (.inl hi)))
  unfold beforePrune
  split
  · exact (hb.preHooks hpre guard _).bind fun _ => Keeps.pure _
  · exact hb.syncBranch hmain hhooks guard prev sync

section
variable {me : Instance} {r : Reconciler} {w : World sc} (hrecord : env.Recorded)
include hrecord

/-- The history backs the live objects when the prune starts. -/
theorem PrunePoint.backed (x : PrunePoint env r w) (hw : Backed env.client w) :
    Backed env.client x.before := by
  have hb := hrecord.benign
  have hmain : AllowsApply env r.cfg (.preserves (Backed env.client)) false
      (Hooks.classify x.manifests).main :=
    ⟨fun _ _ _ hw => hw.step rfl fun _ => List.mem_cons_of_mem _,
      fun _ _ o id _ => keeps_servePatch_backed id o false⟩
  have hhooks : AllowsHooks env r.cfg (.preserves (Backed env.client))
      (Hooks.classify x.manifests).hooks :=
    ⟨fun _ _ _ hw => hw.step rfl fun _ => List.mem_cons_of_mem _,
      fun _ _ o id _ => keeps_servePatch_backed id o false, fun _ _ => hrecord.keeps_serveDelete _⟩
  exact (keeps_beforePrune hb hmain hhooks x.guard x.prev x.sync).of_ok x.reached
    (x.toStarted.rel hb hw)

/-- What a prune deletes and the instance had applied last it had patched before. -/
theorem PrunePoint.applied (x : PrunePoint env r w) (hw : Backed env.client w) {d : Deletion sc}
    (hd : d ∈ readings env r.cfg (prevApplied x.prev) x.current x.before)
    (hlast : d.removed.appliedBy = some env.client) : ∃ o, .patched d.id o ∈ x.before.trace := by
  -- Nothing but deletes goes into the history of a prune.
  have hin : Interacts env ((Frame.preserves (Backed env.client)).both
      (adds fun e : Event sc => ∃ id, e = .deleted id)) :=
    hrecord.benign.toInteracts.both interacts_adds
  obtain ⟨-, -, -, u, req, hbu, -, -, hremoved⟩ := readIn_of_readings hin (fun id =>
    (hrecord.keeps_serveDelete id).both (keeps_serveDelete_adds (fun id => ⟨id, rfl⟩) id)) hd
  have hcalled := (Frame.both _ _).trans hbu (hin.called req u)
  obtain ⟨o, ho⟩ := hcalled.1 (x.backed hrecord hw) d.id d.removed hremoved hlast
  obtain ⟨new, htrace, hnew⟩ := hcalled.2
  rw [htrace, List.mem_append] at ho
  refine ⟨o, ho.resolve_left fun hmem => ?_⟩
  obtain ⟨id, hid⟩ := hnew _ hmem
  cases hid

/-- A pass that meets the condition keeps to the instance's own objects. -/
theorem PrunePoint.isolated (x : PrunePoint env r w) (hclient : env.client = me.client)
    (hlabel : r.cfg.selector = me.label) (hmarks : env.MarksOnly) (hown : KeepsToOwn env r w)
    (hw : Backed me.client w) {y : Removal sc} (hy : y ∈ x.removals) : y.Isolated me := by
  obtain ⟨d, hd, rfl⟩ := List.mem_map.mp hy
  have hisolated := isolated_of_onlyOwn hmarks hrecord (hown x).2 (hown x).1 hd
  exact ⟨hlabel ▸ hisolated.managed, hclient ▸ hisolated.last,
    x.applied hrecord (hclient ▸ hw) hd hisolated.last⟩

end

/-! ### Every run -/

/-- What a run keeps: the history backs the live objects, and every deletion was isolated. -/
structure KeptApart (me : Instance) (s : InstanceRun sc) : Prop where
  backed : Backed me.client s.world
  removals : ∀ y ∈ s.removals, y.Isolated me

/-- The invariant of the runs of an instance. Where a pass prunes, its deletions are isolated by the
condition; in every step the history stays complete. -/
theorem invariant_keptApart (me : Instance) :
    (instanceRuns sc me KeepsToOwn).Invariant (KeptApart me) where
  init := by
    rintro s ⟨hnone, hbacked⟩
    refine ⟨hbacked, ?_⟩
    rw [hnone]
    exact List.forall_mem_nil _
  step := by
    intro s t _ hs hstep
    cases hstep with
    | pruning env r hclient hlabel hmarks hrecord hown x =>
        -- The pass backs what it last applied by its own trace.
        have hpass := (passRule_backed hrecord).keeps_runOnce (r := r) rfl s.world
        rw [hclient] at hpass
        refine ⟨hpass hs.backed, ?_⟩
        intro y hy
        -- What an earlier pass removed is as it was. What this one removed lies within its own
        -- prune.
        rcases List.mem_append.mp hy with hy | hy
        · exact x.isolated hrecord hclient hlabel hmarks hown hs.backed hy
        · exact hs.removals y hy
    -- The pass ended before its prune and removed nothing there.
    | stopped env r hclient hlabel hmarks hrecord hown hno =>
        have hpass := (passRule_backed hrecord).keeps_runOnce (r := r) rfl s.world
        rw [hclient] at hpass
        exact ⟨hpass hs.backed, hs.removals⟩
    -- The others may touch anything but what would pass for this instance's own work.
    | others cluster hrecord =>
        refine ⟨?_, hs.removals⟩
        intro id live' hlook' hlast'
        obtain ⟨live, hlook, hlast⟩ := hrecord id live' hlook' hlast'
        exact hs.backed id live hlook hlast

/-- **Instances are isolated**, in every run whose passes meet the condition, whatever the other
clients do in between and elsewhere. -/
theorem isolated_of_run {me : Instance} {s : InstanceRun sc}
    (h : (instanceRuns sc me KeepsToOwn).Reachable s) : ∀ y ∈ s.removals, y.Isolated me :=
  ((invariant_keptApart me).holds h).removals

/-! ### Two teams -/

/-- A repository with two ConfigMaps at `c1`, of which `settings` leaves at `c2`, for a client. -/
def sharedEnv (client sha : String) : Env .namespacedOnly :=
  { Env.calm .namespacedOnly
      (.table [("c1", [syncedValue, otherValue]), ("c2", [otherValue])]
        [("settings", syncedValue), ("other", otherValue)])
      (gitAt sha) (.oneFile "/tmp/leancd-work-1/.") with client }

/-- In the example every delete removes its object at once, so none is ever marked. -/
theorem marksOnly_shared (client sha : String) : (sharedEnv client sha).MarksOnly := by
  intro n id live marked hmark
  cases hmark

/-- In the example who applied an object last changes with an apply only. -/
theorem recorded_shared (client sha : String) : (sharedEnv client sha).Recorded where
  others _ _ _ live hlook hlast := ⟨live, hlook, hlast⟩
  marks n id live marked hmark := by cases hmark

/-- In the example nobody applies under the name of the first team but the team itself. -/
theorem others_shared {client sha : String} (n : Nat) (c : Cluster .namespacedOnly) :
    Unforged "team-a" c ((sharedEnv client sha).others n c) :=
  fun _ live hlook hlast => ⟨live, hlook, hlast⟩

/-- The instance of the first team. -/
def teamA : Instance := ⟨"team-a", (syncedPass .off).cfg.selector⟩

/-- The passes of the second team, with a label value of its own. -/
def teamBPass : Reconciler :=
  { syncedPass .off with cfg := { (syncedPass .off).cfg with managedLabelValue := "team-b" } }

/-- The world of the first team after its pass at `c1`. -/
def teamAWorld : World .namespacedOnly :=
  state (runOnce (sharedEnv "team-a" "c1") (syncedPass .off) (.fresh ∅ none))

/-- The world of the first team after a pass of the second. -/
def sharedWorld : World .namespacedOnly :=
  { teamAWorld with
    cluster := (state (runOnce (sharedEnv "team-b" "c1") teamBPass
      (.fresh teamAWorld.cluster none))).cluster }

/-- What is known of a deletion: whether the label was there, and who had applied the object. -/
def Removal.facts (me : Instance) (y : Removal sc) : ObjId sc × Bool × Option String :=
  (y.deletion.id, y.deletion.read.object.labelled me.label, y.deletion.removed.appliedBy)

/-- A pass that reaches a prune is one step of a run, which records what the prune deleted. -/
theorem reachable_pruning {me : Instance} {P : Env sc → Reconciler → World sc → Prop}
    {w t : World sc} {deleted : List (Removal sc)} {r : Reconciler}
    (h : (instanceRuns sc me P).Reachable ⟨w, deleted⟩) (hclient : env.client = me.client)
    (hlabel : r.cfg.selector = me.label) (hmarks : env.MarksOnly) (hrecord : env.Recorded)
    (hP : P env r w) {facts : List (ObjId sc × Bool × Option String)}
    (hrun : (PrunePoint.run env r w).map (fun x => x.removals.map (·.facts me)) = some facts)
    (ht : t = state (runOnce env r w)) :
    ∃ removals : List (Removal sc), removals.map (·.facts me) = facts ∧
      (instanceRuns sc me P).Reachable ⟨t, removals ++ deleted⟩ := by
  subst ht
  obtain ⟨x, -, hx⟩ := Option.map_eq_some_iff.mp hrun
  exact ⟨x.removals, hx,
    h.step (.pruning (s := ⟨w, deleted⟩) env r hclient hlabel hmarks hrecord hP x)⟩

/-- Another instance runs a pass between two passes. -/
theorem reachable_others {me : Instance} {P : Env sc → Reconciler → World sc → Prop}
    {w t : World sc} {deleted : List (Removal sc)} {r : Reconciler}
    (h : (instanceRuns sc me P).Reachable ⟨w, deleted⟩) (hname : env.client ≠ me.client)
    (hothers : ∀ n c, Unforged me.client c (env.others n c)) (hrecord : env.Recorded)
    (ht : t = { w with
      cluster := (state (runOnce env r (.fresh w.cluster none))).cluster }) :
    (instanceRuns sc me P).Reachable ⟨t, deleted⟩ := by
  subst ht
  have hunforged := @unforged_pass _ _ _ hname hothers hrecord r (.fresh w.cluster none)
  exact h.step (.others (s := ⟨w, deleted⟩) _ hunforged)

/-- The first pass of the first team. -/
theorem reachable_teamA {P : Env .namespacedOnly → Reconciler → World .namespacedOnly → Prop}
    (hP : P (sharedEnv "team-a" "c1") (syncedPass .off) (.fresh ∅ none)) :
    (instanceRuns .namespacedOnly teamA P).Reachable ⟨teamAWorld, []⟩ := by
  have hrun : (PrunePoint.run (sharedEnv "team-a" "c1") (syncedPass .off) (.fresh ∅ none)).map
      (fun x => x.removals.map (·.facts teamA)) = some [] := by decide +kernel
  have hinit : (instanceRuns .namespacedOnly teamA P).Reachable ⟨.fresh ∅ none, []⟩ := by
    refine .init ⟨rfl, ?_⟩
    intro id live hlook
    cases hlook
  obtain ⟨removals, hfacts, hreach⟩ := reachable_pruning hinit rfl rfl (marksOnly_shared _ _)
    (recorded_shared _ _) hP hrun teamAWorld.eq_1
  cases List.map_eq_nil_iff.mp hfacts
  exact hreach

/-- Both teams declare `settings`, and the second applies it last. It leaves the repository of the
first team, whose prune deletes it. -/
theorem takenOver_deleted :
    ∃ s : InstanceRun .namespacedOnly,
      (instanceRuns .namespacedOnly teamA fun _ _ _ => True).Reachable s ∧
      ∃ y ∈ s.removals, y.deletion.removed.appliedBy = some "team-b" ∧ ¬ y.Isolated teamA := by
  have hfirst := reachable_teamA (P := fun _ _ _ => True) trivial
  have hsecond := reachable_others hfirst (by decide) others_shared (recorded_shared _ _)
    sharedWorld.eq_1
  have hrun : (PrunePoint.run (sharedEnv "team-a" "c2") (syncedPass .off) sharedWorld).map
      (fun x => x.removals.map (·.facts teamA)) =
        some [(settingsId, false, some "team-b")] := by decide +kernel
  obtain ⟨removals, hfacts, hthird⟩ := reachable_pruning hsecond rfl rfl (marksOnly_shared _ _)
    (recorded_shared _ _) trivial hrun rfl
  obtain ⟨y, rfl, hy⟩ := List.map_eq_singleton_iff.mp hfacts
  simp only [Removal.facts, Prod.mk.injEq] at hy
  refine ⟨_, hthird, y, List.mem_append_left _ List.mem_cons_self, hy.2.2, fun hisolated => ?_⟩
  have hmanaged := hisolated.managed
  rw [hy.2.1] at hmanaged
  cases hmanaged

/-- A pass that nobody disturbs meets the condition where everything that is live when its prune
starts is the instance's own. -/
theorem keepsToOwn_of_all {r : Reconciler} {w : World sc} (hquiet : ∀ n c, env.others n c = c)
    (hrun : (PrunePoint.run env r w).map (fun x => x.before.cluster.entries.all fun e =>
      e.2.object.labelled r.cfg.selector && e.2.appliedBy == some env.client) = some true) :
    KeepsToOwn env r w := by
  intro x
  obtain ⟨y, -, hy⟩ := Option.map_eq_some_iff.mp hrun
  obtain rfl := x.unique y
  refine ⟨?_, leftAlone_of_quiet hquiet _ _ _ _⟩
  intro id _ live hlook
  have hall := List.all_eq_true.mp hy ⟨id, live⟩ (AList.mem_lookup_iff.mp hlook)
  simp only [Bool.and_eq_true, beq_iff_eq] at hall
  exact .inr ⟨hall.1, hall.2⟩

/-- The second team does not touch `settings`. It leaves the repository of the first team, whose
prune deletes its own object. -/
theorem isolated_of_run_dropped :
    ∃ s : InstanceRun .namespacedOnly,
      (instanceRuns .namespacedOnly teamA KeepsToOwn).Reachable s ∧
      s.removals.map (·.facts teamA) = [(settingsId, true, some "team-a")] ∧
      ∀ y ∈ s.removals, y.Isolated teamA := by
  have hfirst : KeepsToOwn (sharedEnv "team-a" "c1") (syncedPass .off) (.fresh ∅ none) :=
    keepsToOwn_of_all (fun _ _ => rfl) (by decide +kernel)
  have hsecond : KeepsToOwn (sharedEnv "team-a" "c2") (syncedPass .off) teamAWorld :=
    keepsToOwn_of_all (fun _ _ => rfl) (by decide +kernel)
  have hrun : (PrunePoint.run (sharedEnv "team-a" "c2") (syncedPass .off) teamAWorld).map
      (fun x => x.removals.map (·.facts teamA)) =
        some [(settingsId, true, some "team-a")] := by decide +kernel
  obtain ⟨removals, hfacts, hreach⟩ := reachable_pruning (reachable_teamA hfirst) rfl rfl
    (marksOnly_shared _ _) (recorded_shared _ _) hsecond hrun rfl
  rw [List.append_nil] at hreach
  exact ⟨_, hreach, hfacts, isolated_of_run hreach⟩

end Reconcile

end LeanCd
