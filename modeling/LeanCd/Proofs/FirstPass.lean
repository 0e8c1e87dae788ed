import LeanCd.Calm
import LeanCd.Proofs.Sweep
import LeanCd.Proofs.Totality
import LeanCd.Proofs.WholePass

/-!
# `LeanCd.Proofs.FirstPass`: a first pass over a repository of any size

A pass that finds no state applies every manifest. When the API server serves every call, each
manifest is one change (`after_reconcileInner_first`).

`bulkEnv n` is a repository of `n` documents on which such a pass can run.

The count is of effects in the trace, which an apply that is served adds one of. Nothing is said
of the order of the manifests, nor of the other calls.
-/

set_option autoImplicit false

namespace LeanCd

open Act

variable {sc : Scopes} {env : Env sc} {cfg : Config} {guard : LeaseGuard}

/-! ### What a first pass changes -/

/-- What is added to the history takes no change back. -/
theorem effects_le_of_adds {P : Event sc → Prop} {s t : World sc} (h : (adds P).rel s t) :
    s.effects.length ≤ t.effects.length := by
  obtain ⟨new, htrace, -⟩ := h
  unfold World.effects
  rw [htrace, List.filter_append, List.length_append]
  omega

/-- Effects that a first part has made are not taken back by the second. -/
theorem after_bind_adds {α β : Type} {m : Pass sc α} {f : α → Pass sc β} {s : World sc}
    {n : Nat} (hm : After m s fun _ t => n ≤ t.effects.length)
    (hf : ∀ a, Keeps (adds fun _ => True) (f a)) :
    After (m >>= f) s fun _ t => n ≤ t.effects.length := by
  rw [after_bind]
  refine hm.mono ?_
  intro res t ht
  cases res with
  | error e => exact ht
  | ok a => exact ((hf a).after t).mono fun _ _ hu => ht.trans (effects_le_of_adds hu)

/-- A served attempt to apply changes one object. -/
theorem after_attemptApply_served (hs : env.Served) {m : RawManifest}
    {cache : KubeUtil.DiscoveryCache} {o : DynamicObject} {id : ObjId sc}
    (hsends : Sends env cfg m o id) (w : World sc) :
    After (Reconcile.attemptApply env cfg false m cache) w fun res t =>
      (∃ r, res = .ok r) ∧ w.effects.length + 1 ≤ t.effects.length := by
  have hadds : Keeps (adds fun _ => True) (KubeUtil.getOrResolve env cache m.gvk) :=
    keeps_getOrResolve interacts_adds cache m.gvk
  refine hs.after_attemptApply hsends hadds ?_
  intro t cache' hadded
  have hgrew := effects_le_of_adds hadded
  exact ⟨⟨_, rfl⟩, Nat.succ_le_succ hgrew⟩

/-- A served apply changes one object for each manifest. -/
theorem after_applyAll_served (hs : env.Served) {ms : List RawManifest}
    (hsends : ∀ m ∈ ms, ∃ o id, Sends env cfg m o id) (cache : KubeUtil.DiscoveryCache)
    (w : World sc) :
    After (Reconcile.applyAll env cfg false ms cache) w fun _ t =>
      w.effects.length + ms.length ≤ t.effects.length := by
  induction ms generalizing cache w with
  | nil => exact Nat.le_refl _
  | cons m rest ih =>
      obtain ⟨o, id, ho⟩ := hsends m List.mem_cons_self
      rw [Reconcile.applyAll_cons, after_bind]
      refine (after_attemptApply_served hs ho w).mono ?_
      intro res t h
      obtain ⟨⟨r, rfl⟩, hone⟩ := h
      dsimp only
      have hrest := ih (fun m' hm' => hsends m' (List.mem_cons_of_mem m hm')) r.2 t
      refine after_bind_adds (hrest.mono fun _ u hu => ?_) fun _ => Keeps.pure _
      rw [List.length_cons]
      omega

/-- A first pass over a repository without hooks changes one object for each manifest. -/
theorem after_branch_first (hs : env.Served) {main : List RawManifest}
    (hsends : ∀ m ∈ main, ∃ o id, Sends env cfg m o id) (sync : SyncOutcome) (w : World sc) :
    After (Reconcile.branch env cfg guard none sync ⟨[], main, [], [], []⟩) w fun _ t =>
      main.length ≤ t.effects.length := by
  have hlive : Reconcile.isTeardown ⟨[], main, [], [], []⟩ (Reconcile.prevApplied none) = false :=
    Bool.and_false _
  have hfull : Reconcile.shouldFullApply (none : Option State).isSome sync.changed = true := rfl
  have hpre : Reconcile.preHooks env cfg guard "pre-sync" [] = pure () := rfl
  have hpost : Reconcile.postHooks env cfg guard "post-sync" [] = pure none := rfl
  rw [Reconcile.branch, hlive, if_neg (by decide)]
  refine after_bind_adds ?_ fun _ =>
    (Prune.keeps_prune interacts_adds (keeps_serveDelete_adds fun _ => trivial) _ _).bind
      fun _ => Keeps.pure _
  rw [Reconcile.syncBranch, hfull, if_pos rfl, Reconcile.fullApplyBranch, hpre, pure_bind, hpost]
  have happly := after_applyAll_served hs hsends [] w
  refine after_bind_adds (happly.mono fun _ t ht => ?_) fun _ => ?_
  · exact (Nat.le_add_left _ _).trans ht
  · exact (benign_adds.collectForHealth _).bind fun _ => (Keeps.pure none).bind fun _ =>
      Keeps.pure _

/-- The first pass over a repository of main manifests patches every one of them when its calls are
served, so it has at least as many effects. -/
theorem after_execute_first (hs : env.Served) {main : List RawManifest}
    (hsends : ∀ m ∈ main, ∃ o id, Sends env cfg m o id) (sync : SyncOutcome) (w : World sc) :
    After (Reconcile.execute env cfg guard none sync ⟨[], main, [], [], []⟩) w fun _ t =>
      main.length ≤ t.effects.length := by
  refine after_bind_adds (after_branch_first hs hsends sync w) fun outcome => ?_
  refine (benign_adds.nextState guard none sync _ outcome).bind fun next => ?_
  have hwrite : Keeps (adds fun _ => True) (State.write env next) :=
    benign_adds.stateWrite fun _ => adds_cons rfl trivial
  exact hwrite.bind fun _ _ => adds_of_untouched rfl

/-- A pass that finds no state, and can check its target out. -/
theorem after_reconcileInner_first (hs : env.Served) {r : Reconciler}
    (hlive : r.cfg.dryRun = false) {main : List RawManifest}
    (hsends : ∀ m ∈ main, ∃ o id, Sends env r.cfg m o id)
    (hcheckout : Total (Reconcile.checkoutOf env r none))
    (hdesired : ∀ sha, Reconcile.desired env sha r.cfg [] = .ok ⟨[], main, [], [], []⟩)
    {w : World sc} (hfresh : w.stateCm = none) :
    After (Reconcile.reconcileInner env r guard) w fun _ t =>
      main.length ≤ t.effects.length := by
  have htouch : Total (Reconcile.touchLease env r.cfg guard) :=
    Hooks.total_renewBestEffort guard
  rw [Reconcile.reconcileInner, after_bind]
  refine (after_stateRead_served (fun n => ⟨hs n _, hs n _⟩) w).mono ?_
  intro res t hread
  rw [hfresh] at hread
  subst hread
  refine hcheckout.bind_after fun sync u => htouch.bind_after fun _ v => ?_
  rw [Reconcile.converge]
  have hc : Reconcile.desired env sync.sha r.cfg (Reconcile.prevApplied none) =
      .ok ⟨[], main, [], [], []⟩ := hdesired sync.sha
  rw [Option.map_none, hc, Act.ofExcept, pure_bind, hlive, if_neg (by decide)]
  exact after_execute_first hs hsends sync v

/-! ### A repository of any size -/

/-- Many documents in one file, all of them the same. -/
def bulkYaml (n : Nat) : Yaml :=
  .table [("all", List.replicate n syncedValue)] [("settings", syncedValue)]

/-- A repository with that file. -/
def bulkEnv (n : Nat) : Env .namespacedOnly := { syncedEnv with yaml := bulkYaml n }

/-- The manifests of the file. -/
def bulk (n : Nat) : List RawManifest := List.replicate n (settings (some "default"))

/-- A list of equal documents expands to equal manifests. -/
theorem expandElems_replicate {yaml : Yaml} {v : Value} {m : RawManifest}
    (hv : Manifest.expandValue yaml v = .ok [m]) (n : Nat) :
    Manifest.expandElems yaml (List.replicate n v) = .ok (List.replicate n m) := by
  induction n with
  | zero => rfl
  | succ n ih =>
      rw [List.replicate_succ, Manifest.expandElems, hv, ih]
      rfl

/-- The document of the example expands to one manifest. -/
theorem expandValue_bulk (n : Nat) :
    Manifest.expandValue (bulkYaml n) syncedValue = .ok [settings (some "default")] := by
  have hone : Manifest.expandValue (bulkYaml 1) syncedValue =
      .ok [settings (some "default")] := by decide +kernel
  have hsame : Manifest.valueToManifest (bulkYaml n) syncedValue =
      Manifest.valueToManifest (bulkYaml 1) syncedValue := rfl
  unfold syncedValue settingsValue at hone hsame ⊢
  rw [Manifest.expandValue] at hone ⊢
  rw [hsame]
  exact hone

/-- Manifests without a hook annotation are main resources. -/
theorem classify_bulk (n : Nat) : Hooks.classify (bulk n) = ⟨[], bulk n, [], [], []⟩ := by
  have hone : ∀ c, Hooks.classifyOne c (settings (some "default")) =
      { c with main := c.main ++ [settings (some "default")] } := fun _ => rfl
  have hrun : ∀ c : Classified, (bulk n).foldl Hooks.classifyOne c =
      { c with main := c.main ++ bulk n } := by
    unfold bulk
    induction n with
    | zero => simp
    | succ n ih =>
        intro c
        rw [List.replicate_succ, List.foldl_cons, ih, hone]
        simp
  exact hrun Hooks.Classified.empty

/-- The file of the example is parsed into as many manifests as it has documents. -/
theorem parsePaths_bulk (n : Nat) (sha : String) :
    Manifest.parsePaths (bulkYaml n) (syncedEnv.tree sha) [["work"]] = .ok (bulk n) := by
  have hfiles : Manifest.collectYamlFiles (syncedEnv.tree sha) ["work"] =
      .ok [["work", "all.yaml"]] := by
    show Manifest.collectYamlFiles (syncedEnv.tree "c1") ["work"] = .ok [["work", "all.yaml"]]
    decide +kernel
  have hdocs : (bulkYaml n).parseMulti "all" = .ok (List.replicate n syncedValue) := rfl
  -- The file is one text whatever `n` is. Only the parser's answer grows.
  have hfile : Manifest.parseFile (bulkYaml n) (syncedEnv.tree sha) ["work", "all.yaml"] =
      .ok (bulk n) := by
    have hparse : Manifest.parseStr (bulkYaml n) "all" = .ok (bulk n) := by
      rw [Manifest.parseStr, hdocs]
      exact expandElems_replicate (expandValue_bulk n) n
    have hread : (syncedEnv.tree sha).read ["work", "all.yaml"] = .ok "all" := rfl
    rw [Manifest.parseFile, hread]
    dsimp only
    rw [hparse]
  simp [Manifest.parsePaths, Manifest.concatResults, Manifest.parseDir, hfiles, hfile,
    Except.map]

/-- So this is what the commit of the example declares, whatever was applied before. -/
theorem desired_bulk (n : Nat) (sha : String) (applied : List ResourceKey) :
    Reconcile.desired (bulkEnv n) sha (syncedPass .off).cfg applied =
      .ok ⟨[], bulk n, [], [], []⟩ := by
  have hroots : Reconcile.rootsOf (bulkEnv n) sha (syncedPass .off).cfg applied =
      .ok [["work"]] := by
    -- The roots do not depend on the parser, so the small environment answers for them.
    have hexpand : Manifest.expandRoots syncedEnv.unprintable (syncedEnv.tree sha)
        (syncedPass .off).cfg.effectiveWorkDir (syncedPass .off).cfg.path = .ok [["work"]] := by
      show Manifest.expandRoots syncedEnv.unprintable (syncedEnv.tree "c1")
        (syncedPass .off).cfg.effectiveWorkDir (syncedPass .off).cfg.path = .ok [["work"]]
      decide +kernel
    rw [Reconcile.rootsOf]
    have hsame : Manifest.expandRoots (bulkEnv n).unprintable ((bulkEnv n).tree sha)
        (syncedPass .off).cfg.effectiveWorkDir (syncedPass .off).cfg.path = .ok [["work"]] :=
      hexpand
    rw [hsame]
  have hparse : Manifest.parsePaths (bulkEnv n).yaml ((bulkEnv n).tree sha) [["work"]] =
      .ok (bulk n) := parsePaths_bulk n sha
  rw [Reconcile.desired, hroots]
  dsimp only
  rw [hparse]
  exact congrArg Except.ok (classify_bulk n)

/-- Every one of them can be sent. -/
theorem sends_bulk (n : Nat) :
    ∀ m ∈ bulk n, ∃ o id, Sends (bulkEnv n) (syncedPass .off).cfg m o id := by
  intro m hm
  rw [List.eq_of_mem_replicate hm]
  exact ⟨_, _, _, "settings", rfl, rfl, rfl, rfl⟩

/-- The checkout of the example does not fail. -/
theorem total_checkout_bulk (n : Nat) (prev : Option State) :
    Total (Reconcile.checkoutOf (bulkEnv n) (syncedPass .off) prev) := fun _ => ⟨_, _, rfl⟩

end LeanCd
