import LeanCd.Proofs.Deepening

/-!
# `LeanCd.Proofs.Rollback`: the ancestor a rollback checks out

A rollback by `n` obtains the tip of the branch, makes sure that there are `n + 1` commits, and
checks `FETCH_HEAD~n` out. The commits are counted from `HEAD`. A clone sets no `FETCH_HEAD`, and a
fetch of the tip alone cuts the history right below it. Where `HEAD` has enough commits from the
start, nothing is deepened, and `FETCH_HEAD~n` does not resolve. A merge adds commits to the count
that are no first parents, so the count can be reached too early as well.

`rollback_resolves_iff` says when a rollback resolves its ancestor. `secondRollback_unresolved` is
a rollback from the commit of an earlier one.

The histories are those of `LeanCd.Lib.History`. A checkout is either of a clone, of which the tip
is the one commit, or of a repository that earlier checkouts have left, with a cut somewhere.
`FETCH_HEAD` and `HEAD` are compared in both, and first parents are what `~n` follows.
-/

set_option autoImplicit false

namespace LeanCd.GitSync

open Act

variable {κ σ : Type} {h : History κ} {g : GitTool h σ} {branch : String} {tip : κ}
  {sha : κ → String}

/-- `checkout` for a parent target, up to the revision it checks out. -/
def GitTool.prepareRollback (g : GitTool h σ) (branch : String) (n : Nat) :
    EStateM Error σ Unit := do
  obtainTip g.run branch g.gitDirExists g.clearWorkDir
  g.ensureDepth branch (n + 1)

/-- Over the commands of the controller it is what `checkout` does. -/
theorem prepareRollback_runGit {sc : Scopes} {env : Env sc} {cfg : Config} {url : String}
    {g : GitTool h (World sc)} (hrun : g.run = runGit env cfg url)
    (hdir : g.gitDirExists = (return env.gitDirExists (← tick env)))
    (hclear : g.clearWorkDir = clearWorkDir env) (n : Nat) :
    g.prepareRollback cfg.branch n = (do
      fetchOrClone env cfg url (.parent n)
      ensureDepth env cfg url (n + 1) deepenRounds) := by
  have hparent : CheckoutTarget.parent n ≠ .branch := fun heq => by cases heq
  rw [GitTool.prepareRollback, GitTool.ensureDepth_runGit hrun, hrun, hdir, hclear,
    fetchOrClone_eq env cfg url hparent]

/-! ### The start -/

/-- The checkout once the tip is obtained. -/
theorem obtainTip_disk (hdoc : g.Documented branch tip sha) {s u : σ}
    (hrun : obtainTip g.run branch g.gitDirExists g.clearWorkDir s = .ok () u) :
    (∃ r, g.disk s = some r ∧ g.disk u = some (r.fetched tip)) ∨
      ∃ r, g.disk u = some r ∧ r.head = tip ∧ r.fetchHead = none := by
  obtain ⟨t, hdir, ht⟩ := hdoc.gitDirExists s
  rw [obtainTip, bind_ok hdir] at hrun
  -- A checkout that is there is fetched, one that is not is cloned.
  cases hs : g.disk s with
  | some r =>
      rw [hs] at hrun ht
      left
      rw [Option.isSome_some, if_pos rfl] at hrun
      cases hfetch : g.run (.fetch branch) t with
      | error e v =>
          rw [bind_error hfetch] at hrun
          cases hrun
      | ok out v =>
          rw [bind_ok hfetch] at hrun
          cases hrun
          exact ⟨r, rfl, hdoc.fetch t r out u ht hfetch⟩
  | none =>
      rw [hs] at hrun
      right
      rw [Option.isSome_none, if_neg Bool.false_ne_true] at hrun
      cases hclear : g.clearWorkDir t with
      | error e v =>
          rw [bind_error hclear] at hrun
          cases hrun
      | ok out v =>
          rw [bind_ok hclear] at hrun
          cases hclone : g.run (.clone branch) v with
          | error e w =>
              rw [bind_error hclone] at hrun
              cases hrun
          -- The clone stands at the tip and has fetched nothing.
          | ok out w =>
              rw [bind_ok hclone] at hrun
              cases hrun
              exact hdoc.clone v out u (hdoc.clearWorkDir t v hclear) hclone

/-- Before a deepening fetch no ancestor resolves. -/
theorem obtainTip_unresolved (hdoc : g.Documented branch tip sha) {s u : σ} {r : Shallow h}
    (hrun : obtainTip g.run branch g.gitDirExists g.clearWorkDir s = .ok () u)
    (hu : g.disk u = some r) {n : Nat} (hn : 0 < n) : r.resolve n = none := by
  rcases obtainTip_disk hdoc hrun with ⟨r', hs, hu'⟩ | ⟨r', hu', hhead, hnone⟩
  · rw [hu, Option.some.injEq] at hu'
    rw [hu']
    exact Shallow.resolve_fetched hn
  · rw [hu, Option.some.injEq] at hu'
    rw [hu', Shallow.resolve, hnone]
    rfl

/-! ### The end -/

/-- The ancestor resolves in the checkout a rollback by `n` ends with, if it ends well. -/
def Resolves (g : GitTool h σ) (branch : String) (n : Nat) (s : σ) (c : κ) : Prop :=
  ∀ t r, g.prepareRollback branch n s = .ok () t → g.disk t = some r → r.resolve n = some c

/-- The first check that counts enough commits comes in round `k`. -/
def EnoughAt (r : Shallow h) (tip : κ) (depth k : Nat) : Prop :=
  depth ≤ (r.deepened 50 tip k).held ∧ ∀ j < k, ¬ depth ≤ (r.deepened 50 tip j).held

/-- The first round with enough commits is one round. -/
theorem EnoughAt.unique {r : Shallow h} {depth k l : Nat} (hk : EnoughAt r tip depth k)
    (hl : EnoughAt r tip depth l) : k = l := by
  rcases Nat.lt_trichotomy k l with hlt | heq | hgt
  · exact absurd hk.1 (hl.2 k hlt)
  · exact heq
  · exact absurd hl.1 (hk.2 l hgt)

/-- A rollback after the tip is obtained ends well exactly when a check counts enough commits
and the fetches before it go well. -/
theorem prepareRollback_ok_iff (hdoc : g.Documented branch tip sha) {s u : σ} {r r' : Shallow h}
    {n : Nat} (hobtain : obtainTip g.run branch g.gitDirExists g.clearWorkDir s = .ok () u)
    (hu : g.disk u = some r) :
    (∃ t, g.prepareRollback branch n s = .ok () t ∧ g.disk t = some r') ↔
      ∃ k < 20, EnoughAt r tip (n + 1) k ∧
        ¬ FetchFails g branch (depthReached g.run (n + 1)) k u ∧ r' = r.deepened 50 tip k := by
  have hends := deepenUntil_ends hdoc (checks_depthReached hdoc (n + 1)) (depthMissing (n + 1))
    deepenRounds hu
  have hrun : g.prepareRollback branch n s = deepenUntil g.run branch
      (depthReached g.run (n + 1)) (depthMissing (n + 1)) deepenRounds u := bind_ok hobtain
  rw [← hrun] at hends
  generalize g.prepareRollback branch n s = res at hends
  constructor
  · rintro ⟨t, rfl, ht⟩
    cases hends with
    | found hk hdisk htarget hbefore hfetched =>
        rw [ht, Option.some.injEq] at hdisk
        exact ⟨_, hk, ⟨htarget, hbefore⟩, hfetched, hdisk⟩
  · rintro ⟨k, hk, hat, hfetched, rfl⟩
    cases hends with
    | found hl hdisk htarget hbefore _ =>
        rw [hat.unique ⟨htarget, hbefore⟩]
        exact ⟨_, rfl, hdisk⟩
    | fetchFailed hl hdisk hbefore hfails =>
        -- The failing fetch is before the check of round `k`.
        have hlt := Nat.lt_of_not_le fun hle => hbefore k hle hat.1
        exact absurd (hfails.mono hlt) hfetched
    | exhausted hdisk hbefore _ => exact absurd hat.1 (hbefore k hk)

/-- What resolves after some rounds of deepening. -/
theorem resolve_deepened_iff {r : Shallow h} {n k : Nat} {c : κ} (hstart : r.resolve n = none)
    (hc : h.firstParent n tip = some c) : (r.deepened 50 tip k).resolve n = some c ↔
      0 < k ∧ ∀ i < n, ∀ x, h.firstParent i tip = some x → x ∉ (r.deepened 50 tip k).cut := by
  cases k with
  | zero =>
      have hnone : (r.deepened 50 tip 0).resolve n = none := hstart
      rw [hnone]
      refine ⟨fun hres => ?_, fun hpos => absurd hpos.1 (Nat.lt_irrefl 0)⟩
      cases hres
  | succ k =>
      rw [Shallow.deepened_succ, Shallow.resolve_deepen]
      exact ⟨fun hres => ⟨Nat.succ_pos k, hres.2⟩, fun hpath => ⟨hc, hpath.2⟩⟩

/-- A rollback that ends well resolves its ancestor exactly when, at the first check that counts
enough commits, there was a fetch that deepened the history and no commit on the way to the
ancestor is at the cut, or a fetch failed before that check. -/
theorem rollback_resolves_iff (hdoc : g.Documented branch tip sha) {s u : σ} {r : Shallow h}
    {n : Nat} {c : κ} (hn : 1 ≤ n) (hc : h.firstParent n tip = some c)
    (hobtain : obtainTip g.run branch g.gitDirExists g.clearWorkDir s = .ok () u)
    (hu : g.disk u = some r) : Resolves g branch n s c ↔
      ∀ k < 20, EnoughAt r tip (n + 1) k →
        FetchFails g branch (depthReached g.run (n + 1)) k u ∨
          0 < k ∧ ∀ i < n, ∀ x, h.firstParent i tip = some x →
            x ∉ (r.deepened 50 tip k).cut := by
  have hstart := obtainTip_unresolved hdoc hobtain hu hn
  constructor
  · intro hres k hk hat
    by_cases hfails : FetchFails g branch (depthReached g.run (n + 1)) k u
    · exact .inl hfails
    · obtain ⟨t, hrun, ht⟩ := (prepareRollback_ok_iff hdoc hobtain hu).mpr
        ⟨k, hk, hat, hfails, rfl⟩
      exact .inr ((resolve_deepened_iff hstart hc).mp (hres t _ hrun ht))
  · intro hcond t r' hrun ht
    obtain ⟨k, hk, hat, hfetched, rfl⟩ := (prepareRollback_ok_iff hdoc hobtain hu).mp
      ⟨t, hrun, ht⟩
    exact (resolve_deepened_iff hstart hc).mpr ((hcond k hk hat).resolve_left hfetched)

/-! ### A line of three commits -/

/-- A clone of depth one holds one commit. -/
theorem held_cloned : (GitTool.cloned h tip).held = 1 := by
  have hroot : ∀ c ∈ ({tip} : Set κ), (GitTool.cloned h tip).visible.parents c = [] :=
    fun _ hc => if_pos hc
  rw [Shallow.held]
  show ((GitTool.cloned h tip).visible.ancestors {tip}).ncard = 1
  rw [History.ancestors_of_no_parents hroot]
  exact Set.ncard_singleton tip

/-- The newest commit of a line is above nothing. -/
theorem newest_of_mem_within {n k : Nat} {B : Set (Fin (n + 1))}
    (hmem : 0 ∈ (GitTool.line n).within k B) : 0 ∈ B := by
  induction k with
  | zero => exact hmem
  | succ k ih =>
      rcases hmem with hmem | ⟨d, hd, hparent⟩
      · exact ih hmem
      · exact absurd (GitTool.mem_parents_line.mp hparent) (Nat.succ_ne_zero d.val).symm

/-- A rollback by one in a fresh clone, which has the tip alone. -/
theorem firstRollback_resolves :
    Resolves (GitTool.lineTool 2) "main" 1 none 1 := by
  refine (rollback_resolves_iff (GitTool.lineTool_documented (by decide) "main")
    (r := GitTool.cloned (GitTool.line 2) 0) (Nat.le_refl 1) rfl rfl rfl).mpr
    fun k hk hat => .inr ?_
  -- One deepening finds it: at the boundary before there are fewer commits than are asked for.
  cases k with
  | zero =>
      have htwo : 2 ≤ (GitTool.cloned (GitTool.line 2) 0).held := hat.1
      rw [held_cloned] at htwo
      exact absurd htwo (by decide)
  | succ k =>
      -- The newest commit is the start of both ways.
      refine ⟨Nat.succ_pos k, fun i hi x hx => ?_⟩
      rw [Nat.lt_one_iff.mp hi] at hx
      cases hx
      rw [Shallow.deepened_succ]
      rintro (hold | hnew)
      · exact hold.2 ⟨hold.1, History.within_subset_ancestors (n := 0) rfl⟩
      · exact hnew.2 (History.subset_within (newest_of_mem_within hnew.1))

/-- The checkout after a rollback by one: `HEAD` is the parent of the tip. -/
def rolledBack : Shallow (GitTool.line 2) where
  head := 1
  fetchHead := some 0
  has := Set.univ
  cut := ∅
  head_mem := trivial
  cut_subset := Set.subset_univ _
  closed := fun _ _ _ _ _ => trivial
  finite := Set.finite_univ

/-- Another rollback by one: the two commits from `HEAD` on are enough for the count, and the
tip has lost its parent to the fetch. -/
theorem secondRollback_unresolved :
    (GitTool.lineTool 2).Documented "main" 0 (fun c => toString c.val) ∧
    (GitTool.line 2).firstParent 1 0 = some 1 ∧
    ¬ Resolves (GitTool.lineTool 2) "main" 1 (some rolledBack) 1 := by
  have hdoc := GitTool.lineTool_documented (n := 2) (by decide) "main"
  refine ⟨hdoc, rfl, fun hres => ?_⟩
  -- The parent is visible, because the boundary lies below it.
  have hparent : (2 : Fin 3) ∈ (rolledBack.fetched 0).visible.within 1 {1} := by
    refine History.mem_step_of_parent rfl ?_
    have hcut : (1 : Fin 3) ∉ (rolledBack.fetched 0).cut := by
      rintro (hc | hc)
      · cases hc
      · cases hc
    have hsame : (rolledBack.fetched 0).visible.parents 1 = [2] := if_neg hcut
    rw [hsame]
    exact List.mem_singleton.mpr rfl
  -- Two commits are held, so the loop stops at once.
  have hheld : 2 ≤ (rolledBack.fetched 0).held := by
    have hpair : {1, 2} ⊆ (rolledBack.fetched 0).visible.ancestors {1} :=
      Set.insert_subset (History.within_subset_ancestors (n := 0) rfl)
        (Set.singleton_subset_iff.mpr ⟨1, hparent⟩)
    have htwo : ({1, 2} : Set (Fin 3)).ncard = 2 := Set.ncard_pair (by decide)
    exact htwo.ge.trans (Set.ncard_le_ncard hpair)
  have hstart := obtainTip_unresolved (s := some rolledBack) (u := some (rolledBack.fetched 0))
    hdoc rfl rfl Nat.one_pos
  obtain ⟨t, hrun, ht⟩ := (prepareRollback_ok_iff (s := some rolledBack)
    (u := some (rolledBack.fetched 0)) hdoc rfl rfl).mpr
    ⟨0, by decide, ⟨hheld, fun j hj => absurd hj (Nat.not_lt_zero j)⟩, not_fetchFails_zero, rfl⟩
  have hsome : (rolledBack.fetched 0).resolve 1 = some 1 := hres t _ hrun ht
  -- The loop has stopped with the commit unresolved, as it was at the start.
  rw [hstart] at hsome
  cases hsome

end LeanCd.GitSync
