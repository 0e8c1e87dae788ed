import LeanCd.Proofs.GitTool

/-!
# `LeanCd.Proofs.Deepening`: what the deepening loops find

Both loops check up to twenty times and fetch after each check that fails. `deepenUntil_ends` says
how such a loop can end, by the first round whose check succeeds or whose fetch fails.

The check comes before the fetch, so nothing looks at what the twentieth fetch brought.
`deepening_finds_iff`: the loops are right about a target unless it is in that last batch.

A loop is compared with the history it looks at (`LeanCd.Lib.History`): after `k` rounds the
repository holds what lies within `50 * k` generations of its boundary. `Finds` says that the loop
is right, that is it returns where the target is there and gives up where it is not.
-/

set_option autoImplicit false

namespace LeanCd.GitSync

open Act

variable {κ σ : Type} {h : History κ} {g : GitTool h σ} {branch : String} {tip : κ}
  {sha : κ → String}

/-! ### The end of a loop -/

/-- The check finds out whether the target is in the checkout, and changes nothing. -/
def Checks (g : GitTool h σ) (found : EStateM Error σ Bool) (target : Shallow h → Prop) : Prop :=
  ∀ s r, g.disk s = some r → ∃ b t, found s = .ok b t ∧ g.disk t = some r ∧ (b = true ↔ target r)

/-- In a row of that many rounds of a check and a fetch, one of the fetches fails. -/
inductive FetchFails (g : GitTool h σ) (branch : String) (found : EStateM Error σ Bool) :
    Nat → σ → Prop
  | now {n : Nat} {s t : σ} {e : Error}
      (hrun : g.run (.deepen branch) (state (found s)) = .error e t) :
      FetchFails g branch found (n + 1) s
  | later {n : Nat} {s t : σ} {out : String}
      (hrun : g.run (.deepen branch) (state (found s)) = .ok out t)
      (hrest : FetchFails g branch found n t) : FetchFails g branch found (n + 1) s

/-- A fetch that fails in an early round fails in every loop that gets so far. -/
theorem FetchFails.mono {found : EStateM Error σ Bool} {n m : Nat} {s : σ}
    (hf : FetchFails g branch found n s) (hnm : n ≤ m) : FetchFails g branch found m s := by
  induction hf generalizing m with
  | now hrun =>
      cases m with
      | zero => exact absurd hnm (Nat.not_succ_le_zero _)
      | succ m => exact .now hrun
  | later hrun _ ih =>
      cases m with
      | zero => exact absurd hnm (Nat.not_succ_le_zero _)
      | succ m => exact .later hrun (ih (Nat.le_of_succ_le_succ hnm))

/-- After a fetch that went well the rest of the row decides. -/
theorem fetchFails_succ_iff {found : EStateM Error σ Bool} {n : Nat} {s t : σ} {out : String}
    (hrun : g.run (.deepen branch) (state (found s)) = .ok out t) :
    FetchFails g branch found (n + 1) s ↔ FetchFails g branch found n t := by
  refine ⟨fun hf => ?_, .later hrun⟩
  cases hf with
  | now hrun' =>
      rw [hrun] at hrun'
      cases hrun'
  | later hrun' hrest =>
      rw [hrun] at hrun'
      cases hrun'
      exact hrest

/-- The ways a loop can end that started with the checkout `r`: at a check that succeeds, at a
fetch that fails, or after all its rounds. -/
inductive Ends (g : GitTool h σ) (branch : String) (tip : κ) (found : EStateM Error σ Bool)
    (target : Shallow h → Prop) (missing : Error) (rounds : Nat) (s : σ) (r : Shallow h) :
    EStateM.Result Error σ Unit → Prop
  | found {k : Nat} {t : σ} (hk : k < rounds) (hdisk : g.disk t = some (r.deepened 50 tip k))
      (htarget : target (r.deepened 50 tip k))
      (hbefore : ∀ j < k, ¬ target (r.deepened 50 tip j))
      (hfetched : ¬ FetchFails g branch found k s) :
      Ends g branch tip found target missing rounds s r (.ok () t)
  | fetchFailed {k : Nat} {e : Error} {t : σ} (hk : k < rounds)
      (hdisk : g.disk t = some (r.deepened 50 tip k))
      (hbefore : ∀ j ≤ k, ¬ target (r.deepened 50 tip j))
      (hfails : FetchFails g branch found (k + 1) s) :
      Ends g branch tip found target missing rounds s r (.error e t)
  | exhausted {t : σ} (hdisk : g.disk t = some (r.deepened 50 tip rounds))
      (hbefore : ∀ j < rounds, ¬ target (r.deepened 50 tip j))
      (hfetched : ¬ FetchFails g branch found rounds s) :
      Ends g branch tip found target missing rounds s r (.error missing t)

/-- Without rounds no fetch fails. -/
theorem not_fetchFails_zero {found : EStateM Error σ Bool} {s : σ} :
    ¬ FetchFails g branch found 0 s := by
  intro hf
  cases hf

/-- One more round before a loop. -/
theorem Ends.succ {found : EStateM Error σ Bool} {target : Shallow h → Prop} {missing : Error}
    {rounds : Nat} {s u : σ} {r : Shallow h} {out : String}
    {res : EStateM.Result Error σ Unit} (htarget : ¬ target r)
    (hrun : g.run (.deepen branch) (state (found s)) = .ok out u)
    (hrest : Ends g branch tip found target missing rounds u (r.deepen 50 tip) res) :
    Ends g branch tip found target missing (rounds + 1) s r res := by
  -- The rounds of the rest are those of the whole, from the second on.
  have hshift : ∀ k, (r.deepen 50 tip).deepened 50 tip k = r.deepened 50 tip (k + 1) :=
    fun k => (Function.iterate_succ_apply _ k r).symm
  have hbefore : ∀ k, (∀ j < k, ¬ target ((r.deepen 50 tip).deepened 50 tip j)) →
      ∀ j < k + 1, ¬ target (r.deepened 50 tip j) := by
    intro k hk j hj
    cases j with
    | zero => exact htarget
    | succ j =>
        rw [← hshift]
        exact hk j (Nat.lt_of_succ_lt_succ hj)
  cases hrest with
  | found hk hdisk hfound hb hfetched =>
      rw [hshift] at hdisk hfound
      exact .found (Nat.succ_lt_succ hk) hdisk hfound (hbefore _ hb)
        ((fetchFails_succ_iff hrun).not.mpr hfetched)
  | fetchFailed hk hdisk hb hfails =>
      rw [hshift] at hdisk
      refine .fetchFailed (Nat.succ_lt_succ hk) hdisk (fun j hj => ?_)
        ((fetchFails_succ_iff hrun).mpr hfails)
      exact hbefore _ (fun i hi => hb i (Nat.le_of_lt_succ hi)) j (Nat.lt_succ_of_le hj)
  | exhausted hdisk hb hfetched =>
      rw [hshift] at hdisk
      exact .exhausted hdisk (hbefore _ hb) ((fetchFails_succ_iff hrun).not.mpr hfetched)

/-- How a deepening loop ends. -/
theorem deepenUntil_ends (hdoc : g.Documented branch tip sha) {found : EStateM Error σ Bool}
    {target : Shallow h → Prop} (hfound : Checks g found target) (missing : Error)
    (rounds : Nat) {s : σ} {r : Shallow h} (hs : g.disk s = some r) :
    Ends g branch tip found target missing rounds s r
      (deepenUntil g.run branch found missing rounds s) := by
  induction rounds generalizing s r with
  -- No round is left: the loop gives up without a look.
  | zero =>
      exact .exhausted hs (fun j hj => absurd hj (Nat.not_lt_zero j)) not_fetchFails_zero
  | succ rounds ih =>
      obtain ⟨b, t, hcheck, ht, hb⟩ := hfound s r hs
      have hstate : state (found s) = t := by
        rw [hcheck]
        rfl
      rw [deepenUntil, bind_ok hcheck]
      cases b with
      -- The check succeeds, and the loop returns before its first fetch.
      | true =>
          exact .found (k := 0) (Nat.succ_pos rounds) ht (hb.mp rfl)
            (fun j hj => absurd hj (Nat.not_lt_zero j)) not_fetchFails_zero
      | false =>
          have htarget : ¬ target r := fun h => absurd (hb.mpr h) Bool.false_ne_true
          rw [if_neg Bool.false_ne_true]
          cases hdeepen : g.run (.deepen branch) t with
          -- The fetch of the first round fails.
          | error e u =>
              rw [bind_error hdeepen]
              have hu : g.disk u = some r := (hdoc.deepen_failed t e u hdeepen).trans ht
              rw [← hstate] at hdeepen
              refine .fetchFailed (k := 0) (Nat.succ_pos rounds) hu (fun j hj => ?_) (.now hdeepen)
              rw [Nat.le_zero.mp hj]
              exact htarget
          -- The fetch succeeds, and the rest of the rounds start from the deeper repository.
          | ok out u =>
              rw [bind_ok hdeepen]
              have hu := hdoc.deepen t r out u ht hdeepen
              rw [← hstate] at hdeepen
              exact (ih hu).succ htarget hdeepen

/-! ### What a loop is right about -/

/-- The loop succeeds when the target is there at its end, and the target is not there when
it fails. -/
structure Finds (g : GitTool h σ) (loop : EStateM Error σ Unit) (s : σ)
    (target : Shallow h → Prop) : Prop where
  ok : ∀ r, g.disk (state (loop s)) = some r → target r → ∃ t, loop s = .ok () t
  error : ∀ e t r, loop s = .error e t → g.disk t = some r → ¬ target r

/-- A loop that returns has found its target, since it returns only after a probe that succeeds. -/
theorem finds_of_ok {loop : EStateM Error σ Unit} {s t : σ} {target : Shallow h → Prop}
    (hrun : loop s = .ok () t) : Finds g loop s target := by
  refine ⟨fun _ _ _ => ⟨t, hrun⟩, fun e u r he => ?_⟩
  rw [hrun] at he
  cases he

/-- A loop that gives up is right exactly when the target is not there at its end. -/
theorem finds_error_iff {loop : EStateM Error σ Unit} {s t : σ} {e : Error} {r : Shallow h}
    {target : Shallow h → Prop} (hrun : loop s = .error e t) (ht : g.disk t = some r) :
    Finds g loop s target ↔ ¬ target r := by
  refine ⟨fun hfinds => hfinds.error e t r hrun ht, fun hr => ⟨fun r' hr' htarget => ?_, ?_⟩⟩
  · rw [hrun] at hr'
    have hr' : g.disk t = some r' := hr'
    rw [ht, Option.some.injEq] at hr'
    exact absurd (hr' ▸ htarget) hr
  · intro e' t' r' he hr'
    rw [hrun] at he
    cases he
    rw [ht, Option.some.injEq] at hr'
    exact hr' ▸ hr

/-- A loop is wrong only about a target that comes with its last fetch. -/
theorem deepenUntil_finds_iff (hdoc : g.Documented branch tip sha)
    {found : EStateM Error σ Bool} {target : Shallow h → Prop} (hfound : Checks g found target)
    (missing : Error) (rounds : Nat) {s : σ} {r : Shallow h} (hs : g.disk s = some r) :
    Finds g (deepenUntil g.run branch found missing rounds) s target ↔
      FetchFails g branch found rounds s ∨ (∃ k < rounds, target (r.deepened 50 tip k)) ∨
        ¬ target (r.deepened 50 tip rounds) := by
  have hends := deepenUntil_ends hdoc hfound missing rounds hs
  generalize hres : deepenUntil g.run branch found missing rounds s = res at hends
  cases hends with
  | found hk hdisk htarget hbefore hfetched =>
      exact ⟨fun _ => .inr (.inl ⟨_, hk, htarget⟩), fun _ => finds_of_ok hres⟩
  | fetchFailed hk hdisk hbefore hfails =>
      rw [finds_error_iff hres hdisk]
      exact ⟨fun _ => .inl (hfails.mono hk), fun _ => hbefore _ (Nat.le_refl _)⟩
  | exhausted hdisk hbefore hfetched =>
      rw [finds_error_iff hres hdisk]
      refine ⟨fun hlast => .inr (.inr hlast), fun hcases => ?_⟩
      rcases hcases with hfails | ⟨k, hk, htarget⟩ | hlast
      · exact absurd hfails hfetched
      · exact absurd htarget (hbefore k hk)
      · exact hlast

/-! ### The two loops -/

/-- The probe for a commit looks for it in the object store. -/
theorem checks_shaFound (hdoc : g.Documented branch tip sha) (c : κ) :
    Checks g (shaFound g.run (sha c)) fun r => c ∈ r.has := by
  intro s r hs
  have hfound := hdoc.catFile s r c hs
  have hdisk := hdoc.catFile_disk s (sha c)
  have hattempt := attempt_run (δ := Error) (g.run (.catFile (sha c))) s
  rw [shaFound]
  cases hrun : g.run (.catFile (sha c)) s with
  -- `cat-file` finds the commit, so it is there.
  | ok out t =>
      rw [hrun] at hfound hdisk hattempt
      exact ⟨true, t, bind_ok hattempt, hdisk.trans hs,
        fun _ => hfound.mp ⟨out, t, rfl⟩, fun _ => rfl⟩
  | error e t =>
      rw [hrun] at hfound hdisk hattempt
      refine ⟨false, t, bind_ok hattempt, hdisk.trans hs,
        fun h => (Bool.false_ne_true h).elim, fun hc => ?_⟩
      obtain ⟨out, u, hok⟩ := hfound.mpr hc
      cases hok

/-- The probe for a depth counts the commits held. -/
theorem checks_depthReached (hdoc : g.Documented branch tip sha) (depth : Nat) :
    Checks g (depthReached g.run depth) fun r => depth ≤ r.held := by
  intro s r hs
  obtain ⟨out, t, hrun, ht, hcount⟩ := hdoc.revListCount s r hs
  refine ⟨_, t, bind_ok hrun, ht, ?_⟩
  rw [hcount]
  exact decide_eq_true_iff

/-- Rounds of deepening find a commit in the generations they add up to. -/
theorem exists_mem_deepened_iff {r : Shallow h} {c : κ} {rounds : Nat} :
    (∃ k < rounds + 1, c ∈ (r.deepened 50 tip k).has) ↔
      c ∈ r.has ∪ h.within (50 * rounds) (r.boundary tip) := by
  constructor
  · rintro ⟨k, hk, hc⟩
    rw [Shallow.has_deepened] at hc
    exact hc.imp id fun hc =>
      History.within_le (Nat.mul_le_mul_left 50 (Nat.le_of_lt_succ hk)) hc
  · intro hc
    exact ⟨rounds, Nat.lt_succ_self rounds, by rwa [Shallow.has_deepened]⟩

/-- The search for a commit is right about it, unless every fetch succeeds and the commit lies in
the fifty generations that the last one brought: after that fetch the loop does not probe again. -/
theorem ensureShaReachable_finds_iff (hdoc : g.Documented branch tip sha) {s : σ} {r : Shallow h}
    (hs : g.disk s = some r) (c : κ) :
    Finds g (g.ensureShaReachable branch (sha c)) s (fun r => c ∈ r.has) ↔
      FetchFails g branch (shaFound g.run (sha c)) 20 s ∨
        c ∈ r.has ∪ h.within 950 (r.boundary tip) ∨
        c ∉ r.has ∪ h.within 1000 (r.boundary tip) := by
  refine (deepenUntil_finds_iff hdoc (checks_shaFound hdoc c) _ deepenRounds hs).trans ?_
  refine or_congr Iff.rfl (or_congr (@exists_mem_deepened_iff _ _ _ _ _ 19) ?_)
  rw [Shallow.has_deepened]
  rfl

/-- The search for a depth is right under a condition of the same form, with the number of commits
held in place of the commit. -/
theorem ensureDepth_finds_iff (hdoc : g.Documented branch tip sha) {s : σ} {r : Shallow h}
    (hs : g.disk s = some r) (depth : Nat) :
    Finds g (g.ensureDepth branch depth) s (fun r => depth ≤ r.held) ↔
      FetchFails g branch (depthReached g.run depth) 20 s ∨
        (∃ k < 20, depth ≤ (r.deepened 50 tip k).held) ∨ (r.deepened 50 tip 20).held < depth := by
  refine (deepenUntil_finds_iff hdoc (checks_depthReached hdoc depth) _ deepenRounds hs).trans ?_
  exact or_congr Iff.rfl (or_congr Iff.rfl Nat.not_le)

/-- Each loop is right about its target exactly when a fetch fails, or the target is there
before the last of the twenty fetches, or it is not there after it. -/
theorem deepening_finds_iff (hdoc : g.Documented branch tip sha) {s : σ} {r : Shallow h}
    (hs : g.disk s = some r) (c : κ) (depth : Nat) :
    (Finds g (g.ensureShaReachable branch (sha c)) s (fun r => c ∈ r.has) ↔
      FetchFails g branch (shaFound g.run (sha c)) 20 s ∨
        c ∈ r.has ∪ h.within 950 (r.boundary tip) ∨
        c ∉ r.has ∪ h.within 1000 (r.boundary tip)) ∧
    (Finds g (g.ensureDepth branch depth) s (fun r => depth ≤ r.held) ↔
      FetchFails g branch (depthReached g.run depth) 20 s ∨
        (∃ k < 20, depth ≤ (r.deepened 50 tip k).held) ∨
        (r.deepened 50 tip 20).held < depth) :=
  ⟨ensureShaReachable_finds_iff hdoc hs c, ensureDepth_finds_iff hdoc hs depth⟩

/-- A fresh clone of three commits: the parent of the tip is found. -/
theorem deepening_finds_parent :
    Finds (GitTool.lineTool 2) ((GitTool.lineTool 2).ensureShaReachable "main" (toString 1))
      (some (GitTool.cloned (GitTool.line 2) 0)) (fun r => 1 ∈ r.has) := by
  have habove : {0} ⊆ (GitTool.cloned (GitTool.line 2) 0).boundary 0 :=
    Set.subset_inter Set.Subset.rfl (History.within_subset_ancestors (n := 0))
  have hbound : (1 : Fin 3) ∈ (GitTool.line 2).within 950
      ((GitTool.cloned (GitTool.line 2) 0).boundary 0) :=
    History.within_mono habove (GitTool.mem_within_line.mpr (by decide))
  exact (deepening_finds_iff (GitTool.lineTool_documented (by decide) "main") rfl 1 2).1.mpr
    (.inr (.inl (.inr hbound)))

/-- Nothing fails on a checkout of the ideal machine. -/
theorem not_fetchFails_ideal {found : EStateM Error (Option (Shallow h)) Bool}
    {target : Shallow h → Prop} (hfound : Checks (GitTool.ideal h tip sha) found target)
    {n : Nat} {r : Shallow h} : ¬ FetchFails (GitTool.ideal h tip sha) branch found n (some r) := by
  induction n generalizing r with
  | zero => exact not_fetchFails_zero
  | succ n ih =>
      obtain ⟨b, t, hcheck, ht, hb⟩ := hfound (some r) r rfl
      have ht : t = some r := ht
      have hrun : (GitTool.ideal h tip sha).run (.deepen branch) (state (found (some r))) =
          .ok "" (some (r.deepen 50 tip)) := by
        rw [hcheck, ht]
        rfl
      rw [fetchFails_succ_iff hrun]
      exact ih

/-- A fresh clone of 952 commits in a row: the last fetch brings the last commit, and the loop
says that it cannot be reached. -/
theorem lastBatch_missed :
    (GitTool.lineTool 951).Documented "main" 0 (fun c => toString c.val) ∧
    ¬ Finds (GitTool.lineTool 951) ((GitTool.lineTool 951).ensureShaReachable "main" (toString 951))
      (some (GitTool.cloned (GitTool.line 951) 0)) (fun r => Fin.last 951 ∈ r.has) := by
  have hdoc := GitTool.lineTool_documented (n := 951) (by decide) "main"
  refine ⟨hdoc, fun hfinds => ?_⟩
  have habove : {0} ⊆ (GitTool.line 951).ancestors {0} := History.within_subset_ancestors (n := 0)
  have hboundary : (GitTool.cloned (GitTool.line 951) 0).boundary 0 = {0} :=
    Set.inter_eq_left.mpr habove
  have hiff := ensureShaReachable_finds_iff hdoc (s := some (GitTool.cloned (GitTool.line 951) 0))
    rfl (Fin.last 951)
  rw [hboundary] at hiff
  rcases hiff.mp hfinds with hfails | (hthere | hsoon) | hnever
  · exact not_fetchFails_ideal (checks_shaFound hdoc _) hfails
  · exact absurd (Fin.val_eq_of_eq hthere) (by decide)
  · exact absurd (GitTool.mem_within_line.mp hsoon) (by decide)
  · exact hnever (.inr (GitTool.mem_within_line.mpr (by decide)))

end LeanCd.GitSync
