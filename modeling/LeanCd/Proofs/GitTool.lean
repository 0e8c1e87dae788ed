import LeanCd.GitLoops
import LeanCd.Lib.History

/-!
# `LeanCd.Proofs.GitTool`: what `git` is documented to do

`git` is not part of the program. A `GitTool` is any machine that runs its commands, and
`Documented` says what the deepening loops rely on: `cat-file` finds the commits that are there,
`rev-list --count` counts those that can be reached from `HEAD`, a fetch sets `FETCH_HEAD` to the
tip of the branch, a clone sets only `HEAD`, and a deepening fetch adds the next 50 generations. A
fetch that fails changes nothing.

`GitTool.ideal` is a machine that does all this over any small history (`ideal_documented`).

The ideal machine keeps a `Shallow` repository as its only state and answers every command from
it. It shows that the documented behaviour can be had, and gives the examples a `git` to run with.
A line of commits is its smallest history.
-/

set_option autoImplicit false

namespace LeanCd.GitSync

/-- A way of running `git`, with a state, and the checkout in the work directory, if any. -/
structure GitTool {κ : Type} (h : History κ) (σ : Type) where
  run : GitCommand → EStateM Error σ String
  gitDirExists : EStateM Error σ Bool
  clearWorkDir : EStateM Error σ Unit
  disk : σ → Option (Shallow h)

namespace GitTool

variable {κ σ : Type} {h : History κ}

/-- What `git` is documented to do for a branch with that tip. -/
structure Documented (g : GitTool h σ) (branch : String) (tip : κ) (sha : κ → String) : Prop where
  catFile : ∀ s r c, g.disk s = some r →
    ((∃ out t, g.run (.catFile (sha c)) s = .ok out t) ↔ c ∈ r.has)
  catFile_disk : ∀ s text, g.disk (Act.state (g.run (.catFile text) s)) = g.disk s
  revListCount : ∀ s r, g.disk s = some r → ∃ out t, g.run .revListCount s = .ok out t ∧
    g.disk t = some r ∧ Text.parseUsize (Text.trim out) = some r.held
  deepen : ∀ s r out t, g.disk s = some r → g.run (.deepen branch) s = .ok out t →
    g.disk t = some (r.deepen 50 tip)
  deepen_failed : ∀ s e t, g.run (.deepen branch) s = .error e t → g.disk t = g.disk s
  fetch : ∀ s r out t, g.disk s = some r → g.run (.fetch branch) s = .ok out t →
    g.disk t = some (r.fetched tip)
  clone : ∀ s out t, g.disk s = none → g.run (.clone branch) s = .ok out t →
    ∃ r, g.disk t = some r ∧ r.head = tip ∧ r.fetchHead = none
  gitDirExists : ∀ s, ∃ t, g.gitDirExists s = .ok (g.disk s).isSome t ∧ g.disk t = g.disk s
  clearWorkDir : ∀ s t, g.clearWorkDir s = .ok () t → g.disk t = none

/-- `ensure_sha_reachable`. -/
def ensureShaReachable (g : GitTool h σ) (branch sha : String) : EStateM Error σ Unit :=
  deepenUntil g.run branch (shaFound g.run sha) (shaMissing sha) deepenRounds

/-- `ensure_depth`. -/
def ensureDepth (g : GitTool h σ) (branch : String) (depth : Nat) : EStateM Error σ Unit :=
  deepenUntil g.run branch (depthReached g.run depth) (depthMissing depth) deepenRounds

section
variable {sc : Scopes} {env : Env sc} {cfg : Config} {url : String}

/-- Over the commands of the controller it is the function of `LeanCd.GitSync`. -/
theorem ensureShaReachable_runGit {g : GitTool h (World sc)} (hg : g.run = runGit env cfg url)
    (sha : String) : g.ensureShaReachable cfg.branch sha =
      GitSync.ensureShaReachable env cfg url sha deepenRounds := by
  rw [ensureShaReachable_eq, ensureShaReachable, hg]

/-- The abstract loop over a tool is the loop of the source, where the tool is the git of the
environment. -/
theorem ensureDepth_runGit {g : GitTool h (World sc)} (hg : g.run = runGit env cfg url)
    (depth : Nat) : g.ensureDepth cfg.branch depth =
      GitSync.ensureDepth env cfg url depth deepenRounds := by
  rw [ensureDepth_eq, ensureDepth, hg]

end

/-! ### A machine that does what is documented -/

/-- A repository with one commit. -/
def cloned (h : History κ) (tip : κ) : Shallow h where
  head := tip
  fetchHead := none
  has := {tip}
  cut := {tip}
  head_mem := rfl
  cut_subset := Set.Subset.rfl
  closed := fun _ hc hcut => absurd hc hcut
  finite := Set.finite_singleton tip

open Classical in
/-- A command on a checkout. -/
noncomputable def idealRun (tip : κ) (sha : κ → String) (r : Shallow h) : GitCommand →
    EStateM.Result Error (Option (Shallow h)) String
  | .catFile text =>
      if ∃ c ∈ r.has, sha c = text then .ok "" (some r)
      else .error (.git "Not a valid object name") (some r)
  | .revListCount => .ok (toString r.held ++ "\n") (some r)
  | .deepen _ => .ok "" (some (r.deepen 50 tip))
  | .fetch _ => .ok "" (some (r.fetched tip))
  | .clone _ => .error (.git "destination path already exists") (some r)
  | .resetHard _ | .checkout _ | .revParseHead => .ok "" (some r)

/-- A machine whose state is the checkout itself, and whose fetches never fail. -/
noncomputable def ideal (h : History κ) (tip : κ) (sha : κ → String) :
    GitTool h (Option (Shallow h)) where
  run cmd := fun s =>
    match s, cmd with
    | some r, cmd => idealRun tip sha r cmd
    | none, .clone _ => .ok "" (some (cloned h tip))
    | none, _ => .error (.git "not a git repository") none
  gitDirExists := fun s => .ok s.isSome s
  clearWorkDir := fun _ => .ok () none
  disk s := s

/-- The ideal tool finds a commit in its object store exactly when it holds it. -/
theorem ideal_catFile {tip : κ} {sha : κ → String} (hsha : Function.Injective sha)
    {r : Shallow h} {c : κ} :
    (∃ out t, (ideal h tip sha).run (.catFile (sha c)) (some r) = .ok out t) ↔ c ∈ r.has := by
  by_cases hc : c ∈ r.has
  · exact ⟨fun _ => hc, fun _ => ⟨"", some r, if_pos ⟨c, hc, rfl⟩⟩⟩
  · have hfail : (ideal h tip sha).run (.catFile (sha c)) (some r) =
        .error (.git "Not a valid object name") (some r) :=
      if_neg fun hfound => by
        obtain ⟨c', hc', heq⟩ := hfound
        exact hc (hsha heq ▸ hc')
    refine ⟨fun hrun => ?_, fun h => absurd h hc⟩
    obtain ⟨out, t, hrun⟩ := hrun
    rw [hfail] at hrun
    cases hrun

/-- The ideal tool does what git documents, as long as its counts fit the type that the source
parses them into. -/
theorem ideal_documented (branch : String) (tip : κ) {sha : κ → String}
    (hsha : Function.Injective sha) (hsmall : ∀ r : Shallow h, r.held ≤ Text.u64Max) :
    (ideal h tip sha).Documented branch tip sha where
  catFile := by
    intro s r c hs
    cases hs
    exact ideal_catFile hsha
  catFile_disk := by
    intro s text
    cases s with
    | none => rfl
    | some r =>
        show Act.state (idealRun tip sha r (.catFile text)) = some r
        rw [idealRun]
        split <;> rfl
  revListCount := by
    -- A shallow repository counts what it holds, which fits in the word.
    intro s r hs
    cases hs
    exact ⟨_, _, rfl, rfl, Text.parseUsize_trim_line (hsmall r)⟩
  deepen := by
    intro s r out t hs hrun
    cases hs
    cases hrun
    rfl
  deepen_failed := by
    intro s e t hrun
    -- Only the fetch without a repository fails.
    cases s with
    | none =>
        cases hrun
        rfl
    | some r => cases hrun
  fetch := by
    intro s r out t hs hrun
    cases hs
    cases hrun
    rfl
  clone := by
    intro s out t hs hrun
    cases hs
    cases hrun
    exact ⟨_, rfl, rfl, rfl⟩
  gitDirExists := fun s => ⟨s, rfl, rfl⟩
  clearWorkDir := by
    intro s t hrun
    cases hrun
    rfl

/-! ### A line of commits -/

/-- Commits in a row, the newest first. -/
def line (n : Nat) : History (Fin (n + 1)) where
  parents c := if hc : c.val < n then [⟨c.val + 1, Nat.succ_lt_succ hc⟩] else []

/-- In a line of commits each one but the last has one parent, the next. -/
theorem mem_parents_line {n : Nat} {c p : Fin (n + 1)} :
    p ∈ (line n).parents c ↔ p.val = c.val + 1 := by
  by_cases hc : c.val < n
  · have hnext : (line n).parents c = [⟨c.val + 1, Nat.succ_lt_succ hc⟩] := dif_pos hc
    rw [hnext, List.mem_singleton, Fin.ext_iff]
  · have hlast : (line n).parents c = [] := dif_neg hc
    rw [hlast]
    have hp := p.isLt
    constructor
    · intro hmem
      cases hmem
    · omega

/-- The generations above the newest commit. -/
theorem mem_within_line {n k : Nat} {c : Fin (n + 1)} :
    c ∈ (line n).within k {0} ↔ c.val ≤ k := by
  induction k generalizing c with
  | zero =>
      show c = 0 ↔ c.val ≤ 0
      rw [Fin.ext_iff]
      exact Nat.le_zero.symm
  | succ k ih =>
      show c ∈ (line n).within k {0} ∨ (∃ d ∈ (line n).within k {0}, c ∈ (line n).parents d) ↔ _
      constructor
      -- The start itself lies within one step less.
      · rintro (hc | ⟨d, hd, hc⟩)
        · exact Nat.le_succ_of_le (ih.mp hc)
        · rw [mem_parents_line] at hc
          exact hc ▸ Nat.succ_le_succ (ih.mp hd)
      -- Either it was there before, or it is the last one, whose child was.
      · intro hc
        by_cases hk : c.val ≤ k
        · exact .inl (ih.mpr hk)
        · have hck : c.val = k + 1 := Nat.le_antisymm hc (Nat.lt_of_not_le hk)
          have hlt := c.isLt
          refine .inr ⟨⟨k, by omega⟩, ih.mpr (Nat.le_refl k), ?_⟩
          rw [mem_parents_line]
          exact hck

/-- The machine over a line of commits, which are named by their numbers. -/
noncomputable def lineTool (n : Nat) : GitTool (line n) (Option (Shallow (line n))) :=
  ideal (line n) 0 fun c => toString c.val

/-- The tool over a line of commits does what git documents. -/
theorem lineTool_documented {n : Nat} (hn : n < Text.u64Max) (branch : String) :
    (lineTool n).Documented branch 0 fun c => toString c.val := by
  refine ideal_documented branch 0 (Text.toString_injective.comp Fin.val_injective) fun r => ?_
  refine (Set.ncard_le_card _).trans ?_
  rw [Nat.card_eq_fintype_card, Fintype.card_fin]
  exact hn

end GitTool

end LeanCd.GitSync
