import LeanCd.Calm
import LeanCd.Proofs.PassStart

/-!
# `LeanCd.Proofs.Expansion`: a pattern that cannot be expanded

`expand_roots` has one error for three findings: a pattern that does not compile, a
match that cannot be read, and patterns that match no directory. With a non-empty
applied set a pass takes that error for an empty checkout.

`FailsClosed` is what the first two findings should lead to: an error, and nothing
else. `failsClosed_iff` says that a pass has this property exactly when neither finding
occurs where there is something to lose, and `badPattern_tearsDown` is a pass that
deletes everything because of a bracket in a pattern.

The patterns are expanded one after the other, and `badPattern` is what stops the expansion.
Whether something is to be lost is read off the prior state: with an empty applied set the error
ends the pass, and with any other it is taken for an empty checkout.
-/

set_option autoImplicit false

namespace LeanCd

namespace Manifest

/-- The pattern does not compile, or one of its matches cannot be read. -/
def badPattern (tree : WorkTree) (base pat : String) : Bool :=
  match tree.glob (absolutePattern base pat) with
  | .error _ => true
  | .ok found => found.any fun m => !m.isOk

variable {u : Char → Bool} {tree : WorkTree} {base : String}

/-- Reading the matches succeeds when every one of them can be read. -/
theorem readMatches_ok {α : Type} {onError : String → Error} {found : List (Except String α)}
    (h : (found.any fun m => !m.isOk) = false) :
    ∃ ps, readMatches onError found = .ok ps := by
  induction found with
  | nil => exact ⟨[], rfl⟩
  | cons m rest ih =>
      rw [List.any_cons, Bool.or_eq_false_iff] at h
      cases m with
      | error e => cases h.1
      | ok p =>
          obtain ⟨ps, hps⟩ := ih h.2
          exact ⟨p :: ps, by rw [readMatches, hps]; rfl⟩

/-- Reading the matches stops at one that cannot be read. -/
theorem readMatches_error {α : Type} {onError : String → Error}
    {found : List (Except String α)} (h : (found.any fun m => !m.isOk) = true) :
    ∃ e, readMatches onError found = .error (onError e) := by
  induction found with
  | nil => cases h
  | cons m rest ih =>
      cases m with
      | error e => exact ⟨e, rfl⟩
      | ok p =>
          obtain ⟨e, he⟩ := ih h
          exact ⟨e, by rw [readMatches, he]; rfl⟩

/-- A pattern that compiles and can be walked expands, to some list of directories. -/
theorem expandPattern_ok {pat : String} (h : badPattern tree base pat = false) :
    ∃ dirs, expandPattern u tree base pat = .ok dirs := by
  unfold badPattern at h
  unfold expandPattern
  cases hglob : tree.glob (absolutePattern base pat) with
  | error e => rw [hglob] at h; cases h
  | ok found =>
      rw [hglob] at h
      obtain ⟨ps, hps⟩ := readMatches_ok h
      dsimp only
      rw [hps]
      exact ⟨_, rfl⟩

/-- A bad pattern is an error of the configuration. -/
theorem expandPattern_error {pat : String} (h : badPattern tree base pat = true) :
    ∃ text, expandPattern u tree base pat = .error (.config text) := by
  unfold badPattern at h
  unfold expandPattern
  cases hglob : tree.glob (absolutePattern base pat) with
  | error e => exact ⟨_, rfl⟩
  | ok found =>
      rw [hglob] at h
      obtain ⟨e, he⟩ := readMatches_error h
      dsimp only
      rw [he]
      exact ⟨_, rfl⟩

/-- Patterns that are all good expand. -/
theorem expandPatterns_ok {pats : List String}
    (h : ∀ pat ∈ pats, badPattern tree base pat = false) :
    ∃ dirs, expandPatterns u tree base pats = .ok dirs := by
  induction pats with
  | nil => exact ⟨[], rfl⟩
  | cons pat rest ih =>
      obtain ⟨dirs, hdirs⟩ := expandPattern_ok (h pat List.mem_cons_self)
      obtain ⟨more, hmore⟩ := ih fun p hp => h p (List.mem_cons_of_mem pat hp)
      exact ⟨dirs ++ more, by rw [expandPatterns, hdirs, hmore]; rfl⟩

/-- One bad pattern fails the expansion, with a configuration error. -/
theorem expandPatterns_error {pats : List String}
    (h : ∃ pat ∈ pats, badPattern tree base pat = true) :
    ∃ text, expandPatterns u tree base pats = .error (.config text) := by
  induction pats with
  | nil => exact absurd h (by simp)
  | cons pat rest ih =>
      cases hpat : badPattern tree base pat with
      | true =>
          obtain ⟨text, htext⟩ := expandPattern_error hpat
          exact ⟨text, by rw [expandPatterns, htext]⟩
      | false =>
          obtain ⟨dirs, hdirs⟩ := expandPattern_ok hpat
          obtain ⟨p, hp, hbad⟩ := h
          -- The first pattern expands, so the bad one is among the others.
          have hrest : p ∈ rest := (List.mem_cons.mp hp).resolve_left fun hpp => by
            rw [hpp, hpat] at hbad
            cases hbad
          obtain ⟨text, htext⟩ := ih ⟨p, hrest, hbad⟩
          exact ⟨text, by rw [expandPatterns, hdirs, htext]; rfl⟩

end Manifest

namespace Reconcile

open Act Manifest

variable {sc : Scopes}

/-- Some pattern of the configuration cannot be expanded. -/
def PatternFailure (tree : WorkTree) (cfg : Config) : Prop :=
  ∃ pat ∈ cfg.path, badPattern tree cfg.effectiveWorkDir pat = true

instance (tree : WorkTree) (cfg : Config) : Decidable (PatternFailure tree cfg) :=
  inferInstanceAs (Decidable (∃ pat ∈ cfg.path, _))

/-- Every directory the patterns match was read, and there is no main manifest. -/
def NoMainManifest (env : Env sc) (sha : String) (cfg : Config) : Prop :=
  ∃ dirs ms,
    expandPatterns env.unprintable (env.tree sha) cfg.effectiveWorkDir cfg.path = .ok dirs ∧
    parsePaths env.yaml (env.tree sha) (sortDedup dirs) = .ok ms ∧
    (Hooks.classify ms).main = []

variable {env : Env sc} {sha : String} {cfg : Config} {applied : List ResourceKey}

/-- With a non-empty applied set, a pattern that cannot be expanded counts as an empty
checkout. -/
theorem desired_of_patternFailure (happlied : applied ≠ [])
    (h : PatternFailure (env.tree sha) cfg) :
    desired env sha cfg applied = .ok Hooks.Classified.empty := by
  obtain ⟨text, htext⟩ := expandPatterns_error h
  have hroots : rootsOf env sha cfg applied = .ok [] := by
    rw [rootsOf, expandRoots, htext]
    exact if_pos happlied
  rw [desired, hroots]
  rfl

/-- Without one, the directories of the pass are the ones the patterns match. -/
theorem rootsOf_of_expanded {dirs roots : List Path}
    (hdirs : expandPatterns env.unprintable (env.tree sha) cfg.effectiveWorkDir cfg.path =
      .ok dirs)
    (hroots : rootsOf env sha cfg applied = .ok roots) : roots = sortDedup dirs := by
  rw [rootsOf, expandRoots, hdirs] at hroots
  cases dirs with
  | nil =>
      -- No directory matched. The error is taken for the empty list, which is also
      -- what sorting no directories yields.
      change (if applied ≠ [] then Except.ok [] else _) = Except.ok roots at hroots
      split at hroots
      · exact (Except.ok.inj hroots).symm
      · cases hroots
  | cons d ds => exact (Except.ok.inj hroots).symm

/-- Without one, a checkout without main manifests is one whose directories were all
read. -/
theorem noMainManifest_of_desired {c : Classified} (h : ¬ PatternFailure (env.tree sha) cfg)
    (hc : desired env sha cfg applied = .ok c) (hmain : c.main = []) :
    NoMainManifest env sha cfg := by
  have hgood : ∀ pat ∈ cfg.path,
      badPattern (env.tree sha) cfg.effectiveWorkDir pat = false := fun pat hp => by
    simpa using fun hbad => h ⟨pat, hp, hbad⟩
  obtain ⟨dirs, hdirs⟩ := expandPatterns_ok (u := env.unprintable) hgood
  obtain ⟨roots, ms, hroots, hparsed, rfl⟩ := desired_ok hc
  rw [rootsOf_of_expanded hdirs hroots] at hparsed
  exact ⟨dirs, ms, hdirs, hparsed, hmain⟩

variable {r : Reconciler} {w : World sc}

/-- The pass is a teardown: it is no dry run, and finds no main manifest where some were
applied. -/
def TearsDown (x : Started env r w) : Prop :=
  r.cfg.dryRun = false ∧ ∃ c,
    desired env x.sync.sha r.cfg (prevApplied x.prev) = .ok c ∧
    isTeardown c (prevApplied x.prev) = true

/-- The applied set and the commit in the state ConfigMap. -/
def persisted (w : World sc) : Option (List ResourceKey × Option String) :=
  w.stateCm.map fun v => ((State.fromData v).applied, (State.fromData v).lastSha)

/-- A pass with something to lose returns an error and changes nothing when a pattern
cannot be expanded, and tears down only what Git really does not declare. -/
structure FailsClosed (env : Env sc) (r : Reconciler) (w : World sc) : Prop where
  failure : ∀ x : Started env r w, prevApplied x.prev ≠ [] →
    PatternFailure (env.tree x.sync.sha) r.cfg →
    After (runOnce env r) w fun res t =>
      (∃ e, res = .error e) ∧ t.deletions = w.deletions ∧ persisted t = persisted w
  teardown : ∀ x : Started env r w, prevApplied x.prev ≠ [] → TearsDown x →
    ¬ PatternFailure (env.tree x.sync.sha) r.cfg ∧
      NoMainManifest env x.sync.sha r.cfg

/-- A dry run that takes the checkout for empty succeeds. -/
theorem runOnce_dryRun_ok (x : Started env r w) (hdry : r.cfg.dryRun = true)
    (hempty : desired env x.sync.sha r.cfg (prevApplied x.prev) =
      .ok Hooks.Classified.empty) :
    After (runOnce env r) w fun res _ => res = .ok () := by
  have hpass : After (reconcile env r) w fun res _ => res = .ok () := by
    refine x.after_reconcile ?_ fun _ _ _ _ h => h
    rw [converge, hempty, after_bind, after_ofExcept]
    dsimp only
    rw [after_ite, hdry, if_pos rfl, after_bind]
    rfl
  refine after_runOnce_of (hpass.mono ?_)
  rintro _ t rfl
  exact ⟨fun _ => rfl, by simp⟩

/-- A pass fails closed exactly when, where it has something to lose, every pattern can be
expanded. -/
theorem failsClosed_iff (env : Env sc) (r : Reconciler) (w : World sc) :
    FailsClosed env r w ↔ ∀ x : Started env r w, prevApplied x.prev ≠ [] →
      ¬ PatternFailure (env.tree x.sync.sha) r.cfg := by
  constructor
  · intro h x happlied hbad
    -- The bad pattern passes for an empty checkout. A dry run then succeeds, where it should
    -- fail, and any other pass tears down what Git may still declare.
    have hempty := desired_of_patternFailure happlied hbad
    cases hdry : r.cfg.dryRun with
    | true =>
        obtain ⟨⟨e, he⟩, -⟩ := h.failure x happlied hbad
        exact absurd ((runOnce_dryRun_ok x hdry hempty).symm.trans he) nofun
    | false =>
        have htear : TearsDown x := by
          refine ⟨hdry, _, hempty, ?_⟩
          simpa [isTeardown, Hooks.Classified.empty] using happlied
        exact (h.teardown x happlied htear).1 hbad
  · intro h
    refine ⟨fun x happlied hbad => absurd hbad (h x happlied), fun x happlied htear => ?_⟩
    obtain ⟨-, c, hc, hteardown⟩ := htear
    rw [isTeardown, Bool.and_eq_true, List.isEmpty_iff] at hteardown
    exact ⟨h x happlied, noMainManifest_of_desired (h x happlied) hc hteardown.1⟩

/-- The repository of one ConfigMap, read through a pattern that does not compile. -/
def bracketEnv : Env .namespacedOnly :=
  { syncedEnv with
    tree := fun _ =>
      { WorkTree.oneFile "/tmp/leancd-work-1/prod" "all" with
        glob := fun _ => .error "Pattern syntax error near position 24: invalid range pattern" } }

/-- A pass over it. -/
def bracketPass : Reconciler :=
  ⟨{ settingsCfg with path := ["prod["], watchMode := .off }, ⟨none, none, none⟩, none, "pod:1"⟩

/-- The pass succeeds, deletes the ConfigMap that Git still declares, and forgets it. -/
theorem badPattern_tearsDown :
    ¬ FailsClosed bracketEnv bracketPass syncedWorld ∧
      (Act.value (runOnce bracketEnv bracketPass syncedWorld)).isOk ∧
      (Act.state (runOnce bracketEnv bracketPass syncedWorld)).deletions =
        [(ResourceKey.fromManifest (settings (some "default"))).denotes _ "default"] ∧
      persisted (Act.state (runOnce bracketEnv bracketPass syncedWorld)) =
        some ([], some "c1") := by
  have hstart : ∃ x ∈ Started.run bracketEnv bracketPass syncedWorld, prevApplied x.prev ≠ [] ∧
      PatternFailure (bracketEnv.tree x.sync.sha) bracketPass.cfg := by decide +kernel
  have hdeletes : (Act.state (runOnce bracketEnv bracketPass syncedWorld)).deletions =
      [(ResourceKey.fromManifest (settings (some "default"))).denotes _ "default"] := by
    decide +kernel
  refine ⟨fun h => ?_, by decide +kernel, hdeletes, by decide +kernel⟩
  obtain ⟨x, -, happlied, hbad⟩ := hstart
  have hnone := (h.failure x happlied hbad).2.1
  rw [hdeletes] at hnone
  cases hnone

end Reconcile

end LeanCd
