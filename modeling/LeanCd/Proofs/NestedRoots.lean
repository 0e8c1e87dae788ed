import LeanCd.Lib.Grouping
import LeanCd.Proofs.Scan
import LeanCd.Proofs.YamlFiles

/-!
# `LeanCd.Proofs.NestedRoots`: roots inside roots

`expand_roots` returns each directory once, and each directory is scanned at any depth. A
directory inside another one that is matched too is scanned twice.

`count_scan` counts how often a file is read: once for every root above it. `countsOnce_iff`
says when the manifests are those of each file once: exactly when no file with a manifest lies
under two roots. `not_countsOnce_web` is a checkout in which a hook is read twice.

A file is counted by the roots above it, of which there is one when the roots are apart. A file
without manifests may be read twice at no cost, so the condition is about files with one.
-/

set_option autoImplicit false

namespace LeanCd

instance Path.decidableUnder (root p : Path) : Decidable (root.Under p) :=
  decidable_of_iff (root <+: p ∧ root ≠ p) <| by
    constructor
    · intro h
      obtain ⟨⟨rest, hrest⟩, hne⟩ := h
      have hnonempty : rest ≠ [] := by
        intro hnil
        exact hne (by simpa [hnil] using hrest)
      refine ⟨rest.dropLast, rest.getLast hnonempty, ?_⟩
      rw [List.dropLast_append_getLast, hrest]
    · intro h
      obtain ⟨mid, name, rfl⟩ := h
      exact ⟨List.prefix_append _ _, by simp⟩

namespace Manifest

variable {yaml : Yaml} {tree : WorkTree} {roots : List Path} {ms : List RawManifest}

/-- The names of the directories are ordinary ones: no metacharacters. -/
def PlainNames (tree : WorkTree) : Prop :=
  ∀ dir, tree.isDir dir = true → Path.Proper dir ∧ ∀ c ∈ dir, Glob.Literal c

/-! ### The roots -/

/-- Every root is a directory, for a pattern selects directories only. -/
theorem isDir_of_expandPatterns {u : Char → Bool} {base : String} {patterns : List String}
    {dirs : List Path} (h : expandPatterns u tree base patterns = .ok dirs) :
    ∀ dir ∈ dirs, tree.isDir dir = true := by
  induction patterns generalizing dirs with
  | nil =>
      cases h
      simp
  | cons pat rest ih =>
      obtain ⟨first, more, hpat, hrest, rfl⟩ := (expandPatterns_cons_ok u).mp h
      intro dir hdir
      rcases List.mem_append.mp hdir with hdir | hdir
      -- The pattern gave a list, so neither the glob nor the reading of a match has failed.
      · unfold expandPattern at hpat
        cases hglob : tree.glob (absolutePattern base pat) with
        | error e =>
            rw [hglob] at hpat
            cases hpat
        | ok found =>
            rw [hglob] at hpat
            dsimp only at hpat
            cases hread : readMatches (fun e => Error.config
                ("error reading a match of pattern " ++ Text.debug u pat ++ ": " ++ e))
                found with
            | error e =>
                rw [hread] at hpat
                cases hpat
            | ok ps =>
                rw [hread] at hpat
                cases hpat
                -- Only the directories among the matches are kept.
                exact (List.mem_filter.mp hdir).2
      · exact ih hrest dir hdir

/-- The roots are directories, each of them once. -/
theorem expandRoots_ok {u : Char → Bool} {base : String} {patterns : List String}
    (h : expandRoots u tree base patterns = .ok roots) :
    roots.Nodup ∧ ∀ root ∈ roots, tree.isDir root = true := by
  unfold expandRoots at h
  cases hdirs : expandPatterns u tree base patterns with
  | error e =>
      rw [hdirs] at h
      cases h
  | ok dirs =>
      rw [hdirs] at h
      dsimp only at h
      split at h
      · cases h
      · cases h
        refine ⟨nodup_sortDedup dirs, ?_⟩
        intro root hroot
        exact isDir_of_expandPatterns hdirs root (mem_sortDedup.mp hroot)

/-! ### The files -/

/-- The roots have ordinary names. -/
def PlainRoots (roots : List Path) : Prop :=
  ∀ root ∈ roots, Path.Proper root ∧ ∀ c ∈ root, Glob.Literal c

/-- The files of one root are the YAML files under it, each of them once. -/
theorem collectYamlFiles_literal (hg : tree.Globs) {root : Path} (hroot : Path.Proper root)
    (hliteral : ∀ c ∈ root, Glob.Literal c) {files : List Path}
    (h : collectYamlFiles tree root = .ok files) :
    files.Nodup ∧ ∀ p, p ∈ files ↔ tree.isFile p = true ∧ Path.IsYaml p ∧ Path.Under root p := by
  obtain ⟨-, hnodup, hmem⟩ := collectYamlFiles_ok hg hroot h
  simp only [selects_literal hliteral] at hmem
  exact ⟨hnodup, hmem⟩

/-- A YAML file is read once for every root above it, and no other file is read. -/
theorem count_scan (hg : tree.Globs) (hroots : PlainRoots roots) {files : List Path}
    (h : scan tree roots = .ok files) (p : Path) :
    (p ∈ files → tree.isFile p = true ∧ Path.IsYaml p) ∧
      (tree.isFile p = true → Path.IsYaml p →
        files.count p = roots.countP fun root => Path.Under root p) := by
  induction roots generalizing files with
  | nil =>
      cases h
      simp
  | cons root rest ih =>
      obtain ⟨hproper, hliteral⟩ := hroots root List.mem_cons_self
      obtain ⟨found, more, hcollect, hrest, rfl⟩ := scan_cons_ok.mp h
      obtain ⟨hnodup, hmem⟩ := collectYamlFiles_literal hg hproper hliteral hcollect
      have hothers := ih (fun r hr => hroots r (List.mem_cons_of_mem root hr)) hrest
      -- A file that is found lies under a root. The other half counts the roots above it.
      constructor
      · intro hp
        rcases List.mem_append.mp hp with hp | hp
        · exact ⟨((hmem p).mp hp).1, ((hmem p).mp hp).2.1⟩
        · exact hothers.1 hp
      · intro hfile hyaml
        rw [List.count_append, hothers.2 hfile hyaml, List.countP_cons]
        by_cases hunder : Path.Under root p
        -- One root finds the file once, because its own list has no duplicate.
        · have hone := List.count_eq_one_of_mem hnodup
            ((hmem p).mpr ⟨hfile, hyaml, hunder⟩)
          simp [hone, hunder, Nat.add_comm]
        · have hnone : found.count p = 0 := List.count_eq_zero.mpr fun hp =>
            hunder ((hmem p).mp hp).2.2
          simp [hnone, hunder]

/-- The files that are read are the YAML files under a root. -/
theorem mem_scan (hg : tree.Globs) (hroots : PlainRoots roots) {files : List Path}
    (h : scan tree roots = .ok files) (p : Path) :
    p ∈ files ↔ tree.isFile p = true ∧ Path.IsYaml p ∧ ∃ root ∈ roots, Path.Under root p := by
  obtain ⟨hkind, hcount⟩ := count_scan hg hroots h p
  constructor
  · intro hp
    obtain ⟨hfile, hyaml⟩ := hkind hp
    have hpos : 0 < files.count p := List.count_pos_iff.mpr hp
    rw [hcount hfile hyaml, List.countP_pos_iff] at hpos
    obtain ⟨root, hroot, hunder⟩ := hpos
    exact ⟨hfile, hyaml, root, hroot, by simpa using hunder⟩
  · intro hp
    obtain ⟨hfile, hyaml, root, hroot, hunder⟩ := hp
    apply List.count_pos_iff.mp
    rw [hcount hfile hyaml, List.countP_pos_iff]
    exact ⟨root, hroot, by simpa using hunder⟩

/-- One element of a list has a property, and only one does. -/
theorem countP_eq_one_iff {l : List Path} (hnodup : l.Nodup) {P : Path → Prop} [DecidablePred P]
    (hsome : ∃ a ∈ l, P a) :
    (l.countP fun a => P a) = 1 ↔ ∀ a ∈ l, ∀ b ∈ l, P a → P b → a = b := by
  rw [List.countP_eq_length_filter]
  have hnodup' := hnodup.filter (p := fun a => P a)
  have hmem : ∀ a, a ∈ l.filter (fun a => P a) ↔ a ∈ l ∧ P a := by simp
  obtain ⟨a, ha, hPa⟩ := hsome
  constructor
  -- Two members of a list of one entry are equal.
  · intro h b hb c hc hPb hPc
    obtain ⟨d, hd⟩ := List.length_eq_one_iff.mp h
    rw [hd] at hmem
    have hb' := List.mem_singleton.mp ((hmem b).mpr ⟨hb, hPb⟩)
    have hc' := List.mem_singleton.mp ((hmem c).mpr ⟨hc, hPc⟩)
    rw [hb', hc']
  · intro h
    -- All members that satisfy `P` are equal to the one there is, and no list repeats it.
    have honly : ∀ b ∈ l.filter (fun a => P a), b = a := by
      intro b hb
      exact h b ((hmem b).mp hb).1 a ha ((hmem b).mp hb).2 hPa
    have hcount := List.count_eq_one_of_mem hnodup' ((hmem a).mpr ⟨ha, hPa⟩)
    rw [← hcount, eq_comm, List.count_eq_length]
    intro b hb
    exact (honly b hb).symm

/-! ### The manifests -/

/-- The manifests are those of every YAML file under a root, each file once. -/
def CountsOnce (yaml : Yaml) (tree : WorkTree) (roots : List Path) (ms : List RawManifest) :
    Prop :=
  ∃ files : List Path, files.Nodup ∧
    (∀ p, p ∈ files ↔ tree.isFile p = true ∧ Path.IsYaml p ∧ ∃ root ∈ roots, Path.Under root p) ∧
    ∃ ms', concatResults (parseFile yaml tree) files = .ok ms' ∧ ms.Perm ms'

/-- No YAML file with a manifest lies under two roots. -/
def Apart (yaml : Yaml) (tree : WorkTree) (roots : List Path) : Prop :=
  ∀ p found, tree.isFile p = true → Path.IsYaml p → parseFile yaml tree p = .ok found →
    found ≠ [] → ∀ root ∈ roots, ∀ root' ∈ roots, Path.Under root p → Path.Under root' p →
      root = root'

/-- **Each file counts once** exactly when no file with a manifest lies under two roots. -/
theorem countsOnce_iff (hg : tree.Globs) (hnames : PlainNames tree) {u : Char → Bool}
    {base : String} {patterns : List String}
    (hroots : expandRoots u tree base patterns = .ok roots)
    (hms : parsePaths yaml tree roots = .ok ms) :
    CountsOnce yaml tree roots ms ↔ Apart yaml tree roots := by
  obtain ⟨hnodup, hdirs⟩ := expandRoots_ok hroots
  have hplain : PlainRoots roots := fun root hroot => hnames root (hdirs root hroot)
  obtain ⟨files, hfiles, hparsed⟩ := parsePaths_ok_iff.mp hms
  have hmem := mem_scan hg hplain hfiles
  -- Once each means: the files without repetitions stand for the same manifests.
  have honce : CountsOnce yaml tree roots ms ↔
      ∀ p ∈ files, manifestsOf (parseFile yaml tree) p ≠ [] → files.count p = 1 := by
    have hrepeated := Grouping.flatMap_perm_iff (List.nodup_dedup files)
      (fun p => List.mem_dedup) (manifestsOf (parseFile yaml tree))
    rw [← hrepeated, ← concatResults_eq_flatMap hparsed]
    constructor
    · intro h
      obtain ⟨distinct, hdistinct, hmem', ms', hms', hperm⟩ := h
      rw [concatResults_eq_flatMap hms'] at hperm
      have hsame : distinct.Perm files.dedup :=
        (List.perm_ext_iff_of_nodup hdistinct (List.nodup_dedup files)).mpr fun p => by
          rw [hmem', List.mem_dedup, hmem]
      exact hperm.trans (hsame.flatMap_right _)
    · intro h
      obtain ⟨ms', hms'⟩ := @exists_concatResults _ (parseFile yaml tree) files.dedup
        fun p hp => ok_of_concatResults hparsed (List.mem_dedup.mp hp)
      rw [← concatResults_eq_flatMap hms'] at h
      refine ⟨files.dedup, List.nodup_dedup files, ?_, ms', hms', h⟩
      intro p
      rw [List.mem_dedup, hmem]
  rw [honce]
  constructor
  · intro h p found hfile hyaml hparse hfound root hroot root' hroot' hunder hunder'
    have hp : p ∈ files := (hmem p).mpr ⟨hfile, hyaml, root, hroot, hunder⟩
    have hone := h p hp (by rwa [manifestsOf_ok hparse])
    rw [(count_scan hg hplain hfiles p).2 hfile hyaml,
      countP_eq_one_iff hnodup ⟨root, hroot, hunder⟩] at hone
    exact hone root hroot root' hroot' hunder hunder'
  · intro h p hp hfound
    obtain ⟨hfile, hyaml, hsome⟩ := (hmem p).mp hp
    obtain ⟨found, hparse⟩ := ok_of_concatResults hparsed hp
    rw [manifestsOf_ok hparse] at hfound
    rw [(count_scan hg hplain hfiles p).2 hfile hyaml, countP_eq_one_iff hnodup hsome]
    exact h p found hfile hyaml hparse hfound

/-! ### A pattern inside another -/

/-- The documents of the one file. -/
def webYaml : Yaml :=
  .table [("all", [syncedValue, setupValue])] [("settings", syncedValue), ("setup", setupValue)]

/-- A checkout with one file, in a directory of a directory. -/
def webTree : WorkTree :=
  .ofEntries [["repo"], ["repo", "apps"], ["repo", "apps", "web"]]
    [(["repo", "apps", "web", "all.yaml"], "all")]

/-- The roots that the patterns `apps` and `apps/web` match. -/
def webRoots : List Path := [["repo", "apps"], ["repo", "apps", "web"]]

/-- The roots of the example, one inside the other. -/
theorem expandRoots_web :
    expandRoots (fun _ => false) webTree "/repo" ["apps", "apps/web"] = .ok webRoots := by
  decide +kernel

/-- Its manifests are parsed twice, once from each root. -/
theorem parsePaths_web : parsePaths webYaml webTree webRoots =
    .ok [settings (some "default"), setup, settings (some "default"), setup] := by
  decide +kernel

/-- The names of the example hold no separators. -/
theorem plainNames_web : PlainNames webTree := by
  have hall : ∀ c ∈ ["repo", "apps", "web"],
      (c ≠ "" ∧ '/' ∉ c.toList ∧ c ≠ "." ∧ c ≠ "..") ∧ Glob.Literal c := by
    simp [Glob.Literal, Glob.metachars]
  intro dir hdir
  have hdir : dir = ["repo"] ∨ dir = ["repo", "apps"] ∨ dir = ["repo", "apps", "web"] := by
    simpa [webTree, WorkTree.ofEntries] using hdir
  have hsub : dir ≠ [] ∧ dir ⊆ ["repo", "apps", "web"] := by
    rcases hdir with rfl | rfl | rfl <;> simp
  exact ⟨⟨hsub.1, fun c hc => (hall c (hsub.2 hc)).1⟩, fun c hc => (hall c (hsub.2 hc)).2⟩

/-- The main resource is counted twice, and the hook is there twice. -/
theorem not_countsOnce_web :
    webTree.Globs ∧ PlainNames webTree ∧
      expandRoots (fun _ => false) webTree "/repo" ["apps", "apps/web"] = .ok webRoots ∧
      ∃ ms, parsePaths webYaml webTree webRoots = .ok ms ∧
        ¬ CountsOnce webYaml webTree webRoots ms ∧
        Reconcile.count (Hooks.classify ms).main = 2 ∧
        (Hooks.classify ms).pre.map (·.manifest) = [setup, setup] := by
  refine ⟨WorkTree.globs_ofEntries _ _, plainNames_web, expandRoots_web, _, parsePaths_web, ?_,
    by decide +kernel, by decide +kernel⟩
  intro h
  obtain ⟨files, hnodup, hmem, ms', hms', hperm⟩ := h
  have hfile : ∀ p, p ∈ files → p = ["repo", "apps", "web", "all.yaml"] := by
    intro p hp
    simpa [webTree, WorkTree.ofEntries] using ((hmem p).mp hp).1
  have hparse : parseFile webYaml webTree ["repo", "apps", "web", "all.yaml"] =
      .ok [settings (some "default"), setup] := by decide +kernel
  have hfour := hperm.length_eq
  -- There is at most one file, and it has two manifests.
  cases files with
  | nil =>
      cases hms'
      simp at hfour
  | cons p rest =>
      cases rest with
      | nil =>
          rw [hfile p List.mem_cons_self] at hms'
          rw [concatResults_eq_flatMap hms'] at hfour
          simp [manifestsOf_ok hparse] at hfour
      | cons q rest =>
          have hp := hfile p List.mem_cons_self
          have hq := hfile q (List.mem_cons_of_mem p List.mem_cons_self)
          simp [hp, hq] at hnodup

/-- The theorem at these patterns. -/
theorem countsOnce_iff_web :
    CountsOnce webYaml webTree webRoots
        [settings (some "default"), setup, settings (some "default"), setup] ↔
      Apart webYaml webTree webRoots :=
  countsOnce_iff (WorkTree.globs_ofEntries _ _) plainNames_web expandRoots_web
    parsePaths_web

end Manifest

end LeanCd
