import LeanCd.Lib.Glob
import LeanCd.Proofs.Expansion

/-!
# `LeanCd.Proofs.YamlFiles`: the files under a root

`collect_yaml_files` puts the path of a root into a glob pattern, unescaped. What it finds are
the files that the pattern selects, and a bracket in a directory name is syntax of the
pattern.

`WorkTree.Globs` is what the glob crate documents. `collectYamlFiles_ok` gives the files in its
terms, and `complete_iff` says for every root when they are the YAML files under it: exactly
when the path, read as a pattern, selects these. A path without metacharacters does
(`selects_literal`). `not_complete_app` is a root that does not: `app[1]` stands for `app1`.

A path is a list of components, and a pattern is parsed component by component. The two components
that the scan appends match every depth and every name with the extension. What the components of
the root match is the question, and `Selects` is the answer that one would expect.
-/

set_option autoImplicit false

namespace LeanCd

/-- The path of a directory below the file system's root: no component is empty or moves within
the tree. -/
structure Path.Proper (p : Path) : Prop where
  nonempty : p ≠ []
  names : ∀ c ∈ p, c ≠ "" ∧ '/' ∉ c.toList ∧ c ≠ "." ∧ c ≠ ".."

/-- The path is under the directory, at any depth. -/
def Path.Under (root p : Path) : Prop := ∃ mid name, p = root ++ (mid ++ [name])

/-- The name of the path ends in `.yaml` or `.yml`. -/
def Path.IsYaml (p : Path) : Prop :=
  ∃ dir name, p = dir ++ [name] ∧
    (".yaml".toList <:+ name.toList ∨ ".yml".toList <:+ name.toList)

/-- The glob crate: a pattern that does not compile is an error; otherwise the matches are the
paths that the pattern matches, as far as every directory can be read. -/
structure WorkTree.Globs (tree : WorkTree) : Prop where
  invalid {pat e} : Glob.Absolute pat → Glob.compile pat = .error e →
    ∃ e', tree.glob pat = .error e'
  valid {pat ps} : Glob.Absolute pat → Glob.compile pat = .ok ps →
    ∃ found, tree.glob pat = .ok found ∧ ((found.any fun m => !m.isOk) = false →
      ∀ p, tree.isFile p = true → (.ok p ∈ found ↔ Glob.matchPath ps p = true))

/-- A file system with these directories and files, all of them readable. -/
def WorkTree.ofEntries (dirs : List Path) (files : List (Path × String)) : WorkTree where
  glob pat := (Glob.compile pat).map fun ps =>
    ((dirs ++ files.map Prod.fst).filter (Glob.matchPath ps)).map .ok
  isDir p := p ∈ dirs
  isFile p := p ∈ files.map Prod.fst
  read p :=
    match files.lookup p with
    | some text => .ok text
    | none => .error "not found"

/-- A tree that is made of its entries matches patterns as the glob crate documents. -/
theorem WorkTree.globs_ofEntries (dirs : List Path) (files : List (Path × String)) :
    (ofEntries dirs files).Globs where
  invalid := by
    intro pat e _ he
    exact ⟨e, by simp [ofEntries, he, Except.map]⟩
  valid := by
    intro pat ps _ hps
    refine ⟨_, by simp only [ofEntries, hps, Except.map]; rfl, ?_⟩
    intro _ p hp
    have hentry : p ∈ dirs ++ files.map Prod.fst := by
      refine List.mem_append_right dirs ?_
      simpa [ofEntries] using hp
    rw [List.mem_map_of_injective (fun _ _ h => Except.ok.inj h), List.mem_filter]
    exact and_iff_right hentry

namespace Manifest

variable {tree : WorkTree} {root : Path}

/-- The pattern of `collect_yaml_files`. -/
def scanPattern (dir : Path) (ext : String) : String := dir.display ++ "/**/*." ++ ext

/-- The pattern of a scan splits into the components of its root, then the two that look for the
files. -/
theorem components_scanPattern (hroot : root.Proper) {ext : String} (hext : '/' ∉ ext.toList) :
    Glob.components (scanPattern root ext) = root ++ ["**", "*." ++ ext] := by
  have hsplit : scanPattern root ext =
      "" ++ "/" ++ Text.joinWith "/" root ++ "/" ++ "**" ++ "/" ++ ("*." ++ ext) := by
    apply String.toList_inj.mp
    simp [scanPattern, Path.display]
  have hname : Glob.components ("*." ++ ext) = ["*." ++ ext] :=
    Glob.components_single (by simp) (by simpa using hext)
  have hroot' := Glob.components_join fun c hc => ⟨(hroot.names c hc).1, (hroot.names c hc).2.1⟩
  have hempty : Glob.components "" = [] := by decide
  have hstars : Glob.components "**" = ["**"] := by decide
  rw [hsplit, Glob.components_append, Glob.components_append, Glob.components_append, hname,
    hroot', hempty, hstars]
  simp

/-- The extensions of `collect_yaml_files`. -/
def IsExtension (ext : String) : Prop := ext = "yaml" ∨ ext = "yml"

/-- So it is absolute, where the root is. -/
theorem absolute_scanPattern (hroot : root.Proper) {ext : String} (hext : IsExtension ext) :
    Glob.Absolute (scanPattern root ext) := by
  have hslash : '/' ∉ ext.toList := by rcases hext with rfl | rfl <;> decide
  have hlast : ∀ c ∈ ["**", "*." ++ ext], c ≠ "." ∧ c ≠ ".." := by
    rcases hext with rfl | rfl <;> decide
  constructor
  · have hlist : (scanPattern root ext).toList =
        '/' :: ((Text.joinWith "/" root).toList ++ ("/**/*." ++ ext).toList) := by
      simp [scanPattern, Path.display]
    rw [Text.startsWith, hlist]
    rfl
  · rw [components_scanPattern hroot hslash]
    intro c hc
    rcases List.mem_append.mp hc with hc | hc
    · exact (hroot.names c hc).2.2
    · exact hlast c hc

/-- The pattern of a root and an extension: the root's own pattern, any depth, and a name. -/
theorem compile_scanPattern (hroot : root.Proper) {ext : String} (hext : IsExtension ext) :
    Glob.compile (scanPattern root ext) =
      match Glob.parseAll root with
      | .error e => .error e
      | .ok ps => .ok (ps ++
          [.recursive, .segment (.anySequence :: ('.' :: ext.toList).map .char)]) := by
  have hslash : '/' ∉ ext.toList := by rcases hext with rfl | rfl <;> decide
  have hname : Glob.parseAll ["**", "*." ++ ext] =
      .ok [.recursive, .segment (.anySequence :: ('.' :: ext.toList).map .char)] := by
    rcases hext with rfl | rfl <;> decide
  rw [Glob.compile, components_scanPattern hroot hslash, Glob.parseAll_append, hname]
  rfl

/-- The paths that a root selects: those under a directory that its path, read as a pattern,
matches. -/
def Selects (root p : Path) : Prop :=
  ∃ ps dir, Glob.parseAll root = .ok ps ∧ Glob.matchPath ps dir = true ∧ Path.Under dir p

/-- What the pattern matches: a directory below the root, and in it a name that ends in the
extension. -/
theorem matchPath_scanPattern (ps : List Glob.Component) (cs : List Char) (p : Path) :
    Glob.matchPath (ps ++ [.recursive, .segment (.anySequence :: cs.map .char)]) p = true ↔
      ∃ dir mid name, p = dir ++ (mid ++ [name]) ∧ Glob.matchPath ps dir = true ∧
        cs <:+ name.toList := by
  rw [Glob.matchPath_append]
  simp only [Glob.matchPath_recursive_segment, Glob.matchTokens_suffix]
  constructor
  · intro h
    obtain ⟨dir, rest, hp, hdir, mid, name, hrest, hname⟩ := h
    exact ⟨dir, mid, name, by rw [hp, hrest], hdir, hname⟩
  · intro h
    obtain ⟨dir, mid, name, hp, hdir, hname⟩ := h
    exact ⟨dir, mid ++ [name], hp, hdir, mid, name, rfl, hname⟩

/-- A pattern of the scan has a match that cannot be read. -/
def Unreadable (tree : WorkTree) (root : Path) : Prop :=
  ∃ ext, IsExtension ext ∧ ∃ found, tree.glob (scanPattern root ext) = .ok found ∧
    (found.any fun m => !m.isOk) = true

/-- The matches that could be read are those that were found. -/
theorem mem_readMatches {α : Type} {onError : String → Error} {found : List (Except String α)}
    {l : List α} (h : readMatches onError found = .ok l) (a : α) : a ∈ l ↔ .ok a ∈ found := by
  induction found generalizing l with
  | nil =>
      cases h
      simp
  | cons m rest ih =>
      -- A match that could not be read ends the list.
      cases m with
      | error e => cases h
      | ok b =>
          rw [readMatches] at h
          cases hrest : readMatches onError rest with
          | error e =>
              rw [hrest] at h
              cases h
          | ok more =>
              rw [hrest] at h
              cases h
              simp [ih hrest]

/-- A scan of one extension matches the pattern and keeps the files, and fails where the pattern
does not compile or a directory cannot be read. -/
theorem collectExtension_eq (tree : WorkTree) (root : Path) (ext : String) :
    collectExtension tree root ext =
      match tree.glob (scanPattern root ext) with
      | .error e => .error (.config ("invalid manifest glob pattern: " ++ e))
      | .ok found => (readMatches Error.io found).map fun l => l.filter tree.isFile := rfl

/-- The files of one extension. -/
theorem collectExtension_ok (hg : tree.Globs) (hroot : root.Proper) {ext : String}
    (hext : IsExtension ext) {files : List Path}
    (h : collectExtension tree root ext = .ok files) :
    ∃ ps, Glob.parseAll root = .ok ps ∧ ∀ p, p ∈ files ↔ tree.isFile p = true ∧
      ∃ dir mid name, p = dir ++ (mid ++ [name]) ∧ Glob.matchPath ps dir = true ∧
        '.' :: ext.toList <:+ name.toList := by
  have habsolute := absolute_scanPattern hroot hext
  have hcompile := compile_scanPattern hroot hext
  rw [collectExtension_eq] at h
  -- A part of the pattern is invalid, and no match is asked for.
  cases hps : Glob.parseAll root with
  | error e =>
      rw [hps] at hcompile
      obtain ⟨e', he'⟩ := hg.invalid habsolute hcompile
      rw [he'] at h
      cases h
  | ok ps =>
      rw [hps] at hcompile
      obtain ⟨found, hfound, hmatches⟩ := hg.valid habsolute hcompile
      rw [hfound] at h
      dsimp only at h
      refine ⟨ps, rfl, ?_⟩
      -- One of the matches could not be read.
      cases hbad : found.any fun m => !m.isOk with
      | true =>
          obtain ⟨e, he⟩ := @readMatches_error _ Error.io found hbad
          rw [he] at h
          cases h
      -- Every match was read, so the files are those below a match with the extension.
      | false =>
          obtain ⟨l, hl⟩ := @readMatches_ok _ Error.io found hbad
          rw [hl] at h
          cases h
          intro p
          rw [List.mem_filter, mem_readMatches hl]
          constructor
          · intro hp
            exact ⟨hp.2, (matchPath_scanPattern ps _ p).mp ((hmatches hbad p hp.2).mp hp.1)⟩
          · intro hp
            exact ⟨(hmatches hbad p hp.1).mpr ((matchPath_scanPattern ps _ p).mpr hp.2), hp.1⟩

/-! ### The files of a root -/

/-- To sort and deduplicate keeps the paths. -/
theorem mem_sortDedup {paths : List Path} {p : Path} : p ∈ sortDedup paths ↔ p ∈ paths := by
  rw [sortDedup, List.mem_insertionSort, List.mem_dedup]

/-- It keeps each of them once. -/
theorem nodup_sortDedup (paths : List Path) : (sortDedup paths).Nodup :=
  (List.perm_insertionSort _ _).nodup_iff.mpr (List.nodup_dedup paths)

/-- It sorts them. -/
theorem sorted_sortDedup (paths : List Path) : (sortDedup paths).Pairwise (· ≤ ·) :=
  List.pairwise_insertionSort _ _

/-- A scan looks for both extensions. -/
theorem collectYamlFiles_parts {files : List Path} (h : collectYamlFiles tree root = .ok files) :
    ∃ yaml yml, collectExtension tree root "yaml" = .ok yaml ∧
      collectExtension tree root "yml" = .ok yml ∧ sortDedup (yaml ++ yml) = files := by
  unfold collectYamlFiles at h
  cases hyaml : collectExtension tree root "yaml" with
  | error e =>
      rw [hyaml] at h
      cases h
  | ok yaml =>
      cases hyml : collectExtension tree root "yml" with
      | error e =>
          rw [hyaml, hyml] at h
          cases h
      | ok yml =>
          rw [hyaml, hyml] at h
          cases h
          exact ⟨yaml, yml, rfl, rfl, rfl⟩

/-- The files of a root, sorted and without repetitions: the YAML files that it selects. -/
theorem collectYamlFiles_ok (hg : tree.Globs) (hroot : root.Proper) {files : List Path}
    (h : collectYamlFiles tree root = .ok files) :
    files.Pairwise (· ≤ ·) ∧ files.Nodup ∧
      ∀ p, p ∈ files ↔ tree.isFile p = true ∧ p.IsYaml ∧ Selects root p := by
  obtain ⟨yaml, yml, hyaml, hyml, rfl⟩ := collectYamlFiles_parts h
  refine ⟨sorted_sortDedup _, nodup_sortDedup _, ?_⟩
  obtain ⟨ps, hps, hmem⟩ := collectExtension_ok hg hroot (.inl rfl) hyaml
  obtain ⟨ps', hps', hmem'⟩ := collectExtension_ok hg hroot (.inr rfl) hyml
  cases hps.symm.trans hps'
  intro p
  rw [mem_sortDedup, List.mem_append, hmem, hmem']
  constructor
  · intro hp
    rcases hp with ⟨hfile, dir, mid, name, hp, hdir, hname⟩ |
      ⟨hfile, dir, mid, name, hp, hdir, hname⟩
    · refine ⟨hfile, ⟨dir ++ mid, name, by simp [hp], .inl hname⟩, ps, dir, hps, hdir, ?_⟩
      exact ⟨mid, name, hp⟩
    · refine ⟨hfile, ⟨dir ++ mid, name, by simp [hp], .inr hname⟩, ps, dir, hps, hdir, ?_⟩
      exact ⟨mid, name, hp⟩
  · intro hp
    obtain ⟨hfile, ⟨above, name', hp', hname⟩, ps', dir, hps', hdir, mid, name, hp⟩ := hp
    cases hps.symm.trans hps'
    -- The two ways to write the path end in the same name.
    have hlast : name' = name := by
      have h := congrArg List.getLast? (hp'.symm.trans hp)
      simpa using h
    rw [hlast] at hname
    rcases hname with hname | hname
    · exact .inl ⟨hfile, dir, mid, name, hp, hdir, hname⟩
    · exact .inr ⟨hfile, dir, mid, name, hp, hdir, hname⟩

/-- The root's path is no pattern, or a directory below it cannot be read. -/
def Unscannable (tree : WorkTree) (root : Path) : Prop :=
  (∃ e, Glob.parseAll root = .error e) ∨ Unreadable tree root

/-- An unscannable root fails the parse. -/
theorem collectYamlFiles_error (hg : tree.Globs) (hroot : root.Proper)
    (h : Unscannable tree root) : ∃ e, collectYamlFiles tree root = .error e := by
  cases hcollect : collectYamlFiles tree root with
  | error e => exact ⟨e, rfl⟩
  | ok files =>
      -- Both extensions are read, and one failure is enough to fail the scan.
      obtain ⟨yaml, yml, hyaml, hyml, -⟩ := collectYamlFiles_parts hcollect
      obtain ⟨ps, hps, -⟩ := collectExtension_ok hg hroot (.inl rfl) hyaml
      rcases h with ⟨e, he⟩ | ⟨ext, hext, found, hfound, hbad⟩
      · cases he.symm.trans hps
      · obtain ⟨e, he⟩ := @readMatches_error _ Error.io found hbad
        have hfails : collectExtension tree root ext = .error (.io e) := by
          rw [collectExtension_eq, hfound]
          dsimp only
          rw [he]
          rfl
        rcases hext with rfl | rfl
        · cases hyaml.symm.trans hfails
        · cases hyml.symm.trans hfails

/-- The files of one extension are found when the root can be scanned. -/
theorem exists_collectExtension (hg : tree.Globs) (hroot : root.Proper) {ext : String}
    (hext : IsExtension ext) (h : ¬ Unscannable tree root) :
    ∃ files, collectExtension tree root ext = .ok files := by
  have hcompile := compile_scanPattern hroot hext
  cases hps : Glob.parseAll root with
  | error e => exact absurd (.inl ⟨e, hps⟩) h
  | ok ps =>
      rw [hps] at hcompile
      obtain ⟨found, hfound, -⟩ := hg.valid (absolute_scanPattern hroot hext) hcompile
      have hreadable : (found.any fun m => !m.isOk) = false := by
        cases hbad : found.any fun m => !m.isOk with
        | true => exact absurd (.inr ⟨ext, hext, found, hfound, hbad⟩) h
        | false => rfl
      obtain ⟨l, hl⟩ := @readMatches_ok _ Error.io found hreadable
      rw [collectExtension_eq, hfound]
      dsimp only
      rw [hl]
      exact ⟨_, rfl⟩

/-- A proper root can be scanned, unless its path is no pattern or a directory below it cannot be
read. -/
theorem exists_collectYamlFiles (hg : tree.Globs) (hroot : root.Proper)
    (h : ¬ Unscannable tree root) : ∃ files, collectYamlFiles tree root = .ok files := by
  obtain ⟨yaml, hyaml⟩ := exists_collectExtension hg hroot (.inl rfl) h
  obtain ⟨yml, hyml⟩ := exists_collectExtension hg hroot (.inr rfl) h
  rw [collectYamlFiles, hyaml, hyml]
  exact ⟨_, rfl⟩

/-- No YAML file under the root is left out, and no other file is taken for one: the files
are those under the root, sorted and without repetitions, or the parse fails. -/
def Complete (tree : WorkTree) (root : Path) : Prop :=
  match collectYamlFiles tree root with
  | .error _ => True
  | .ok files => files.Pairwise (· ≤ ·) ∧ files.Nodup ∧
      ∀ p, p ∈ files ↔ tree.isFile p = true ∧ p.IsYaml ∧ root.Under p

/-- **The scan of a root is complete** exactly when the root cannot be scanned at all, or its
path, read as a pattern, selects the YAML files under it and no others. -/
theorem complete_iff (hg : tree.Globs) (hroot : root.Proper) :
    Complete tree root ↔ Unscannable tree root ∨
      ∀ p, tree.isFile p = true → p.IsYaml → (Selects root p ↔ root.Under p) := by
  unfold Complete
  -- A root that fails has nothing to be compared with.
  cases hcollect : collectYamlFiles tree root with
  | error e =>
      refine iff_of_true trivial (.inl ?_)
      by_contra h
      obtain ⟨files, hfiles⟩ := exists_collectYamlFiles hg hroot h
      cases hcollect.symm.trans hfiles
  | ok files =>
      obtain ⟨hsorted, hnodup, hmem⟩ := collectYamlFiles_ok hg hroot hcollect
      -- A complete scan selects what is under the root, and the other way round.
      constructor
      · intro h
        refine .inr fun p hfile hyaml => ?_
        have hboth := (hmem p).symm.trans (h.2.2 p)
        simpa [hfile, hyaml] using hboth
      · intro h
        refine ⟨hsorted, hnodup, fun p => ?_⟩
        rcases h with hfails | hselects
        · obtain ⟨e, he⟩ := collectYamlFiles_error hg hroot hfails
          cases hcollect.symm.trans he
        · rw [hmem]
          constructor
          · intro hp
            exact ⟨hp.1, hp.2.1, (hselects p hp.1 hp.2.1).mp hp.2.2⟩
          · intro hp
            exact ⟨hp.1, hp.2.1, (hselects p hp.1 hp.2.1).mpr hp.2.2⟩

/-- A path without metacharacters selects what is under it. -/
theorem selects_literal (hroot : ∀ c ∈ root, Glob.Literal c) (p : Path) :
    Selects root p ↔ root.Under p := by
  have hps := Glob.parseAll_literal hroot
  constructor
  · intro h
    obtain ⟨ps, dir, hparse, hdir, hunder⟩ := h
    cases hps.symm.trans hparse
    rw [Glob.matchPath_literal] at hdir
    rw [← hdir]
    exact hunder
  · intro h
    exact ⟨_, root, hps, (Glob.matchPath_literal root root).mpr rfl, h⟩

/-! ### A bracket in a directory name -/

/-- A checkout with the directory `app[1]`. -/
def bracketTree : WorkTree :=
  .ofEntries [["work"], ["work", "app[1]"]] [(["work", "app[1]", "all.yaml"], "all")]

/-- The path of the example is proper. -/
theorem proper_app : Path.Proper ["work", "app[1]"] where
  nonempty := by simp
  names := by decide

/-- The scan of `app[1]` succeeds without the file in it. -/
theorem not_complete_app : bracketTree.Globs ∧ bracketTree.isDir ["work", "app[1]"] = true ∧
    collectYamlFiles bracketTree ["work", "app[1]"] = .ok [] ∧
    ¬ Complete bracketTree ["work", "app[1]"] := by
  have hnone : collectYamlFiles bracketTree ["work", "app[1]"] = .ok [] := by decide +kernel
  refine ⟨WorkTree.globs_ofEntries _ _, by decide, hnone, ?_⟩
  unfold Complete
  rw [hnone]
  intro h
  have hunder : Path.Under ["work", "app[1]"] ["work", "app[1]", "all.yaml"] :=
    ⟨[], "all.yaml", rfl⟩
  have hyaml : Path.IsYaml ["work", "app[1]", "all.yaml"] :=
    ⟨["work", "app[1]"], "all.yaml", rfl, .inl (by decide)⟩
  have hmem := (h.2.2 ["work", "app[1]", "all.yaml"]).mpr ⟨by decide, hyaml, hunder⟩
  simp at hmem

/-- The theorem at this root. -/
theorem complete_iff_app :
    Complete bracketTree ["work", "app[1]"] ↔ Unscannable bracketTree ["work", "app[1]"] ∨
      ∀ p, bracketTree.isFile p = true → p.IsYaml →
        (Selects ["work", "app[1]"] p ↔ Path.Under ["work", "app[1]"] p) :=
  complete_iff (WorkTree.globs_ofEntries _ _) proper_app

end Manifest

end LeanCd
