import LeanCd.Proofs.PassPrune

/-!
# `LeanCd.Proofs.Scan`: the documents behind the manifests of a pass

`parse_paths` reads the YAML files of one root after the other, and every file stands for
the manifests of its documents. `scan` is the list of files it reads, with repetitions, and
`parsePaths_ok_iff` splits the parse into this list and the manifests of each file.
`mem_parsePaths` names the document behind each manifest, and `Hooks.main_classify` says which
manifests are main resources.

The results of this file are equivalences, so they are used in both directions: from a manifest to
its document, and from a document that is there to its manifest.
-/

set_option autoImplicit false

namespace LeanCd

namespace Manifest

/-- The files of every root, in the order in which they are read. -/
def scan (tree : WorkTree) : List Path → Except Error (List Path)
  | [] => .ok []
  | root :: rest =>
      match collectYamlFiles tree root with
      | .error e => .error e
      | .ok files => (scan tree rest).map (files ++ ·)

/-- The files of several roots are those of the first, followed by those of the rest. -/
theorem scan_cons_ok {tree : WorkTree} {root : Path} {rest files : List Path} :
    scan tree (root :: rest) = .ok files ↔
      ∃ found more, collectYamlFiles tree root = .ok found ∧ scan tree rest = .ok more ∧
        found ++ more = files := by
  rw [scan]
  cases collectYamlFiles tree root with
  | error e => simp
  | ok found =>
      cases scan tree rest with
      | error e => simp [Except.map]
      | ok more => simp [Except.map]

section
variable {α : Type} {f : α → Except Error (List RawManifest)} {ms : List RawManifest}

/-- The results of a joined list are joined, when there is no error in either part. -/
theorem concatResults_append_ok {l l' : List α} :
    concatResults f (l ++ l') = .ok ms ↔
      ∃ found more, concatResults f l = .ok found ∧ concatResults f l' = .ok more ∧
        found ++ more = ms := by
  induction l generalizing ms with
  | nil => simp [concatResults]
  | cons a rest ih =>
      rw [List.cons_append, concatResults_cons_ok]
      simp only [ih, concatResults_cons_ok]
      constructor
      · intro h
        obtain ⟨x, -, hx, ⟨y, z, hy, hz, rfl⟩, rfl⟩ := h
        exact ⟨x ++ y, z, ⟨x, y, hx, hy, rfl⟩, hz, List.append_assoc x y z⟩
      · intro h
        obtain ⟨-, z, ⟨x, y, hx, hy, rfl⟩, hz, rfl⟩ := h
        exact ⟨x, y ++ z, hx, ⟨y, z, hy, hz, rfl⟩, (List.append_assoc x y z).symm⟩

/-- Every item of a list that went well went well. -/
theorem ok_of_concatResults {l : List α} (h : concatResults f l = .ok ms) {a : α} (ha : a ∈ l) :
    ∃ found, f a = .ok found := by
  induction l generalizing ms with
  | nil => cases ha
  | cons b rest ih =>
      obtain ⟨found, more, hb, hrest, -⟩ := concatResults_cons_ok.mp h
      cases ha with
      | head => exact ⟨found, hb⟩
      | tail _ ha => exact ih hrest ha

/-- Where nothing fails the results can be joined. -/
theorem exists_concatResults {l : List α} (h : ∀ a ∈ l, ∃ found, f a = .ok found) :
    ∃ ms, concatResults f l = .ok ms := by
  induction l with
  | nil => exact ⟨[], rfl⟩
  | cons a rest ih =>
      obtain ⟨found, ha⟩ := h a List.mem_cons_self
      obtain ⟨more, hrest⟩ := ih fun b hb => h b (List.mem_cons_of_mem a hb)
      exact ⟨found ++ more, concatResults_cons_ok.mpr ⟨found, more, ha, hrest, rfl⟩⟩

/-- The manifests of an item, none where it fails. -/
def manifestsOf (f : α → Except Error (List RawManifest)) (a : α) : List RawManifest :=
  (f a).toOption.getD []

/-- The manifests of an argument are its result, if that is no error. -/
theorem manifestsOf_ok {a : α} {found : List RawManifest} (h : f a = .ok found) :
    manifestsOf f a = found := by
  rw [manifestsOf, h]
  rfl

/-- A join of results without an error lists the manifests of the arguments in order. -/
theorem concatResults_eq_flatMap {l : List α} (h : concatResults f l = .ok ms) :
    ms = l.flatMap (manifestsOf f) := by
  induction l generalizing ms with
  | nil =>
      cases h
      rfl
  | cons a rest ih =>
      obtain ⟨found, more, ha, hrest, rfl⟩ := concatResults_cons_ok.mp h
      rw [List.flatMap_cons, ← ih hrest, manifestsOf_ok ha]

/-- A manifest comes from one of the items. -/
theorem mem_concatResults {l : List α} (h : concatResults f l = .ok ms) {m : RawManifest} :
    m ∈ ms ↔ ∃ a ∈ l, ∃ found, f a = .ok found ∧ m ∈ found := by
  induction l generalizing ms with
  | nil =>
      cases h
      simp
  | cons a rest ih =>
      obtain ⟨found, more, ha, hrest, rfl⟩ := concatResults_cons_ok.mp h
      simp [ih hrest, ha]

end

/-- The manifests that a document declares. -/
def Yields (yaml : Yaml) (doc : Value) (m : RawManifest) : Prop :=
  ∃ ms, expandValue yaml doc = .ok ms ∧ m ∈ ms

/-- A manifest of a list of documents is one that some document yields. -/
theorem mem_expandElems {yaml : Yaml} {docs : List Value} {ms : List RawManifest}
    (h : expandElems yaml docs = .ok ms) {m : RawManifest} :
    m ∈ ms ↔ ∃ doc ∈ docs, Yields yaml doc m := by
  induction docs generalizing ms with
  | nil =>
      rw [expandElems] at h
      cases h
      simp
  | cons doc rest ih =>
      obtain ⟨found, more, hdoc, hrest, rfl⟩ := expandElems_cons_ok.mp h
      simp [ih hrest, Yields, hdoc]

variable {yaml : Yaml} {tree : WorkTree} {ms : List RawManifest}

/-- The parse of a checkout reads its files one by one. -/
theorem parsePaths_ok_iff {roots : List Path} :
    parsePaths yaml tree roots = .ok ms ↔
      ∃ files, scan tree roots = .ok files ∧
        concatResults (parseFile yaml tree) files = .ok ms := by
  unfold parsePaths
  induction roots generalizing ms with
  | nil => simp [concatResults, scan]
  | cons root rest ih =>
      rw [concatResults_cons_ok, scan, parseDir]
      simp only [ih]
      cases collectYamlFiles tree root with
      | error e => simp
      | ok files =>
          cases scan tree rest with
          | error e => simp [Except.map]
          | ok more => simp [Except.map, concatResults_append_ok]

/-- The documents of a file. -/
def Holds (yaml : Yaml) (tree : WorkTree) (file : Path) (docs : List Value) : Prop :=
  ∃ text, tree.read file = .ok text ∧ yaml.parseMulti text = .ok docs

/-- A file holds one list of documents. -/
theorem Holds.unique {file : Path} {docs docs' : List Value} (h : Holds yaml tree file docs)
    (h' : Holds yaml tree file docs') : docs = docs' := by
  obtain ⟨text, hread, hparse⟩ := h
  obtain ⟨text', hread', hparse'⟩ := h'
  cases hread.symm.trans hread'
  exact Except.ok.inj (hparse.symm.trans hparse')

/-- A file that can be parsed holds documents, and its manifests are theirs. -/
theorem parseFile_ok {file : Path} (h : parseFile yaml tree file = .ok ms) :
    ∃ docs, Holds yaml tree file docs ∧ expandElems yaml docs = .ok ms := by
  unfold parseFile at h
  -- The file cannot be read.
  cases hread : tree.read file with
  | error e =>
      rw [hread] at h
      cases h
  | ok text =>
      rw [hread] at h
      dsimp only at h
      unfold parseStr at h
      -- It is no YAML.
      cases hparse : yaml.parseMulti text with
      | error e =>
          rw [hparse] at h
          cases h
      | ok docs =>
          rw [hparse] at h
          dsimp only at h
          -- One of its documents is no manifest.
          cases hexpand : expandElems yaml docs with
          | error e =>
              rw [hexpand] at h
              cases h
          | ok found =>
              rw [hexpand] at h
              cases h
              exact ⟨docs, ⟨text, hread, hparse⟩, hexpand⟩

/-- A document of a file that is read under these directories. -/
structure Scanned (yaml : Yaml) (tree : WorkTree) (roots : List Path) (file : Path)
    (doc : Value) : Prop where
  read : ∃ files, scan tree roots = .ok files ∧ file ∈ files
  held : ∃ docs, Holds yaml tree file docs ∧ doc ∈ docs

/-- The manifests of some roots are those that the scanned documents yield. -/
theorem mem_parsePaths {roots : List Path} (h : parsePaths yaml tree roots = .ok ms)
    {m : RawManifest} :
    m ∈ ms ↔ ∃ file doc, Scanned yaml tree roots file doc ∧ Yields yaml doc m := by
  obtain ⟨files, hfiles, hms⟩ := parsePaths_ok_iff.mp h
  rw [mem_concatResults hms]
  constructor
  · intro hm
    obtain ⟨file, hfile, found, hfound, hm⟩ := hm
    obtain ⟨docs, hdocs, hexpand⟩ := parseFile_ok hfound
    obtain ⟨doc, hdoc, hdeclares⟩ := (mem_expandElems hexpand).mp hm
    exact ⟨file, doc, ⟨⟨files, hfiles, hfile⟩, docs, hdocs, hdoc⟩, hdeclares⟩
  · intro hm
    obtain ⟨file, doc, ⟨⟨files', hfiles', hfile⟩, docs, hdocs, hdoc⟩, hyields⟩ := hm
    cases hfiles.symm.trans hfiles'
    -- The whole parse went well, and so did the parse of this file.
    obtain ⟨found, hfound⟩ := ok_of_concatResults hms hfile
    obtain ⟨docs', hdocs', hexpand⟩ := parseFile_ok hfound
    cases hdocs.unique hdocs'
    exact ⟨file, hfile, found, hfound, (mem_expandElems hexpand).mpr ⟨doc, hdoc, hyields⟩⟩

end Manifest

namespace Hooks

/-- The main resources are the manifests without a hook annotation. -/
theorem main_classify (ms : List RawManifest) :
    (classify ms).main = ms.filter fun m => (Manifest.annotation m hookAnnotation).isNone := by
  have hone : ∀ c m, (classifyOne c m).main =
      c.main ++ if (Manifest.annotation m hookAnnotation).isNone then [m] else [] := by
    intro c m
    unfold classifyOne
    cases Manifest.annotation m hookAnnotation with
    | none => rfl
    | some raw =>
        -- The phases of a hook take nothing from the main resources.
        have hphases : ∀ (phases : List HookPhase) (c : Classified) (info : HookInfo),
            (phases.foldl (addHook info) c).main = c.main := by
          intro phases
          induction phases with
          | nil => intro c info; rfl
          | cons phase rest ih =>
              intro c info
              rw [List.foldl_cons, ih]
              cases phase <;> rfl
        simp [hphases]
  have hrun : ∀ c, (ms.foldl classifyOne c).main =
      c.main ++ ms.filter fun m => (Manifest.annotation m hookAnnotation).isNone := by
    induction ms with
    | nil => simp
    | cons m rest ih =>
        intro c
        rw [List.foldl_cons, ih, hone, List.append_assoc, List.filter_cons]
        split <;> simp
  exact hrun Classified.empty

end Hooks

end LeanCd
