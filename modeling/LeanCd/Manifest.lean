import LeanCd.Config
import LeanCd.Value
import Mathlib.Data.List.Sort
import Mathlib.Data.String.Basic

/-!
# `LeanCd.Manifest`: parsing Kubernetes manifests

`manifest.rs`: from YAML text to `RawManifest`s, the expansion of `--path`
patterns into directories, and the managed-by label.

The YAML crate, the glob crate and the file system are parameters: `Yaml` is the
three functions through which every YAML call goes, and `WorkTree` is one
checkout as the globbing and reading functions see it.

A document is a mapping with a kind, an API version and a name, or it is skipped without an error.
A `List` is expanded into its items, at any depth. The functions that go through several files or
documents stop at the first error, so that a file that does not parse fails the whole pass.
-/

set_option autoImplicit false

namespace LeanCd

/-- `(group, version, kind)`, the identity of a resource type. -/
structure GvkKey where
  group : String
  version : String
  kind : String
deriving DecidableEq

/-- `manifest::RawManifest`: the identity of one document, its annotations, and
the whole document as YAML text. -/
structure RawManifest where
  group : String
  version : String
  kind : String
  name : String
  ns : Option String
  data : String
  annotations : List (String × String)
deriving DecidableEq

/-- `RawManifest::gvk`. -/
def RawManifest.gvk (m : RawManifest) : GvkKey := ⟨m.group, m.version, m.kind⟩

/-- The YAML crate: `parse_yaml_multi`, `from_yaml_slice` and `to_yaml_string`,
with the crate's own error texts. -/
structure Yaml where
  parseMulti : String → Except String (List Value)
  fromSlice : String → Except String Value
  toText : Value → Except String String

/-- A path, by its components. -/
abbrev Path := List String

/-- The text of an absolute path. -/
def Path.display (p : Path) : String := "/" ++ Text.joinWith "/" p

/-- One checkout. `glob` compiles a pattern and yields its matches in order, each
a path or an unreadable entry. -/
structure WorkTree where
  glob : String → Except String (List (Except String Path))
  isDir : Path → Bool
  isFile : Path → Bool
  read : Path → Except String String

namespace Manifest

/-- `split_api_version`: `""` is the core group. -/
def splitApiVersion (apiVersion : String) : String × String :=
  match Text.splitOnce '/' apiVersion with
  | some (group, version) => (group, version)
  | none => ("", apiVersion)

/-- The string-valued entries of `metadata.annotations`. -/
def stringEntries (fields : List (String × Value)) : List (String × String) :=
  fields.filterMap fun (k, v) => v.asStr.map fun s => (k, s)

/-- `value_to_manifest`: a document without a string `apiVersion`, `kind` or
`metadata.name` is skipped. -/
def valueToManifest (yaml : Yaml) (value : Value) : Except Error (Option RawManifest) :=
  match value.asObject with
  | none => .ok none
  | some obj =>
      match (Value.field obj "apiVersion").bind Value.asStr with
      | none => .ok none
      | some apiVersion =>
          match (Value.field obj "kind").bind Value.asStr with
          | none => .ok none
          | some kind =>
              -- A missing `metadata` skips the document too: it has no name.
              let metadata := Value.field obj "metadata"
              match (metadata.bind (·.get "name")).bind Value.asStr with
              | none => .ok none
              | some name =>
                  let ns := (metadata.bind (·.get "namespace")).bind Value.asStr
                  let annotations :=
                    (((metadata.bind (·.get "annotations")).bind Value.asObject).map
                      stringEntries).getD []
                  let (group, version) := splitApiVersion apiVersion
                  match yaml.toText value with
                  | .error e => .error (.manifest ("failed to serialize YAML: " ++ e))
                  | .ok data =>
                      .ok (some { group, version, kind, name, ns, data, annotations })

mutual

/-- `expand_value`: a `kind: List` document stands for its items, at any depth. -/
def expandValue (yaml : Yaml) (value : Value) : Except Error (List RawManifest) :=
  match value with
  | .object fields =>
      if (Value.field fields "kind").bind Value.asStr = some "List" then
        expandItems yaml fields
      else
        (valueToManifest yaml (.object fields)).map Option.toList
  | value => (valueToManifest yaml value).map Option.toList

/-- The items of a `List` document: its first `items` field, when it is an array. -/
def expandItems (yaml : Yaml) : List (String × Value) → Except Error (List RawManifest)
  | [] => .ok []
  | (key, v) :: rest =>
      if key = "items" then
        match v with
        | .array elems => expandElems yaml elems
        -- An `items` field that is no array stands for no items.
        | _ => .ok []
      else expandItems yaml rest

/-- Every element in turn, stopping at the first error. -/
def expandElems (yaml : Yaml) : List Value → Except Error (List RawManifest)
  | [] => .ok []
  | v :: rest =>
      match expandValue yaml v with
      | .error e => .error e
      | .ok ms =>
          match expandElems yaml rest with
          | .error e => .error e
          | .ok ms' => .ok (ms ++ ms')

end

/-- The elements of a list are expanded one after the other, and an error in any of them is one of
the whole. -/
theorem expandElems_cons_ok {yaml : Yaml} {v : Value} {rest : List Value}
    {ms : List RawManifest} :
    expandElems yaml (v :: rest) = .ok ms ↔
      ∃ found more, expandValue yaml v = .ok found ∧ expandElems yaml rest = .ok more ∧
        found ++ more = ms := by
  rw [expandElems]
  cases expandValue yaml v with
  | error e => simp
  | ok found =>
      cases expandElems yaml rest with
      | error e => simp
      | ok more => simp

/-- `parse_str`. -/
def parseStr (yaml : Yaml) (text : String) : Except Error (List RawManifest) :=
  match yaml.parseMulti text with
  | .error e => .error (.manifest ("failed to parse YAML: " ++ e))
  | .ok docs => expandElems yaml docs

/-- The matches of one pattern, all of them readable. -/
def readMatches {α : Type} (onError : String → Error) :
    List (Except String α) → Except Error (List α)
  | [] => .ok []
  | .error e :: _ => .error (onError e)
  | .ok p :: rest => (readMatches onError rest).map (p :: ·)

/-- A sorted list of paths without repetitions, the order of a `BTreeSet`. -/
def sortDedup (paths : List Path) : List Path := paths.dedup.insertionSort (· ≤ ·)

/-- A pattern as it is handed to the glob crate: relative ones are under the checkout. -/
def absolutePattern (base pat : String) : String :=
  if Text.startsWith pat "/" then pat else base ++ "/" ++ pat

section
variable (unprintable : Char → Bool)

/-- The directories one `--path` pattern matches. -/
def expandPattern (tree : WorkTree) (base pat : String) : Except Error (List Path) :=
  match tree.glob (absolutePattern base pat) with
  | .error e =>
      .error (.config ("invalid path pattern " ++ Text.debug unprintable pat ++ ": " ++ e))
  | .ok found =>
      (readMatches
        (fun e => .config
          ("error reading a match of pattern " ++ Text.debug unprintable pat ++ ": " ++ e))
        found).map (·.filter tree.isDir)

/-- The directories of every pattern, stopping at the first error. -/
def expandPatterns (tree : WorkTree) (base : String) : List String → Except Error (List Path)
  | [] => .ok []
  | pat :: rest =>
      match expandPattern unprintable tree base pat with
      | .error e => .error e
      | .ok dirs => (expandPatterns tree base rest).map (dirs ++ ·)

/-- The roots of a list of patterns are those of the first pattern, followed by those of the rest,
when every pattern can be expanded. -/
theorem expandPatterns_cons_ok {tree : WorkTree} {base pat : String} {rest : List String}
    {dirs : List Path} :
    expandPatterns unprintable tree base (pat :: rest) = .ok dirs ↔
      ∃ first more, expandPattern unprintable tree base pat = .ok first ∧
        expandPatterns unprintable tree base rest = .ok more ∧ first ++ more = dirs := by
  rw [expandPatterns]
  cases expandPattern unprintable tree base pat with
  | error e => simp
  | ok first =>
      cases expandPatterns unprintable tree base rest with
      | error e => simp [Except.map]
      | ok more => simp [Except.map]

/-- The text of the error for patterns that match no directory. -/
def noDirectoriesText (patterns : List String) : String :=
  "no directories matched path pattern(s) " ++ Text.debugList unprintable patterns ++
    "; refusing to sync as that would prune every managed resource"

/-- `expand_roots`: the directories the patterns match, sorted and without
repetitions. A bad pattern, an unreadable match and no match at all are all
`Error::Config`. -/
def expandRoots (tree : WorkTree) (base : String) (patterns : List String) :
    Except Error (List Path) :=
  match expandPatterns unprintable tree base patterns with
  | .error e => .error e
  | .ok dirs =>
      -- The third of the three findings that share `Error::Config`.
      if dirs.isEmpty then .error (.config (noDirectoriesText unprintable patterns))
      else .ok (sortDedup dirs)

end

/-- `collect_yaml_files` for one extension. -/
def collectExtension (tree : WorkTree) (dir : Path) (ext : String) : Except Error (List Path) :=
  match tree.glob (dir.display ++ "/**/*." ++ ext) with
  | .error e => .error (.config ("invalid manifest glob pattern: " ++ e))
  | .ok found => (readMatches Error.io found).map (·.filter tree.isFile)

/-- `collect_yaml_files`: the YAML files under a directory, sorted and without
repetitions. -/
def collectYamlFiles (tree : WorkTree) (dir : Path) : Except Error (List Path) := do
  let yaml ← collectExtension tree dir "yaml"
  let yml ← collectExtension tree dir "yml"
  return sortDedup (yaml ++ yml)

/-- The manifests of one file. A file that does not parse fails. -/
def parseFile (yaml : Yaml) (tree : WorkTree) (file : Path) : Except Error (List RawManifest) :=
  match tree.read file with
  | .error e => .error (.io e)
  | .ok contents =>
      match parseStr yaml contents with
      | .ok ms => .ok ms
      | .error e =>
          .error (.manifest
            ("failed to parse manifest file " ++ file.display ++ ": " ++ e.toString))

/-- The manifests of every item of a list, in order, stopping at the first error. -/
def concatResults {α : Type} (f : α → Except Error (List RawManifest)) :
    List α → Except Error (List RawManifest)
  | [] => .ok []
  | a :: rest =>
      match f a with
      | .error e => .error e
      | .ok ms => (concatResults f rest).map (ms ++ ·)

/-- Results are joined in the order of the arguments, and the first error is returned. -/
theorem concatResults_cons_ok {α : Type} {f : α → Except Error (List RawManifest)} {a : α}
    {rest : List α} {ms : List RawManifest} :
    concatResults f (a :: rest) = .ok ms ↔
      ∃ found more, f a = .ok found ∧ concatResults f rest = .ok more ∧ found ++ more = ms := by
  rw [concatResults]
  cases f a with
  | error e => simp
  | ok found =>
      cases concatResults f rest with
      | error e => simp [Except.map]
      | ok more => simp [Except.map]

/-- `parse_dir`. -/
def parseDir (yaml : Yaml) (tree : WorkTree) (root : Path) : Except Error (List RawManifest) :=
  match collectYamlFiles tree root with
  | .error e => .error e
  | .ok files => concatResults (parseFile yaml tree) files

/-- `parse_paths`. -/
def parsePaths (yaml : Yaml) (tree : WorkTree) (roots : List Path) :
    Except Error (List RawManifest) :=
  concatResults (parseDir yaml tree) roots

/-- `annotation`. -/
def annotation (m : RawManifest) (key : String) : Option String := m.annotations.lookup key

/-- `inject_managed_label_value`: write the label into `metadata.labels`, creating
both mappings where they are absent. Nothing is written where one of them is
present and not a mapping. -/
def injectManagedLabelValue (value : Value) (key labelValue : String) : Value :=
  match value with
  | .object fields =>
      match (Value.field fields "metadata").getD (.object []) with
      | .object metaFields =>
          match (Value.field metaFields "labels").getD (.object []) with
          | .object labels =>
              .object (Value.setField fields "metadata" (.object
                (Value.setField metaFields "labels" (.object
                  (Value.setField labels key (.string labelValue))))))
          -- The labels are there and no mapping: `metadata` is what it was.
          | _ => .object (Value.setField fields "metadata" (.object metaFields))
      | _ => .object fields
  | value => value

end Manifest

/-- `prune::ResourceKey`: the identity of a managed resource for set operations. -/
structure ResourceKey where
  group : String
  version : String
  kind : String
  ns : Option String
  name : String
deriving DecidableEq

namespace ResourceKey

/-- `ResourceKey::from_manifest`. -/
def fromManifest (m : RawManifest) : ResourceKey := ⟨m.group, m.version, m.kind, m.ns, m.name⟩

/-- `ResourceKey::keys_of`. -/
def keysOf (manifests : List RawManifest) : List ResourceKey := manifests.map fromManifest

/-- The resource type of a key. -/
def gvk (k : ResourceKey) : GvkKey := ⟨k.group, k.version, k.kind⟩

/-- The key of a manifest is of the manifest's kind. -/
@[simp] theorem fromManifest_gvk (m : RawManifest) : (fromManifest m).gvk = m.gvk := rfl

end ResourceKey

end LeanCd
