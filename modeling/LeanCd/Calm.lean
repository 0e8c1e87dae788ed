import LeanCd.Reconcile

/-!
# `LeanCd.Calm`: a calm environment

`Env.calm` is the environment in which every API call is served, nobody else acts,
a delete removes the object at once, and time stands still. What `git` answers, the
files and the conversions stay parameters. It shows that the assumptions of the
results can be met, and runs the model on concrete inputs.

`KubeCrate.plain` reads and writes live objects field by field, as the Kubernetes
client does.

An example takes the calm environment and changes the one thing that it is about: a refused call,
another client, an answer of `git`. The assumptions that the change does not touch are then those
of the calm environment, which `LeanCd.Proofs.PlainCrates` proves once.
-/

set_option autoImplicit false

namespace LeanCd

namespace KubeCrate

/-- An optional text field. -/
def optStr (v : Option Value) : Except String (Option String) :=
  match Json.optStr v with
  | some s => .ok s
  | none => .error "invalid type: expected a string"

/-- An optional map of texts. -/
def optMap (v : Option Value) : Except String (Option (List (String × String))) :=
  match v with
  | none | some .null => .ok none
  | some (.object fields) =>
      let entries := Manifest.stringEntries fields
      if entries.length = fields.length then .ok (some entries)
      else .error "invalid type: expected a string"
  | some _ => .error "invalid type: expected a map"

/-- An optional integer field. -/
def optInt (v : Option Value) : Except String (Option Int) :=
  match v with
  | none | some .null => .ok none
  | some v =>
      match v.asI64 with
      | some i => .ok (some i)
      | none => .error "invalid type: expected i64"

/-- The metadata fields that are read by name. -/
def metaNames : List String :=
  ["name", "namespace", "labels", "annotations", "generation", "deletionTimestamp"]

/-- Read the metadata. An absent one is empty. -/
def plainMeta (v : Option Value) : Except String ObjectMeta :=
  match v with
  | none => .ok ⟨none, none, none, none, none, none, []⟩
  | some (.object fields) => do
      return {
        name := ← optStr (Value.field fields "name")
        ns := ← optStr (Value.field fields "namespace")
        labels := ← optMap (Value.field fields "labels")
        annotations := ← optMap (Value.field fields "annotations")
        generation := ← optInt (Value.field fields "generation")
        deletionTimestamp := ← optStr (Value.field fields "deletionTimestamp")
        rest := fields.filter fun f => f.1 ∉ metaNames }
  | some _ => .error "invalid type: expected struct ObjectMeta"

/-- Read an object. -/
def plainFrom (v : Value) : Except String DynamicObject :=
  match v with
  | .object fields => do
      let metadata ← plainMeta (Value.field fields "metadata")
      let types :=
        match Value.field fields "apiVersion", Value.field fields "kind" with
        | some (.string a), some (.string k) => some (a, k)
        | _, _ => none
      return { types, metadata,
               data := fields.filter fun f => f.1 ∉ ["apiVersion", "kind", "metadata"] }
  | _ => .error "invalid type: expected a map"

/-- A field that is written when it is present. -/
def optField (key : String) (v : Option Value) : List (String × Value) :=
  (v.map fun v => (key, v)).toList

/-- A map of texts as a value. -/
def ofMap (entries : List (String × String)) : Value :=
  .object (entries.map fun e => (e.1, .string e.2))

/-- Write an object. -/
def plainTo (o : DynamicObject) : Value := .object
  ((o.types.elim [] fun t => [("apiVersion", .string t.1), ("kind", .string t.2)]) ++
    [("metadata", .object
      (optField "name" (o.metadata.name.map .string) ++
        optField "namespace" (o.metadata.ns.map .string) ++
        optField "labels" (o.metadata.labels.map ofMap) ++
        optField "annotations" (o.metadata.annotations.map ofMap) ++
        optField "generation" (o.metadata.generation.map fun i => .number (.int i)) ++
        optField "deletionTimestamp" (o.metadata.deletionTimestamp.map .string) ++
        o.metadata.rest))] ++ o.data)

/-- The field-by-field client. Sizes count fields. -/
def plain : KubeCrate := ⟨plainFrom, plainTo, fun o => o.data.length⟩

end KubeCrate

/-- A URL crate that keeps the scheme apart from the rest of the URL and puts the
percent-encoded `user:password@` between the two. -/
def UrlCrate.plain : UrlCrate where
  Url := String × String × String
  parse s :=
    match Text.splitOnce '/' s with
    | some (scheme, rest) => .ok (scheme ++ "//", "", String.ofList (rest.toList.drop 1))
    | none => .error "relative URL without a base"
  setUsername u name := some (u.1, Text.percentEncode name, u.2.2)
  setPassword u pass := some (u.1, u.2.1 ++ ":" ++ Text.percentEncode pass ++ "@", u.2.2)
  print u := u.1 ++ u.2.1 ++ u.2.2

/-- A YAML crate whose documents are the given ones, under the given texts. -/
def Yaml.table (texts : List (String × List Value)) (docs : List (String × Value)) : Yaml where
  parseMulti text := .ok ((texts.lookup text).getD [])
  fromSlice text :=
    match docs.lookup text with
    | some v => .ok v
    | none => .error "unknown document"
  toText v :=
    match docs.find? fun d => d.2 = v with
    | some d => .ok d.1
    | none => .error "unknown value"

variable {sc : Scopes}

/-- A cluster in which every kind is namespaced. -/
abbrev Scopes.namespacedOnly : Scopes := fun _ _ => .namespaced

/-- A checkout without files. -/
def WorkTree.bare : WorkTree := ⟨fun _ => .ok [], fun _ => false, fun _ => false, fun _ => .ok ""⟩

/-- A checkout with the one directory `/work` and one file in it. The pattern matches
the directory. -/
def WorkTree.oneFile (pattern text : String) : WorkTree where
  glob p :=
    if p = pattern then .ok [.ok ["work"]]
    else if p = "/work/**/*.yaml" then .ok [.ok ["work", "all.yaml"]]
    else .ok []
  isDir p := p = ["work"]
  isFile p := p = ["work", "all.yaml"]
  read _ := .ok text

/-- A `git` whose commands succeed, with the branch at a commit. -/
def gitAt (sha : String) : Nat → GitCommand → GitOutcome := fun _ cmd =>
  .exited true (if cmd = .revParseHead then sha ++ "\n" else "") ""

/-- The calm environment. -/
def Env.calm (sc : Scopes) (yaml : Yaml) (git : Nat → GitCommand → GitOutcome)
    (tree : String → WorkTree) : Env sc where
  client := "leancd"
  yaml := yaml
  kube := .plain
  url := .plain
  merge _ new := new
  onDelete _ _ _ := none
  fault _ _ := .none
  others _ c := c
  otherLease _ l := l
  busy _ := 0
  busy_mono := monotone_const
  wallClock _ := 0
  stop _ := false
  gvkOrder _ := .id
  keyOrder _ := .id
  git := git
  gitDirExists _ := true
  workDirExists _ := true
  removeWorkDir _ := .ok ()
  prepareSshKey _ := .ok ()
  tree := tree
  cacheStores _ := ∅
  unprintable _ := false

/-- The calm environment without a repository. -/
def Env.idle (sc : Scopes) : Env sc :=
  .calm sc (.table [] []) (fun _ _ => .exited true "" "") fun _ => .bare

/-- A world before any run: the objects, and the text of the state ConfigMap. -/
def World.fresh (cluster : Cluster sc) (stateCm : Option Value) : World sc where
  step := 0
  slept := 0
  cluster := cluster
  stateCm := stateCm
  lease := none
  nextRv := 0
  trace := []
  traffic := []
  lastSuccess := none
  lastGvks := []

/-! ### A repository with one ConfigMap -/

/-- The document of a ConfigMap, with the namespace it names. -/
def settingsValue (ns : List (String × Value)) : Value := .object
  [("apiVersion", .string "v1"), ("kind", .string "ConfigMap"),
    ("metadata", .object (("name", .string "settings") :: ns)),
    ("data", .object [("mode", .string "fast")])]

/-- The manifest of the document. -/
def settings (ns : Option String) : RawManifest :=
  ⟨"", "v1", "ConfigMap", "settings", ns, "settings", []⟩

/-- The configuration of the examples. -/
def settingsCfg : Config := .defaults "/repo" ["."] "1"

/-- The YAML of the document. -/
def settingsYaml (ns : List (String × Value)) : Yaml := .table [] [("settings", settingsValue ns)]

/-- The cluster after a pass applied the one manifest to an empty cluster. -/
def settingsCluster (ns : Option String) (field : List (String × Value)) :
    Cluster .namespacedOnly :=
  (Act.state (Reconcile.applyAll
    (.calm _ (settingsYaml field) (fun _ _ => .exited true "" "") fun _ => .bare)
    settingsCfg false [settings ns] [] (.fresh ∅ none))).cluster

/-- The document of `settings`, with its namespace written. -/
def syncedValue : Value := settingsValue [("namespace", .string "default")]

/-- A second ConfigMap. -/
def otherValue : Value := .object
  [("apiVersion", .string "v1"), ("kind", .string "ConfigMap"),
    ("metadata", .object [("name", .string "other"), ("namespace", .string "default")])]

/-- A hook that runs before the apply. -/
def setupValue : Value := .object
  [("apiVersion", .string "v1"), ("kind", .string "ConfigMap"),
    ("metadata", .object [("name", .string "setup"), ("namespace", .string "default"),
      ("annotations", .object [("helm.sh/hook", .string "pre-install")])])]

/-- The manifest of the hook. -/
def setup : RawManifest :=
  ⟨"", "v1", "ConfigMap", "setup", some "default", "setup", [("helm.sh/hook", "pre-install")]⟩

/-- A repository with the one document, at the commit `c1`. -/
def syncedEnv : Env .namespacedOnly :=
  .calm _ (.table [("all", [syncedValue])] [("settings", syncedValue)]) (gitAt "c1") fun _ =>
    .oneFile "/tmp/leancd-work-1/." "all"

/-- A pass over it in a watch mode. -/
def syncedPass (mode : WatchMode) : Reconciler :=
  ⟨{ settingsCfg with watchMode := mode }, ⟨none, none, none⟩, none, "pod:1"⟩

/-- The world after a pass applied the document, with the state it left. -/
def syncedWorld : World .namespacedOnly :=
  .fresh (settingsCluster (some "default") [("namespace", .string "default")])
    (some ({ State.default with
      lastSha := some "c1", applied := [.fromManifest (settings (some "default"))] }).toData)

end LeanCd
