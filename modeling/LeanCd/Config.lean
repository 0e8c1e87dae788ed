import LeanCd.Lib.Text

/-!
# `LeanCd.Config`: errors, durations and the runtime configuration

`error.rs` and the parts of `config.rs` the passes read. Durations are natural
numbers of nanoseconds, as `Duration` keeps them. The environment variables that
hold the git credentials are given by their values, in `Secrets`.

`Error` keeps the texts of the source, since they are logged and persisted: a result about what an
error tells is a result about `Error.toString`. Of the configuration only the fields are here that
some modelled function reads. `Config.defaults` are the defaults of the command line.
-/

set_option autoImplicit false

namespace LeanCd

/-- A failed Kubernetes API call: the HTTP status of an API error, when there is
one, and the text. -/
structure KubeError where
  code : Option Nat
  message : String
deriving DecidableEq

/-- `error::Error`. -/
inductive Error where
  | git (text : String)
  | manifest (text : String)
  | kube (e : KubeError)
  | config (text : String)
  | hook (text : String)
  | io (text : String)
  | other (text : String)
deriving DecidableEq

/-- The `Display` text of an error, as it is logged and persisted. -/
def Error.toString : Error → String
  | .git text => "git operation failed: " ++ text
  | .manifest text => "manifest error: " ++ text
  | .kube e => "kubernetes error: " ++ e.message
  | .config text => "config error: " ++ text
  | .hook text => "hook error: " ++ text
  | .io text => "io error: " ++ text
  | .other text => text

/-- `watch::WatchMode`. -/
inductive WatchMode where
  | off
  | trigger
  | cache
deriving DecidableEq

/-- One second, in nanoseconds. -/
def second : Nat := 1000000000

/-- `config::Config`, the fields the modelled functions read. `effectiveWorkDir`
is the process-scoped work directory. -/
structure Config where
  repoUrl : String
  branch : String
  path : List String
  pollInterval : Nat
  «namespace» : String
  effectiveWorkDir : String
  managedLabelKey : String
  managedLabelValue : String
  hookTimeout : Nat
  backoffBase : Nat
  backoffMax : Nat
  lockLeaseDuration : Nat
  lockWaitTimeout : Nat
  watchMode : WatchMode
  watchDebounce : Nat
  cacheMaxObjectBytes : Nat
  healthEnabled : Bool
  dryRun : Bool

/-- The configuration of the command line's defaults, in the process with that id. -/
def Config.defaults (repoUrl : String) (path : List String) (pid : String) : Config where
  repoUrl := repoUrl
  branch := "main"
  path := path
  pollInterval := 60 * second
  «namespace» := "default"
  effectiveWorkDir := "/tmp/leancd-work-" ++ pid
  managedLabelKey := "app.kubernetes.io/managed-by"
  managedLabelValue := "leancd"
  hookTimeout := 300 * second
  backoffBase := 5 * second
  backoffMax := 600 * second
  lockLeaseDuration := 60 * second
  lockWaitTimeout := 30 * second
  watchMode := .cache
  watchDebounce := second / 2
  cacheMaxObjectBytes := 12288
  healthEnabled := true
  dryRun := false

/-- The values of the environment variables that hold secrets. -/
structure Secrets where
  gitUsername : Option String
  gitPassword : Option String
  gitSshKey : Option String

/-- `config::RepoKind`. -/
inductive RepoKind where
  | ssh
  | https
  | file
  | other
deriving DecidableEq

namespace Config

/-- `Config::git_credentials`: both values present and non-empty. -/
def gitCredentials (secrets : Secrets) : Option (String × String) :=
  match secrets.gitUsername, secrets.gitPassword with
  -- A variable that is set but empty counts as unset.
  | some u, some p => if u ≠ "" ∧ p ≠ "" then some (u, p) else none
  | _, _ => none

/-- `Config::repo_kind`. -/
def repoKind (cfg : Config) : RepoKind :=
  let url := Text.trim cfg.repoUrl
  if Text.startsWith url "git@" || Text.startsWith url "ssh://" then .ssh
  else if Text.startsWith url "https://" || Text.startsWith url "http://" then .https
  else if Text.startsWith url "file://" || Text.startsWith url "/" || Text.startsWith url "." then
    .file
  else .other

/-- `Config::ssh_private_key`: the injected key, trimmed, when it is not blank. -/
def sshPrivateKey (secrets : Secrets) : Option String :=
  (secrets.gitSshKey.map Text.trim).filter (· ≠ "")

end Config

/-- The `url` crate, as far as `embed_basic_auth` uses it: parsing, the two
setters, and printing. -/
structure UrlCrate where
  Url : Type
  parse : String → Except String Url
  setUsername : Url → String → Option Url
  setPassword : Url → String → Option Url
  print : Url → String

namespace Config

/-- `embed_basic_auth`: put the credentials into the userinfo part of `url`. -/
def embedBasicAuth (crate : UrlCrate) (url user pass : String) : Except Error String :=
  match crate.parse url with
  | .error e => .error (.config ("invalid repo URL '" ++ url ++ "': " ++ e))
  | .ok parsed =>
      match crate.setUsername parsed user with
      | none => .error (.config "invalid git username")
      | some parsed =>
          match crate.setPassword parsed pass with
          | none => .error (.config "invalid git password")
          | some parsed => .ok (crate.print parsed)

/-- `Config::authed_url`: the URL handed to the `git` command line. Only an
HTTP(S) URL carries credentials. -/
def authedUrl (crate : UrlCrate) (cfg : Config) (secrets : Secrets) : Except Error String :=
  if cfg.repoKind = .https then
    match gitCredentials secrets with
    | some (user, pass) => embedBasicAuth crate cfg.repoUrl user pass
    | none => .ok cfg.repoUrl
  else .ok cfg.repoUrl

end Config

end LeanCd
