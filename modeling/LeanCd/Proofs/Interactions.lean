import LeanCd.Lib.Stretch
import LeanCd.Proofs.PassFrames

/-!
# `LeanCd.Proofs.Interactions`: the calls of a pass

Seen from the network, a pass performs calls of the API server and git commands, and it renews
its Lease in between. `Interaction` is what its log consists of. Clocks, flags, the disk and
the order of hash sets are looks, which weigh nothing.

Each function of a pass that does not renew the Lease is `Brief`: the number of its calls is
bounded by the lengths of the lists that it goes through. `prune` also goes through what its own
list calls return, so its bound has a part that `listed` reads off the log.

The bounds are upper bounds in every environment: a call counts when it is made, whatever its
answer. `Served` is all that is asked of the server's side of a call. What a log says of calls is
tied to the traffic of the world in `LeanCd.Proofs.RenewalGap`, where every entry of the log
accounts for what was sent (`Accounts`).
-/

set_option autoImplicit false

namespace LeanCd

open Act

variable {sc : Scopes} {env : Env sc} {cfg : Config} {guard : LeaseGuard}

namespace Traffic

/-- Every API call and `git` command weighs one. A read of the Lease is a mark: a renewal begins
with one, and nothing else inside a pass reads the Lease. -/
def gauge : Gauge (Traffic sc) where
  weight
    | request _ | git _ => 1
    | objects _ => 0
  mark
    | request .leaseGet => true
    | _ => false

/-- The objects that list calls brought back. -/
def listed : List (Traffic sc) → Nat
  | [] => 0
  | objects n :: l => n + listed l
  | _ :: l => listed l

/-- The objects of two runs add up. -/
@[simp] theorem listed_append (l m : List (Traffic sc)) :
    listed (l ++ m) = listed l + listed m := by
  induction l with
  | nil => simp [listed]
  | cons x l ih => cases x <;> simp [listed, ih, Nat.add_assoc]

/-- A call or a command that is not the read of a renewal. -/
def Counts (x : Traffic sc) : Prop := gauge.mark x = false ∧ gauge.weight x = 1

/-- A git command counts as one call. -/
theorem counts_git (cmd : GitCommand) : (git cmd : Traffic sc).Counts := ⟨rfl, rfl⟩

/-- A request counts as one call, unless it is the read of the Lease that begins a renewal: that is
the mark. -/
theorem counts_request {req : Request sc} (h : req ≠ .leaseGet) : (request req).Counts := by
  refine ⟨?_, rfl⟩
  cases req with
  | leaseGet => exact absurd rfl h
  | _ => rfl

end Traffic

/-- What a pass does to the outside. A list call carries the number of objects it returned. -/
inductive Interaction where
  | call
  | list (objects : Nat)
  | look
  | renewal

namespace Interaction

/-- Renewals are the marks. API calls and git commands weigh one. -/
def gauge : Gauge Interaction where
  weight
    | call | list _ => 1
    | look | renewal => 0
  mark
    | renewal => true
    | call | list _ | look => false

/-- The objects that the list calls of a log returned. -/
def listed : List Interaction → Nat
  | [] => 0
  | .list k :: l => k + listed l
  | _ :: l => listed l

/-- What two logs listed adds up. -/
@[simp] theorem listed_append (l m : List Interaction) :
    listed (l ++ m) = listed l + listed m := by
  induction l with
  | nil => simp [listed]
  | cons a l ih => cases a <;> simp [listed, ih, Nat.add_assoc]

/-- One API call or `git` command that leaves the Lease alone, and has the server change at most
one object. It is in the history of the network. -/
structure Called (env : Env sc) (s t : World sc) : Prop where
  step : t.step = s.step + 1
  lease : t.lease = env.otherLease s.step s.lease
  nextRv : t.nextRv = s.nextRv
  effects : t.effects.length ≤ s.effects.length + 1
  traffic : ∃ x : Traffic sc, x.Counts ∧ t.traffic = x :: s.traffic

/-- An interaction takes the world to another one. -/
def Runs (env : Env sc) (cfg : Config) (guard : LeaseGuard) :
    Interaction → World sc → World sc → Prop
  | call, s, t => Called env s t
  | list k, s, t => ∃ g sel live, KubeUtil.listAll env g sel s = .ok live t ∧ live.length = k
  | look, s, t => t = s.ticked env
  | renewal, s, t => Reconcile.touchLease env cfg guard s = .ok () t

end Interaction

open Interaction

/-- What the process does on its own leaves the outside as it is. -/
def unnoticed : Frame (World sc) :=
  .fixed fun w => (w.step, w.cluster, w.stateCm, w.lease, w.nextRv, w.effects, w.traffic)

/-- The logs of interactions. -/
def interactions (env : Env sc) (cfg : Config) (guard : LeaseGuard) :
    Vocabulary (World sc) Interaction where
  quiet := unnoticed
  runs := Interaction.Runs env cfg guard

/-- The program renews nothing, and makes at most this many calls. -/
abbrev Calls {ε α : Type} (env : Env sc) (cfg : Config) (guard : LeaseGuard)
    (m : EStateM ε (World sc) α) (n : Nat) : Prop :=
  Brief gauge (interactions env cfg guard) m n

/-! ### One interaction -/

/-- The server's side of a call: the Lease is left alone, and at most one object changes. -/
structure Served (s t : World sc) : Prop where
  step : t.step = s.step
  lease : t.lease = s.lease
  nextRv : t.nextRv = s.nextRv
  effects : t.effects.length ≤ s.effects.length + 1
  traffic : t.traffic = s.traffic

/-- To serve nothing changes nothing. -/
theorem served_refl (s : World sc) : Served s s := ⟨rfl, rfl, rfl, Nat.le_succ _, rfl⟩

/-- A call that only reads is served without a change. -/
theorem served_of_reads {α : Type} {act : Pass sc α} (h : Keeps (.fixed fun w => w) act)
    (s : World sc) : Served s (state (act s)) := by
  have hsame : state (act s) = s := h s
  rw [hsame]
  exact served_refl s

/-- One event adds at most one effect. -/
theorem World.effects_cons_le {e : Event sc} {s t : World sc} (ht : t.trace = e :: s.trace) :
    t.effects.length ≤ s.effects.length + 1 := by
  unfold World.effects
  rw [ht, List.filter_cons]
  split <;> simp

/-- A tick is no call, as nothing is sent. -/
theorem calls_tick : Calls env cfg guard (tick env) 0 :=
  .entry fun _ => ⟨.look, rfl, Nat.le_refl 0, rfl⟩

/-- A call is one interaction, whatever comes of it. -/
theorem after_called {α : Type} {req : Request sc} {act : Pass sc α} (hreq : req ≠ .leaseGet)
    (hact : ∀ s, Served s (state (act s))) (s : World sc) :
    After (call env req act) s fun _ t => Called env s t := by
  have hserved := hact (s.called env req)
  have hcalled : (s.called env req).traffic = .request req :: s.traffic := rfl
  have hact : Called env s (state (act (s.called env req))) :=
    ⟨hserved.step, hserved.lease, hserved.nextRv, hserved.effects, .request req,
      Traffic.counts_request hreq, hserved.traffic.trans hcalled⟩
  rw [after_call]
  cases env.fault s.step req with
  | none => exact hact
  | refused e =>
      exact ⟨rfl, rfl, rfl, Nat.le_succ _, .request req, Traffic.counts_request hreq, hcalled⟩
  | lost e => exact hact

/-- A call is one call: the tick and the entry in the traffic, whatever the server answers, and also
when the answer is lost. -/
theorem calls_call {α : Type} {req : Request sc} {act : Pass sc α} (hreq : req ≠ .leaseGet)
    (hact : ∀ s, Served s (state (act s))) : Calls env cfg guard (call env req act) 1 :=
  .entry fun s => ⟨.call, rfl, Nat.le_refl 1, after_called hreq hact s⟩

/-- To read the wall clock is no call. -/
theorem calls_timestampNow : Calls env cfg guard (timestampNow env) 0 :=
  calls_tick.bind_free fun _ => .pure _

/-- Nor is it one to read the monotonic clock. -/
theorem calls_instantNow : Calls env cfg guard (instantNow env) 0 :=
  calls_tick.bind_free fun _ => (Brief.quiet Keeps.get).bind_free fun _ => .pure _

/-- A hash order costs no call. -/
theorem calls_hashGvks (l : List GvkKey) : Calls env cfg guard (hashGvks env l) 0 :=
  calls_tick.bind_free fun _ => .pure _

/-- The same of keys. -/
theorem calls_hashKeys (l : List ResourceKey) : Calls env cfg guard (hashKeys env l) 0 :=
  calls_tick.bind_free fun _ => .pure _

/-- A hash set has at most as many entries as the list it was built from. -/
theorem returns_hashGvks_length (l : List GvkKey) :
    Returns (hashGvks env l) fun l' => l'.length ≤ l.length := by
  refine (Returns.any _).bind fun n _ => .pure ?_
  rw [((env.gvkOrder n).perm l.dedup).length_eq]
  exact (List.dedup_sublist l).length_le

/-- A hash set of keys is no longer than the list that it was made of. -/
theorem returns_hashKeys_length (l : List ResourceKey) :
    Returns (hashKeys env l) fun l' => l'.length ≤ l.length := by
  refine (Returns.any _).bind fun n _ => .pure ?_
  rw [((env.keyOrder n).perm l.dedup).length_eq]
  exact (List.dedup_sublist l).length_le

/-- A note in the history is no call, for an event that mutates nothing. -/
theorem calls_note {e : Event sc} (he : e.mutates = false) :
    Calls env cfg guard (note e) 0 := by
  refine .quiet fun s => ?_
  have heffects : World.effects { s with trace := e :: s.trace } = s.effects := by
    simp [World.effects, he]
  exact congrArg (fun l => (s.step, s.cluster, s.stateCm, s.lease, s.nextRv, l, s.traffic)) heffects

/-! ### One call -/

/-- A discovery is one call. -/
theorem calls_resolve (g : GvkKey) : Calls env cfg guard (KubeUtil.resolve env g) 1 := by
  refine (calls_call (by simp) (served_of_reads (Keeps.pure _))).attempt.bind_free ?_
  intro r
  cases r with
  | ok _ => exact .pure _
  | error e => exact .throw _

/-- A cached discovery is at most one call. -/
theorem calls_getOrResolve (cache : KubeUtil.DiscoveryCache) (g : GvkKey) :
    Calls env cfg guard (KubeUtil.getOrResolve env cache g) 1 := by
  unfold KubeUtil.getOrResolve
  split
  · exact .pure _
  · exact (calls_resolve g).bind_free fun _ => .pure _

/-- A GET is one call. -/
theorem calls_getObject (defaultNs : String) (g : GvkKey) (ns : Option String) (name : String) :
    Calls env cfg guard (KubeUtil.getObject env defaultNs g ns name) 1 := by
  refine (calls_call (by simp) (served_of_reads (keeps_serveGet _))).attempt.bind_free ?_
  intro r
  split
  · exact .pure _
  · split
    · exact .pure _
    · exact .throw _
  · exact .throw _

/-- An apply is one call, the PATCH. What it sends is computed before. -/
theorem calls_apply (defaultNs : String) (g : GvkKey) (value : Value) (dryRun : Bool) :
    Calls env cfg guard (KubeUtil.apply env defaultNs g value dryRun) 1 := by
  unfold KubeUtil.apply
  split
  · exact .throw _
  · split
    · exact .throw _
    · refine calls_call (by simp) fun s => ?_
      cases dryRun with
      | true => exact served_refl s
      | false => exact ⟨rfl, rfl, rfl, World.effects_cons_le rfl, rfl⟩

/-- A delete is one call. -/
theorem calls_delete (defaultNs : String) (g : GvkKey) (ns : Option String) (name : String) :
    Calls env cfg guard (KubeUtil.delete env defaultNs g ns name) 1 := by
  refine calls_call (by simp) fun s => ?_
  unfold KubeUtil.serveDelete
  cases s.cluster.lookup (apiFor sc g ns defaultNs name) with
  | none => exact served_refl s
  | some live => exact ⟨rfl, rfl, rfl, World.effects_cons_le rfl, rfl⟩

/-- To read the state is one call, and to decode it none. -/
theorem calls_stateRead : Calls env cfg guard (State.read env) 1 := by
  have hreads : Keeps (.fixed fun w => w) (State.serveGet : Pass sc Value) := by
    intro w
    unfold State.serveGet
    cases w.stateCm <;> rfl
  refine (calls_call (by simp) (served_of_reads hreads)).attempt.bind_free ?_
  intro r
  split
  · exact .pure _
  · split
    · exact .pure _
    · exact .throw _
  · exact .throw _

/-- To write the state is one call. -/
theorem calls_stateWrite (s : State) : Calls env cfg guard (State.write env s) 1 :=
  calls_call (by simp) fun _ => ⟨rfl, rfl, rfl, World.effects_cons_le rfl, rfl⟩

/-- A list call logs how many objects it returns. -/
theorem logs_listAll (g : GvkKey) (sel : String × String) :
    Logs (interactions env cfg guard) (KubeUtil.listAll env g sel) fun res log =>
      (gauge.marks log = 0 ∧ gauge.total log ≤ 1) ∧
        ∀ live, res = .ok live → live.length ≤ listed log := by
  intro s
  cases hrun : KubeUtil.listAll env g sel s with
  | ok live t =>
      rw [after_of_ok hrun]
      refine ⟨[.list live.length], .one ⟨g, sel, live, hrun, rfl⟩, ⟨rfl, Nat.le_refl 1⟩, ?_⟩
      intro live' hlive
      cases hlive
      exact Nat.le_refl _
  | error e t =>
      -- A list call that fails brings nothing back: only the call itself was sent.
      have hsent : t = s.called env (.list g) := by
        have hafter : After (KubeUtil.listAll env g sel) s fun res t =>
            res.isOk = false → t = s.called env (.list g) := by
          rw [KubeUtil.after_listAll]
          cases env.fault s.step (.list g) with
          | none => exact fun h => by cases h
          | refused e | lost e => exact fun _ => rfl
        rw [after_of_error hrun] at hafter
        exact hafter rfl
      rw [after_of_error hrun, hsent]
      refine ⟨[.call], .one ⟨rfl, rfl, rfl, Nat.le_succ _, .request (.list g),
        Traffic.counts_request (by simp), rfl⟩, ⟨rfl, Nat.le_refl 1⟩, by simp⟩

/-- A list is one call, whatever it returns. -/
theorem calls_listAll (g : GvkKey) (sel : String × String) :
    Calls env cfg guard (KubeUtil.listAll env g sel) 1 :=
  (logs_listAll g sel).mono fun _ _ h => h.1

/-- A git command is one call. -/
theorem calls_runGit (url : String) (cmd : GitCommand) :
    Calls env cfg guard (GitSync.runGit env cfg url cmd) 1 := by
  have hcalled : ∀ s, After (GitSync.runGit env cfg url cmd) s fun _ t =>
      t = (s.transmitted (.git cmd)).ticked env := by
    intro s
    rw [GitSync.runGit, after_bind, after_transmit]
    dsimp only
    rw [after_bind, after_tick]
    dsimp only
    split <;> rfl
  refine .entry fun s => ⟨.call, rfl, Nat.le_refl 1, ?_⟩
  have hsent : state (GitSync.runGit env cfg url cmd s) =
      (s.transmitted (.git cmd)).ticked env := hcalled s
  rw [hsent]
  exact ⟨rfl, rfl, rfl, Nat.le_succ _, .git cmd, Traffic.counts_git cmd, rfl⟩

/-! ### Git -/

section
variable {secrets : Secrets}

/-- `head_sha` is one git command. -/
theorem calls_headSha (url : String) : Calls env cfg guard (GitSync.headSha env cfg url) 1 :=
  (calls_runGit url _).bind_free fun _ => .pure _

/-- A round of the search for a commit is at most two commands: the probe and a deeper fetch. By
induction on the rounds. -/
theorem calls_ensureShaReachable (url sha : String) (rounds : Nat) :
    Calls env cfg guard (GitSync.ensureShaReachable env cfg url sha rounds) (2 * rounds) := by
  induction rounds with
  | zero => exact .throw _
  | succ rounds ih =>
      have hround : Calls env cfg guard (GitSync.ensureShaReachable env cfg url sha (rounds + 1))
          (1 + (1 + 2 * rounds)) := by
        refine (calls_runGit url _).attempt.bind ?_
        intro r
        split
        · exact .pure _
        · exact (calls_runGit url _).bind fun _ => ih
      exact hround.mono (by omega)

/-- The same of the search for a depth. -/
theorem calls_ensureDepth (url : String) (depth rounds : Nat) :
    Calls env cfg guard (GitSync.ensureDepth env cfg url depth rounds) (2 * rounds) := by
  induction rounds with
  | zero => exact .throw _
  | succ rounds ih =>
      have hround : Calls env cfg guard (GitSync.ensureDepth env cfg url depth (rounds + 1))
          (1 + (1 + 2 * rounds)) := by
        refine (calls_runGit url _).bind ?_
        intro count
        split
        · exact .pure _
        · exact (calls_runGit url _).bind fun _ => ih
      exact hround.mono (by omega)

/-- A checkout of a reference is at most two commands, the second of them the reset. -/
theorem calls_checkoutRef (url ref : String) :
    Calls env cfg guard (GitSync.checkoutRef env cfg url ref) 2 :=
  (calls_runGit url _).bind (n := 1) fun _ => (calls_runGit url _).bind_free fun _ => .pure _

/-- To clear the work directory is no call. -/
theorem calls_clearWorkDir : Calls env cfg guard (GitSync.clearWorkDir env) 0 := by
  refine calls_tick.bind_free ?_
  intro n
  split
  · refine calls_tick.bind_free ?_
    intro n
    split
    · exact .pure _
    · exact .throw _
  · exact .pure _

/-- A checkout is fetched or cloned with at most two commands. -/
theorem calls_fetchOrClone (url : String) (target : CheckoutTarget) :
    Calls env cfg guard (GitSync.fetchOrClone env cfg url target) 2 := by
  refine calls_tick.free_bind ?_
  intro n
  split
  · refine (calls_runGit url _).bind (n := 1) fun _ => ?_
    split
    · exact (calls_runGit url _).bind_free fun _ => .pure _
    · exact .pure _
  · refine Brief.mono (k := 1) ?_ (by omega)
    exact calls_clearWorkDir.free_bind fun _ => (calls_runGit url _).bind_free fun _ => .pure _

/-- Of the three targets a number of parents costs the most: twenty rounds, the checkout, and the
read of the commit. -/
theorem calls_pointAt (url : String) (target : CheckoutTarget) :
    Calls env cfg guard (GitSync.pointAt env cfg url target) 43 := by
  cases target with
  | branch => exact (calls_headSha url).mono (by omega)
  | sha sha =>
      refine Brief.mono (k := 40 + 2) ?_ (by omega)
      exact (calls_ensureShaReachable url sha _).bind fun _ =>
        (calls_checkoutRef url sha).bind_free fun _ => .pure _
  | parent n =>
      exact (calls_ensureDepth url _ _).bind (n := 2 + 1) fun _ =>
        (calls_checkoutRef url _).bind fun _ => calls_headSha url

/-- The key file is no call. -/
theorem calls_prepareSshKey : Calls env cfg guard (GitSync.prepareSshKey env secrets) 0 := by
  unfold GitSync.prepareSshKey
  split
  · exact .pure _
  · refine calls_tick.bind_free ?_
    intro n
    split
    · exact .pure _
    · exact .throw _

/-- A checkout runs at most 45 git commands, however far it has to deepen. -/
theorem calls_checkout (prevSha : Option String) (target : CheckoutTarget) :
    Calls env cfg guard (GitSync.checkout env cfg secrets prevSha target) 45 := by
  refine (Brief.ofExcept _).free_bind fun url => ?_
  refine calls_prepareSshKey.free_bind fun _ => ?_
  exact (calls_fetchOrClone url target).bind (n := 43) fun _ =>
    (calls_pointAt url target).bind_free fun _ => .pure _

end

/-! ### Drift and health -/

/-- A kind is listed with a discovery and a list. -/
theorem calls_listKind (g : GvkKey) : Calls env cfg guard (Drift.listKind env cfg g) 2 := by
  refine (calls_resolve g).attempt.bind (n := 1) ?_
  intro r
  split
  · exact .pure _
  · refine (calls_listAll g _).attempt.bind_free ?_
    intro r
    split
    · exact .pure _
    · exact .pure _

/-- So kinds are listed with twice as many calls. -/
theorem calls_listKinds (gvks : List GvkKey) :
    Calls env cfg guard (Drift.listKinds env cfg gvks) (2 * gvks.length) := by
  induction gvks with
  | nil => exact .pure _
  | cons g rest ih =>
      have hround : Calls env cfg guard (Drift.listKinds env cfg (g :: rest))
          (2 + 2 * rest.length) :=
        (calls_listKind g).bind fun _ => ih.bind_free fun _ => .pure _
      exact hround.mono (by rw [List.length_cons]; omega)

/-- The lists of the kinds of some manifests. -/
theorem calls_listGvks {α : Type} {f : List GvkKey → Drift.LiveByGvk → Pass sc α}
    (ms : List RawManifest) (hf : ∀ gvks lists, Calls env cfg guard (f gvks lists) 0) :
    Calls env cfg guard (do
      let gvks ← hashGvks env (ms.map RawManifest.gvk)
      let lists ← Drift.listKinds env cfg gvks
      f gvks lists) (2 * ms.length) := by
  have hkinds : Calls env cfg guard (do
      let gvks ← hashGvks env (ms.map RawManifest.gvk)
      let lists ← Drift.listKinds env cfg gvks
      f gvks lists) (0 + 2 * ms.length) := by
    refine (calls_hashGvks _).bind_returns (returns_hashGvks_length _) fun gvks hgvks => ?_
    rw [List.length_map] at hgvks
    refine Brief.mono ?_ (Nat.mul_le_mul_left 2 hgvks)
    exact (calls_listKinds gvks).bind_free fun lists => hf gvks lists
  exact hkinds.mono (by omega)

/-- The live objects of some manifests: one listing for each of their kinds, of which there are no
more than manifests. -/
theorem calls_collectLive (ms : List RawManifest) :
    Calls env cfg guard (Drift.collectLive env cfg ms) (2 * ms.length) :=
  calls_listGvks (f := fun _ lists => pure (lists.flatMap (·.2))) ms fun _ _ => .pure _

/-- The fallback for large objects lists each of its kinds once. -/
theorem calls_largeFallback (items : List (GvkKey × List RawManifest))
    (cache : KubeUtil.DiscoveryCache) :
    Calls env cfg guard (Drift.largeFallback env cfg items cache) (2 * items.length) := by
  induction items generalizing cache with
  | nil => exact .pure _
  | cons item rest ih =>
      have hround : Calls env cfg guard (Drift.largeFallback env cfg (item :: rest) cache)
          (1 + (1 + 2 * rest.length)) := by
        refine (calls_getOrResolve cache item.1).attempt.bind ?_
        intro r
        split
        · exact (ih cache).mono (by omega)
        · refine (calls_listAll item.1 _).attempt.bind ?_
          intro r
          split
          · exact ih _
          · exact (ih _).bind_free fun _ => .pure _
      exact hround.mono (by rw [List.length_cons]; omega)

/-- A drift check from lists costs as many calls as the listing of its kinds. -/
theorem calls_detect (ms : List RawManifest) :
    Calls env cfg guard (Drift.detect env cfg ms) (2 * ms.length) :=
  calls_listGvks ms fun _ _ => (calls_hashGvks _).bind_free fun _ => .pure _

/-- Only the kinds of the manifests can fall back to a list. -/
theorem length_large_le {yaml : Yaml} {kube : KubeCrate} (ms : List RawManifest)
    (stores : CacheStores) (gvks : List GvkKey) :
    (Drift.driftFromCache yaml kube ms stores gvks).2.length ≤ gvks.length := by
  unfold Drift.driftFromCache
  refine (List.length_filter_le _ _).trans ?_
  simp

/-- A drift check from stores lists at most the kinds with a large object. -/
theorem calls_detectFromLw (ms : List RawManifest) (stores : CacheStores) :
    Calls env cfg guard (Drift.detectFromLw env cfg ms stores) (2 * ms.length) := by
  have hkinds : Calls env cfg guard (Drift.detectFromLw env cfg ms stores)
      (0 + 2 * ms.length) := by
    refine (calls_hashGvks _).bind_returns (returns_hashGvks_length _) fun gvks hgvks => ?_
    -- The large manifests are among the kinds, so the fallback adds two calls for each at most.
    have hlarge : (Drift.driftFromCache env.yaml env.kube ms stores gvks).2.length ≤
        gvks.length := length_large_le ms stores gvks
    cases hcache : Drift.driftFromCache env.yaml env.kube ms stores gvks with
    | mk drifts large =>
        rw [List.length_map] at hgvks
        rw [hcache] at hlarge
        dsimp only at hlarge ⊢
        split
        · exact .pure _
        · refine Brief.mono (k := 0 + 2 * large.length) ?_ (by omega)
          refine (calls_hashGvks _).bind_returns (returns_hashGvks_length _) ?_
          intro order horder
          rw [List.length_map] at horder
          refine Brief.mono (k := 2 * order.length) ?_ (by omega)
          refine Brief.bind_free ?_ fun _ => .pure _
          exact (calls_largeFallback _ []).mono (by rw [List.length_map])
  exact hkinds.mono (by omega)

/-- So a drift check costs at most two calls for each main manifest, in every mode. -/
theorem calls_detectDrift (main : List RawManifest) :
    Calls env cfg guard (Reconcile.detectDrift env cfg main) (2 * main.length) := by
  unfold Reconcile.detectDrift
  split
  · exact calls_tick.free_bind fun _ => calls_detectFromLw main _
  · exact calls_detect main

/-- The same of the listing for the health check, whose failure is no error. -/
theorem calls_collectLiveOrNone (main : List RawManifest) :
    Calls env cfg guard (Reconcile.collectLiveOrNone env cfg main) (2 * main.length) := by
  refine (calls_collectLive main).attempt.bind_free ?_
  intro r
  split
  · exact .pure _
  · exact .pure _

/-- The same of what the health check looks at. -/
theorem calls_collectForHealth (main : List RawManifest) :
    Calls env cfg guard (Reconcile.collectForHealth env cfg main) (2 * main.length) := by
  unfold Reconcile.collectForHealth
  split
  · exact calls_collectLiveOrNone main
  · exact .pure _

/-- The same of the health check after a drift check: it lists again only when nothing was found. -/
theorem calls_healthOf (main : List RawManifest) (live : List DynamicObject) :
    Calls env cfg guard (Reconcile.healthOf env cfg main live) (2 * main.length) := by
  unfold Reconcile.healthOf Reconcile.liveOrCollect
  split
  · refine Brief.bind_free ?_ fun _ => .pure _
    split
    · exact calls_collectLiveOrNone main
    · exact .pure _
  · exact .pure _

/-! ### Apply -/

/-- An attempt to apply is a discovery and a PATCH. -/
theorem calls_attemptApply (dryRun : Bool) (m : RawManifest) (cache : KubeUtil.DiscoveryCache) :
    Calls env cfg guard (Reconcile.attemptApply env cfg dryRun m cache) 2 := by
  refine (calls_getOrResolve cache m.gvk).attempt.bind (n := 1) ?_
  intro resolved
  split
  · exact .pure _
  · split
    · exact .throw _
    · refine (calls_note rfl).free_bind fun _ => ?_
      refine (calls_apply _ _ _ _).attempt.bind_free ?_
      intro applied
      split
      · exact .pure _
      · exact .pure _

/-- `apply_all` renews nothing between its manifests. -/
theorem calls_applyAll (dryRun : Bool) (ms : List RawManifest)
    (cache : KubeUtil.DiscoveryCache) :
    Calls env cfg guard (Reconcile.applyAll env cfg dryRun ms cache) (2 * ms.length) := by
  induction ms generalizing cache with
  | nil => exact .pure _
  | cons m rest ih =>
      have hround : Calls env cfg guard (Reconcile.applyAll env cfg dryRun (m :: rest) cache)
          (2 + 2 * rest.length) := by
        rw [Reconcile.applyAll_cons]
        exact (calls_attemptApply dryRun m cache).bind fun r =>
          (ih r.2).bind_free fun _ => .pure _
      exact hround.mono (by rw [List.length_cons]; omega)

/-! ### Prune -/

namespace Prune

/-- A kind of the safety net costs a discovery and a list, and finds no more keys than objects were
listed. -/
theorem logs_safetyNetKind (current : List ResourceKey) (cache : KubeUtil.DiscoveryCache)
    (g : GvkKey) :
    Logs (interactions env cfg guard) (safetyNetKind env cfg current cache g) fun res log =>
      (gauge.marks log = 0 ∧ gauge.total log ≤ 2) ∧
        ∀ r, res = .ok r → r.1.length ≤ listed log := by
  refine (calls_getOrResolve cache g).attempt_bind ?_
  intro resolved log hlog
  obtain ⟨hmarks, htotal⟩ := hlog
  cases resolved with
  -- Without discovery the kind costs its one call.
  | error e =>
      refine .pure ⟨by simp; omega, ?_⟩
      intro r hr
      cases hr
      exact Nat.zero_le _
  | ok cache' =>
      refine (logs_listAll g _).attempt_bind ?_
      intro live log' hlog'
      obtain ⟨⟨hmarks', htotal'⟩, hlive⟩ := hlog'
      cases live with
      -- The list failed, after one call more.
      | error e =>
          refine .pure ⟨by simp; omega, ?_⟩
          intro r hr
          cases hr
          exact Nat.zero_le _
      | ok live =>
          -- What is found among the listed objects are those without a current key.
          have hfilter := List.length_filter_le (fun k => decide (k ∉ current))
            (live.map fun o => ResourceKey.fromDynamic o g)
          have hlisted := hlive live rfl
          refine .pure ⟨by simp; omega, ?_⟩
          intro r hr
          cases hr
          simp only [listed_append, List.length_map] at hfilter ⊢
          omega

/-- The safety net makes two calls for each kind, and finds only objects that it listed. -/
theorem logs_safetyNet (current : List ResourceKey) (gvks : List GvkKey)
    (cache : KubeUtil.DiscoveryCache) :
    Logs (interactions env cfg guard) (safetyNet env cfg current gvks cache) fun res log =>
      (gauge.marks log = 0 ∧ gauge.total log ≤ 2 * gvks.length) ∧
        ∀ r, res = .ok r → r.1.length ≤ listed log := by
  induction gvks generalizing cache with
  | nil =>
      refine .pure ⟨⟨rfl, Nat.le_refl 0⟩, ?_⟩
      intro r hr
      cases hr
      exact Nat.zero_le _
  | cons g rest ih =>
      refine (logs_safetyNetKind current cache g).bind ?_ ?_
      · intro e log hlog
        exact ⟨⟨hlog.1.1, hlog.1.2.trans (by rw [List.length_cons]; omega)⟩, by simp⟩
      · intro found log hlog
        refine (ih found.2).bind ?_ ?_
        · intro e log' hlog'
          refine ⟨?_, by simp⟩
          simp only [Gauge.marks_append, Gauge.total_append, List.length_cons]
          omega
        · intro more log' hlog'
          have hfound := hlog.2 found rfl
          have hmore := hlog'.2 more rfl
          refine .pure ⟨?_, ?_⟩
          · simp only [List.append_nil, Gauge.marks_append, Gauge.total_append, List.length_cons]
            omega
          · intro r hr
            cases hr
            simp only [List.append_nil, listed_append, List.length_append]
            omega

/-- A deletion costs a discovery, a GET and a DELETE. -/
theorem calls_deleteKey (cache : KubeUtil.DiscoveryCache) (key : ResourceKey) :
    Calls env cfg guard (deleteKey env cfg cache key) 3 := by
  refine (calls_getOrResolve cache key.gvk).attempt.bind (n := 2) ?_
  intro resolved
  split
  · exact .pure _
  · refine (calls_getObject _ _ _ _).attempt.bind (n := 1) ?_
    intro seen
    split
    · exact .pure _
    · exact .pure _
    · split
      · exact .pure _
      · refine (calls_delete _ _ _ _).attempt.bind_free ?_
        intro gone
        split
        · exact .pure _
        · exact .pure _

/-- So keys are deleted with three times as many calls. -/
theorem calls_deleteKeys (keys : List ResourceKey) (cache : KubeUtil.DiscoveryCache) :
    Calls env cfg guard (deleteKeys env cfg keys cache) (3 * keys.length) := by
  induction keys generalizing cache with
  | nil => exact .pure _
  | cons key rest ih =>
      have hround : Calls env cfg guard (deleteKeys env cfg (key :: rest) cache)
          (3 + 3 * rest.length) :=
        (calls_deleteKey cache key).bind fun r => (ih r.2).bind_free fun _ => .pure _
      exact hround.mono (by rw [List.length_cons]; omega)

/-- The candidates are at most the applied keys and what the safety net found. -/
theorem calls_deleteTargets (prev current orphans : List ResourceKey)
    (cache : KubeUtil.DiscoveryCache) :
    Calls env cfg guard (do
      let targets ← hashKeys env (deletionTargets prev current ++ orphans)
      deleteKeys env cfg targets cache) (3 * (prev.length + orphans.length)) := by
  have htargets : (deletionTargets prev current).length ≤ prev.length :=
    List.length_filter_le _ _
  have hall : Calls env cfg guard (do
      let targets ← hashKeys env (deletionTargets prev current ++ orphans)
      deleteKeys env cfg targets cache) (0 + 3 * (prev.length + orphans.length)) := by
    refine (calls_hashKeys _).bind_returns (returns_hashKeys_length _) fun targets hle => ?_
    rw [List.length_append] at hle
    exact (calls_deleteKeys targets cache).mono (by omega)
  exact hall.mono (by omega)

/-- `prune` renews nothing either. It handles the applied keys, and what its safety net
lists. -/
theorem logs_prune (prev current : List ResourceKey) :
    Logs (interactions env cfg guard) (prune env cfg prev current) fun _ log =>
      gauge.marks log = 0 ∧ gauge.total log ≤ 5 * prev.length + 3 * listed log := by
  refine ((calls_hashGvks _).returns (returns_hashGvks_length _)).bind ?_ ?_
  · intro e log hlog
    exact ⟨hlog.2.1, by omega⟩
  · intro gvks log hlog
    have hgvks := hlog.1 gvks rfl
    rw [List.length_map] at hgvks
    refine (logs_safetyNet current gvks []).bind ?_ ?_
    · intro e log' hlog'
      simp only [Gauge.marks_append, Gauge.total_append]
      omega
    · intro found log' hlog'
      -- Each deletion costs three calls and each earlier key five, with the safety net's own.
      have hfound := hlog'.2 found rfl
      refine Logs.mono (calls_deleteTargets prev current found.1 found.2) ?_
      intro res log'' hlog''
      simp only [Gauge.marks_append, Gauge.total_append, listed_append]
      omega

end Prune

end LeanCd
