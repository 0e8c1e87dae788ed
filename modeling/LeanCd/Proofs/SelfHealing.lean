import LeanCd.Proofs.DriftReads
import LeanCd.Proofs.Orphans

/-!
# `LeanCd.Proofs.SelfHealing`: the pass after a failed apply

A pass records the manifests it could not apply, and advances the last commit all the
same. The retry is left to the drift check of the next pass: only when it reports some
manifest are the manifests applied again. The new state has the failures of the new pass
alone, so a failure that the drift check does not see is forgotten.

`noticed` is what the drift check reports, read off the answers of the API server and the
stores: some manifest has no live object to compare with, or one that differs as
`specs_differ` sees it. For a manifest that declares a `spec` that is the `spec` alone.
`healed_iff` says when a recorded failure is retried, or recorded again where it cannot be,
or is none any more, and `relabel_forgotten` is a refused change of a label that is
forgotten.

The pass is compared with the one before it through three facts: what was sent (`SentAgain`), what
was tried (`Tried`), and which failures the new state has. `AfterFailure` is the situation, a pass
that follows one which recorded a failure, and the result is an equivalence over all such
situations.
-/

set_option autoImplicit false

namespace LeanCd

open Act

variable {sc : Scopes} {env : Env sc} {cfg : Config}

namespace Drift

/-! ### What the drift check looks at -/

/-- What a store holds of a manifest: nothing, an object, or the key of a large one. -/
def inStore (stores : CacheStores) (m : RawManifest) : Option (Option DynamicObject) :=
  match stores.lookup m.gvk with
  | some (.ready s) =>
      match s.tierOf (m.name, m.ns) with
      | .small => some (s.smallGet (m.name, m.ns))
      | .large => none
      | .absent => some none
  | _ => some none

/-- The object the manifest is compared with in lists, if there is one. -/
def inLists (lists : LiveByGvk) (m : RawManifest) : Option DynamicObject :=
  findLiveMatch m ((lists.lookup m.gvk).getD [])

/-- What the manifest is compared with by the drift check of a pass in the world `w`, if it
is compared: a large manifest is not, when the list of its kind fails. -/
def looked (env : Env sc) (cfg : Config) (main : List RawManifest) (w : World sc)
    (m : RawManifest) : Option (Option DynamicObject) :=
  if cfg.watchMode = .cache then
    let stores := env.cacheStores w.step
    match inStore stores m with
    | some found => some found
    | none =>
        let lists := listAnswers env cfg (fallbackKinds env main stores (w.step + 1))
          (((w.ticked env).ticked env).ticked env)
        (lists.lookup m.gvk).map (findLiveMatch m)
  else
    let kinds := (env.gvkOrder w.step).run (main.map RawManifest.gvk).dedup
    some (inLists (listAnswers env cfg kinds (w.ticked env)) m)

/-- The manifest has no object, or one that differs. -/
def differsFrom (env : Env sc) (m : RawManifest) (found : Option DynamicObject) : Bool :=
  found.all fun o => specsDiffer (manifestValue env.yaml m) (env.kube.toValue o)

/-- The drift check of a pass in the world `w` has something to report. -/
def noticed (env : Env sc) (cfg : Config) (main : List RawManifest) (w : World sc) : Bool :=
  main.any fun m => (looked env cfg main w m).any (differsFrom env m)

/-! ### What it reports -/

/-- A manifest is reported when it differs from what was found for it. Without an object it does. -/
theorem driftAgainst_isSome (m : RawManifest) (found : Option DynamicObject) :
    (driftAgainst env.yaml env.kube m found).isSome = differsFrom env m found := by
  unfold driftAgainst differsFrom
  cases found with
  | none => rfl
  | some o =>
      dsimp only
      split
      next h => exact h.symm
      next h => exact (eq_false_of_ne_true h).symm

/-- A report is empty when every comparison in it is. -/
theorem isEmpty_filterMap {α β : Type} (f : α → Option β) (l : List α) :
    (l.filterMap f).isEmpty = !l.any fun a => (f a).isSome := by
  induction l with
  | nil => rfl
  | cons a l ih =>
      rw [List.filterMap_cons, List.any_cons]
      cases f a with
      | none => exact ih
      | some b => rfl

/-- A check against lists reports nothing when no manifest differs from what the lists hold. -/
theorem isEmpty_computeDrifts (manifests : List RawManifest) (lists : LiveByGvk) :
    (computeDrifts env.yaml env.kube manifests lists).isEmpty =
      !manifests.any fun m => differsFrom env m (inLists lists m) := by
  rw [computeDrifts, isEmpty_filterMap]
  simp only [driftAgainst_isSome]
  rfl

/-- What a store says of a manifest, by what it holds of it. -/
theorem storeVerdict_isSome (stores : CacheStores) (m : RawManifest) :
    (storeVerdict env.yaml env.kube (stores.lookup m.gvk) m).isSome =
      (inStore stores m).any (differsFrom env m) := by
  unfold storeVerdict inStore
  rcases stores.lookup m.gvk with _ | _ | s
  · rfl
  · rfl
  · dsimp only
    unfold cacheVerdict
    cases s.tierOf (m.name, m.ns) with
    | small => exact driftAgainst_isSome m _
    | large => rfl
    | absent => rfl

/-- A store has nothing to compare a manifest with exactly when it knows the object by its key only.
-/
theorem inStore_eq_none {stores : CacheStores} {m : RawManifest} :
    inStore stores m = none ↔ LargeIn stores m := by
  unfold inStore LargeIn
  rcases stores.lookup m.gvk with _ | _ | s
  · simp
  · simp
  · dsimp only
    cases htier : s.tierOf (m.name, m.ns) with
    | small => simp [htier]
    | large => simp [htier]
    | absent => simp [htier]

/-- The fallback reports nothing when no large manifest differs in a list that was read. -/
theorem fallbackDrifts_eq_nil {manifests : List RawManifest} {stores : CacheStores} {n : Nat}
    {lists : LiveByGvk} :
    fallbackDrifts env.yaml env.kube (fallbackItems (fromStores env manifests stores n).2
        (fallbackKinds env manifests stores n)) lists = [] ↔
      ∀ m ∈ manifests, LargeIn stores m →
        ((lists.lookup m.gvk).map (findLiveMatch m)).any (differsFrom env m) = false := by
  rw [fallbackDrifts, List.flatMap_eq_nil_iff]
  constructor
  · intro h m hm hlarge
    -- The kinds of the large manifests are those that are listed.
    have hkind : m.gvk ∈ fallbackKinds env manifests stores n :=
      mem_fallbackKinds.mpr ⟨m, hm, rfl, hlarge⟩
    have hitem := List.mem_map_of_mem
      (f := fun g => (g, ((fromStores env manifests stores n).2.lookup g).getD [])) hkind
    have hnil := h _ hitem
    cases hlook : lists.lookup m.gvk with
    -- Without a list the fallback says nothing, and nothing was seen to differ.
    | none => rfl
    | some live =>
        dsimp only at hnil
        rw [hlook] at hnil
        have hsame := List.filterMap_eq_nil_iff.mp hnil m
          ((mem_fallbackItems hitem).mpr ⟨hm, rfl, hlarge⟩)
        show differsFrom env m (findLiveMatch m live) = false
        rw [← driftAgainst_isSome, hsame]
        rfl
  · intro h item hitem
    cases hlook : lists.lookup item.1 with
    | none => rfl
    | some live =>
        -- The items of a kind are its large manifests.
        refine List.filterMap_eq_nil_iff.mpr ?_
        intro m hm
        obtain ⟨hm, hg, hlarge⟩ := (mem_fallbackItems hitem).mp hm
        have hsame := h m hm hlarge
        rw [hg, hlook] at hsame
        have hsame : differsFrom env m (findLiveMatch m live) = false := hsame
        rwa [← driftAgainst_isSome, Option.isSome_eq_false_iff, Option.isNone_iff_eq_none]
          at hsame

/-- A check against stores reports nothing of its own when no manifest differs from what the stores
hold. -/
theorem fromStores_eq_nil {manifests : List RawManifest} {stores : CacheStores} {n : Nat} :
    (fromStores env manifests stores n).1 = [] ↔
      ∀ m ∈ manifests, (inStore stores m).any (differsFrom env m) = false := by
  simp only [List.eq_nil_iff_forall_not_mem, mem_fromStores, ← storeVerdict_isSome,
    Option.isSome_eq_false_iff, Option.isNone_iff_eq_none, Option.eq_none_iff_forall_ne_some]
  constructor
  · exact fun h m hm d hd => h d ⟨m, hm, hd⟩
  · rintro h d ⟨m, hm, hd⟩
    exact h m hm d hd

/-- The drift check reports something exactly when it notices something. -/
theorem after_detectDrift_noticed (main : List RawManifest) (w : World sc) :
    After (Reconcile.detectDrift env cfg main) w fun res _ =>
      ∃ drifts live, res = .ok (drifts, live) ∧ drifts.isEmpty = !noticed env cfg main w := by
  rw [Reconcile.detectDrift, after_ite]
  split
  next hmode =>
    rw [after_bind, after_tick]
    dsimp only
    obtain ⟨d, t, u, -, hrun, hd, hlists⟩ := @detectFromLwReading_run _ env cfg main
      (env.cacheStores w.step) (w.ticked env)
    -- The fallback's lists are the answers of the round that follows the read of the stores.
    have hanswers : d.lists = listAnswers env cfg
        (fallbackKinds env main (env.cacheStores w.step) (w.step + 1))
        (((w.ticked env).ticked env).ticked env) := by
      have hafter := @after_fallbackLists_answers _ env cfg _
        (@nodup_fallbackKinds _ env main (env.cacheStores w.step) (w.step + 1)) []
        (fun _ _ => List.not_mem_nil) (((w.ticked env).ticked env).ticked env)
      exact Except.ok.inj ((after_of_ok hlists).mp hafter)
    rw [after_of_ok hrun]
    refine ⟨_, _, rfl, ?_⟩
    -- Both sides ask the same of every manifest, by the tier it has.
    rw [Bool.eq_iff_iff, List.isEmpty_iff, hd, List.append_eq_nil_iff, fromStores_eq_nil,
      fallbackDrifts_eq_nil, Bool.not_eq_true', noticed, List.any_eq_false]
    simp only [Bool.not_eq_true, looked, if_pos hmode, ← forall_and]
    refine forall_congr' ?_
    intro m
    refine imp_congr_right fun _ => ?_
    rw [← hanswers, ← inStore_eq_none]
    cases inStore (env.cacheStores w.step) m with
    | some found => simp
    | none => simp
  -- Without the stores the round of lists is all there is.
  next hmode =>
    refine (after_detect_answers main w).mono ?_
    rintro _ t ⟨live, rfl⟩
    refine ⟨_, _, rfl, ?_⟩
    rw [isEmpty_computeDrifts, noticed]
    simp only [looked, if_neg hmode]
    rfl

end Drift

namespace Reconcile

open Drift

/-! ### Sent again, or recorded again -/

/-- The process has only added to the history. -/
def grows : Frame (World sc) := adds fun _ => True

/-- The process has started no apply. -/
def unsent : Frame (World sc) := adds fun e => ∀ k, e ≠ .applyStarted k

/-- An apply of the manifest was started between the worlds. -/
def SentAgain (w t : World sc) (m : RawManifest) : Prop :=
  ∃ new, t.trace = new ++ w.trace ∧ .applyStarted (.fromManifest m) ∈ new

/-- That a manifest was sent again is not undone. -/
theorem SentAgain.after {w t u : World sc} {m : RawManifest} (h : SentAgain w t m)
    (hu : grows.rel t u) : SentAgain w u m := by
  obtain ⟨new, ht, hmem⟩ := h
  obtain ⟨later, hu, -⟩ := hu
  refine ⟨later ++ new, ?_, List.mem_append_right _ hmem⟩
  rw [hu, ht, List.append_assoc]

/-- Nor is it undone when something happened before. -/
theorem SentAgain.before {w t u : World sc} {m : RawManifest} (hw : grows.rel w t)
    (h : SentAgain t u m) : SentAgain w u m := by
  obtain ⟨earlier, ht, -⟩ := hw
  obtain ⟨new, hu, hmem⟩ := h
  refine ⟨new ++ earlier, ?_, List.mem_append_left _ hmem⟩
  rw [hu, ht, List.append_assoc]

/-- Where nothing was sent, nothing was sent again. -/
theorem not_sentAgain {w t : World sc} {m : RawManifest} (h : unsent.rel w t) :
    ¬ SentAgain w t m := by
  obtain ⟨new, ht, hnew⟩ := h
  rintro ⟨new', ht', hmem⟩
  rw [List.append_cancel_right (ht'.symm.trans ht)] at hmem
  exact hnew _ hmem _ rfl

/-- The manifest is an object with a name, so `apply` sends it. -/
def Decodes (env : Env sc) (cfg : Config) (m : RawManifest) : Prop := ∃ o id, Sends env cfg m o id

/-- What can keep a manifest from being sent: its kind is not discovered at some
interaction, or it is no object with a name. -/
def Unsendable (env : Env sc) (cfg : Config) (m : RawManifest) : Prop :=
  (∃ n, env.fault n (.discover m.gvk) ≠ .none) ∨ ¬ Decodes env cfg m

/-- The manifest was sent, or it could not be and is recorded as failed. -/
def Tried (env : Env sc) (cfg : Config) (w t : World sc) (failed : List ResourceKey)
    (m : RawManifest) : Prop :=
  (SentAgain w t m ∧ Decodes env cfg m) ∨ (.fromManifest m ∈ failed ∧ Unsendable env cfg m)

/-- A manifest that was tried is tried in a longer run as well. -/
theorem Tried.imp_sent {w t w' t' : World sc} {failed : List ResourceKey} {m : RawManifest}
    (h : Tried env cfg w t failed m) (hsent : SentAgain w t m → SentAgain w' t' m) :
    Tried env cfg w' t' failed m := h.imp_left fun h => ⟨hsent h.1, h.2⟩

/-- A kind that is not resolved was not discovered. -/
theorem after_getOrResolve_fault (cache : KubeUtil.DiscoveryCache) (g : GvkKey) (w : World sc) :
    After (KubeUtil.getOrResolve env cache g) w fun res _ =>
      ∀ e, res = .error e → env.fault w.step (.discover g) ≠ .none := by
  intro e he hfault
  revert he
  show After (KubeUtil.getOrResolve env cache g) w fun res _ => res = .error e → False
  rw [KubeUtil.getOrResolve, after_ite]
  split
  · simp
  · simp [KubeUtil.resolve, after_call, hfault]

/-- An apply that succeeds has sent the manifest. -/
theorem after_apply_decodes {m : RawManifest} {value : Value}
    (hvalue : Hooks.labelledValue env cfg m = .ok value) (w : World sc) :
    After (KubeUtil.apply env cfg.namespace m.gvk value false) w fun res _ =>
      ∀ o, res = .ok o → Decodes env cfg m := by
  unfold KubeUtil.apply
  cases hdecoded : env.kube.fromValue value with
  | error e => simp
  | ok o =>
      dsimp only
      cases hname : o.metadata.name with
      | none => simp
      | some name =>
          exact .of_forall fun _ _ _ _ => ⟨o, _, value, name, hvalue, hdecoded, hname, rfl⟩

/-- What was sent only grows with interactions. -/
theorem benign_grows : Benign env (grows : Frame (World sc)) := benign_adds

/-- It grows with the applies. -/
theorem allowsApply_grows (ms : List RawManifest) : AllowsApply env cfg grows false ms :=
  allowsApply_adds (fun _ _ => trivial) fun _ _ _ _ _ => trivial

/-- A round that completes has tried its manifest. -/
theorem after_attemptApply_tried (m : RawManifest) (cache : KubeUtil.DiscoveryCache)
    (w : World sc) :
    After (attemptApply env cfg false m cache) w fun res t => ∀ r, res = .ok r →
      (SentAgain w t m ∧ Decodes env cfg m) ∨ (r.1 = true ∧ Unsendable env cfg m) := by
  have hB : Benign env (grows : Frame (World sc)) := benign_grows
  rw [attemptApply, after_bind, after_attempt]
  refine (((keeps_getOrResolve hB.toInteracts cache m.gvk).after w).and
    (after_getOrResolve_fault cache m.gvk w)).mono ?_
  rintro res t ⟨ht, hfault⟩
  -- The kind was not resolved, so nothing was sent.
  cases res with
  | error e =>
      intro r hr
      cases hr
      exact .inr ⟨rfl, .inl ⟨_, hfault e rfl⟩⟩
  | ok cache' =>
      dsimp only
      cases hvalue : Hooks.labelledValue env cfg m with
      | error e => simp
      | ok value =>
          dsimp only
          rw [after_bind, note, after_modify]
          dsimp only
          rw [after_bind, after_attempt]
          -- The attempt is in the trace before the patch is.
          have hstarted : SentAgain w
              { t with trace := .applyStarted (.fromManifest m) :: t.trace } m :=
            SentAgain.before ht ⟨[_], rfl, List.mem_cons_self⟩
          have happly := hB.apply hvalue ((allowsApply_grows [m]).patch m List.mem_cons_self)
          refine ((happly.after _).and (after_apply_decodes hvalue _)).mono ?_
          rintro res u ⟨hu, hdecodes⟩
          -- The patch failed, after it was sent or because the body does not decode.
          cases res with
          | error e =>
              intro r hr
              cases hr
              by_cases hsends : Decodes env cfg m
              · exact .inl ⟨hstarted.after hu, hsends⟩
              · exact .inr ⟨rfl, .inr hsends⟩
          | ok o =>
              intro r hr
              exact .inl ⟨hstarted.after hu, hdecodes o rfl⟩

/-- An `apply_all` that completes has tried every manifest. -/
theorem after_applyAll_tried (ms : List RawManifest) (cache : KubeUtil.DiscoveryCache)
    (w : World sc) :
    After (applyAll env cfg false ms cache) w fun res t =>
      ∀ failed, res = .ok failed → ∀ m ∈ ms, Tried env cfg w t failed m := by
  have hB : Benign env (grows : Frame (World sc)) := benign_grows
  induction ms generalizing cache w with
  | nil =>
      intro failed _ m hm
      cases hm
  | cons m rest ih =>
      rw [applyAll_cons]
      refine After.bind_ok (by simp) ?_
      refine (((hB.attemptApply (allowsApply_grows [m]) cache).after w).and
        (after_attemptApply_tried m cache w)).mono ?_
      rintro res t ⟨ht, htried⟩ r hr
      refine After.bind_ok (by simp) ?_
      refine (((hB.applyAll (allowsApply_grows rest) r.2).after t).and (ih r.2 t)).mono ?_
      rintro res u ⟨hu, hrest⟩ failed hok all hall m' hm'
      cases hall
      -- The first manifest was tried here. The rest keeps what it found.
      rcases List.mem_cons.mp hm' with rfl | hm'
      · rcases htried r hr with ⟨hsent, hdecodes⟩ | ⟨hfailed, hunsendable⟩
        · exact .inl ⟨hsent.after hu, hdecodes⟩
        · exact .inr ⟨by simp [hfailed], hunsendable⟩
      -- The list of failures only grows.
      · have hmore : failed ⊆ if r.1 then .fromManifest m :: failed else failed := by
          cases r.1 <;> simp
        have hthen := (hrest failed hok m' hm').imp_sent fun h => h.before ht
        exact hthen.imp_right fun h => ⟨hmore h.1, h.2⟩

/-! ### The branches -/

section
variable (guard : LeaseGuard) (c : Classified)

/-- It grows with hooks too. -/
theorem allowsHooks_grows (hooks : List HookInfo) : AllowsHooks env cfg grows hooks :=
  allowsHooks_adds (fun _ => trivial) (fun _ _ _ _ _ => trivial) fun _ => trivial

/-- A branch that applies has tried every main manifest when it completes. -/
theorem after_applied (label : String) (hooks : List HookInfo)
    {rest : List ResourceKey → Pass sc BranchOutcome} (hrest : ∀ failed, Keeps grows (rest failed))
    (hreturns : ∀ failed, Returns (rest failed) fun o => o.applyFailures = failed)
    (w : World sc) :
    After (preHooks env cfg guard label hooks >>= fun _ =>
        applyAll env cfg false c.main [] >>= rest) w fun res t =>
      ∀ outcome, res = .ok outcome → ∀ m ∈ c.main, Tried env cfg w t outcome.applyFailures m := by
  have hB : Benign env (grows : Frame (World sc)) := benign_adds
  refine After.bind_ok (by simp) ?_
  refine ((hB.preHooks (allowsHooks_grows hooks) guard label).after w).mono ?_
  intro _ t ht _ _
  refine After.bind_ok (by simp) ?_
  refine (after_applyAll_tried c.main [] t).mono ?_
  intro res u hu failed hfailed
  refine (((hrest failed).after u).and ((hreturns failed).after u)).mono ?_
  rintro res v ⟨hv, hfailures⟩ outcome hok m hm
  rw [hfailures outcome hok]
  exact (hu failed hfailed m hm).imp_sent fun h => (h.before ht).after hv

/-- Without a prior state, after a change, or where the drift check notices something, the
main manifests are tried. -/
theorem after_syncBranch_tried (prev : Option State) (sync : SyncOutcome) (w : World sc)
    (h : shouldFullApply prev.isSome sync.changed = true ∨ noticed env cfg c.main w = true) :
    After (syncBranch env cfg guard prev sync c) w fun res t =>
      ∀ outcome, res = .ok outcome → ∀ m ∈ c.main, Tried env cfg w t outcome.applyFailures m := by
  have hB : Benign env (grows : Frame (World sc)) := benign_adds
  rw [syncBranch, after_ite]
  split
  -- A full apply tries everything.
  · refine after_applied guard c _ _ (fun failed => ?_) (fun failed => ?_) w
    · exact (hB.collectForHealth c.main).bind fun _ =>
        (hB.postHooks (allowsHooks_grows _) guard _).bind fun _ => Keeps.pure _
    · exact (Returns.any _).bind fun _ _ => (Returns.any _).bind fun _ _ => .pure rfl
  -- Without a full apply it was the detection that has found something.
  next hfull =>
    have hnoticed := h.resolve_left hfull
    rw [driftBranch, after_bind]
    refine (((hB.detectDrift c.main).after w).and (after_detectDrift_noticed c.main w)).mono ?_
    rintro _ t ⟨ht, drifts, live, rfl, hempty⟩
    rw [hnoticed] at hempty
    dsimp only
    rw [hempty, if_neg (by decide)]
    refine (after_applied guard c _ _ (fun failed => ?_) (fun failed => ?_) t).mono ?_
    · exact (hB.postHooks (allowsHooks_grows _) guard _).bind fun _ => Keeps.pure _
    · exact (Returns.any _).bind fun _ _ => .pure rfl
    · exact fun res u hu outcome hok m hm => (hu outcome hok m hm).imp_sent fun h => h.before ht

/-- Where the drift check notices nothing, nothing is applied and no failure is recorded. -/
theorem after_syncBranch_unsent (prev : Option State) (sync : SyncOutcome) (w : World sc)
    (hfull : shouldFullApply prev.isSome sync.changed = false)
    (hnoticed : noticed env cfg c.main w = false) :
    After (syncBranch env cfg guard prev sync c) w fun res t =>
      ∀ outcome, res = .ok outcome → outcome.applyFailures = [] ∧ unsent.rel w t := by
  have hB : Benign env (unsent : Frame (World sc)) := benign_adds
  rw [syncBranch, hfull, if_neg (by decide), driftBranch, after_bind]
  refine (((hB.detectDrift c.main).after w).and (after_detectDrift_noticed c.main w)).mono ?_
  rintro _ t ⟨ht, drifts, live, rfl, hempty⟩
  rw [hnoticed] at hempty
  dsimp only
  rw [hempty, if_pos (by decide), after_pure]
  rintro outcome hok
  cases hok
  exact ⟨rfl, ht⟩

/-- A branch with main manifests is the sync branch and the prune. -/
theorem after_branch_sync {m : RawManifest} (hm : m ∈ c.main) (prev : Option State)
    (sync : SyncOutcome) {w : World sc} {Q : BranchOutcome → World sc → Prop}
    (h : After (syncBranch env cfg guard prev sync c) w fun res t =>
      ∀ outcome, res = .ok outcome → ∀ u, unsent.rel t u → Q outcome u) :
    After (branch env cfg guard prev sync c) w fun res t =>
      ∀ outcome, res = .ok outcome → Q outcome t := by
  have hsync : isTeardown c (prevApplied prev) = false := by
    rw [isTeardown, List.isEmpty_eq_false_iff_exists_mem.mpr ⟨m, hm⟩]
    rfl
  have hprune : Keeps unsent
      (Prune.prune env cfg (prevApplied prev) (ResourceKey.keysOf c.main)) :=
    Prune.keeps_prune interacts_adds (keeps_serveDelete_adds (by simp)) _ _
  rw [branch, hsync, if_neg (by decide)]
  refine After.bind_ok (by simp) (h.mono fun res t ht outcome hok => ?_)
  refine After.bind_ok (by simp) ((hprune.after t).mono fun res u hu deleted _ => ?_)
  rintro outcome' hsame
  cases hsame
  exact ht outcome hok u hu

end

/-! ### The pass -/

/-- What a pass that completes has persisted: the new state, with the failures of its
branch. Nothing is applied after the branch. -/
theorem after_execute_stored (guard : LeaseGuard) (prev : Option State) (sync : SyncOutcome)
    (c : Classified) {w : World sc} {Q : World sc → Prop}
    (h : After (branch env cfg guard prev sync c) w fun res t =>
      ∀ outcome, res = .ok outcome → ∀ u health epoch, unsent.rel t u →
        u.stored = some (newState prev sync c outcome health epoch) → Q u) :
    After (execute env cfg guard prev sync c) w fun res t => res = .ok () → Q t := by
  have hB : Benign env (unsent : Frame (World sc)) := benign_adds
  refine hB.after_execute_ok (fun _ _ _ => hB.stateWrite fun w => adds_cons rfl fun _ => nofun)
    (fun _ _ => adds_of_untouched rfl) ?_
  refine h.mono ?_
  intro res t ht outcome hok u health epoch hu hwritten
  exact ht outcome hok u health epoch hu (World.stored_of_stateCm hwritten)

/-- The recorded failures. -/
def failuresOf (w : World sc) : List ResourceKey := (w.stored.map (·.applyFailures)).getD []

/-- The live object has every field the manifest declares, up to zero values the server
leaves out and the `stringData` of a Secret. -/
def carries (env : Env sc) (cfg : Config) (c : Cluster sc) (m : RawManifest) : Bool :=
  (c.lookup (m.ident sc cfg)).any fun live =>
    specSubset (removeTopLevelKeys (manifestValue env.yaml m) ["apiVersion", "kind", "stringData"])
      (removeTopLevelKeys (env.kube.toValue (serve (m.ident sc cfg) live))
        ["apiVersion", "kind", "stringData"])

/-- A pass that reads a state in which a main manifest of its commit is recorded as failed,
and finds that HEAD has not moved. -/
structure AfterFailure (env : Env sc) (r : Reconciler) (w : World sc) (m : RawManifest)
    extends Started env r w where
  prior : State
  prior_read : prev = some prior
  failed : .fromManifest m ∈ prior.applyFailures
  head : prior.lastSha = some sync.sha
  c : Classified
  parsed : desired env sync.sha r.cfg (prevApplied prev) = .ok c
  main : m ∈ c.main

/-- The pass sends the manifest again, or records again one that it cannot send, unless the
live object has what the manifest declares. -/
def Healed (env : Env sc) (r : Reconciler) {w : World sc} {m : RawManifest}
    (x : AfterFailure env r w m) (t : World sc) : Prop :=
  (SentAgain w t m ∧ Decodes env r.cfg m) ∨
    (.fromManifest m ∈ failuresOf t ∧ Unsendable env r.cfg m) ∨
      carries env r.cfg x.start.cluster m = true

/-- A pass at the commit of the prior state finds no change, unless its target is forced or
the commit has no name. -/
theorem AfterFailure.changed_iff {r : Reconciler} {w : World sc} {m : RawManifest}
    (x : AfterFailure env r w m) :
    x.sync.changed = true ↔ r.forceTarget.isSome = true ∨ x.sync.sha = "" := by
  have hsome : x.prev.bind (·.lastSha) = some x.sync.sha := by rw [x.prior_read]; exact x.head
  rw [x.changed_eq, decide_eq_true_eq, prevShaRef, hsome]
  by_cases hforced : r.forceTarget.isSome = true
  · simp [hforced]
  · simp [hforced]

/-- Where nothing was sent, what was sent did not shrink. -/
theorem grows_of_unsent {w t : World sc} (h : unsent.rel w t) : grows.rel w t :=
  adds_mono (fun _ _ => trivial) h

/-- Steps that do not write the state leave the recorded failures alone. -/
theorem Uneventful.failuresOf_eq {w t : World sc} (h : Uneventful env w t) :
    failuresOf t = failuresOf w := by
  rw [failuresOf, World.stored, h.stateCm]
  rfl

section
variable {r : Reconciler} (hdry : r.cfg.dryRun = false) {w : World sc} {m : RawManifest}
  (x : AfterFailure env r w m)
include hdry

/-- A pass that completes ends with the failures of its branch, and sends nothing after it. -/
theorem AfterFailure.after_outcome {Q : World sc → Prop}
    (hQ : ∀ t now, Q t → Q { t.ticked env with lastSuccess := now })
    (h : After (syncBranch env r.cfg x.guard x.prev x.sync x.c) x.start fun res t =>
      ∀ outcome, res = .ok outcome → ∀ u, unsent.rel t u →
        failuresOf u = outcome.applyFailures → Q u) :
    After (runOnce env r) w fun res t => res = .ok () → Q t := by
  refine x.toStarted.after_runOnce_ok hdry hQ ?_
  intro c hc
  -- The commit and the set are those the statement names.
  cases hc.symm.trans x.parsed
  refine after_execute_stored x.guard x.prev x.sync x.c ?_
  refine after_branch_sync x.guard x.c x.main x.prev x.sync (Q := fun outcome t =>
    ∀ u health epoch, unsent.rel t u →
      u.stored = some (newState x.prev x.sync x.c outcome health epoch) →
        ∀ v, Uneventful env u v → Q v) ?_
  refine h.mono ?_
  intro res t ht outcome hok t' htt' u health epoch htu hstored v huv
  -- What follows the branch sends nothing more, and the stored failures are the branch's.
  refine ht outcome hok v (unsent.trans htt' (unsent.trans htu (huv _ benign_adds))) ?_
  rw [huv.failuresOf_eq, failuresOf, hstored]
  rfl

/-- A pass that applies, and completes, has tried the manifest. -/
theorem AfterFailure.after_tried
    (h : shouldFullApply x.prev.isSome x.sync.changed = true ∨
      noticed env r.cfg x.c.main x.start = true) :
    After (runOnce env r) w fun res t => res = .ok () →
      Tried env r.cfg w t (failuresOf t) m := by
  have hstart : Uneventful env w x.start := fun F hF => x.rel hF
  refine x.after_outcome hdry (fun _ _ ht => ht) ?_
  refine (after_syncBranch_tried x.guard x.c x.prev x.sync x.start h).mono ?_
  intro res t ht outcome hok u htu hfailures
  rw [hfailures]
  refine (ht outcome hok m x.main).imp_sent ?_
  intro hsent
  exact (hsent.before (hstart _ benign_adds)).after (grows_of_unsent htu)

/-- A pass that does not apply, and completes, has sent nothing and records nothing. -/
theorem AfterFailure.after_dropped
    (hfull : shouldFullApply x.prev.isSome x.sync.changed = false)
    (hnoticed : noticed env r.cfg x.c.main x.start = false) :
    After (runOnce env r) w fun res t => res = .ok () → unsent.rel w t ∧ failuresOf t = [] := by
  have hstart : Uneventful env w x.start := fun F hF => x.rel hF
  refine x.after_outcome hdry (fun _ _ ht => ht) ?_
  refine (after_syncBranch_unsent x.guard x.c x.prev x.sync x.start hfull hnoticed).mono ?_
  intro res t ht outcome hok u htu hfailures
  obtain ⟨hnone, hsent⟩ := ht outcome hok
  constructor
  · exact unsent.trans (hstart _ benign_adds) (unsent.trans hsent htu)
  · rw [hfailures]
    exact hnone

/-- The pass after a failed apply heals it or finds it healed exactly when it applies
everything, when the drift check notices something, or when the live object has what the
manifest declares. -/
theorem healed_iff {t : World sc} (hrun : runOnce env r w = .ok () t) :
    Healed env r x t ↔ (r.forceTarget.isSome = true ∨ x.sync.sha = "") ∨
      noticed env r.cfg x.c.main x.start = true ∨
        carries env r.cfg x.start.cluster m = true := by
  -- The state of before is there, so the branch is chosen by the checkout alone.
  have hprev : shouldFullApply x.prev.isSome x.sync.changed = x.sync.changed := by
    rw [x.prior_read]
    rfl
  rw [← x.changed_iff]
  -- The branch applies: either it was sent again, or the failure is recorded again.
  by_cases happly : x.sync.changed = true ∨ noticed env r.cfg x.c.main x.start = true
  · have htried := (x.after_tried hdry (hprev.symm ▸ happly)).of_run hrun rfl
    refine iff_of_true ?_ (happly.imp_right Or.inl)
    rcases htried with hsent | hfailed
    · exact .inl hsent
    · exact .inr (.inl hfailed)
  -- The branch does not apply, and only what is live already heals.
  · obtain ⟨hsame, hnone⟩ := not_or.mp happly
    rw [Bool.not_eq_true] at hsame hnone
    obtain ⟨hunsent, hfailures⟩ := (after_of_ok hrun).mp
      (x.after_dropped hdry (hprev.trans hsame) hnone) rfl
    constructor
    · rintro (⟨hsent, -⟩ | ⟨hfailed, -⟩ | hcarries)
      · exact absurd hsent (not_sentAgain hunsent)
      · rw [hfailures] at hfailed
        cases hfailed
      · exact .inr (.inr hcarries)
    · rintro (hchanged | hnoticed | hcarries)
      · exact absurd hchanged (Bool.not_eq_true _ |>.mpr hsame)
      · exact absurd hnoticed (Bool.not_eq_true _ |>.mpr hnone)
      · exact .inr (.inr hcarries)

end

/-! ### After the pass that records the failure -/

/-- A main manifest of a commit is one whatever was applied before. -/
theorem desired_of_main {sha : String} {applied : List ResourceKey} {c : Classified}
    {m : RawManifest} (h : desired env sha cfg applied = .ok c) (hm : m ∈ c.main)
    (applied' : List ResourceKey) : desired env sha cfg applied' = .ok c := by
  obtain ⟨roots, ms, hroots, hparsed, rfl⟩ := desired_ok h
  rcases rootsOf_ok hroots with hexpand | ⟨rfl, -⟩
  · rw [desired, rootsOf, hexpand]
    dsimp only
    rw [hparsed]
    rfl
  · -- Without a directory there is no manifest.
    cases hparsed
    cases hm

/-- The state a completed pass leaves. -/
theorem Started.stored_of_ok {r : Reconciler} (hdry : r.cfg.dryRun = false) {w t : World sc}
    (x : Started env r w) (hrun : runOnce env r w = .ok () t) :
    ∃ c outcome health epoch,
      t.stored = some (newState x.prev x.sync c outcome health epoch) := by
  have hall : After (runOnce env r) w fun res t => res = .ok () → ∃ c outcome health epoch,
      t.stored = some (newState x.prev x.sync c outcome health epoch) := by
    refine x.after_runOnce_ok hdry (fun _ _ ht => ht) ?_
    intro c _
    refine after_execute_stored x.guard x.prev x.sync c ?_
    refine After.of_forall ?_
    intro res t outcome _ u health epoch _ hstored v huv
    rw [World.stored, huv.stateCm]
    exact ⟨c, outcome, health, epoch, hstored⟩
  exact (after_of_ok hrun).mp hall rfl

/-- The pass after one that recorded a failure, at the same commit. -/
theorem AfterFailure.of_pass (hd : Documented env) {r : Reconciler} (hdry : r.cfg.dryRun = false)
    {w t : World sc} (x : Started env r w) (hrun : runOnce env r w = .ok () t) {c : Classified}
    (hc : desired env x.sync.sha r.cfg (prevApplied x.prev) = .ok c) {m : RawManifest}
    (hm : m ∈ c.main) (hfailed : .fromManifest m ∈ failuresOf t) (y : Started env r t)
    (hhead : y.sync.sha = x.sync.sha) :
    ∃ z : AfterFailure env r t m, z.toStarted = y ∧ z.c = c := by
  obtain ⟨c', outcome, health, epoch, hstored⟩ := x.stored_of_ok hdry hrun
  have hprev := hd.prev_eq y
  rw [hstored] at hprev
  rw [failuresOf, hstored] at hfailed
  refine ⟨{ y with
    prior := _
    prior_read := hprev
    failed := hfailed
    head := congrArg some hhead.symm
    c := c
    parsed := ?_
    main := hm }, rfl, rfl⟩
  rw [hhead]
  exact desired_of_main hc hm _

/-! ### A refused change of a label -/

/-- A Service with a label. -/
def webValue (tier : String) : Value := .object
  [("apiVersion", .string "v1"), ("kind", .string "Service"),
    ("metadata", .object [("name", .string "web"), ("namespace", .string "default"),
      ("labels", .object [("tier", .string tier)])]),
    ("spec", .object [("type", .string "ClusterIP")])]

/-- Its manifest. -/
def web (tier : String) : RawManifest :=
  ⟨"", "v1", "Service", "web", some "default", tier, []⟩

/-- A repository in which the commit `c2` changes the label, with HEAD at a commit. -/
def webEnv (sha : String) : Env .namespacedOnly :=
  .calm _ (.table [("c1", [webValue "old"]), ("c2", [webValue "new"])]
      [("old", webValue "old"), ("new", webValue "new")])
    (gitAt sha) fun sha => .oneFile "/tmp/leancd-work-1/." sha

/-- HEAD is at `c2`, and patches are refused up to an interaction. -/
def refusedUntil (n : Nat) : Env .namespacedOnly :=
  { webEnv "c2" with
    fault := fun k req =>
      match req with
      | .patch _ _ _ => if k < n then .refused ⟨some 500, "internal error"⟩ else .none
      | _ => .none }

/-- The example's server does what is documented, apart from the label that it refuses. -/
theorem documented_refusedUntil (n : Nat) : Documented (refusedUntil n) where
  yaml := @Yaml.table_roundTrips _ [("old", webValue "old"), ("new", webValue "new")] (by decide)
  kube := KubeCrate.plain_reads
  merge := merges_replace
  marks _ _ _ _ h := nomatch h
  stateGet _ _ h := by rcases h with h | h <;> cases h

/-- The world after `c1` was applied to an empty cluster. -/
def webWorld : World .namespacedOnly :=
  Act.state (runOnce (webEnv "c1") (syncedPass .off) (.fresh ∅ none))

/-- The world after a pass at `c2`. -/
def failedWorld (n : Nat) (w : World .namespacedOnly) : World .namespacedOnly :=
  Act.state (runOnce (refusedUntil n) (syncedPass .off) w)

/-- A pass at `c2` records the failure, and another one follows it. -/
theorem exists_afterFailure {n : Nat} {w : World .namespacedOnly}
    (P : World .namespacedOnly → Prop)
    (hx : ∃ x ∈ Started.run (refusedUntil n) (syncedPass .off) w, x.sync.sha = "c2" ∧
      desired (refusedUntil n) x.sync.sha (syncedPass .off).cfg (prevApplied x.prev) =
        .ok ⟨[], [web "new"], [], [], []⟩)
    (hok : (Act.value (runOnce (refusedUntil n) (syncedPass .off) w)).isOk = true)
    (hfailed : .fromManifest (web "new") ∈ failuresOf (failedWorld n w))
    (hy : ∃ y ∈ Started.run (refusedUntil n) (syncedPass .off) (failedWorld n w),
      y.sync.sha = "c2" ∧ P y.start) :
    ∃ z : AfterFailure (refusedUntil n) (syncedPass .off) (failedWorld n w) (web "new"),
      z.sync.sha = "c2" ∧ z.c.main = [web "new"] ∧ P z.start := by
  obtain ⟨x, -, hxsha, hc⟩ := hx
  obtain ⟨y, -, hysha, hP⟩ := hy
  obtain ⟨_, hrun⟩ := run_eq_of_isOk hok
  obtain ⟨z, rfl, hzc⟩ := AfterFailure.of_pass (documented_refusedUntil n) rfl x hrun hc
    List.mem_cons_self hfailed y (hysha.trans hxsha.symm)
  exact ⟨z, hysha, by rw [hzc], hP⟩

/-- The label of the Service changes at `c2`, and the patch is refused. The pass records
that. The next one completes at the same commit, sends nothing, and records nothing, and the
Service keeps its old label. -/
theorem relabel_forgotten :
    ∃ (x : AfterFailure (refusedUntil 60) (syncedPass .off) (failedWorld 60 webWorld) (web "new"))
      (t : World .namespacedOnly),
      runOnce (refusedUntil 60) (syncedPass .off) (failedWorld 60 webWorld) = .ok () t ∧
        ¬ Healed (refusedUntil 60) (syncedPass .off) x t := by
  obtain ⟨x, hsha, hmain, hnoticed, hcarries⟩ := @exists_afterFailure 60 webWorld
    (fun u => noticed (refusedUntil 60) (syncedPass .off).cfg [web "new"] u = false ∧
      carries (refusedUntil 60) (syncedPass .off).cfg u.cluster (web "new") = false)
    (by decide +kernel) (by decide +kernel) (by decide +kernel) (by decide +kernel)
  obtain ⟨_, hrun⟩ := @run_eq_of_isOk _ _ _ (failedWorld 60 webWorld)
    (runOnce (refusedUntil 60) (syncedPass .off)) (by decide +kernel)
  refine ⟨x, _, hrun, ?_⟩
  -- The retry stands at the commit that is recorded.
  have hsame : x.sync.changed = false := by
    rw [← Bool.not_eq_true, x.changed_iff, hsha]
    decide
  have hdropped := x.after_dropped rfl (by rw [x.prior_read]; exact hsame)
    (by rw [hmain]; exact hnoticed)
  obtain ⟨hunsent, hfailures⟩ := (after_of_ok hrun).mp hdropped rfl
  -- Not sent, no failure recorded, and not live: none of the three.
  rintro (⟨hsent, -⟩ | ⟨hfailed, -⟩ | hlive)
  · exact not_sentAgain hunsent hsent
  · rw [hfailures] at hfailed
    cases hfailed
  · rw [hcarries] at hlive
    cases hlive

/-- Where the Service is missing, the next pass creates it. -/
theorem healed_missing :
    ∃ (x : AfterFailure (refusedUntil 30) (syncedPass .off) (failedWorld 30 (.fresh ∅ none))
        (web "new")) (t : World .namespacedOnly),
      runOnce (refusedUntil 30) (syncedPass .off) (failedWorld 30 (.fresh ∅ none)) = .ok () t ∧
        Healed (refusedUntil 30) (syncedPass .off) x t := by
  obtain ⟨x, -, hmain, hnoticed⟩ := @exists_afterFailure 30 (.fresh ∅ none)
    (fun u => noticed (refusedUntil 30) (syncedPass .off).cfg [web "new"] u = true)
    (by decide +kernel) (by decide +kernel) (by decide +kernel) (by decide +kernel)
  obtain ⟨_, hrun⟩ := @run_eq_of_isOk _ _ _ (failedWorld 30 (.fresh ∅ none))
    (runOnce (refusedUntil 30) (syncedPass .off)) (by decide +kernel)
  refine ⟨x, _, hrun, (healed_iff rfl x hrun).mpr (.inr (.inl ?_))⟩
  rw [hmain]
  exact hnoticed

end Reconcile

end LeanCd
