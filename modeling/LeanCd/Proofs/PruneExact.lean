import LeanCd.Calm
import LeanCd.Proofs.PruneSpec

/-!
# `LeanCd.Proofs.PruneExact`: the set `prune` deletes, call by call

`Answers` is what one prune gets from the API server: whether a kind resolves and what its
list returns, and for each candidate whether its kind resolves, what is read under the key,
and what becomes of the delete. `Answers.Pruned` is the set that these answers determine. It
names no order and, for each key, only answers about that key and its kind.

`Observed` says that a run got the answers. Each kind is listed once, and each key has one
turn, so every run gets some (`exists_observed`), whatever the other clients do meanwhile.
Discovery is tried again after a failure. Where its outcome stays the same for the length
of the pass, `discovered` and `resolved` say the same of a kind and its keys.

`PruneRun.exact` is the refinement: a run deletes the set that its answers determine.

The proof has two passes over the loops of the source. The first shows what a run does when it
gets some answers (`answered_` lemmas), the second that every run gets some. In between stands the
set that the answers determine, which is a definition without a run in it.
-/

set_option autoImplicit false

namespace LeanCd.Prune

open Act

variable {sc : Scopes} {env : Env sc} {cfg : Config} {prev current : List ResourceKey}

/-! ### The answers and the set they determine -/

/-- What the API server answers during one prune. Nothing is read where the object is gone
or the read fails. A delete may be carried out and fail all the same: its response is
lost. -/
structure Answers where
  discovered : GvkKey → Bool
  listed : GvkKey → Option (List DynamicObject)
  resolved : ResourceKey → Bool
  read : ResourceKey → Option DynamicObject
  deletes : ResourceKey → Bool
  removes : ResourceKey → Bool

namespace Answers

/-- The labelled live objects of a kind have this key. -/
def Lists (a : Answers) (k : ResourceKey) : Prop :=
  a.discovered k.gvk = true ∧
    ∃ live, a.listed k.gvk = some live ∧ k ∈ live.map (ResourceKey.fromDynamic · k.gvk)

/-- A key outside the current set that was applied before, or that a labelled live object
of an applied kind has. -/
structure Candidate (a : Answers) (prev current : List ResourceKey) (k : ResourceKey) :
    Prop where
  gone : k ∉ current
  source : k ∈ prev ∨ k.gvk ∈ prev.map ResourceKey.gvk ∧ a.Lists k

/-- The kind of the key resolves, and its object is there and not exempt. -/
structure Deletable (a : Answers) (k : ResourceKey) : Prop where
  resolved : a.resolved k = true
  object : ∃ o, a.read k = some o ∧ shouldSkipDeletion o = false

/-- The delete of a key is asked for, and succeeds. -/
structure Goes (a : Answers) (k : ResourceKey) : Prop extends a.Deletable k where
  deletes : a.deletes k = true

/-- The keys that are to be deleted. -/
structure Pruned (a : Answers) (prev current : List ResourceKey) (k : ResourceKey) : Prop
    extends a.Candidate prev current k, a.Goes k

/-- The answers agree on everything that is asked about a key and its kind. -/
structure AgreeOn (a b : Answers) (k : ResourceKey) : Prop where
  discovered : a.discovered k.gvk = b.discovered k.gvk
  listed : a.listed k.gvk = b.listed k.gvk
  resolved : a.resolved k = b.resolved k
  read : a.read k = b.read k
  deletes : a.deletes k = b.deletes k

/-- Different keys, of the current set and of the candidates, denote different objects. -/
def Distinct (sc : Scopes) (cfg : Config) (a : Answers) (prev current : List ResourceKey) :
    Prop :=
  ∀ k k', (k ∈ current ∨ a.Candidate prev current k) →
    (k' ∈ current ∨ a.Candidate prev current k') →
    k.denotes sc cfg.namespace = k'.denotes sc cfg.namespace → k = k'

/-- Answers agree with themselves. -/
theorem AgreeOn.rfl {a : Answers} {k : ResourceKey} : a.AgreeOn a k :=
  ⟨by rfl, by rfl, by rfl, by rfl, by rfl⟩

/-- What is pruned of a key depends on the answers about that key only. -/
theorem AgreeOn.pruned_iff {a b : Answers} {k : ResourceKey} (h : a.AgreeOn b k) :
    a.Pruned prev current k ↔ b.Pruned prev current k := by
  have hlists : a.Lists k ↔ b.Lists k := by rw [Lists, Lists, h.discovered, h.listed]
  constructor
  · intro hp
    exact { gone := hp.gone, source := hp.source.imp_right (And.imp_right hlists.mp),
            resolved := h.resolved ▸ hp.resolved, object := h.read ▸ hp.object,
            deletes := h.deletes ▸ hp.deletes }
  · intro hp
    exact { gone := hp.gone, source := hp.source.imp_right (And.imp_right hlists.mpr),
            resolved := h.resolved ▸ hp.resolved, object := h.read ▸ hp.object,
            deletes := h.deletes ▸ hp.deletes }

end Answers

/-! ### A run that gets the answers -/

section
variable (env cfg) (a : Answers)

/-- The discovery of the kind and its list, if it comes to that. -/
def ListAnswered (cache : KubeUtil.DiscoveryCache) (g : GvkKey) (w : World sc) : Prop :=
  After (KubeUtil.getOrResolve env cache g) w fun r t => r.isOk = a.discovered g ∧
    ∀ cache', r = .ok cache' →
      After (KubeUtil.listAll env g cfg.selector) t fun r _ => r.toOption = a.listed g

/-- The safety net over these kinds gets the answers. -/
def NetAnswered (current : List ResourceKey) :
    List GvkKey → KubeUtil.DiscoveryCache → World sc → Prop
  | [], _, _ => True
  | g :: rest, cache, w =>
      ListAnswered env cfg a cache g w ∧
        After (safetyNetKind env cfg current cache g) w fun r t =>
          ∀ found cache', r = .ok (found, cache') → NetAnswered current rest cache' t

/-- The discovery of the key's kind, the read and the delete, as far as it comes to that. -/
def KeyAnswered (cache : KubeUtil.DiscoveryCache) (key : ResourceKey) (w : World sc) : Prop :=
  After (KubeUtil.getOrResolve env cache key.gvk) w fun r t => r.isOk = a.resolved key ∧
    ∀ cache', r = .ok cache' →
      After (KubeUtil.getObject env cfg.namespace key.gvk key.ns key.name) t fun r u =>
        r.toOption.join = a.read key ∧ ∀ obj, r = .ok (some obj) →
          shouldSkipDeletion obj = false →
          After (KubeUtil.delete env cfg.namespace key.gvk key.ns key.name) u fun r v =>
            r.isOk = a.deletes key ∧ (v.deletions ≠ u.deletions ↔ a.removes key = true)

/-- The candidates in turn get the answers. -/
def KeysAnswered : List ResourceKey → KubeUtil.DiscoveryCache → World sc → Prop
  | [], _, _ => True
  | key :: rest, cache, w =>
      KeyAnswered env cfg a cache key w ∧
        After (deleteKey env cfg cache key) w fun r t =>
          ∀ gone cache', r = .ok (gone, cache') → KeysAnswered rest cache' t

/-- The run of `prune` from the world `w` gets the answers. -/
def Observed (prev current : List ResourceKey) (w : World sc) : Prop :=
  After (hashGvks env (prev.map ResourceKey.gvk)) w fun r t => ∀ gvks, r = .ok gvks →
    NetAnswered env cfg a current gvks [] t ∧
      After (safetyNet env cfg current gvks []) t fun r u => ∀ orphans cache,
        r = .ok (orphans, cache) →
        After (hashKeys env (deletionTargets prev current ++ orphans)) u fun r v =>
          ∀ targets, r = .ok targets → KeysAnswered env cfg a targets cache v

end

/-! ### The candidates of a run -/

section
variable {a : Answers} {cache : KubeUtil.DiscoveryCache}

/-- The keys the safety net finds at one kind. -/
theorem answered_safetyNetKind {g : GvkKey} {w : World sc}
    (hlist : ListAnswered env cfg a cache g w) :
    After (safetyNetKind env cfg current cache g) w fun r t => untouched.rel w t ∧
      ∃ found cache', r = .ok (found, cache') ∧
        ∀ k, k ∈ found ↔ k ∉ current ∧ k.gvk = g ∧ a.Lists k := by
  refine After.and (keeps_safetyNetKind interacts_untouched current cache g w) ?_
  simp only [safetyNetKind, after_bind, after_attempt]
  refine After.mono hlist ?_
  intro r t h
  obtain ⟨hr, hlisted⟩ := h
  cases r with
  -- The kind is not resolved, and then no list of it was answered.
  | error e =>
      refine ⟨[], cache, rfl, fun k => iff_of_false List.not_mem_nil ?_⟩
      intro hk
      obtain ⟨-, rfl, hdiscovered, -⟩ := hk
      cases hr.trans hdiscovered
  | ok cache' =>
      simp only [after_bind, after_attempt]
      refine (hlisted cache' rfl).mono ?_
      intro r u hu
      cases r with
      -- The kind is resolved and its list failed.
      | error e =>
          refine ⟨[], cache', rfl, fun k => iff_of_false List.not_mem_nil ?_⟩
          intro hk
          obtain ⟨-, rfl, -, live, hlive, -⟩ := hk
          simp [Except.toOption, hlive] at hu
      -- The list was answered. Its objects without a current key are what is found.
      | ok live =>
          have hlive : a.listed g = some live := hu.symm
          refine ⟨_, cache', rfl, fun k => ?_⟩
          rw [List.mem_filter, decide_eq_true_eq]
          constructor
          · intro hk
            obtain ⟨o, ho, rfl⟩ := List.mem_map.mp hk.1
            exact ⟨hk.2, rfl, hr.symm, live, hlive, hk.1⟩
          · intro hk
            obtain ⟨hgone, rfl, -, live', hlive', hmem⟩ := hk
            cases hlive.symm.trans hlive'
            exact ⟨hmem, hgone⟩

/-- The keys the safety net finds. -/
theorem answered_safetyNet {gvks : List GvkKey} {w : World sc}
    (hnet : NetAnswered env cfg a current gvks cache w) :
    After (safetyNet env cfg current gvks cache) w fun r t => untouched.rel w t ∧
      ∃ found cache', r = .ok (found, cache') ∧
        ∀ k, k ∈ found ↔ k ∉ current ∧ k.gvk ∈ gvks ∧ a.Lists k := by
  induction gvks generalizing cache w with
  | nil => exact ⟨rfl, [], cache, rfl, by simp⟩
  | cons g rest ih =>
      rw [safetyNet, after_bind]
      refine ((answered_safetyNetKind hnet.1).and hnet.2).mono ?_
      intro r t h
      obtain ⟨⟨ht, found, cache', rfl, hfound⟩, hrest⟩ := h
      dsimp only
      rw [after_bind]
      refine (ih (hrest found cache' rfl)).mono ?_
      intro r u h
      obtain ⟨hu, more, cache'', rfl, hmore⟩ := h
      refine ⟨untouched.trans ht hu, found ++ more, cache'', rfl, ?_⟩
      intro k
      rw [List.mem_append, hfound, hmore, List.mem_cons]
      -- A kind is the first one or in the rest, and its list was answered there.
      constructor
      · intro hk
        rcases hk with ⟨hgone, hg, hl⟩ | ⟨hgone, hg, hl⟩
        · exact ⟨hgone, .inl hg, hl⟩
        · exact ⟨hgone, .inr hg, hl⟩
      · intro hk
        obtain ⟨hgone, hg | hg, hl⟩ := hk
        · exact .inl ⟨hgone, hg, hl⟩
        · exact .inr ⟨hgone, hg, hl⟩

/-! ### The deletes of a run -/

/-- A delete that succeeds deletes the object. One that fails may have deleted it too: its
response was lost. -/
theorem after_delete (key : ResourceKey) (w : World sc) :
    After (KubeUtil.delete env cfg.namespace key.gvk key.ns key.name) w fun r t =>
      t.deletions = key.denotes sc cfg.namespace :: w.deletions ∨
        t.deletions = w.deletions ∧ r.isOk = false := by
  have hact : ∀ u : World sc, u.trace = w.trace →
      After (KubeUtil.serveDelete env (key.denotes sc cfg.namespace)) u fun r t =>
        t.deletions = key.denotes sc cfg.namespace :: w.deletions ∨
          t.deletions = w.deletions ∧ r.isOk = false := by
    intro u hu
    rw [after_serveDelete, World.deletions, World.deletions, ← hu]
    cases u.cluster.lookup (key.denotes sc cfg.namespace) with
    | none => exact .inr ⟨rfl, rfl⟩
    | some live => exact .inl rfl
  have hcalled := hact (w.called env (.delete key.gvk (key.denotes sc cfg.namespace))) rfl
  rw [KubeUtil.delete, after_call]
  cases env.fault w.step (.delete key.gvk (apiFor sc key.gvk key.ns cfg.namespace key.name)) with
  | none => exact hcalled
  | refused e => exact .inr ⟨rfl, rfl⟩
  | lost e => exact hcalled.mono fun _ _ h => h.imp_right fun hsame => ⟨hsame.1, rfl⟩

/-- The delete of a key is asked for and carried out, whatever its response. -/
structure Answers.Removed (a : Answers) (k : ResourceKey) : Prop extends a.Deletable k where
  removes : a.removes k = true

/-- What one candidate leaves behind: it is reported deleted exactly when it is to go, and
its object is deleted exactly when the server carries the delete out. -/
structure Turn (cfg : Config) (a : Answers) (key : ResourceKey) (gone lost : Bool)
    (w t : World sc) : Prop where
  reported : gone = true ↔ a.Goes key
  erased : lost = true ↔ a.Removed key
  carried : gone = true → lost = true
  deletions : t.deletions =
    if lost then key.denotes sc cfg.namespace :: w.deletions else w.deletions

/-- A candidate that is not to be deleted. -/
theorem Turn.of_kept {key : ResourceKey} {w t : World sc} (hkept : ¬ a.Deletable key)
    (hsame : t.deletions = w.deletions) : Turn cfg a key false false w t where
  reported := iff_of_false (by simp) fun h => hkept h.toDeletable
  erased := iff_of_false (by simp) fun h => hkept h.toDeletable
  carried := id
  deletions := hsame

/-- One turn of the deletes, with the answers given. It reports the key when the calls were served,
and deletes it when the server carried the delete out. -/
theorem answered_deleteKey {key : ResourceKey} {w : World sc}
    (hkey : KeyAnswered env cfg a cache key w) :
    After (deleteKey env cfg cache key) w fun r t => ∃ gone cache',
      r = .ok (gone, cache') ∧ ∃ lost, Turn cfg a key gone lost w t := by
  have hresolving := Keeps.after (keeps_getOrResolve (@interacts_untouched _ env)
    cache key.gvk) w
  refine after_deleteKey_of ((hresolving.and hkey).mono ?_)
  intro r t h
  obtain ⟨ht, hr, hanswered⟩ := h
  constructor
  -- The kind was not resolved, so the key is not deletable.
  · intro e he
    rw [he] at hr
    have hno : ¬ a.Deletable key := by
      intro hdel
      cases hr.trans hdel.resolved
    exact ⟨false, .of_kept hno (deletions_of_untouched ht)⟩
  · intro cache' hok
    rw [hok] at hr
    have hquiet := Keeps.after (keeps_getObject (@interacts_untouched _ env)
      cfg.namespace key.gvk key.ns key.name) t
    refine (hquiet.and (hanswered cache' hok)).mono ?_
    intro r u h
    obtain ⟨hu, hread, hdelete⟩ := h
    have hsame : u.deletions = w.deletions := deletions_of_untouched (untouched.trans ht hu)
    constructor
    -- Nothing was there, or it was exempt.
    · intro hno
      refine ⟨false, .of_kept ?_ hsame⟩
      intro hdel
      obtain ⟨o, ho, hskip⟩ := hdel.object
      rw [ho] at hread
      have hgot : r = .ok (some o) := by
        cases r with
        | error e => cases hread
        | ok got => exact congrArg Except.ok hread
      rw [hno o hgot] at hskip
      cases hskip
    -- The object is there and not exempt, so the delete was sent.
    · intro obj hobj hskip
      have hsome : a.read key = some obj := by
        rw [hobj] at hread
        exact hread.symm
      have hdel : a.Deletable key := ⟨hr.symm, obj, hsome, hskip⟩
      have hgoes : a.Goes key ↔ a.deletes key = true :=
        ⟨fun h => h.deletes, fun h => ⟨hdel, h⟩⟩
      refine ((after_delete key u).and (hdelete obj hobj hskip)).mono ?_
      intro r v h
      obtain ⟨hv, hok, hremoves⟩ := h
      rw [hsame] at hv hremoves
      rcases hv with hv | ⟨hv, hfailed⟩
      -- The object went, which is what the answers say.
      · have hyes : a.Removed key := ⟨hdel, hremoves.mp (by simp [hv])⟩
        exact ⟨true, by rw [hgoes, hok], iff_of_true rfl hyes, fun _ => rfl, hv⟩
      -- It did not go, and then the delete has failed.
      · have hno : ¬ a.Removed key := fun h => hremoves.mpr h.removes hv
        exact ⟨false, by rw [hgoes, hok], iff_of_false (by simp) hno,
          fun h => hfailed.symm.trans h, hv⟩

/-- A key joins the keys of a condition that holds of it. -/
theorem sublist_join {P : ResourceKey → Prop} {key : ResourceKey} {keys l : List ResourceKey}
    (hsub : l.Sublist keys) (hmem : ∀ k, k ∈ l ↔ k ∈ keys ∧ P k) {joins : Bool}
    (hjoins : joins = true ↔ P key) :
    (if joins then key :: l else l).Sublist (key :: keys) ∧
      ∀ k, k ∈ (if joins then key :: l else l) ↔ k ∈ key :: keys ∧ P k := by
  cases joins with
  | true =>
      refine ⟨hsub.cons_cons key, ?_⟩
      intro k
      rw [if_pos rfl, List.mem_cons, hmem, List.mem_cons, or_and_right]
      exact or_congr_left ⟨fun heq => ⟨heq, heq ▸ hjoins.mp rfl⟩, fun heq => heq.1⟩
  | false =>
      refine ⟨hsub.cons key, ?_⟩
      intro k
      rw [if_neg (by simp), hmem, List.mem_cons, or_and_right]
      refine (or_iff_right ?_).symm
      intro hk
      cases hjoins.mpr (hk.1 ▸ hk.2)

/-- The candidates in turn: those reported deleted are those that are to go, in their order,
and the objects deleted are those of the deletes carried out. -/
theorem answered_deleteKeys {keys : List ResourceKey} {w : World sc}
    (hkeys : KeysAnswered env cfg a keys cache w) :
    After (deleteKeys env cfg keys cache) w fun r t => ∃ deleted removed : List ResourceKey,
      r = .ok deleted ∧ deleted.Sublist keys ∧ (∀ k, k ∈ deleted ↔ k ∈ keys ∧ a.Goes k) ∧
      t.deletions = (removed.map (·.denotes sc cfg.namespace)).reverse ++ w.deletions ∧
      removed.Sublist keys ∧ (∀ k, k ∈ removed ↔ k ∈ keys ∧ a.Removed k) ∧
      deleted ⊆ removed := by
  induction keys generalizing cache w with
  | nil => exact ⟨[], [], rfl, .slnil, by simp, rfl, .slnil, by simp, by simp⟩
  | cons key rest ih =>
      rw [deleteKeys, after_bind]
      refine ((answered_deleteKey hkeys.1).and hkeys.2).mono ?_
      intro r t h
      obtain ⟨⟨gone, cache', rfl, lost, hturn⟩, hrest⟩ := h
      dsimp only
      rw [after_bind]
      refine (ih (hrest gone cache' rfl)).mono ?_
      intro r u h
      obtain ⟨deleted, removed, rfl, hsub, hmem, hu, hsub', hmem', hcarried⟩ := h
      -- Whether the key is reported and whether its object was deleted are two questions.
      have hreported := sublist_join hsub hmem hturn.reported
      have hdeleted := sublist_join hsub' hmem' hturn.erased
      refine ⟨_, _, rfl, hreported.1, hreported.2, ?_, hdeleted.1, hdeleted.2, ?_⟩
      · have hdeletions := hturn.deletions
        have hu : u.deletions =
            (removed.map (·.denotes sc cfg.namespace)).reverse ++ t.deletions := hu
        cases lost with
        | true =>
            have hcons : t.deletions = key.denotes sc cfg.namespace :: w.deletions := hdeletions
            show u.deletions = _
            simp [hu, hcons]
        | false =>
            have hsame : t.deletions = w.deletions := hdeletions
            show u.deletions = _
            simp [hu, hsame]
      · intro k hk
        obtain ⟨hkeys, hgoes⟩ := (hreported.2 k).mp hk
        rcases List.mem_cons.mp hkeys with rfl | hrest
        · have hlost := hturn.carried (hturn.reported.mpr hgoes)
          exact (hdeleted.2 k).mpr ⟨hkeys, hturn.erased.mp hlost⟩
        · have hk' := hcarried ((hmem k).mpr ⟨hrest, hgoes⟩)
          exact (hdeleted.2 k).mpr ⟨hkeys, ((hmem' k).mp hk').2⟩

/-- The run of `prune`: the keys reported deleted, and those whose objects were deleted. -/
theorem answered_prune {w : World sc} (h : Observed env cfg a prev current w) :
    After (prune env cfg prev current) w fun r t => ∃ deleted removed : List ResourceKey,
      r = .ok deleted ∧ deleted.Nodup ∧ (∀ k, k ∈ deleted ↔ a.Pruned prev current k) ∧
      t.deletions = (removed.map (·.denotes sc cfg.namespace)).reverse ++ w.deletions ∧
      removed.Nodup ∧ (∀ k, k ∈ removed ↔ a.Candidate prev current k ∧ a.Removed k) ∧
      deleted ⊆ removed := by
  rw [Observed, after_hashGvks] at h
  obtain ⟨hnet, hrest⟩ := h _ rfl
  rw [prune, after_bind, after_hashGvks]
  dsimp only
  rw [after_bind]
  refine ((answered_safetyNet hnet).and hrest).mono ?_
  intro r t hsafety
  obtain ⟨⟨ht, orphans, cache, rfl, horphans⟩, hkeys⟩ := hsafety
  dsimp only
  rw [after_bind, after_hashKeys]
  have hanswered := hkeys orphans cache rfl
  rw [after_hashKeys] at hanswered
  -- The candidates are the keys of the hash set.
  have hmem : ∀ k, k ∈ (env.keyOrder t.step).run
      (deletionTargets prev current ++ orphans).dedup ↔ a.Candidate prev current k := by
    intro k
    rw [Shuffle.mem_run, List.mem_dedup, List.mem_append, deletionTargets, List.mem_filter,
      horphans, Shuffle.mem_run, List.mem_dedup, decide_eq_true_eq]
    constructor
    · intro hk
      rcases hk with ⟨hprev, hgone⟩ | ⟨hgone, hlists⟩
      · exact ⟨hgone, .inl hprev⟩
      · exact ⟨hgone, .inr hlists⟩
    · intro hk
      rcases hk.source with hprev | hlists
      · exact .inl ⟨hprev, hk.gone⟩
      · exact .inr ⟨hk.gone, hlists⟩
  have hnodup := ((env.keyOrder t.step).perm
    (deletionTargets prev current ++ orphans).dedup).nodup_iff.mpr (List.nodup_dedup _)
  refine (answered_deleteKeys (hanswered _ rfl)).mono ?_
  intro r u hu
  obtain ⟨deleted, removed, rfl, hsub, hdeleted, hdeletions, hsub', hremoved, hcarried⟩ := hu
  have hbefore : t.deletions = w.deletions := deletions_of_untouched ht
  refine ⟨deleted, removed, rfl, hnodup.sublist hsub, ?_, ?_, hnodup.sublist hsub', ?_, hcarried⟩
  · intro k
    rw [hdeleted, hmem]
    exact ⟨fun hk => ⟨hk.1, hk.2⟩, fun hk => ⟨hk.toCandidate, hk.toGoes⟩⟩
  · rw [hdeletions]
    exact congrArg _ hbefore
  · intro k
    rw [hremoved, hmem]

end

/-! ### Every run gets its answers -/

/-- No answers: nothing is discovered. -/
def Answers.none : Answers :=
  ⟨fun _ => false, fun _ => .none, fun _ => false, fun _ => .none, fun _ => false, fun _ => false⟩

/-- The same answers about a kind. -/
def Answers.SameKind (a b : Answers) (g : GvkKey) : Prop :=
  a.discovered g = b.discovered g ∧ a.listed g = b.listed g

/-- The same answers about a key. -/
def Answers.SameKey (a b : Answers) (k : ResourceKey) : Prop :=
  a.resolved k = b.resolved k ∧ a.read k = b.read k ∧ a.deletes k = b.deletes k ∧
    a.removes k = b.removes k

/-- A list has an answer about its kind: what the calls of the run returned. -/
theorem exists_listAnswered (cache : KubeUtil.DiscoveryCache) (g : GvkKey) (w : World sc) :
    ∃ b : Answers, ∀ a : Answers, a.SameKind b g → ListAnswered env cfg a cache g w := by
  cases hr : KubeUtil.getOrResolve env cache g w with
  | error e t =>
      refine ⟨.none, ?_⟩
      intro a ha
      rw [ListAnswered, after_of_error hr]
      exact ⟨ha.1.symm, by simp⟩
  | ok cache' t =>
      refine ⟨{ Answers.none with
        discovered := fun _ => true
        listed := fun _ => (value (KubeUtil.listAll env g cfg.selector t)).toOption }, ?_⟩
      intro a ha
      rw [ListAnswered, after_of_ok hr]
      refine ⟨ha.1.symm, ?_⟩
      intro _ _
      exact ha.2.symm

/-- So has a safety net, kind by kind, because every kind is asked about once. -/
theorem exists_netAnswered (current : List ResourceKey) {gvks : List GvkKey}
    (hnodup : gvks.Nodup) (cache : KubeUtil.DiscoveryCache) (w : World sc) :
    ∃ f : GvkKey → Answers, ∀ a : Answers, (∀ g ∈ gvks, a.SameKind (f g) g) →
      NetAnswered env cfg a current gvks cache w := by
  induction gvks generalizing cache w with
  | nil => exact ⟨fun _ => .none, fun _ _ => trivial⟩
  | cons g rest ih =>
      obtain ⟨hfresh, hrest⟩ := List.nodup_cons.mp hnodup
      obtain ⟨b, hb⟩ := @exists_listAnswered _ env cfg cache g w
      cases hr : safetyNetKind env cfg current cache g w with
      | error e t =>
          refine ⟨fun _ => b, ?_⟩
          intro a ha
          refine ⟨hb a (ha g List.mem_cons_self), ?_⟩
          rw [after_of_error hr]
          simp
      | ok r t =>
          -- The answers for this kind and those for the rest are joined. The kinds are distinct,
          -- so the joined ones say of each what it said.
          obtain ⟨f, hf⟩ := ih hrest r.2 t
          refine ⟨Function.update f g b, ?_⟩
          intro a ha
          refine ⟨hb a (by simpa using ha g List.mem_cons_self), ?_⟩
          rw [after_of_ok hr]
          intro found cache' heq
          cases heq
          apply hf
          intro g' hg'
          have hne : g' ≠ g := fun heq => hfresh (heq ▸ hg')
          simpa [Function.update_of_ne hne] using ha g' (List.mem_cons_of_mem _ hg')

/-- A deletion has an answer about its key. -/
theorem exists_keyAnswered (cache : KubeUtil.DiscoveryCache) (key : ResourceKey)
    (w : World sc) :
    ∃ b : Answers, ∀ a : Answers, a.SameKey b key → KeyAnswered env cfg a cache key w := by
  cases hr : KubeUtil.getOrResolve env cache key.gvk w with
  | error e t =>
      refine ⟨.none, ?_⟩
      intro a ha
      rw [KeyAnswered, after_of_error hr]
      exact ⟨ha.1.symm, by simp⟩
  | ok cache' t =>
      -- The answers of the three calls are read off the world, as they were when they came.
      let got := KubeUtil.getObject env cfg.namespace key.gvk key.ns key.name t
      let del := KubeUtil.delete env cfg.namespace key.gvk key.ns key.name (state got)
      refine ⟨{ Answers.none with
        resolved := fun _ => true, read := fun _ => (value got).toOption.join,
        deletes := fun _ => (value del).isOk,
        removes := fun _ => decide ((state del).deletions ≠ (state got).deletions) }, ?_⟩
      intro a ha
      obtain ⟨hresolved, hread, hdeletes, hremoves⟩ := ha
      rw [KeyAnswered, after_of_ok hr]
      refine ⟨hresolved.symm, ?_⟩
      intro cache'' hcache
      refine ⟨hread.symm, ?_⟩
      intro obj hobj hskip
      refine ⟨hdeletes.symm, ?_⟩
      rw [hremoves, decide_eq_true_eq]

/-- So have deletions, key by key, because every key is deleted once. -/
theorem exists_keysAnswered {keys : List ResourceKey} (hnodup : keys.Nodup)
    (cache : KubeUtil.DiscoveryCache) (w : World sc) :
    ∃ f : ResourceKey → Answers, ∀ a : Answers, (∀ k ∈ keys, a.SameKey (f k) k) →
      KeysAnswered env cfg a keys cache w := by
  induction keys generalizing cache w with
  | nil => exact ⟨fun _ => .none, fun _ _ => trivial⟩
  | cons key rest ih =>
      obtain ⟨hfresh, hrest⟩ := List.nodup_cons.mp hnodup
      obtain ⟨b, hb⟩ := @exists_keyAnswered _ env cfg cache key w
      cases hr : deleteKey env cfg cache key w with
      | error e t =>
          refine ⟨fun _ => b, ?_⟩
          intro a ha
          refine ⟨hb a (ha key List.mem_cons_self), ?_⟩
          rw [after_of_error hr]
          simp
      | ok r t =>
          -- As with the kinds, the keys are distinct and the answers are joined.
          obtain ⟨f, hf⟩ := ih hrest r.2 t
          refine ⟨Function.update f key b, ?_⟩
          intro a ha
          refine ⟨hb a (by simpa using ha key List.mem_cons_self), ?_⟩
          rw [after_of_ok hr]
          intro gone cache' heq
          cases heq
          apply hf
          intro k hk
          have hne : k ≠ key := fun heq => hfresh (heq ▸ hk)
          simpa [Function.update_of_ne hne] using ha k (List.mem_cons_of_mem _ hk)

/-- Every run gets some answers: the lists are fixed by the safety net, the reads and
deletes by the candidates. -/
theorem exists_observed (prev current : List ResourceKey) (w : World sc) :
    ∃ a, Observed env cfg a prev current w := by
  have hgvks : ((env.gvkOrder w.step).run (prev.map ResourceKey.gvk).dedup).Nodup :=
    ((env.gvkOrder w.step).perm _).nodup_iff.mpr (List.nodup_dedup _)
  obtain ⟨f, hf⟩ := @exists_netAnswered _ env cfg current _ hgvks [] (w.ticked env)
  cases hr : safetyNet env cfg current
      ((env.gvkOrder w.step).run (prev.map ResourceKey.gvk).dedup) [] (w.ticked env) with
  | error e t =>
      refine ⟨{ Answers.none with
        discovered := fun g => (f g).discovered g, listed := fun g => (f g).listed g }, ?_⟩
      rw [Observed, after_hashGvks]
      intro gvks hsome
      cases hsome
      refine ⟨hf _ fun _ _ => ⟨rfl, rfl⟩, ?_⟩
      rw [after_of_error hr]
      simp
  | ok r t =>
      have hkeys : ((env.keyOrder t.step).run
          (deletionTargets prev current ++ r.1).dedup).Nodup :=
        ((env.keyOrder t.step).perm _).nodup_iff.mpr (List.nodup_dedup _)
      obtain ⟨d, hd⟩ := @exists_keysAnswered _ env cfg _ hkeys r.2 (t.ticked env)
      -- The kinds and the keys are asked after independently, so the answers are set side by
      -- side.
      refine ⟨{
        discovered := fun g => (f g).discovered g, listed := fun g => (f g).listed g
        resolved := fun k => (d k).resolved k, read := fun k => (d k).read k
        deletes := fun k => (d k).deletes k, removes := fun k => (d k).removes k }, ?_⟩
      rw [Observed, after_hashGvks]
      intro gvks hsome
      cases hsome
      refine ⟨hf _ fun _ _ => ⟨rfl, rfl⟩, ?_⟩
      rw [after_of_ok hr]
      intro orphans cache heq
      cases heq
      rw [after_hashKeys]
      intro targets hsome
      cases hsome
      exact hd _ fun _ _ => ⟨rfl, rfl, rfl, rfl⟩

/-! ### The refinement -/

/-- A run of `prune`, with the answers it got. -/
structure PruneRun (sc : Scopes) (cfg : Config) (prev current : List ResourceKey) where
  env : Env sc
  start : World sc
  answers : Answers
  observed : Observed env cfg answers prev current start

namespace PruneRun

variable (x : PruneRun sc cfg prev current)

/-- The keys the run reports deleted. -/
def deleted : List ResourceKey :=
  ((value (prune x.env cfg prev current x.start)).toOption).getD []

/-- The world in which it ends. -/
def final : World sc := state (prune x.env cfg prev current x.start)

/-- What a prune is to do. -/
structure Exact : Prop where
  /-- The keys deleted are those the answers determine, each once. -/
  mem : ∀ k, k ∈ x.deleted ↔ x.answers.Pruned prev current k
  once : x.deleted.Nodup
  /-- So are the objects, and none of them is one of the current set. -/
  objects : ∃ ids, x.final.deletions = ids ++ x.start.deletions ∧ ids.Nodup ∧
    (∀ k ∈ x.deleted, k.denotes sc cfg.namespace ∈ ids) ∧
    ∀ k ∈ current, k ∉ x.deleted ∧ k.denotes sc cfg.namespace ∉ ids
  empty : prev = [] → x.deleted = [] ∧ x.final.deletions = x.start.deletions
  /-- What happens to a key depends on the answers about it and its kind alone. -/
  isolated : ∀ (y : PruneRun sc cfg prev current) (k : ResourceKey),
    x.answers.AgreeOn y.answers k → (k ∈ x.deleted ↔ k ∈ y.deleted)
  /-- Two runs that got the same answers, in whatever order, deleted the same. -/
  unordered : ∀ y : PruneRun sc cfg prev current, y.answers = x.answers →
    y.deleted.Perm x.deleted

/-- The run of `answered_prune`, seen from its outcome. -/
theorem run_eq : ∃ removed : List ResourceKey, x.deleted.Nodup ∧
    (∀ k, k ∈ x.deleted ↔ x.answers.Pruned prev current k) ∧
    x.final.deletions =
      (removed.map (·.denotes sc cfg.namespace)).reverse ++ x.start.deletions ∧
    removed.Nodup ∧
    (∀ k, k ∈ removed ↔ x.answers.Candidate prev current k ∧ x.answers.Removed k) ∧
    x.deleted ⊆ removed := by
  obtain ⟨deleted, removed, hrun, h⟩ := answered_prune x.observed
  have hdeleted : x.deleted = deleted := by rw [PruneRun.deleted, hrun]; rfl
  rw [hdeleted]
  exact ⟨removed, h⟩

/-- **A prune deletes exactly the set that the answers of the API server determine.** -/
theorem exact (hdistinct : x.answers.Distinct sc cfg prev current) : x.Exact := by
  obtain ⟨removed, hnodup, hmem, hdeletions, honce, hremoved, hcarried⟩ := x.run_eq
  have hother : ∀ (y : PruneRun sc cfg prev current) (k : ResourceKey),
      x.answers.AgreeOn y.answers k → (k ∈ x.deleted ↔ k ∈ y.deleted) := by
    intro y k hagree
    obtain ⟨-, -, hmemy, -⟩ := y.run_eq
    rw [hmem, hmemy, hagree.pruned_iff]
  have hcandidate : ∀ k ∈ removed, x.answers.Candidate prev current k :=
    fun k hk => ((hremoved k).mp hk).1
  constructor
  · exact hmem
  · exact hnodup
  · refine ⟨_, hdeletions, List.nodup_reverse.mpr (honce.map_on ?_), ?_, ?_⟩
    · intro k hk k' hk' heq
      exact hdistinct k k' (.inr (hcandidate k hk)) (.inr (hcandidate k' hk')) heq
    · intro k hk
      exact List.mem_reverse.mpr (List.mem_map_of_mem (hcarried hk))
    · intro k hk
      refine ⟨fun hdel => ((hmem k).mp hdel).gone hk, ?_⟩
      intro hid
      obtain ⟨k', hk', heq⟩ := List.mem_map.mp (List.mem_reverse.mp hid)
      -- The candidate would be the current key itself.
      have hsame := hdistinct k' k (.inr (hcandidate k' hk')) (.inl hk) heq
      exact (hcandidate k' hk').gone (hsame ▸ hk)
  · intro hprev
    have hnone : removed = [] := by
      apply List.eq_nil_iff_forall_not_mem.mpr
      intro k hk
      have hsource := (hcandidate k hk).source
      simp [hprev] at hsource
    have hquiet : x.deleted = [] := by
      apply List.eq_nil_iff_forall_not_mem.mpr
      intro k hk
      have hk' := hcarried hk
      simp [hnone] at hk'
    exact ⟨hquiet, by simp [hdeletions, hnone]⟩
  · exact hother
  · intro y hsame
    obtain ⟨-, hnodupy, -⟩ := y.run_eq
    refine (List.perm_ext_iff_of_nodup hnodupy hnodup).mpr ?_
    intro k
    exact (hother y k (by rw [hsame]; exact .rfl)).symm

end PruneRun

/-- The one ConfigMap of the example has left Git, and is live. -/
def leftBehind : ResourceKey := .fromManifest (settings (some "default"))

/-- What the API server answers about it. -/
def leftBehindAnswers : Answers where
  discovered _ := true
  listed g := some (syncedWorld.cluster.list g settingsCfg.selector)
  resolved _ := true
  read k := (syncedWorld.cluster.lookup (k.denotes .namespacedOnly settingsCfg.namespace)).map
    (serve (k.denotes .namespacedOnly settingsCfg.namespace))
  deletes _ := true
  removes _ := true

/-- The answers of the example are those of its run. -/
theorem observed_leftBehind :
    Observed syncedEnv settingsCfg leftBehindAnswers [leftBehind] [] syncedWorld := by
  rw [Observed, after_hashGvks]
  intro gvks hsome
  cases hsome
  -- One kind was applied, and the list of it answered with the object.
  have hgvks : (syncedEnv.gvkOrder syncedWorld.step).run
      ([leftBehind].map ResourceKey.gvk).dedup = [leftBehind.gvk] := by decide
  rw [hgvks]
  constructor
  · constructor
    · exact ⟨rfl, fun _ _ => rfl⟩
    · intro _ _ _
      trivial
  · intro orphans cache horphans
    have hnet : (orphans, cache) = ([leftBehind], [leftBehind.gvk]) :=
      Except.ok.inj (horphans.symm.trans rfl)
    cases hnet
    rw [after_hashKeys]
    intro targets hsome
    have htargets : targets = [leftBehind] := (Except.ok.inj (hsome.symm.trans rfl)).trans
      (by decide)
    rw [htargets]
    constructor
    -- The object is read, not exempt, and gone after the delete.
    · refine ⟨rfl, ?_⟩
      intro cache' hcache'
      refine ⟨rfl, ?_⟩
      intro obj hobj hskip
      refine ⟨rfl, iff_of_true ?_ rfl⟩
      decide +kernel
    · intro _ _ _
      trivial

/-- The run that deletes it. -/
def leftBehindRun : PruneRun .namespacedOnly settingsCfg [leftBehind] [] where
  env := syncedEnv
  start := syncedWorld
  answers := leftBehindAnswers
  observed := observed_leftBehind

/-- The prune of the example is exact, and deletes what was left behind. -/
theorem PruneRun.exact_leftBehind :
    leftBehind ∈ leftBehindRun.deleted ∧ leftBehindRun.Exact := by
  -- There is only one candidate, from either source.
  have honly : ∀ k, leftBehindAnswers.Candidate [leftBehind] [] k → k = leftBehind := by
    intro k hk
    rcases hk.source with hprev | ⟨hg, hlists⟩
    · simpa using hprev
    · have hkind : k.gvk = leftBehind.gvk := by simpa using hg
      obtain ⟨-, live, hlive, hmem⟩ := hlists
      cases hlive
      rw [hkind] at hmem
      have hkeys : (syncedWorld.cluster.list leftBehind.gvk settingsCfg.selector).map
          (ResourceKey.fromDynamic · leftBehind.gvk) = [leftBehind] := by decide +kernel
      simpa [hkeys] using hmem
  refine ⟨by decide +kernel, PruneRun.exact leftBehindRun ?_⟩
  intro k k' hk hk' _
  have hk := honly k (hk.resolve_left (by simp))
  have hk' := honly k' (hk'.resolve_left (by simp))
  rw [hk, hk']

end LeanCd.Prune
