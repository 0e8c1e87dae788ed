import LeanCd.Proofs.Scan

/-!
# `LeanCd.Proofs.Classification`: hooks and main resources are told apart

`classify` walks the manifests once and puts each into the main resources, into
the lists of its hook phases, or nowhere. This module proves what the lists hold
at the end, for any list of manifests and any annotation text: `main_classify`
(from `LeanCd.Proofs.Scan`) for the main resources, `phase_classify` for a phase.
`classify_partitions` puts them together.

`HookPhase.names` is the table of the hook names of Helm, stated apart from the
code that reads them.

The proof is an induction along the list from its end, because the source appends to its lists:
`phase_classifyOne` says what one manifest adds. Duplicates count as they come. A manifest with
two phases is in two lists, and one whose types are all unknown is in none.
-/

set_option autoImplicit false

namespace LeanCd

/-- The hook names of a phase. -/
def HookPhase.names : HookPhase → List String
  | .preSync => ["pre-install", "pre-upgrade"]
  | .postSync => ["post-install", "post-upgrade"]
  | .preDelete => ["pre-delete"]
  | .postDelete => ["post-delete"]

/-- The hooks of one phase. -/
def Classified.phase (c : Classified) : HookPhase → List HookInfo
  | .preSync => c.pre
  | .postSync => c.post
  | .preDelete => c.preDelete
  | .postDelete => c.postDelete

namespace Hooks

/-- The annotation of the manifest has a token of the phase. -/
def declares (phase : HookPhase) (m : RawManifest) : Bool :=
  match Manifest.annotation m hookAnnotation with
  | none => false
  | some raw => (hookTokens raw).any (phase.names.contains ·)

/-- A manifest as a hook, with the weight and the policies it states itself. -/
def hookOf (m : RawManifest) : HookInfo := ⟨m, hookWeight m, parseDeletePolicies m⟩

section Phases

/-- A token names a phase when it is one of the phase's names, up to white space and the case of its
letters. -/
theorem phaseOf_eq_some_iff {token : String} {phase : HookPhase} :
    phaseOf token = some phase ↔ Text.toAsciiLowercase (Text.trim token) ∈ phase.names := by
  simp only [phaseOf]
  generalize Text.toAsciiLowercase (Text.trim token) = t
  -- A known name is looked up in the table of each phase, any other is in none of them.
  split
  next h => rcases h with rfl | rfl <;> cases phase <;> decide
  next hpre =>
    split
    next h => rcases h with rfl | rfl <;> cases phase <;> decide
    next hpost =>
      split
      next h => subst h; cases phase <;> decide
      next hpreDelete =>
        split
        next h => subst h; cases phase <;> decide
        next hpostDelete =>
          push Not at hpre hpost
          cases phase <;> simp [HookPhase.names, *]

/-- A phase that is added is there, and nothing else is. -/
theorem mem_addPhase {out : List HookPhase} {phase p : HookPhase} :
    p ∈ addPhase out phase ↔ p ∈ out ∨ p = phase := by
  unfold addPhase
  split
  next h =>
    refine ⟨Or.inl, fun hp => ?_⟩
    rcases hp with hp | rfl
    · exact hp
    · exact h
  next => simp

/-- A phase is added only once. -/
theorem nodup_addPhase {out : List HookPhase} (h : out.Nodup) (phase : HookPhase) :
    (addPhase out phase).Nodup := by
  unfold addPhase
  split
  next => exact h
  next hnew => exact List.nodup_append.mpr ⟨h, List.nodup_singleton phase, by
    intro p hp q hq
    rw [List.mem_singleton.mp hq]
    exact fun heq => hnew (heq ▸ hp)⟩

/-- After a fold of additions there are the phases of the start and those that were added. -/
theorem mem_foldl_addPhase (phases out : List HookPhase) {p : HookPhase} :
    p ∈ phases.foldl addPhase out ↔ p ∈ out ∨ p ∈ phases := by
  induction phases generalizing out with
  | nil => simp
  | cons phase rest ih => rw [List.foldl_cons, ih, mem_addPhase, List.mem_cons, or_assoc]

/-- None of them is there twice. -/
theorem nodup_foldl_addPhase (phases : List HookPhase) {out : List HookPhase} (h : out.Nodup) :
    (phases.foldl addPhase out).Nodup := by
  induction phases generalizing out with
  | nil => exact h
  | cons phase rest ih => exact ih (nodup_addPhase h phase)

/-- A phase is found once, however many of its names the annotation holds. -/
theorem nodup_hookPhases (raw : String) : (hookPhases raw).Nodup :=
  nodup_foldl_addPhase _ List.nodup_nil

/-- The phases of an annotation are those that one of its tokens names. -/
theorem mem_hookPhases {raw : String} {phase : HookPhase} :
    phase ∈ hookPhases raw ↔ ∃ t ∈ hookTokens raw, t ∈ phase.names := by
  rw [hookPhases, mem_foldl_addPhase, List.mem_filterMap]
  simp only [List.not_mem_nil, false_or, hookTokens, List.mem_map, phaseOf_eq_some_iff]
  constructor
  · rintro ⟨token, htoken, hname⟩
    exact ⟨_, ⟨token, htoken, rfl⟩, hname⟩
  · rintro ⟨t, ⟨token, htoken, rfl⟩, hname⟩
    exact ⟨token, htoken, hname⟩

/-- A manifest declares a phase when its hook annotation does. -/
theorem declares_iff {phase : HookPhase} {m : RawManifest} :
    declares phase m = true ↔ ∃ raw, Manifest.annotation m hookAnnotation = some raw ∧
      phase ∈ hookPhases raw := by
  unfold declares
  cases Manifest.annotation m hookAnnotation with
  | none => simp
  | some raw => simp [mem_hookPhases]

end Phases

section Lists

/-- A hook goes to the end of the list of its own phase, and the other lists stay. -/
theorem phase_addHook (info : HookInfo) (c : Classified) (q p : HookPhase) :
    (addHook info c q).phase p = c.phase p ++ if q = p then [info] else [] := by
  cases q <;> cases p <;> simp [addHook, Classified.phase]

/-- A hook goes once into each of its phases. -/
theorem phase_addHooks (info : HookInfo) {phases : List HookPhase} (hnodup : phases.Nodup)
    (c : Classified) (p : HookPhase) :
    (phases.foldl (addHook info) c).phase p = c.phase p ++ if p ∈ phases then [info] else [] := by
  induction phases generalizing c with
  | nil => simp
  | cons q rest ih =>
      obtain ⟨hq, hrest⟩ := List.nodup_cons.mp hnodup
      rw [List.foldl_cons, ih hrest, phase_addHook, List.append_assoc]
      congr 1
      by_cases hqp : q = p
      · subst hqp
        simp [hq]
      · simp [hqp, Ne.symm hqp]

/-- Classifying one manifest appends it to the list of every phase it declares. -/
theorem phase_classifyOne (c : Classified) (m : RawManifest) (p : HookPhase) :
    (classifyOne c m).phase p = c.phase p ++ if declares p m then [hookOf m] else [] := by
  have hdeclares := @declares_iff p m
  unfold classifyOne
  cases hraw : Manifest.annotation m hookAnnotation with
  | none =>
      have hno : ¬ declares p m = true := by simp [hdeclares, hraw]
      rw [if_neg hno, List.append_nil]
      cases p <;> rfl
  | some raw =>
      have hmem : declares p m = true ↔ p ∈ hookPhases raw := by simp [hdeclares, hraw]
      simp only [phase_addHooks _ (nodup_hookPhases raw), hmem, hookOf]

/-- The hooks of a phase, in the order of the manifests. -/
theorem phase_classify (ms : List RawManifest) (p : HookPhase) :
    (classify ms).phase p = (ms.filter (declares p)).map hookOf := by
  suffices hrun : ∀ c, (ms.foldl classifyOne c).phase p =
      c.phase p ++ (ms.filter (declares p)).map hookOf by
    rw [classify, hrun]
    cases p <;> rfl
  induction ms with
  | nil => simp
  | cons m rest ih =>
      intro c
      rw [List.foldl_cons, ih, phase_classifyOne, List.append_assoc, List.filter_cons]
      split <;> simp

/-- There is always a delete policy, for the default stands in when none is named. -/
theorem parseDeletePolicies_ne_nil (m : RawManifest) : parseDeletePolicies m ≠ [] := by
  unfold parseDeletePolicies
  split
  next => simp
  next raw _ =>
    split
    next => simp
    next policies hne => exact hne

end Lists

/-- What it is for a classification to tell the manifests apart. -/
structure Partitions (ms : List RawManifest) (c : Classified) : Prop where
  main : c.main = ms.filter fun m => (Manifest.annotation m hookAnnotation).isNone
  phase : ∀ p, c.phase p = (ms.filter (declares p)).map hookOf
  /-- A manifest with the annotation is never a main resource. -/
  hooked : ∀ m, (Manifest.annotation m hookAnnotation).isSome → m ∉ c.main
  /-- A hook of unsupported names only is in no list. -/
  unsupported : ∀ m raw, Manifest.annotation m hookAnnotation = some raw →
    (∀ t ∈ hookTokens raw, ∀ p : HookPhase, t ∉ p.names) →
      m ∉ c.main ∧ ∀ p, ∀ h ∈ c.phase p, h.manifest ≠ m
  /-- A hook carries what its own manifest states, and never an empty policy list. -/
  stated : ∀ p, ∀ h ∈ c.phase p, h.weight = hookWeight h.manifest ∧
    h.deletePolicies = parseDeletePolicies h.manifest ∧ h.deletePolicies ≠ []

/-- Every list of manifests is told apart, whatever its annotations say. -/
theorem classify_partitions (ms : List RawManifest) : Partitions ms (classify ms) := by
  -- What is in a list of hooks has the annotation, so it is no main resource.
  have hhooked : ∀ m, (Manifest.annotation m hookAnnotation).isSome → m ∉ (classify ms).main := by
    intro m hm hmain
    rw [main_classify, List.mem_filter, Option.isNone_iff_eq_none] at hmain
    rw [hmain.2] at hm
    cases hm
  -- A hook in the list of a phase is the hook of a manifest that declares the phase.
  have hhook : ∀ p, ∀ h ∈ (classify ms).phase p, declares p h.manifest = true ∧
      h = hookOf h.manifest := by
    intro p h hh
    rw [phase_classify, List.mem_map] at hh
    obtain ⟨m, hm, rfl⟩ := hh
    exact ⟨(List.mem_filter.mp hm).2, rfl⟩
  refine ⟨main_classify ms, phase_classify ms, hhooked, ?_, ?_⟩
  -- The annotation names no phase at all, so no list has the manifest.
  · intro m raw hraw hnames
    refine ⟨hhooked m (by rw [hraw]; rfl), fun p h hh heq => ?_⟩
    obtain ⟨raw', hraw', hphase⟩ := declares_iff.mp (hhook p h hh).1
    rw [heq, hraw, Option.some.injEq] at hraw'
    subst hraw'
    obtain ⟨t, ht, hname⟩ := mem_hookPhases.mp hphase
    exact hnames t ht p hname
  · intro p h hh
    rw [(hhook p h hh).2]
    exact ⟨rfl, rfl, parseDeletePolicies_ne_nil h.manifest⟩

end Hooks

end LeanCd
