import Mathlib.Data.Set.Card
import Mathlib.Data.Set.Finite.Lattice

/-!
# `LeanCd.Lib.History`: commit histories and shallow repositories

A `History` gives the parents of every commit. `within n B` are the commits at most `n`
generations above `B`, and `frontier n B` those exactly `n` above. `within_frontier`: going on from
the frontier reaches what going on from the start does.

A `Shallow` repository holds a part of a history that is closed under parents except at its cut,
where the parents are not known. `deepen` and `fetched` are what a deepening fetch and a fetch of
one commit do to it. `has_deepen_iterate` says what is there after some rounds of deepening.

The sets are sets of commits, and the lemmas are about inclusions: `within` grows with its start
and with its number of steps. What a deepening loop finds is then a question of which of two such
sets a commit is in. A repository that holds finitely many commits is counted by `held`.

Nothing here names the controller.
-/

set_option autoImplicit false

namespace LeanCd

/-- A commit history: the parents of a commit, the first parent first. -/
structure History (κ : Type) where
  parents : κ → List κ

namespace History

variable {κ : Type} (h : History κ)

/-- The commits and their parents. -/
def step (B : Set κ) : Set κ := B ∪ {c | ∃ d ∈ B, c ∈ h.parents d}

/-- The commits at most `n` generations above. -/
def within : Nat → Set κ → Set κ
  | 0, B => B
  | n + 1, B => h.step (within n B)

/-- The commits exactly `n` generations above. -/
def frontier : Nat → Set κ → Set κ
  | 0, B => B
  | n + 1, B => h.within (n + 1) B \ h.within n B

/-- The commits and everything above them. -/
def ancestors (B : Set κ) : Set κ := {c | ∃ n, c ∈ h.within n B}

/-- The `n`-th first-parent ancestor. -/
def firstParent : Nat → κ → Option κ
  | 0, c => some c
  | n + 1, c => (h.parents c).head?.bind (firstParent n)

variable {h} {A B : Set κ} {n m : Nat} {c p : κ}

/-- A step of deepening loses nothing. -/
theorem subset_step : B ⊆ h.step B := Set.subset_union_left

/-- A step takes in the parents of what was there. -/
theorem mem_step_of_parent (hc : c ∈ B) (hp : p ∈ h.parents c) : p ∈ h.step B := .inr ⟨c, hc, hp⟩

/-- A step from more reaches more. -/
theorem step_mono (hAB : A ⊆ B) : h.step A ⊆ h.step B := by
  intro c hc
  rcases hc with hc | ⟨d, hd, hc⟩
  · exact subset_step (hAB hc)
  · exact mem_step_of_parent (hAB hd) hc

/-- A step distributes over unions, so every commit can be followed on its own. -/
theorem step_union : h.step (A ∪ B) = h.step A ∪ h.step B := by
  refine Set.Subset.antisymm ?_ (Set.union_subset (step_mono Set.subset_union_left)
    (step_mono Set.subset_union_right))
  intro c hc
  rcases hc with (hc | hc) | ⟨d, hd | hd, hc⟩
  · exact .inl (subset_step hc)
  · exact .inr (subset_step hc)
  · exact .inl (mem_step_of_parent hd hc)
  · exact .inr (mem_step_of_parent hd hc)

/-- What lies within a number of steps grows with the start. -/
theorem within_mono (hAB : A ⊆ B) : h.within n A ⊆ h.within n B := by
  induction n with
  | zero => exact hAB
  | succ n ih => exact step_mono ih

/-- Steps add up, which makes two deepenings one. -/
theorem within_add (n m : Nat) (B : Set κ) : h.within (n + m) B = h.within m (h.within n B) := by
  induction m with
  | zero => rfl
  | succ m ih => exact congrArg h.step ih

/-- The start lies within every number of steps. -/
theorem subset_within : B ⊆ h.within n B := by
  induction n with
  | zero => exact Set.Subset.rfl
  | succ n ih => exact ih.trans subset_step

/-- What lies within a number of steps lies within every greater one. -/
theorem within_le (hnm : n ≤ m) : h.within n B ⊆ h.within m B := by
  obtain ⟨k, rfl⟩ := Nat.exists_eq_add_of_le hnm
  rw [within_add]
  exact subset_within

/-- The frontier belongs to what was reached, for it was reached last. -/
theorem frontier_subset_within : h.frontier n B ⊆ h.within n B := by
  cases n with
  | zero => exact Set.Subset.rfl
  | succ n => exact Set.sdiff_subset

/-- The next generation is above the frontier: nothing new is above the rest. -/
theorem step_within : h.step (h.within n B) = h.step (h.frontier n B) ∪ h.within n B := by
  refine Set.Subset.antisymm ?_ (Set.union_subset (step_mono frontier_subset_within) subset_step)
  intro c hc
  rcases hc with hc | ⟨d, hd, hc⟩
  · exact .inr hc
  · cases n with
    | zero => exact .inl (mem_step_of_parent hd hc)
    | succ n =>
        by_cases hold : d ∈ h.within n B
        · exact .inr (mem_step_of_parent hold hc)
        · exact .inl (mem_step_of_parent ⟨hd, hold⟩ hc)

/-- Going on from the frontier. -/
theorem within_frontier (n m : Nat) (B : Set κ) :
    h.within m (h.frontier n B) ∪ h.within n B = h.within (n + m) B := by
  induction m with
  | zero => exact Set.union_eq_self_of_subset_left frontier_subset_within
  | succ m ih =>
      calc h.within (m + 1) (h.frontier n B) ∪ h.within n B
          = h.step (h.within m (h.frontier n B)) ∪
              (h.step (h.frontier n B) ∪ h.within n B) := by
            rw [← Set.union_assoc, Set.union_eq_self_of_subset_right
              (step_mono (subset_within (n := m)))]
            rfl
        _ = h.step (h.within m (h.frontier n B) ∪ h.within n B) := by
            rw [← step_within, step_union]
        _ = h.within (n + (m + 1)) B := by rw [ih]; rfl

/-- Finitely many commits reach finitely many, since every commit has finitely many parents. -/
theorem finite_within (hB : B.Finite) : (h.within n B).Finite := by
  induction n with
  | zero => exact hB
  | succ n ih =>
      refine ih.union ((ih.biUnion fun d _ => (h.parents d).finite_toSet).subset ?_)
      rintro c ⟨d, hd, hc⟩
      exact Set.mem_biUnion hd hc

/-- Within any number of steps lie ancestors only. -/
theorem within_subset_ancestors : h.within n B ⊆ h.ancestors B := fun _ hc => ⟨n, hc⟩

/-- What is above ancestors are ancestors. -/
theorem within_ancestors (hA : A ⊆ h.ancestors B) : h.within n A ⊆ h.ancestors B := by
  induction n with
  | zero => exact hA
  | succ n ih =>
      intro c hc
      rcases hc with hc | ⟨d, hd, hc⟩
      · exact ih hc
      · obtain ⟨k, hk⟩ := ih hd
        exact ⟨k + 1, mem_step_of_parent hk hc⟩

/-- Nothing is above commits without parents. -/
theorem ancestors_of_no_parents (hB : ∀ c ∈ B, h.parents c = []) : h.ancestors B = B := by
  have hwithin : ∀ n, h.within n B = B := by
    intro n
    induction n with
    | zero => rfl
    | succ n ih =>
        refine (congrArg h.step ih).trans (Set.Subset.antisymm ?_ subset_step)
        rintro c (hc | ⟨d, hd, hc⟩)
        · exact hc
        · rw [hB d hd] at hc
          cases hc
  refine Set.Subset.antisymm ?_ (within_subset_ancestors (n := 0))
  rintro c ⟨n, hc⟩
  rwa [hwithin] at hc

end History

/-! ### Shallow repositories -/

/-- A repository that holds a part of a history. The parents of a commit at the cut are not
known to it, and all others are there. -/
structure Shallow {κ : Type} (h : History κ) where
  head : κ
  fetchHead : Option κ
  has : Set κ
  cut : Set κ
  head_mem : head ∈ has
  cut_subset : cut ⊆ has
  closed : ∀ c ∈ has, c ∉ cut → ∀ p ∈ h.parents c, p ∈ has
  finite : has.Finite

namespace Shallow

open History

variable {κ : Type} {h : History κ}

open Classical in
/-- The history as the repository sees it. -/
noncomputable def visible (r : Shallow h) : History κ :=
  ⟨fun c => if c ∈ r.cut then [] else h.parents c⟩

/-- The number of commits that can be reached from `HEAD`. -/
noncomputable def held (r : Shallow h) : Nat := (r.visible.ancestors {r.head}).ncard

/-- `FETCH_HEAD~n`. -/
noncomputable def resolve (r : Shallow h) (n : Nat) : Option κ :=
  r.fetchHead.bind (r.visible.firstParent n)

/-- The part of the cut that is in the history of a commit. -/
def boundary (r : Shallow h) (tip : κ) : Set κ := r.cut ∩ h.ancestors {tip}

/-- Fetch the `n` next generations of the history of a commit. The cut moves to the last of
them, also where the repository knew the parents of its commits. -/
def deepen (r : Shallow h) (n : Nat) (tip : κ) : Shallow h where
  head := r.head
  fetchHead := some tip
  has := r.has ∪ h.within n (r.boundary tip)
  cut := (r.cut \ r.boundary tip) ∪ h.frontier n (r.boundary tip)
  head_mem := .inl r.head_mem
  cut_subset := by
    intro c hc
    rcases hc with hc | hc
    · exact .inl (r.cut_subset hc.1)
    · exact .inr (frontier_subset_within hc)
  closed := by
    intro c hc hcut p hp
    have hfetched : c ∈ h.within n (r.boundary tip) → p ∈ h.within n (r.boundary tip) := by
      intro hc
      cases n with
      | zero => exact absurd (.inr hc) hcut
      | succ n => exact mem_step_of_parent (by_contra fun hold => hcut (.inr ⟨hc, hold⟩)) hp
    by_cases hold : c ∈ h.within n (r.boundary tip)
    · exact .inr (hfetched hold)
    · have hc : c ∈ r.has := hc.resolve_right hold
      have hnot : c ∉ r.cut := fun h => hcut (.inl ⟨h, fun hb => hold (subset_within hb)⟩)
      exact .inl (r.closed c hc hnot p hp)
  finite := r.finite.union (finite_within ((r.finite.subset r.cut_subset).subset
    Set.inter_subset_left))

/-- Fetch one commit without its parents. -/
def fetched (r : Shallow h) (tip : κ) : Shallow h where
  head := r.head
  fetchHead := some tip
  has := insert tip r.has
  cut := insert tip r.cut
  head_mem := .inr r.head_mem
  cut_subset := Set.insert_subset_insert r.cut_subset
  closed := by
    intro c hc hcut p hp
    rcases hc with rfl | hc
    · exact absurd (.inl rfl) hcut
    · exact .inr (r.closed c hc (fun h => hcut (.inr h)) p hp)
  finite := r.finite.insert tip

/-- The repository after some rounds of deepening. -/
def deepened (r : Shallow h) (n : Nat) (tip : κ) (k : Nat) : Shallow h :=
  (fun r => deepen r n tip)^[k] r

variable {r : Shallow h} {tip c d : κ} {n : Nat}

/-- One more deepening, unfolded at its last round. -/
theorem deepened_succ (r : Shallow h) (n : Nat) (tip : κ) (k : Nat) :
    r.deepened n tip (k + 1) = (r.deepened n tip k).deepen n tip :=
  Function.iterate_succ_apply' _ k r

/-- After a deepening the boundary is the frontier of the one before: the commits a deepening
fetched last are those whose parents are missing. -/
theorem boundary_deepen : (r.deepen n tip).boundary tip = h.frontier n (r.boundary tip) := by
  refine Set.Subset.antisymm ?_ ?_
  · intro c hc
    rcases hc.1 with hold | hnew
    · exact absurd ⟨hold.1, hc.2⟩ hold.2
    · exact hnew
  · intro c hc
    exact ⟨.inr hc, within_ancestors Set.inter_subset_right (frontier_subset_within hc)⟩

/-- The boundary after some rounds: all of the generation that is due, and nothing above it. -/
theorem boundary_deepened (r : Shallow h) (n : Nat) (tip : κ) (k : Nat) :
    h.frontier ((n + 1) * k) (r.boundary tip) ⊆ (r.deepened (n + 1) tip k).boundary tip ∧
      (r.deepened (n + 1) tip k).boundary tip ⊆ h.within ((n + 1) * k) (r.boundary tip) := by
  induction k with
  | zero => exact ⟨Set.Subset.rfl, Set.Subset.rfl⟩
  | succ k ih =>
      obtain ⟨hlow, hhigh⟩ := ih
      rw [deepened_succ, boundary_deepen]
      have hsum : (n + 1) * (k + 1) = (n + 1) * k + (n + 1) := Nat.mul_succ _ _
      constructor
      · intro c hc
        rw [hsum] at hc
        obtain ⟨hin, hout⟩ := hc
        refine ⟨?_, fun h => hout ?_⟩
        · -- The commit is above the last boundary, as it is not in the generations before.
          have hin' : c ∈ h.within ((n + 1) * k + (n + 1)) (r.boundary tip) := hin
          rw [← within_frontier] at hin'
          rcases hin' with hin' | hin'
          · exact within_mono hlow hin'
          · exact absurd (within_le (Nat.le_add_right _ n) hin') hout
        · have h' := within_mono (n := n) hhigh h
          rwa [← within_add] at h'
      · refine frontier_subset_within.trans ?_
        rw [hsum, within_add ((n + 1) * k) (n + 1)]
        exact within_mono hhigh

/-- What is there after some rounds of deepening. -/
theorem has_deepened (r : Shallow h) (n : Nat) (tip : κ) (k : Nat) :
    (r.deepened (n + 1) tip k).has = r.has ∪ h.within ((n + 1) * k) (r.boundary tip) := by
  induction k with
  | zero =>
      exact (Set.union_eq_self_of_subset_right
        (Set.inter_subset_left.trans r.cut_subset)).symm
  | succ k ih =>
      obtain ⟨hlow, hhigh⟩ := boundary_deepened r n tip k
      have hsum : (n + 1) * (k + 1) = (n + 1) * k + (n + 1) := Nat.mul_succ _ _
      rw [deepened_succ]
      show (r.deepened (n + 1) tip k).has ∪ _ = _
      rw [ih, hsum, Set.union_assoc]
      congr 1
      -- What a deepening fetch adds lies between the two bounds on the boundary.
      refine Set.Subset.antisymm (Set.union_subset (within_le (Nat.le_add_right _ _)) ?_) ?_
      · rw [within_add ((n + 1) * k) (n + 1)]
        exact within_mono hhigh
      · rw [← within_frontier]
        exact Set.union_subset ((within_mono hlow).trans Set.subset_union_right)
          Set.subset_union_left

/-! ### First parents -/

/-- The repository sees a first-parent ancestor where no commit on the way is at the cut. -/
theorem firstParent_visible : r.visible.firstParent n c = some d ↔
    h.firstParent n c = some d ∧ ∀ i < n, ∀ x, h.firstParent i c = some x → x ∉ r.cut := by
  induction n generalizing c with
  | zero => simp [firstParent]
  | succ n ih =>
      -- A cut commit has no visible parent, so nothing is above it.
      by_cases hc : c ∈ r.cut
      · have hnone : r.visible.firstParent (n + 1) c = none := by
          simp [firstParent, visible, hc]
        rw [hnone]
        constructor
        · intro hsees
          cases hsees
        · intro hall
          exact absurd hc (hall.2 0 (Nat.succ_pos n) c rfl)
      -- Everywhere else the parents are the true ones, and the rest of the way starts one commit
      -- up.
      · have hsame : r.visible.parents c = h.parents c := if_neg hc
        rw [firstParent, firstParent, hsame]
        cases hp : (h.parents c).head? with
        | none => simp
        | some p =>
            rw [Option.bind_some, Option.bind_some, ih]
            have hshift : ∀ i, h.firstParent (i + 1) c = h.firstParent i p := fun i => by
              rw [firstParent, hp, Option.bind_some]
            refine and_congr_right fun _ => ⟨fun hrest i hi x hx => ?_, fun hall i hi x hx => ?_⟩
            · cases i with
              | zero =>
                  cases hx
                  exact hc
              | succ i => exact hrest i (Nat.lt_of_succ_lt_succ hi) x (by rwa [← hshift])
            · exact hall (i + 1) (Nat.succ_lt_succ hi) x (by rwa [hshift])

/-- After a deepening fetch an ancestor resolves where no commit on the way is at the cut. -/
theorem resolve_deepen {m : Nat} : (r.deepen m tip).resolve n = some c ↔
    h.firstParent n tip = some c ∧
      ∀ i < n, ∀ x, h.firstParent i tip = some x → x ∉ (r.deepen m tip).cut := firstParent_visible

/-- After a fetch of the tip alone no ancestor resolves. -/
theorem resolve_fetched (hn : 0 < n) : (r.fetched tip).resolve n = none := by
  refine Option.eq_none_iff_forall_ne_some.mpr fun c hc => ?_
  have hpath := (firstParent_visible.mp hc).2 0 hn tip rfl
  exact hpath (.inl rfl)

end Shallow

end LeanCd
