import Mathlib.Data.List.Perm.Basic
import Mathlib.Data.List.Nodup

/-!
# `LeanCd.Lib.Grouping`: items handled group by group

A list is split by a key, each group is handled on its own, and some groups are put off
to a second pass. `flatMap_group_perm` says that the groups of all keys make up the list,
in whatever order the keys come. `deferred` are the groups that are put off, those with
something left to do. `flatMap_perm_iff` says when repeated keys make no difference, and
`length_flatMap_add_le` bounds two results by what each group bounds.

The statements are about permutations, as the order of the groups comes from a hash set. Where the
handling of a group may be put off, `deferred` keeps the group under its key, so that the second
pass sees each key at most once.

Nothing here names the controller.
-/

set_option autoImplicit false

namespace LeanCd.Grouping

variable {κ α : Type}

/-- The groups of distinct keys that cover a list make up the list. -/
theorem flatMap_group_perm [DecidableEq κ] {key : α → κ} {keys : List κ} (hnodup : keys.Nodup)
    {l : List α}
    (hcover : ∀ a ∈ l, key a ∈ keys) :
    (keys.flatMap fun k => l.filter fun a => key a = k).Perm l := by
  induction keys generalizing l with
  | nil =>
      have hnil : l = [] := List.eq_nil_iff_forall_not_mem.mpr fun a ha =>
        List.not_mem_nil (hcover a ha)
      rw [hnil]
      exact .refl _
  | cons k rest ih =>
      obtain ⟨hk, hnodup⟩ := List.nodup_cons.mp hnodup
      -- The other groups are those of the items with another key.
      have hothers : (rest.flatMap fun k' => l.filter fun a => key a = k') =
          rest.flatMap fun k' => (l.filter fun a => !decide (key a = k)).filter
            fun a => key a = k' := by
        refine List.flatMap_congr ?_
        intro k' hk'
        rw [List.filter_filter]
        refine List.filter_congr ?_
        intro a _
        by_cases ha : key a = k'
        · have hne : k' ≠ k := fun heq => hk (heq ▸ hk')
          simp [ha, hne]
        · simp [ha]
      have hrest := ih hnodup (l := l.filter fun a => !decide (key a = k)) fun a ha => by
        obtain ⟨hmem, hne⟩ := List.mem_filter.mp ha
        exact (List.mem_cons.mp (hcover a hmem)).resolve_left (by simpa using hne)
      rw [List.flatMap_cons, hothers]
      exact (hrest.append_left _).trans (List.filter_append_perm _ l)

/-- Keys that contribute nothing may be left out. -/
theorem flatMap_filter_of_nil {f : κ → List α} {p : κ → Bool} (keys : List κ)
    (h : ∀ k ∈ keys, p k = false → f k = []) : (keys.filter p).flatMap f = keys.flatMap f := by
  induction keys with
  | nil => rfl
  | cons k rest ih =>
      have hrest := ih fun k' hk' => h k' (List.mem_cons_of_mem _ hk')
      cases hp : p k with
      | true => rw [List.filter_cons_of_pos hp, List.flatMap_cons, List.flatMap_cons, hrest]
      | false =>
          rw [List.filter_cons_of_neg (by simp [hp]), List.flatMap_cons,
            h k List.mem_cons_self hp, hrest, List.nil_append]

/-- What is found in a list of which one element fits does not depend on the order. -/
theorem find?_eq_of_perm {p : α → Bool} {l l' : List α} (hperm : l.Perm l')
    (hunique : ∀ a ∈ l, ∀ b ∈ l, p a → p b → a = b) : l.find? p = l'.find? p := by
  cases hfind : l.find? p with
  | none =>
      refine (List.find?_eq_none.mpr fun a ha => ?_).symm
      exact List.find?_eq_none.mp hfind a (hperm.mem_iff.mpr ha)
  | some a =>
      have ha := List.mem_of_find?_eq_some hfind
      cases hfind' : l'.find? p with
      | none =>
          exact absurd (List.find?_some hfind)
            (List.find?_eq_none.mp hfind' a (hperm.mem_iff.mp ha))
      | some b =>
          have hb := hperm.mem_iff.mpr (List.mem_of_find?_eq_some hfind')
          rw [hunique a ha b hb (List.find?_some hfind) (List.find?_some hfind')]

/-! ### Groups that are put off -/

/-- The groups with something left to do, under their keys. -/
def deferred (f : κ → List α) (keys : List κ) : List (κ × List α) :=
  (keys.map fun k => (k, f k)).filter fun group => !group.2.isEmpty

/-- A key that was put off is found with its whole group, and any other key with nothing. -/
theorem lookup_deferred [DecidableEq κ] (f : κ → List α) (keys : List κ) (k : κ) :
    ((deferred f keys).lookup k).getD [] = if k ∈ keys then f k else [] := by
  induction keys with
  | nil => rfl
  | cons k' rest ih =>
      rw [deferred, List.map_cons, List.filter_cons]
      by_cases hk : k = k'
      -- The key that is asked for comes first. Its group is there unless it is empty.
      · subst hk
        rw [if_pos List.mem_cons_self]
        cases hf : f k with
        | nil =>
            rw [if_neg (by simp)]
            refine ih.trans ?_
            rw [hf]
            exact ite_self []
        | cons a as =>
            rw [if_pos (by simp), List.lookup_cons, beq_self_eq_true]
            rfl
      -- Another key comes first, and the entry of that one is passed over.
      · have hne : (k == k') = false := beq_eq_false_iff_ne.mpr hk
        rw [show (if k ∈ k' :: rest then f k else []) = if k ∈ rest then f k else [] by
          simp [hk]]
        split
        · rw [List.lookup_cons, hne]
          exact ih
        · exact ih

/-- The keys that are put off are those asked about whose group is not empty, each of them once. -/
theorem mem_keys_deferred {f : κ → List α} {keys : List κ} {k : κ} :
    k ∈ (deferred f keys).map (·.1) ↔ k ∈ keys ∧ f k ≠ [] := by
  simp only [deferred, List.mem_map, List.mem_filter]
  constructor
  · rintro ⟨_, ⟨⟨k', hk', rfl⟩, hne⟩, rfl⟩
    exact ⟨hk', by simpa using hne⟩
  · rintro ⟨hk, hne⟩
    exact ⟨_, ⟨⟨k, hk, rfl⟩, by simpa using hne⟩, rfl⟩

/-- A list and its elements without repetitions stand for the same items, in some order,
exactly when no element that stands for an item is repeated. -/
theorem flatMap_perm_iff [BEq κ] [LawfulBEq κ] {keys distinct : List κ} (hnodup : distinct.Nodup)
    (hmem : ∀ k, k ∈ distinct ↔ k ∈ keys) (f : κ → List α) :
    (keys.flatMap f).Perm (distinct.flatMap f) ↔
      ∀ k ∈ keys, f k ≠ [] → keys.count k = 1 := by
  -- The repetitions are what is left of the list behind its distinct elements.
  obtain ⟨more, hmore⟩ : ∃ more, keys.Perm (distinct ++ more) := by
    obtain ⟨l, hl, hsub⟩ := List.subperm_of_subset hnodup fun k hk => (hmem k).mp hk
    obtain ⟨more, hperm⟩ := hsub.exists_perm_append
    exact ⟨more, hperm.trans (hl.append_right more)⟩
  have hcount : ∀ k ∈ keys, keys.count k = 1 ↔ k ∉ more := by
    intro k hk
    have hone : distinct.count k = 1 := List.count_eq_one_of_mem hnodup ((hmem k).mpr hk)
    have hsplit : keys.count k = distinct.count k + more.count k := by
      rw [hmore.count_eq, List.count_append]
    rw [hsplit, hone, Nat.add_eq_left, List.count_eq_zero]
  have hitems : (keys.flatMap f).Perm (distinct.flatMap f ++ more.flatMap f) := by
    rw [← List.flatMap_append]
    exact hmore.flatMap_right f
  constructor
  · intro hperm k hk hitem
    rw [hcount k hk]
    intro hrepeated
    have hlength : (more.flatMap f).length = 0 := by
      have h := hperm.symm.trans hitems |>.length_eq
      rw [List.length_append] at h
      omega
    have hnone := List.flatMap_eq_nil_iff.mp (List.length_eq_zero_iff.mp hlength)
    exact hitem (hnone k hrepeated)
  · intro h
    have hnone : more.flatMap f = [] := by
      apply List.flatMap_eq_nil_iff.mpr
      intro k hk
      have hkeys : k ∈ keys := hmore.mem_iff.mpr (List.mem_append_right distinct hk)
      by_contra hitem
      exact (hcount k hkeys).mp (h k hkeys hitem) hk
    simpa [hnone] using hitems

/-- What is bounded group by group is bounded. -/
theorem length_flatMap_add_le {β γ : Type} {f : κ → List α} {g : κ → List β} {h : κ → List γ}
    (hle : ∀ k, (f k).length + (g k).length ≤ (h k).length) (keys : List κ) :
    (keys.flatMap f).length + (keys.flatMap g).length ≤ (keys.flatMap h).length := by
  induction keys with
  | nil => simp
  | cons k rest ih =>
      have hk := hle k
      simp only [List.flatMap_cons, List.length_append]
      omega

end LeanCd.Grouping
