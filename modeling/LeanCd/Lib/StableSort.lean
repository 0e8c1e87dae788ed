import Mathlib.Data.List.Sort

/-!
# `LeanCd.Lib.StableSort`: stable sorting by a key

`StableSort key l s`: `s` is `l` sorted by `key`, and elements of one key stand in `s`
in the order they have in `l`. A list has exactly one stable sort
(`stableSort_iff_eq_insertionSort`), which insertion sort computes. Where no two
elements have one key, it does not depend on the order of the list (`StableSort.of_perm`).

The uniqueness is by induction on the sorted list: its first element is the first one of least
key. Nothing is assumed of the elements but that their keys are in a linear order.

Nothing here names the controller.
-/

set_option autoImplicit false

namespace LeanCd

variable {α κ : Type} [LinearOrder κ] {key : α → κ}

/-- `s` is the list `l`, stably sorted by `key`. -/
structure StableSort (key : α → κ) (l s : List α) : Prop where
  perm : s.Perm l
  sorted : s.Pairwise fun a b => key a ≤ key b
  stable : ∀ k, s.filter (key · = k) = l.filter (key · = k)

/-- Two sorted lists that hold the same elements of each key are equal. -/
theorem eq_of_sorted_of_filter {s s' : List α} (hs : s.Pairwise fun a b => key a ≤ key b)
    (hs' : s'.Pairwise fun a b => key a ≤ key b)
    (h : ∀ k, s.filter (key · = k) = s'.filter (key · = k)) : s = s' := by
  induction s generalizing s' with
  | nil =>
      cases s' with
      | nil => rfl
      | cons b rest' => simpa using h (key b)
  | cons a rest ih =>
      cases s' with
      | nil => simpa using h (key a)
      | cons b rest' =>
          obtain ⟨ha, hrest⟩ := List.pairwise_cons.mp hs
          obtain ⟨hb, hrest'⟩ := List.pairwise_cons.mp hs'
          -- Both heads have the least key, so the elements of that key begin with them.
          have hmem : ∀ x, x ∈ a :: rest ↔ x ∈ b :: rest' := fun x => by
            simpa using congrArg (x ∈ ·) (h (key x))
          have hab : key a ≤ key b := by
            rcases List.mem_cons.mp ((hmem b).mpr List.mem_cons_self) with heq | hbmem
            · rw [heq]
            · exact ha b hbmem
          have hba : key b ≤ key a := by
            rcases List.mem_cons.mp ((hmem a).mp List.mem_cons_self) with heq | hamem
            · rw [heq]
            · exact hb a hamem
          have hkey : key a = key b := le_antisymm hab hba
          have hhead : a = b ∧ rest.filter (key · = key b) = rest'.filter (key · = key b) := by
            simpa [List.filter_cons, hkey] using h (key b)
          obtain ⟨rfl, hsame⟩ := hhead
          rw [ih hrest hrest' fun k => ?_]
          by_cases hk : key a = k
          · rw [← hk]
            exact hsame
          · simpa [List.filter_cons, hk] using h k

/-- A list has one stable sort. The groups of equal keys are in the order of the list, and the keys
ascend, which leaves no choice. -/
theorem StableSort.unique {l s s' : List α} (h : StableSort key l s) (h' : StableSort key l s') :
    s = s' :=
  eq_of_sorted_of_filter h.sorted h'.sorted fun k => (h.stable k).trans (h'.stable k).symm

section InsertionSort

variable {r : α → α → Prop} [DecidableRel r] (hr : ∀ a b, r a b ↔ key a ≤ key b)
include hr

/-- Insertion sort is stable, because an element is inserted before those that are not less. -/
theorem stableSort_insertionSort (l : List α) : StableSort key l (l.insertionSort r) := by
  have htotal : Std.Total r := ⟨fun a b => by simpa only [hr] using le_total (key a) (key b)⟩
  have htrans : IsTrans α r := ⟨fun a b c hab hbc => by
    rw [hr] at hab hbc ⊢
    exact hab.trans hbc⟩
  have hperm := List.perm_insertionSort r l
  refine ⟨hperm, (List.pairwise_insertionSort r l).imp (hr _ _).mp, fun k => ?_⟩
  -- The elements of one key are sorted as they stand, so the sort keeps them in this order.
  have hclass : (l.filter (key · = k)).Pairwise r := by
    refine List.pairwise_iff_forall_sublist.mpr fun {a b} hab => (hr a b).mpr ?_
    have ha := List.of_mem_filter (hab.subset List.mem_cons_self)
    have hb := List.of_mem_filter (hab.subset (List.mem_cons_of_mem a List.mem_cons_self))
    rw [of_decide_eq_true ha, of_decide_eq_true hb]
  have hsub := (List.sublist_insertionSort hclass List.filter_sublist).filter (key · = k)
  rw [List.filter_filter] at hsub
  simp only [Bool.and_self] at hsub
  exact (hsub.eq_of_length (hperm.filter _).length_eq.symm).symm

/-- Insertion sort computes the stable sort, and there is no other. -/
theorem stableSort_iff_eq_insertionSort {l s : List α} :
    StableSort key l s ↔ s = l.insertionSort r :=
  ⟨fun h => h.unique (stableSort_insertionSort hr l),
    fun h => h ▸ stableSort_insertionSort hr l⟩

end InsertionSort

/-- With one element a key the order of the list does not matter. -/
theorem StableSort.of_perm {l l' s : List α} (h : StableSort key l s) (hperm : l'.Perm l)
    (hnodup : (l.map key).Nodup) : StableSort key l' s := by
  refine ⟨h.perm.trans hperm.symm, h.sorted, fun k => ?_⟩
  rw [h.stable k]
  -- A class has at most one element, and the same ones in both lists.
  have hshort : (l.filter (key · = k)).length ≤ 1 := by
    have hclass : ((l.filter (key · = k)).map key).Nodup :=
      hnodup.sublist (List.filter_sublist.map key)
    have hconst : (l.filter (key · = k)).map key =
        List.replicate (l.filter (key · = k)).length k :=
      List.map_eq_replicate_iff.mpr fun a ha => by simpa using (List.mem_filter.mp ha).2
    rw [hconst] at hclass
    exact List.nodup_replicate.mp hclass
  have hsame := (hperm.filter (key · = k)).symm
  cases hl : l.filter (key · = k) with
  | nil =>
      rw [hl] at hsame
      exact (List.nil_perm.mp hsame).symm
  | cons a rest =>
      rw [hl] at hshort hsame
      have hrest : rest = [] := List.length_eq_zero_iff.mp (by simpa using hshort)
      subst hrest
      exact List.singleton_perm.mp hsame

end LeanCd
