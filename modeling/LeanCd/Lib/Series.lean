import Mathlib.Data.List.AList

/-!
# `LeanCd.Lib.Series`: numbers reported under distinct keys

`total` is the sum of all series, and `total_insert_add` says what adding to one of them does to
it. `lookup_insertAll` and `lookup_rebuild` read a map back whose series are set one after the
other.

A counter with labels is a map from labels to numbers. A gauge that is rebuilt starts from the
empty map, so that labels which are gone are gone from the report too.

Nothing here names the controller.
-/

set_option autoImplicit false

namespace LeanCd.Series

variable {κ ν α : Type} [DecidableEq κ]

/-- The sum of all series. -/
def total (m : AList fun _ : κ => Nat) : Nat := m.entries.foldr (fun e n => e.2 + n) 0

omit [DecidableEq κ] in
/-- An empty series adds up to nothing. -/
@[simp] theorem total_empty : total (∅ : AList fun _ : κ => Nat) = 0 := rfl

/-- A series and the others make up the total. -/
theorem lookup_add_kerase (k : κ) (l : List (Sigma fun _ : κ => Nat)) :
    (l.dlookup k).getD 0 + (l.kerase k).foldr (fun e n => e.2 + n) 0 =
      l.foldr (fun e n => e.2 + n) 0 := by
  induction l with
  | nil => rfl
  | cons e rest ih =>
      by_cases he : k = e.1
      · subst he
        rw [List.dlookup_cons_eq, List.kerase_cons_eq rfl]
        rfl
      · rw [List.dlookup_cons_ne rest e he, List.kerase_cons_ne he]
        simp only [List.foldr_cons]
        omega

/-- What is added to one series is added to the total. -/
theorem total_insert_add (m : AList fun _ : κ => Nat) (k : κ) (n : Nat) :
    total (m.insert k ((m.lookup k).getD 0 + n)) = total m + n := by
  have hsum := lookup_add_kerase k m.entries
  unfold total
  rw [AList.entries_insert, List.foldr_cons]
  show (m.entries.dlookup k).getD 0 + n + _ = _
  omega

/-- Series that are set one after the other, under distinct keys, hold what they were set to. -/
theorem lookup_insertAll {f : α → κ} {v : α → ν} {l : List α} (hnodup : (l.map f).Nodup)
    (base : AList fun _ : κ => ν) (k : κ) :
    (l.foldl (fun m a => m.insert (f a) (v a)) base).lookup k =
      ((l.find? fun a => f a = k).map v).or (base.lookup k) := by
  induction l generalizing base with
  | nil => rfl
  | cons a rest ih =>
      rw [List.map_cons, List.nodup_cons] at hnodup
      rw [List.foldl_cons, ih hnodup.2]
      by_cases ha : f a = k
      · subst ha
        have hnone : rest.find? (fun b => f b = f a) = none := by
          rw [List.find?_eq_none]
          intro b hb heq
          exact hnodup.1 (List.mem_map.mpr ⟨b, hb, of_decide_eq_true heq⟩)
        rw [hnone, AList.lookup_insert, List.find?_cons_of_pos (by simp)]
        rfl
      · rw [AList.lookup_insert_ne (Ne.symm ha), List.find?_cons_of_neg (by simpa using ha)]

/-- A map that is set to the series of another one is that map. -/
theorem lookup_rebuild (m : AList fun _ : κ => ν) (k : κ) :
    (m.entries.foldl (fun t e => t.insert e.1 e.2) (∅ : AList fun _ : κ => ν)).lookup k =
      m.lookup k := by
  have hnodup : (m.entries.map Sigma.fst).Nodup := m.nodupKeys
  rw [lookup_insertAll hnodup, AList.lookup_empty, Option.or_none]
  show _ = m.entries.dlookup k
  induction m.entries with
  | nil => rfl
  | cons e rest ih =>
      by_cases he : k = e.1
      · subst he
        rw [List.dlookup_cons_eq, List.find?_cons_of_pos (by simp)]
        rfl
      · rw [List.dlookup_cons_ne rest e he, List.find?_cons_of_neg (by simpa using Ne.symm he)]
        exact ih

end LeanCd.Series
