import Mathlib.Data.List.Induction
import Mathlib.Logic.Function.Basic

/-!
# `LeanCd.Lib.Reflector`: the map a watch stream describes

A watch stream tells of single objects that were written or deleted, and now and then
lists them all again between an opening and a closing event. `Reflector` is the map the
stream describes, over any keys and values: the map itself, and the one a list that is
still open builds up.

`map_run_done` says what a relist does, whatever interrupted lists came before: the map
is the last value listed for each key since the list was opened.

A store that refines a `Reflector` may keep less than the map. It is compared with the map event
by event, and `map_run_done` then says what it answers after a relist.

Nothing here names the controller.
-/

set_option autoImplicit false

namespace LeanCd

/-- An event of a watch stream. -/
inductive StreamEvent (K V : Type) where
  | write (k : K) (v : V)
  | delete (k : K)
  | openList
  | listed (k : K) (v : V)
  | closeList

/-- The value an event writes or lists under a key satisfies `P`. -/
def StreamEvent.Carries {K V : Type} (P : K → V → Prop) : StreamEvent K V → Prop
  | .write k v | .listed k v => P k v
  | .delete _ | .openList | .closeList => True

/-- The map of a stream, and the list that is open. -/
structure Reflector (K V : Type) where
  map : K → Option V
  listing : Option (K → Option V)

namespace Reflector

variable {K V : Type} [DecidableEq K]

/-- Nothing is known. -/
def empty : Reflector K V := ⟨fun _ => none, none⟩

/-- What an event changes. A list replaces the map when it closes. -/
def step (r : Reflector K V) : StreamEvent K V → Reflector K V
  | .write k v => { r with map := Function.update r.map k (some v) }
  | .delete k => { r with map := Function.update r.map k none }
  | .openList => { r with listing := some fun _ => none }
  | .listed k v => { r with listing := r.listing.map fun l => Function.update l k (some v) }
  | .closeList => ⟨r.listing.getD r.map, none⟩

/-- The map after a stream of events. -/
def run (r : Reflector K V) (evs : List (StreamEvent K V)) : Reflector K V := evs.foldl step r

/-- Every value of a map, and of the list that is open, satisfies `P`. -/
structure All (P : K → V → Prop) (r : Reflector K V) : Prop where
  map : ∀ k v, r.map k = some v → P k v
  listing : ∀ l, r.listing = some l → ∀ k v, l k = some v → P k v

omit [DecidableEq K] in
/-- The empty reflector holds nothing, so what it holds satisfies every condition. -/
theorem all_empty (P : K → V → Prop) : (empty : Reflector K V).All P := ⟨nofun, nofun⟩

/-- An update of a partial map keeps a condition on its values when the new value, if there is one,
satisfies it. -/
theorem forall_update {P : K → V → Prop} {l : K → Option V} (h : ∀ k v, l k = some v → P k v)
    {k : K} {value : Option V} (hnew : ∀ v, value = some v → P k v) :
    ∀ k' v, Function.update l k value k' = some v → P k' v := by
  intro k' v hv
  by_cases hk : k' = k
  · subst hk
    rw [Function.update_self] at hv
    exact hnew v hv
  · rw [Function.update_of_ne hk] at hv
    exact h k' v hv

/-- One event keeps a condition that everything the event carries satisfies. What a restart has
gathered is under the condition too, since it will be swapped in. -/
theorem All.step {P : K → V → Prop} {r : Reflector K V} (h : r.All P) {ev : StreamEvent K V}
    (hev : ev.Carries P) : (r.step ev).All P := by
  cases ev with
  | write k v => exact ⟨forall_update h.map fun _ hv => Option.some.inj hv ▸ hev, h.listing⟩
  | delete k => exact ⟨forall_update h.map nofun, h.listing⟩
  | openList => exact ⟨h.map, fun l hl => by cases hl; exact nofun⟩
  | listed k v =>
      refine ⟨h.map, fun l hl => ?_⟩
      obtain ⟨l', hl', rfl⟩ := Option.map_eq_some_iff.mp hl
      exact forall_update (h.listing l' hl') fun _ hv => Option.some.inj hv ▸ hev
  | closeList =>
      refine ⟨?_, nofun⟩
      show ∀ k v, r.listing.getD r.map k = some v → P k v
      cases hl : r.listing with
      | none => exact h.map
      | some l => exact h.listing l hl

/-- What a stream has written or listed is all the map has. -/
theorem All.run {P : K → V → Prop} {r : Reflector K V} (h : r.All P)
    {evs : List (StreamEvent K V)} (hevs : ∀ ev ∈ evs, ev.Carries P) : (r.run evs).All P := by
  induction evs generalizing r with
  | nil => exact h
  | cons ev rest ih =>
      exact ih (h.step (hevs ev List.mem_cons_self)) fun e he => hevs e (List.mem_cons_of_mem _ he)

/-- The value an event lists for a key. -/
def listedAt (k : K) : StreamEvent K V → Option V
  | .listed k' v => if k' = k then some v else none
  | _ => none

/-- The value listed last for a key. -/
def lastListed (evs : List (StreamEvent K V)) (k : K) : Option V :=
  evs.reverse.findSome? (listedAt k)

/-- An event that lists the key decides what was listed last. Otherwise that is as it was before the
event. -/
theorem lastListed_snoc (evs : List (StreamEvent K V)) (ev : StreamEvent K V) (k : K) :
    lastListed (evs ++ [ev]) k = (listedAt k ev).or (lastListed evs k) := by
  rw [lastListed, List.reverse_append, List.reverse_singleton, List.singleton_append,
    List.findSome?_cons]
  cases listedAt k ev <;> rfl

/-- The events of one list: no list is opened or closed. -/
def Uninterrupted (evs : List (StreamEvent K V)) : Prop :=
  ∀ ev ∈ evs, ev ≠ .openList ∧ ev ≠ .closeList

omit [DecidableEq K] in
/-- A stream of which an interruption was never seen has no interruption in its prefixes. -/
theorem Uninterrupted.of_snoc {evs : List (StreamEvent K V)} {ev : StreamEvent K V}
    (h : Uninterrupted (evs ++ [ev])) : Uninterrupted evs :=
  fun e he => h e (List.mem_append_left _ he)

/-- An open list holds the value listed last for each key. -/
theorem listing_run {r : Reflector K V} (hopen : r.listing = some fun _ => none)
    {evs : List (StreamEvent K V)} (h : Uninterrupted evs) :
    (r.run evs).listing = some (lastListed evs) := by
  induction evs using List.reverseRecOn with
  | nil => exact hopen
  | append_singleton evs ev ih =>
      have hlisting := ih h.of_snoc
      have hrun : r.run (evs ++ [ev]) = (r.run evs).step ev := by
        simp only [run, List.foldl_append, List.foldl_cons, List.foldl_nil]
      rw [hrun]
      cases ev with
      | openList => exact absurd rfl (h .openList (by simp)).1
      | closeList => exact absurd rfl (h .closeList (by simp)).2
      -- Single writes and deletes pass the open list by.
      | write k v =>
          refine hlisting.trans (congrArg some (funext fun k' => ?_))
          rw [lastListed_snoc]
          rfl
      | delete k =>
          refine hlisting.trans (congrArg some (funext fun k' => ?_))
          rw [lastListed_snoc]
          rfl
      | listed k v =>
          show (r.run evs).listing.map _ = _
          rw [hlisting]
          refine congrArg some (funext fun k' => ?_)
          rw [lastListed_snoc]
          by_cases hk : k' = k
          · subst hk
            simp [listedAt]
          · simp [listedAt, Function.update_of_ne hk, Ne.symm hk]

/-- A relist replaces the map by what was listed last for each key since it was opened. -/
theorem map_run_done (r : Reflector K V) (before : List (StreamEvent K V))
    {evs : List (StreamEvent K V)} (h : Uninterrupted evs) :
    (r.run (before ++ .openList :: evs ++ [.closeList])).map = lastListed evs := by
  have hsplit : r.run (before ++ .openList :: evs ++ [.closeList]) =
      (((r.run before).step .openList).run evs).step .closeList := by
    simp only [run, List.foldl_append, List.foldl_cons, List.foldl_nil]
  have hlisting : (((r.run before).step .openList).run evs).listing = some (lastListed evs) :=
    listing_run rfl h
  rw [hsplit]
  show (((r.run before).step .openList).run evs).listing.getD _ = _
  rw [hlisting, Option.getD_some]

end Reflector

end LeanCd
