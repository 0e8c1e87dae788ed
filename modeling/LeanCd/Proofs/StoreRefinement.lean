import LeanCd.Lib.Reflector
import LeanCd.Watch

/-!
# `LeanCd.Proofs.StoreRefinement`: the two tiers hold the map of the watch stream

A `LightweightStore` routes each object of a watch stream to one of two tiers, and does
the same in the two buffers of a relist. `refines_reflector`: after any events the tiers
are the map a `Reflector` keeps, split by the size of its objects. A small object is held
as it is, of a large one only the key is known, and no key is in both tiers.

The invariant is `Refines`: the tiers hold the map, and the buffers are open together and
hold the list.

A tier is a map of its own, so the invariant speaks of two maps and one. An object that grows
beyond the threshold moves from one tier to the other, and an object that is deleted leaves both.
The buffers of a relist are two more tiers, which the same lemmas are about.
-/

set_option autoImplicit false

namespace LeanCd

/-- The event of the map from names and namespaces to objects. -/
def WatchEvent.stream : WatchEvent → StreamEvent ObjKey DynamicObject
  | .apply o => .write (LightweightStore.keyOf o) o
  | .delete o => .delete (LightweightStore.keyOf o)
  | .init => .openList
  | .initApply o => .listed (LightweightStore.keyOf o) o
  | .initDone => .closeList

/-- The key of a named object is its name and its namespace. -/
theorem LightweightStore.keyOf_eq_iff {o : DynamicObject} {name : String}
    (hname : o.metadata.name = some name) {key : ObjKey} :
    keyOf o = key ↔ key = (name, o.metadata.ns) := by
  rw [keyOf, hname, Option.getD_some, eq_comm]

/-- Two named objects of a kind have one key exactly when they have one name and one namespace. -/
theorem LightweightStore.keyOf_inj {o o' : DynamicObject} (ho : o.metadata.name.isSome)
    (ho' : o'.metadata.name.isSome) :
    keyOf o = keyOf o' ↔ o.metadata.name = o'.metadata.name ∧ o.metadata.ns = o'.metadata.ns := by
  obtain ⟨name, hname⟩ := Option.isSome_iff_exists.mp ho
  obtain ⟨name', hname'⟩ := Option.isSome_iff_exists.mp ho'
  rw [keyOf_eq_iff hname, keyOf, hname', Option.getD_some, hname, Prod.mk.injEq,
    Option.some_inj, eq_comm, @eq_comm _ o'.metadata.ns]

/-- The two tiers hold a map: the objects up to the size in full, of the others the
keys. -/
structure Tiers.Hold (crate : KubeCrate) (maxBytes : Nat) (t : Tiers)
    (M : ObjKey → Option DynamicObject) : Prop where
  small : ∀ key, t.small.lookup key = (M key).filter fun o => crate.size o ≤ maxBytes
  large : ∀ key, key ∈ t.large ↔ ∃ o, M key = some o ∧ maxBytes < crate.size o

namespace Tiers.Hold

variable {crate : KubeCrate} {maxBytes : Nat} {t : Tiers} {M : ObjKey → Option DynamicObject}

/-- Empty tiers hold the empty map. -/
theorem empty : Tiers.empty.Hold crate maxBytes fun _ => none :=
  ⟨fun _ => rfl, fun _ => by simp [Tiers.empty]⟩

/-- An object is routed by its size, and leaves the tier it was in. -/
theorem put (h : t.Hold crate maxBytes M) (key : ObjKey) (o : DynamicObject) :
    (t.put key o (maxBytes < crate.size o)).Hold crate maxBytes
      (Function.update M key (some o)) := by
  unfold Tiers.put
  -- Over the limit the body goes into the large tier and leaves the small one.
  by_cases hsize : maxBytes < crate.size o
  · rw [if_pos (decide_eq_true hsize)]
    refine ⟨fun k => ?_, fun k => ?_⟩
    · by_cases hk : k = key
      · subst hk
        simp [Option.filter_some, hsize]
      · simp [AList.lookup_erase_ne hk, h.small, Function.update_of_ne hk]
    · by_cases hk : k = key
      · subst hk
        simp [hsize]
      · simp [h.large, hk]
  -- Within the limit it is the other way round.
  · rw [if_neg (by simpa using hsize)]
    refine ⟨fun k => ?_, fun k => ?_⟩
    · by_cases hk : k = key
      · subst hk
        simp [Option.filter_some, Nat.le_of_not_lt hsize]
      · simp [AList.lookup_insert_ne hk, h.small, Function.update_of_ne hk]
    · by_cases hk : k = key
      · subst hk
        simp [hsize]
      · simp [h.large, hk]

/-- To remove a key removes it from both tiers, so that the map loses it. -/
theorem remove (h : t.Hold crate maxBytes M) (key : ObjKey) :
    (t.remove key).Hold crate maxBytes (Function.update M key none) := by
  refine ⟨fun k => ?_, fun k => ?_⟩
  · by_cases hk : k = key
    · subst hk
      simp [Tiers.remove]
    · simp [Tiers.remove, AList.lookup_erase_ne hk, h.small, Function.update_of_ne hk]
  · by_cases hk : k = key
    · subst hk
      simp [Tiers.remove]
    · simp [Tiers.remove, h.large, hk]

end Tiers.Hold

namespace LightweightStore

variable {crate : KubeCrate} {s : LightweightStore} {r : Reflector ObjKey DynamicObject}

/-- The store after a sequence of events. -/
def run (crate : KubeCrate) (s : LightweightStore) (evs : List WatchEvent) : LightweightStore :=
  evs.foldl (applyEvent crate) s

/-- The buffers are closed, or they are open and hold the list. -/
def BuffersHold (crate : KubeCrate) (s : LightweightStore) :
    Option (ObjKey → Option DynamicObject) → Prop
  | none => s.bufSmall = none ∧ s.bufLarge = none
  | some listing => ∃ bs bl, s.bufSmall = some bs ∧ s.bufLarge = some bl ∧
      Tiers.Hold crate s.maxBytes ⟨bs, bl⟩ listing

/-- The store holds what the reflector does. -/
structure Refines (crate : KubeCrate) (s : LightweightStore)
    (r : Reflector ObjKey DynamicObject) : Prop where
  tiers : s.tiers.Hold crate s.maxBytes r.map
  buffers : BuffersHold crate s r.listing

/-- A new store refines the empty reflector. -/
theorem refines_new (crate : KubeCrate) (maxBytes : Nat) :
    Refines crate (new maxBytes) .empty := ⟨.empty, rfl, rfl⟩

/-- An event does not change the threshold. -/
@[simp] theorem maxBytes_applyEvent (crate : KubeCrate) (s : LightweightStore)
    (ev : WatchEvent) : (s.applyEvent crate ev).maxBytes = s.maxBytes := by
  cases ev with
  | apply | delete | init => rfl
  | initApply | initDone =>
      unfold applyEvent
      dsimp only
      split <;> rfl

/-- Every event does to the store what it does to the reflector. -/
theorem Refines.applyEvent (h : Refines crate s r) (ev : WatchEvent) :
    Refines crate (s.applyEvent crate ev) (r.step ev.stream) := by
  cases ev with
  | apply o => exact ⟨h.tiers.put (keyOf o) o, h.buffers⟩
  | delete o => exact ⟨h.tiers.remove (keyOf o), h.buffers⟩
  -- A new list forgets what an interrupted one has buffered.
  | init => exact ⟨h.tiers, ∅, [], rfl, rfl, .empty⟩
  | initApply o =>
      obtain ⟨map, listing⟩ := r
      have hbuffers := h.buffers
      cases listing with
      | none =>
          obtain ⟨hsmall, hlarge⟩ := hbuffers
          simp only [LightweightStore.applyEvent, hsmall]
          exact ⟨h.tiers, hsmall, hlarge⟩
      | some listing =>
          obtain ⟨bs, bl, hsmall, hlarge, hhold⟩ := hbuffers
          simp only [LightweightStore.applyEvent, hsmall, hlarge]
          exact ⟨h.tiers, _, _, rfl, rfl, hhold.put (keyOf o) o⟩
  | initDone =>
      obtain ⟨map, listing⟩ := r
      have hbuffers := h.buffers
      cases listing with
      | none =>
          obtain ⟨hsmall, hlarge⟩ := hbuffers
          simp only [LightweightStore.applyEvent, hsmall]
          exact ⟨h.tiers, rfl, rfl⟩
      | some listing =>
          obtain ⟨bs, bl, hsmall, hlarge, hhold⟩ := hbuffers
          simp only [LightweightStore.applyEvent, hsmall, hlarge]
          exact ⟨hhold, rfl, rfl⟩

/-- Any number of events keep the refinement, by induction along them. -/
theorem Refines.run (h : Refines crate s r) (evs : List WatchEvent) :
    Refines crate (s.run crate evs) (r.run (evs.map WatchEvent.stream)) := by
  induction evs generalizing s r with
  | nil => exact h
  | cons ev rest ih => exact ih (h.applyEvent ev)

/-- Nor do any number of events change the threshold. -/
theorem maxBytes_run (crate : KubeCrate) (s : LightweightStore) (evs : List WatchEvent) :
    (s.run crate evs).maxBytes = s.maxBytes := by
  induction evs generalizing s with
  | nil => rfl
  | cons ev rest ih => exact (ih (s.applyEvent crate ev)).trans (maxBytes_applyEvent crate s ev)

/-- A store as its watch driver leaves it: some events after it was made. -/
def Filled (crate : KubeCrate) (s : LightweightStore) : Prop :=
  ∃ maxBytes evs, s = (new maxBytes).run crate evs

/-! ### What the tiers say -/

/-- The store answers as the map does, with its objects split by size, and holds nothing
else. -/
structure Serves (crate : KubeCrate) (maxBytes : Nat) (s : LightweightStore)
    (M : ObjKey → Option DynamicObject) : Prop where
  absent : ∀ key, s.tierOf key = .absent ↔ M key = none
  small : ∀ key, s.tierOf key = .small ↔ ∃ o, M key = some o ∧ crate.size o ≤ maxBytes
  body : ∀ key, s.tierOf key = .small → s.smallGet key = M key
  large : ∀ key, s.tierOf key = .large ↔ ∃ o, M key = some o ∧ maxBytes < crate.size o
  disjoint : ∀ key, (s.tiers.small.lookup key).isSome → key ∉ s.tiers.large
  bounded : ∀ key o, s.smallGet key = some o → crate.size o ≤ maxBytes
  bufBounded : ∀ bs, s.bufSmall = some bs → ∀ key o, bs.lookup key = some o →
    crate.size o ≤ maxBytes
  buffers : s.bufSmall.isSome = s.bufLarge.isSome

/-- A key is in the tier of its object. -/
theorem tierOf_of_hold {maxBytes : Nat} {M : ObjKey → Option DynamicObject}
    (h : s.tiers.Hold crate maxBytes M) (key : ObjKey) :
    s.tierOf key =
      match M key with
      | none => .absent
      | some o => if crate.size o ≤ maxBytes then .small else .large := by
  unfold tierOf
  rw [h.small key]
  cases hM : M key with
  | none =>
      have hlarge : key ∉ s.tiers.large := fun hmem => by
        obtain ⟨o, ho, -⟩ := (h.large key).mp hmem
        rw [hM] at ho
        cases ho
      simp [hlarge]
  | some o =>
      by_cases hsize : crate.size o ≤ maxBytes
      · simp [hsize]
      · have hlarge : key ∈ s.tiers.large := (h.large key).mpr ⟨o, hM, Nat.lt_of_not_le hsize⟩
        simp [hsize, hlarge]

/-- The small tier holds an object in full when it is no larger than the threshold. -/
theorem smallGet_of_hold {maxBytes : Nat} {M : ObjKey → Option DynamicObject}
    (h : s.tiers.Hold crate maxBytes M) (key : ObjKey) :
    s.smallGet key = (M key).filter fun o => crate.size o ≤ maxBytes := h.small key

/-- A body is held under its own name and namespace. -/
theorem Filled.keyOf_eq (h : s.Filled crate) {key : ObjKey} {o : DynamicObject}
    (ho : s.smallGet key = some o) : keyOf o = key := by
  obtain ⟨maxBytes, evs, rfl⟩ := h
  have hkeyed : ∀ ev ∈ evs.map WatchEvent.stream, ev.Carries fun key o => keyOf o = key := by
    refine List.forall_mem_map.mpr ?_
    intro ev _
    cases ev <;> first | rfl | trivial
  rw [smallGet_of_hold ((refines_new crate maxBytes).run evs).tiers,
    Option.filter_eq_some_iff] at ho
  exact ((Reflector.all_empty _).run hkeyed).map key o ho.1

/-- A store that refines a reflector serves its map: whole objects below the threshold, and keys
above it. -/
theorem Refines.serves (h : Refines crate s r) : Serves crate s.maxBytes s r.map where
  -- Each clause follows from what the tiers hold of the map, by the size of the body.
  absent key := by
    rw [tierOf_of_hold h.tiers]
    cases r.map key with
    | none => simp
    | some o => by_cases hsize : crate.size o ≤ s.maxBytes <;> simp [hsize]
  small key := by
    rw [tierOf_of_hold h.tiers]
    cases r.map key with
    | none => simp
    | some o => by_cases hsize : crate.size o ≤ s.maxBytes <;> simp [hsize]
  body key hsmall := by
    rw [tierOf_of_hold h.tiers] at hsmall
    rw [smallGet_of_hold h.tiers]
    cases hM : r.map key with
    | none => rfl
    | some o =>
        rw [hM] at hsmall
        by_cases hsize : crate.size o ≤ s.maxBytes
        · simp [hsize]
        · simp [hsize] at hsmall
  large key := by
    rw [tierOf_of_hold h.tiers]
    cases r.map key with
    | none => simp
    | some o => by_cases hsize : crate.size o ≤ s.maxBytes <;> simp [hsize, Nat.lt_of_not_le]
  -- A key in both tiers would have a body within the limit and over it.
  disjoint key hsome hmem := by
    obtain ⟨o, ho, hlarge⟩ := (h.tiers.large key).mp hmem
    rw [h.tiers.small key, ho] at hsome
    simp [Nat.not_le.mpr hlarge] at hsome
  bounded key o ho := by
    rw [smallGet_of_hold h.tiers, Option.filter_eq_some_iff] at ho
    exact of_decide_eq_true ho.2
  -- A buffer is there only while a list is being received.
  bufBounded bs hbs key o ho := by
    have hbuffers := h.buffers
    cases hlisting : r.listing with
    | none =>
        rw [hlisting] at hbuffers
        rw [hbuffers.1] at hbs
        cases hbs
    | some listing =>
        rw [hlisting] at hbuffers
        obtain ⟨bs', bl, hsmall, -, hhold⟩ := hbuffers
        cases hsmall.symm.trans hbs
        have hbody := (hhold.small key).symm.trans ho
        rw [Option.filter_eq_some_iff] at hbody
        exact of_decide_eq_true hbody.2
  buffers := by
    have hbuffers := h.buffers
    cases hlisting : r.listing with
    | none =>
        rw [hlisting] at hbuffers
        rw [hbuffers.1, hbuffers.2]
        rfl
    | some listing =>
        rw [hlisting] at hbuffers
        obtain ⟨bs, bl, hsmall, hlarge, -⟩ := hbuffers
        rw [hsmall, hlarge]
        rfl

/-- After any events, a store of any size bound answers as the map of the stream does. -/
theorem refines_reflector (crate : KubeCrate) (maxBytes : Nat) (evs : List WatchEvent) :
    Serves crate maxBytes ((new maxBytes).run crate evs)
      (Reflector.empty.run (evs.map WatchEvent.stream)).map := by
  have hserves := ((refines_new crate maxBytes).run evs).serves
  rwa [maxBytes_run] at hserves

/-- A relist drops what it does not list: after it, a key that was not listed is absent. -/
theorem absent_after_relist (crate : KubeCrate) (maxBytes : Nat) (before : List WatchEvent)
    {evs : List WatchEvent} (h : ∀ ev ∈ evs, ev ≠ .init ∧ ev ≠ .initDone) (key : ObjKey) :
    ((new maxBytes).run crate (before ++ .init :: evs ++ [.initDone])).tierOf key = .absent ↔
      ∀ o, .initApply o ∈ evs → keyOf o ≠ key := by
  -- Between the two marks of the list nothing else begins or ends one.
  have hstream : Reflector.Uninterrupted (evs.map WatchEvent.stream) := by
    intro e he
    obtain ⟨ev, hev, rfl⟩ := List.mem_map.mp he
    cases ev with
    | init => exact absurd rfl (h .init hev).1
    | initDone => exact absurd rfl (h .initDone hev).2
    | apply | delete | initApply => exact ⟨nofun, nofun⟩
  have hmap := Reflector.map_run_done (Reflector.empty (K := ObjKey) (V := DynamicObject))
    (before.map WatchEvent.stream) hstream
  -- Only the last complete list counts, and in it the objects that it has listed.
  rw [((refines_new crate maxBytes).run _).serves.absent]
  simp only [List.map_append, List.map_cons, List.map_nil]
  rw [show WatchEvent.stream .init = .openList from rfl,
    show WatchEvent.stream .initDone = .closeList from rfl, hmap, Reflector.lastListed,
    List.findSome?_eq_none_iff]
  simp only [List.mem_reverse, List.forall_mem_map]
  constructor
  -- The other direction reads the list from its end, where the last entry of a key stands.
  · intro hnone o ho hkey
    have := hnone _ ho
    simp [WatchEvent.stream, Reflector.listedAt, hkey] at this
  · intro hkeys ev hev
    cases ev with
    | initApply o => exact if_neg (hkeys o hev)
    | apply | delete | init | initDone => rfl

end LightweightStore

end LeanCd
