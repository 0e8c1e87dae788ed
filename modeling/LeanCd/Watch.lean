import LeanCd.Cluster

/-!
# `LeanCd.Watch`: the watch drivers and the object store of cache mode

`watch.rs`. A `LightweightStore` keeps objects up to a size in full and larger ones by
key only; a relist fills a buffer that its end swaps in. A `WatchSet` has one driver
task for each watched kind, and in cache mode one store for each, which it shares with
the driver. Tasks and their stores go by number.

`rebuild` compares the watched kinds with the desired ones. It drops what left, then tries to
discover and to watch what is new, in hash orders that the environment chooses. A kind that cannot
be discovered is tried again at the next rebuild.

`LightweightStore.applyEvent` is one event of a watch. Between the opening and the closing event
of a relist it fills a buffer, and what the tiers hold meanwhile is the list before.
-/

set_option autoImplicit false

namespace LeanCd

/-- `watch::ObjKey`: `(name, namespace)` within one kind. -/
abbrev ObjKey := String × Option String

/-- `watch::Tier`. -/
inductive Tier where
  | small
  | large
  | absent
deriving DecidableEq

/-- `watcher::Event`. -/
inductive WatchEvent where
  | apply (o : DynamicObject)
  | delete (o : DynamicObject)
  | init
  | initApply (o : DynamicObject)
  | initDone

/-- The bodies of small objects and the keys of large ones. -/
structure Tiers where
  small : AList fun _ : ObjKey => DynamicObject
  large : List ObjKey

namespace Tiers

/-- No objects. -/
def empty : Tiers := ⟨∅, []⟩

/-- Forget a key. -/
def remove (t : Tiers) (key : ObjKey) : Tiers :=
  ⟨t.small.erase key, t.large.filter (· ≠ key)⟩

/-- Keep an object's body, or only its key when it is too large. -/
def put (t : Tiers) (key : ObjKey) (o : DynamicObject) (tooLarge : Bool) : Tiers :=
  -- An object may change tiers, so the other tier forgets it.
  if tooLarge then ⟨t.small.erase key, t.large.insert key⟩
  else ⟨t.small.insert key o, t.large.filter (· ≠ key)⟩

end Tiers

/-- `watch::LightweightStore`. The buffers are open between `Init` and `InitDone`. -/
structure LightweightStore where
  tiers : Tiers
  bufSmall : Option (AList fun _ : ObjKey => DynamicObject)
  bufLarge : Option (List ObjKey)
  maxBytes : Nat

namespace WatchEvent

/-- What `touched_objects` passes on: an object that was applied, deleted or relisted. -/
def touches : WatchEvent → Bool
  | .apply _ | .delete _ | .initApply _ => true
  | .init | .initDone => false

/-- A change of a live object. -/
def changes : WatchEvent → Bool
  | .apply _ | .delete _ => true
  | .init | .initApply _ | .initDone => false

end WatchEvent

namespace LightweightStore

/-- `LightweightStore::new`. -/
def new (maxBytes : Nat) : LightweightStore := ⟨.empty, none, none, maxBytes⟩

/-- `key_of`. -/
def keyOf (o : DynamicObject) : ObjKey := (o.metadata.name.getD "", o.metadata.ns)

/-- `apply_event`. -/
def applyEvent (crate : KubeCrate) (s : LightweightStore) : WatchEvent → LightweightStore
  | .apply o =>
      { s with tiers := s.tiers.put (keyOf o) o (s.maxBytes < crate.size o) }
  | .delete o => { s with tiers := s.tiers.remove (keyOf o) }
  | .init => { s with bufSmall := some ∅, bufLarge := some [] }
  | .initApply o =>
      match s.bufSmall, s.bufLarge with
      | some bs, some bl =>
          let buffer := Tiers.put ⟨bs, bl⟩ (keyOf o) o (s.maxBytes < crate.size o)
          { s with bufSmall := some buffer.small, bufLarge := some buffer.large }
      | _, _ => s
  | .initDone =>
      -- Both buffers are taken, and swapped in only when both were open.
      match s.bufSmall, s.bufLarge with
      | some bs, some bl => { s with tiers := ⟨bs, bl⟩, bufSmall := none, bufLarge := none }
      | _, _ => { s with bufSmall := none, bufLarge := none }

/-- `tier_of`. -/
def tierOf (s : LightweightStore) (key : ObjKey) : Tier :=
  if (s.tiers.small.lookup key).isSome then .small
  else if key ∈ s.tiers.large then .large
  else .absent

/-- `small_get`. -/
def smallGet (s : LightweightStore) (key : ObjKey) : Option DynamicObject :=
  s.tiers.small.lookup key

/-- `small_values`. -/
def smallValues (s : LightweightStore) : List DynamicObject :=
  s.tiers.small.entries.map (·.2)

end LightweightStore

/-- A cache store behind its mutex: a panic while it was held poisons it. -/
inductive CacheStore where
  | poisoned
  | ready (s : LightweightStore)

/-- `Reconciler::cache_stores`. -/
abbrev CacheStores := AList fun _ : GvkKey => CacheStore

/-- `watch::WatchSet`: the driver task and, in cache mode, the store of each kind. -/
structure WatchSet where
  handles : AList fun _ : GvkKey => Nat
  stores : AList fun _ : GvkKey => Nat

namespace WatchSet

/-- `WatchSet::new`. -/
def new : WatchSet := ⟨∅, ∅⟩

/-- Abort the driver of a kind, and drop its store. -/
def drop (w : WatchSet) (g : GvkKey) : WatchSet := ⟨w.handles.erase g, w.stores.erase g⟩

/-- Spawn the driver of a kind as the given task. -/
def spawn (w : WatchSet) (mode : WatchMode) (g : GvkKey) (task : Nat) : WatchSet :=
  match mode with
  | .off => w
  | .trigger => { w with handles := w.handles.insert g task }
  | .cache => ⟨w.handles.insert g task, w.stores.insert g task⟩

end WatchSet

/-- `diff_watched_set`: the kinds to add, and the kinds to drop. -/
def diffWatchedSet (current desired : List GvkKey) : List GvkKey × List GvkKey :=
  (desired.filter (· ∉ current), current.filter (· ∉ desired))

end LeanCd
