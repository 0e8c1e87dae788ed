import LeanCd.Prune
import Mathlib.Data.List.Dedup

/-!
# `LeanCd.Proofs.Calls`: what one API call can do

`after_call` runs one call. The `keeps` lemmas lift it to the functions of
`kube_util.rs`: a frame that an interaction respects is respected by every read, and
by a delete or a patch where the frame allows that one change.

`Steady` is the assumption under which a pass can be computed: whether a call is
served depends on the call alone, and no other client changes the live objects.

The rules come in the two forms of `LeanCd.Lib.Act`. `after_` lemmas compute what a call returns
and the world it ends in, and are used where the environment is known to serve it. `keeps_` lemmas
hold in every environment, and are used where it may do anything.
-/

set_option autoImplicit false

namespace LeanCd

open Act

variable {sc : Scopes} {env : Env sc} {α : Type}

/-- The world one interaction later. -/
def World.ticked (env : Env sc) (w : World sc) : World sc :=
  { w with
    step := w.step + 1
    cluster := env.others w.step w.cluster
    lease := env.otherLease w.step w.lease }

/-- The world with one more entry in the history of the network. -/
def World.transmitted (x : Traffic sc) (w : World sc) : World sc :=
  { w with traffic := x :: w.traffic }

/-- The world after a call was sent, before the server answers it. -/
def World.called (env : Env sc) (req : Request sc) (w : World sc) : World sc :=
  (w.transmitted (.request req)).ticked env

/-- A transmission enters the traffic and does nothing else. -/
@[simp] theorem after_transmit {x : Traffic sc} {w : World sc}
    {Q : Except Error PUnit → World sc → Prop} :
    After (transmit x) w Q ↔ Q (.ok ⟨⟩) (w.transmitted x) := Iff.rfl

/-- A tick returns the number of the interaction and lets the others act. -/
@[simp] theorem after_tick {w : World sc} {Q : Except Error Nat → World sc → Prop} :
    After (tick env) w Q ↔ Q (.ok w.step) (w.ticked env) := Iff.rfl

/-- A call is served, or it fails before or after the server acts. -/
theorem after_call {req : Request sc} {act : Pass sc α} {w : World sc}
    {Q : Except Error α → World sc → Prop} :
    After (call env req act) w Q ↔
      match env.fault w.step req with
      | .none => After act (w.called env req) Q
      | .refused e => Q (.error (.kube e)) (w.called env req)
      | .lost e => After act (w.called env req) fun _ t => Q (.error (.kube e)) t := by
  unfold call
  rw [after_bind, after_transmit]
  dsimp only
  rw [after_bind, after_tick]
  show (After (match env.fault w.step req with
    | .none => act
    | .refused e => throw (.kube e)
    | .lost e => Act.attempt (δ := Error) act >>= fun _ => throw (.kube e))
      (w.called env req) Q) ↔ _
  cases env.fault w.step req with
  | none => rfl
  | refused e => rfl
  | lost e => exact after_bind

/-- A frame that interactions respect, whatever goes over the network with them. -/
structure Interacts (env : Env sc) (F : Frame (World sc)) : Prop where
  tick : Keeps F (tick env)
  transmit : ∀ x, Keeps F (transmit x)

/-- A call is a tick and a transmission, so a frame that allows both allows the call. -/
theorem Interacts.called {F : Frame (World sc)} (hin : Interacts env F) (req : Request sc)
    (w : World sc) : F.rel w (w.called env req) := F.trans (hin.transmit _ w) (hin.tick _)

/-- Interactions that respect two frames respect both at once. -/
theorem Interacts.both {F G : Frame (World sc)} (hF : Interacts env F) (hG : Interacts env G) :
    Interacts env (F.both G) :=
  ⟨hF.tick.both hG.tick, fun x => (hF.transmit x).both (hG.transmit x)⟩

/-- A call respects what an interaction and the served request respect. -/
theorem keeps_call {F : Frame (World sc)} {req : Request sc} {act : Pass sc α}
    (hin : Interacts env F) (hact : Keeps F act) : Keeps F (call env req act) := by
  refine (hin.transmit _).bind fun _ => hin.tick.bind ?_
  intro n
  cases env.fault n req with
  | none => exact hact
  | refused e => exact Keeps.throw _
  | lost e => exact (hact.attempt).bind fun _ => Keeps.throw _

/-- A call returns what the server returns. -/
theorem returns_call {req : Request sc} {act : Pass sc α} {P : α → Prop} (hact : Returns act P) :
    Returns (call env req act) P := by
  refine (Returns.any _).bind fun _ _ => (Returns.any _).bind fun n _ => ?_
  cases env.fault n req with
  | none => exact hact
  | refused e => exact .throw _
  | lost e => exact (Returns.any _).bind fun _ _ => .throw _

/-! ### Hash sets -/

/-- Iterating over a hash set of kinds: its elements once each, in the order the environment has for
this interaction. -/
@[simp] theorem after_hashGvks {l : List GvkKey} {w : World sc}
    {Q : Except Error (List GvkKey) → World sc → Prop} :
    After (hashGvks env l) w Q ↔ Q (.ok ((env.gvkOrder w.step).run l.dedup)) (w.ticked env) :=
  Iff.rfl

/-- The same of a hash set of keys. -/
@[simp] theorem after_hashKeys {l : List ResourceKey} {w : World sc}
    {Q : Except Error (List ResourceKey) → World sc → Prop} :
    After (hashKeys env l) w Q ↔ Q (.ok ((env.keyOrder w.step).run l.dedup)) (w.ticked env) :=
  Iff.rfl

/-- An iteration over kinds keeps what a tick keeps. -/
theorem keeps_hashGvks {F : Frame (World sc)} (hin : Interacts env F) (l : List GvkKey) :
    Keeps F (hashGvks env l) := hin.tick.bind fun _ => Keeps.pure _

/-- The same of keys. -/
theorem keeps_hashKeys {F : Frame (World sc)} (hin : Interacts env F)
    (l : List ResourceKey) : Keeps F (hashKeys env l) := hin.tick.bind fun _ => Keeps.pure _

/-- An iteration cannot fail. -/
theorem total_hashGvks (l : List GvkKey) : Total (hashGvks env l) := fun _ => ⟨_, _, rfl⟩

/-- The same of keys. -/
theorem total_hashKeys (l : List ResourceKey) : Total (hashKeys env l) := fun _ => ⟨_, _, rfl⟩

/-- The order of an iteration is unknown, but its elements are those of the list. -/
theorem returns_hashGvks (l : List GvkKey) :
    Returns (hashGvks env l) fun l' => ∀ g, g ∈ l' ↔ g ∈ l := by
  refine (Returns.any _).bind fun n _ => .pure ?_
  intro g
  rw [Shuffle.mem_run, List.mem_dedup]

/-- The same of keys. -/
theorem returns_hashKeys (l : List ResourceKey) :
    Returns (hashKeys env l) fun l' => ∀ k, k ∈ l' ↔ k ∈ l := by
  refine (Returns.any _).bind fun n _ => .pure ?_
  intro k
  rw [Shuffle.mem_run, List.mem_dedup]

/-! ### Reads -/

section
variable {F : Frame (World sc)}

/-- A discovery only reads. -/
theorem keeps_resolve (hin : Interacts env F) (g : GvkKey) :
    Keeps F (KubeUtil.resolve env g) := by
  refine (keeps_call hin (Keeps.pure _)).attempt.bind ?_
  intro r
  cases r with
  | ok => exact Keeps.pure _
  | error => exact Keeps.throw _

/-- A cached discovery reads too, or returns what is in the cache. -/
theorem keeps_getOrResolve (hin : Interacts env F) (cache : KubeUtil.DiscoveryCache)
    (g : GvkKey) : Keeps F (KubeUtil.getOrResolve env cache g) := by
  unfold KubeUtil.getOrResolve
  split
  · exact Keeps.pure _
  · exact (keeps_resolve hin g).bind fun _ => Keeps.pure _

/-- A list only reads, page after page. -/
theorem keeps_listAll (hin : Interacts env F) (g : GvkKey) (sel : String × String) :
    Keeps F (KubeUtil.listAll env g sel) :=
  (keeps_call hin (Keeps.get.bind fun _ => Keeps.pure _)).bind fun _ =>
    (hin.transmit _).bind fun _ => Keeps.pure _

/-- The world after a list call that was served. -/
def World.listed (env : Env sc) (g : GvkKey) (sel : String × String) (w : World sc) : World sc :=
  (w.called env (.list g)).transmitted
    (.objects ((w.called env (.list g)).cluster.list g sel).length)

/-- A list call returns the labelled objects of the cluster that it finds, or fails. -/
theorem KubeUtil.after_listAll {g : GvkKey} {sel : String × String} {w : World sc}
    {Q : Except Error (List DynamicObject) → World sc → Prop} :
    After (KubeUtil.listAll env g sel) w Q ↔
      match env.fault w.step (.list g) with
      | .none => Q (.ok ((w.called env (.list g)).cluster.list g sel)) (w.listed env g sel)
      | .refused e | .lost e => Q (.error (.kube e)) (w.called env (.list g)) := by
  rw [KubeUtil.listAll, after_bind, after_call]
  cases env.fault w.step (.list g) <;> rfl

/-- The server returns a live object as it serves it. -/
theorem after_serveGet {id : ObjId sc} {w : World sc}
    {Q : Except Error DynamicObject → World sc → Prop} :
    After (KubeUtil.serveGet id) w Q ↔
      match w.cluster.lookup id with
      | some live => Q (.ok (serve id live)) w
      | none => Q (.error (.kube notFound)) w := by
  unfold After KubeUtil.serveGet
  cases w.cluster.lookup id <;> rfl

/-- To serve a GET changes nothing. -/
theorem keeps_serveGet (id : ObjId sc) : Keeps F (KubeUtil.serveGet id) := by
  intro w
  unfold KubeUtil.serveGet
  cases w.cluster.lookup id with
  | none => exact F.refl w
  | some live => exact F.refl w

/-- A GET only reads: it resolves the kind, and then asks for the object. -/
theorem keeps_getObject (hin : Interacts env F) (defaultNs : String) (g : GvkKey)
    (ns : Option String) (name : String) :
    Keeps F (KubeUtil.getObject env defaultNs g ns name) := by
  refine (keeps_call hin (keeps_serveGet _)).attempt.bind ?_
  intro r
  split
  · exact Keeps.pure _
  · split
    · exact Keeps.pure _
    · exact Keeps.throw _
  · exact Keeps.throw _

end

/-- What this process did to the server so far: its writes and the stored state. -/
def untouched : Frame (World sc) := .fixed fun w => (w.trace, w.stateCm)

/-- What the others do is not a change of this process's own trace or state. -/
theorem interacts_untouched : Interacts env untouched := ⟨fun _ => rfl, fun _ _ => rfl⟩

/-- The process did nothing since, except for events of a kind. -/
def adds (P : Event sc → Prop) : Frame (World sc) where
  rel w t := ∃ new, t.trace = new ++ w.trace ∧ ∀ e ∈ new, P e
  refl w := ⟨[], rfl, List.forall_mem_nil _⟩
  trans := by
    -- The trace grows at its head, so the later events come first.
    rintro w t u ⟨new, ht, hnew⟩ ⟨new', hu, hnew'⟩
    refine ⟨new' ++ new, by rw [hu, ht, List.append_assoc], fun e he => ?_⟩
    exact (List.mem_append.mp he).elim (hnew' e) (hnew e)

/-- Untouched steps add no event, whatever events are allowed. -/
theorem adds_of_untouched {P : Event sc → Prop} {w t : World sc} (h : untouched.rel w t) :
    (adds P).rel w t := ⟨[], (Prod.mk.inj h).1, List.forall_mem_nil _⟩

/-- One more event. -/
theorem adds_cons {P : Event sc → Prop} {w t : World sc} {e : Event sc}
    (ht : t.trace = e :: w.trace) (he : P e) : (adds P).rel w t := ⟨[e], ht, by simpa using he⟩

/-- When more events are allowed, fewer steps are excluded. -/
theorem adds_mono {P Q : Event sc → Prop} (h : ∀ e, P e → Q e) {w t : World sc} :
    (adds P).rel w t → (adds Q).rel w t :=
  fun ⟨new, ht, hnew⟩ => ⟨new, ht, fun e he => h e (hnew e he)⟩

/-- What a frame says of the part of a run between two steps. -/
def within (start stop : Nat) (F : Frame (World sc)) : Frame (World sc) where
  rel w t := w.step ≤ t.step ∧ (start ≤ w.step → t.step ≤ stop → F.rel w t)
  refl w := ⟨le_rfl, fun _ _ => F.refl w⟩
  trans := by
    rintro w t u ⟨hwt, h⟩ ⟨htu, h'⟩
    exact ⟨hwt.trans htu, fun hstart hstop =>
      F.trans (h hstart (htu.trans hstop)) (h' (hstart.trans hwt) hstop)⟩

/-- Interactions add no event to the trace. -/
theorem interacts_adds {P : Event sc → Prop} : Interacts env (adds P) :=
  ⟨fun _ => adds_of_untouched rfl, fun _ _ => adds_of_untouched rfl⟩

/-- The deletions of a world are read off its trace. -/
@[simp] theorem World.mem_deletions {w : World sc} {id : ObjId sc} :
    id ∈ w.deletions ↔ .deleted id ∈ w.trace := by
  unfold World.deletions
  rw [List.mem_filterMap]
  constructor
  · rintro ⟨e, he, heq⟩
    cases e with
    | deleted id' => cases heq; exact he
    | patched => cases heq
    | stateWritten => cases heq
    | applyStarted => cases heq
    | hookStarted => cases heq
  · exact fun h => ⟨_, h, rfl⟩

/-! ### Steady runs -/

/-- Whether a call fails depends on the call alone, and nobody else changes the live
objects. -/
structure Env.Steady (env : Env sc) : Prop where
  fault : ∀ n req, env.fault n req = env.fault 0 req
  quiet : ∀ n c, env.others n c = c

/-- The call is served and its response arrives. -/
def Env.serves (env : Env sc) (req : Request sc) : Prop := env.fault 0 req = .none

/-- What is not touched, the live objects included. -/
def still : Frame (World sc) := .fixed fun w => (w.trace, w.stateCm, w.cluster)

/-- A still step keeps the cluster, and with it all that a read returns. -/
theorem cluster_of_still {w t : World sc} (h : still.rel w t) : t.cluster = w.cluster :=
  (Prod.mk.inj (Prod.mk.inj h).2).2

/-- A still step is an untouched one. -/
theorem untouched_of_still {w t : World sc} (h : still.rel w t) : untouched.rel w t :=
  Prod.ext (Prod.mk.inj h).1 (Prod.mk.inj (Prod.mk.inj h).2).1

/-- Where the environment is steady the others do nothing, so interactions are still. -/
theorem Env.Steady.interacts (hs : env.Steady) : Interacts env still := by
  refine ⟨fun w => ?_, fun _ _ => rfl⟩
  show (w.trace, w.stateCm, env.others w.step w.cluster) = (w.trace, w.stateCm, w.cluster)
  rw [hs.quiet]

/-- In a steady run, what a call finds is what was there. -/
@[simp] theorem Env.Steady.cluster_called (hs : env.Steady) (req : Request sc) (w : World sc) :
    (w.called env req).cluster = w.cluster := hs.quiet _ _

/-- In a steady run, `get_or_resolve` succeeds exactly when discovery is served,
provided the cache holds only kinds for which it is. -/
theorem Env.Steady.after_getOrResolve (hs : env.Steady) {cache : KubeUtil.DiscoveryCache}
    {g : GvkKey} (hcache : ∀ g ∈ cache, env.serves (.discover g)) (w : World sc) :
    After (KubeUtil.getOrResolve env cache g) w fun r t => still.rel w t ∧
      match r with
      | .ok cache' => env.serves (.discover g) ∧ ∀ g ∈ cache', env.serves (.discover g)
      | .error _ => ¬ env.serves (.discover g) := by
  refine After.and (keeps_getOrResolve hs.interacts cache g w) ?_
  unfold KubeUtil.getOrResolve
  rw [after_ite]
  split
  · rename_i hmem
    exact ⟨hcache g hmem, hcache⟩
  · simp only [KubeUtil.resolve, after_bind, after_attempt, after_call, hs.fault w.step]
    unfold Env.serves at hcache ⊢
    cases hf : env.fault 0 (.discover g) with
    | none => exact ⟨rfl, List.forall_mem_cons.mpr ⟨hf, hcache⟩⟩
    | refused e | lost e =>
        intro hserved
        cases hserved

/-- In a steady run, a list returns what is live, exactly when it is served. -/
theorem Env.Steady.after_listAll (hs : env.Steady) (g : GvkKey) (sel : String × String)
    (w : World sc) :
    After (KubeUtil.listAll env g sel) w fun r t => still.rel w t ∧
      match r with
      | .ok live => env.serves (.list g) ∧ live = w.cluster.list g sel
      | .error _ => ¬ env.serves (.list g) := by
  refine After.and (keeps_listAll hs.interacts g sel w) ?_
  rw [KubeUtil.after_listAll, hs.fault]
  unfold Env.serves
  cases hf : env.fault 0 (.list g) with
  | none => exact ⟨rfl, by rw [hs.cluster_called]⟩
  | refused e | lost e =>
      intro hserved
      cases hserved

/-- In a steady run, `get` finds an object exactly when it is live and the call is
served. -/
theorem Env.Steady.after_getObject (hs : env.Steady) (defaultNs : String) (g : GvkKey)
    (ns : Option String) (name : String) (w : World sc) :
    After (KubeUtil.getObject env defaultNs g ns name) w fun r t => still.rel w t ∧
      ∀ obj, r = .ok (some obj) ↔ env.serves (.get g (apiFor sc g ns defaultNs name)) ∧
        ∃ live, w.cluster.lookup (apiFor sc g ns defaultNs name) = some live ∧
          obj = serve (apiFor sc g ns defaultNs name) live := by
  refine After.and (keeps_getObject hs.interacts defaultNs g ns name w) ?_
  simp only [KubeUtil.getObject, after_bind, after_attempt, after_call, hs.fault w.step]
  unfold Env.serves
  cases hf : env.fault 0 (.get g (apiFor sc g ns defaultNs name)) with
  | none =>
      simp only [after_serveGet, hs.cluster_called]
      cases hl : w.cluster.lookup (apiFor sc g ns defaultNs name) with
      | none => simp [notFound]
      | some live => simp [eq_comm]
  | refused e =>
      -- A fault that happens to be a 404 reads as an absent object.
      by_cases h : e.code = some 404 <;> simp [h]
  | lost e =>
      simp only [after_serveGet, hs.cluster_called]
      cases hl : w.cluster.lookup (apiFor sc g ns defaultNs name) with
      | none => by_cases h : e.code = some 404 <;> simp [h]
      | some live => by_cases h : e.code = some 404 <;> simp [h]

end LeanCd
