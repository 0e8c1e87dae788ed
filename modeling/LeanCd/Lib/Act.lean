import Mathlib.Tactic.Common

/-!
# `LeanCd.Lib.Act`: state and exception computations

Rules for `EStateM`, the monad whose state survives an exception, as the
effects of a Rust `async fn` returning `Result` survive its `Err`:

* `attempt` hands the outcome of a computation to its caller as a value, the
  way a `match f().await` does;
* `Frame` and `Keeps` say that a computation moves the state along a
  reflexive and transitive relation only, whatever it returns; `Keeps.bind`,
  `Keeps.attempt` and the rest build such facts along the program text;
* `After` is the postcondition of a run; its rules push a postcondition backwards
  through a program, one statement at a time;
* `Returns` is a postcondition of the result alone, in every state, and `Total` says
  that no run throws;
* `bind_ok` and `bind_error` run a program forwards.

The rules are stated for goals as they come up along a program: `after_bind` turns a postcondition
of a sequence into one of its first part, and `Keeps.bind` asks for both parts. The small rules
are in the simp set, so a goal about a straight piece of code is reduced to its calls by `simp
only` or by rewriting. What a call does is the caller's to say.

Nothing here names the controller.
-/

set_option autoImplicit false

namespace LeanCd.Act

variable {ε δ σ α β : Type}

/-- The state a computation ends in. -/
def state : EStateM.Result ε σ α → σ
  | .ok _ s => s
  | .error _ s => s

/-- What a computation returns. -/
def value : EStateM.Result ε σ α → Except ε α
  | .ok a _ => .ok a
  | .error e _ => .error e

/-- The state of a success is the state it ends in. -/
@[simp] theorem state_ok (a : α) (s : σ) : state (.ok a s : EStateM.Result ε σ α) = s := rfl

/-- Run a computation and hand its outcome over as a value: nothing is thrown. -/
def attempt (m : EStateM ε σ α) : EStateM δ σ (Except ε α) := fun s =>
  .ok (value (m s)) (state (m s))

/-- Hand over an outcome that is already known, the `?` of a pure function. -/
def ofExcept : Except ε α → EStateM ε σ α
  | .ok a => pure a
  | .error e => throw e

/-- An attempt never throws. Its result is the outcome of the computation, and its state is the one
in which that ended, error or not. -/
theorem attempt_run (m : EStateM ε σ α) (s : σ) :
    (attempt m : EStateM δ σ (Except ε α)) s = .ok (value (m s)) (state (m s)) := rfl

/-- A bind runs the continuation on the result. -/
theorem bind_ok {m : EStateM ε σ α} {f : α → EStateM ε σ β} {s s' : σ} {a : α}
    (h : m s = .ok a s') : (m >>= f) s = f a s' := by
  show EStateM.bind m f s = f a s'
  simp only [EStateM.bind, h]

/-- A bind stops at an exception. -/
theorem bind_error {m : EStateM ε σ α} {f : α → EStateM ε σ β} {s s' : σ} {e : ε}
    (h : m s = .error e s') : (m >>= f) s = .error e s' := by
  show EStateM.bind m f s = .error e s'
  simp only [EStateM.bind, h]

/-- A computation followed by a rest that cannot be told apart from another rest. -/
theorem bind_congr_state {m : EStateM ε σ α} {f g : α → EStateM ε σ β} {s : σ}
    (h : ∀ a t, m s = .ok a t → f a t = g a t) : (m >>= f) s = (m >>= g) s := by
  show EStateM.bind m f s = EStateM.bind m g s
  unfold EStateM.bind
  cases hm : m s with
  | ok a t => exact h a t hm
  | error e t => rfl

/-- Two computations with the same outcome, followed by the same rest. -/
theorem bind_congr_left {m n : EStateM ε σ α} {f : α → EStateM ε σ β} {s : σ}
    (h : m s = n s) : (m >>= f) s = (n >>= f) s := by
  show EStateM.bind m f s = EStateM.bind n f s
  unfold EStateM.bind
  rw [h]

/-! ### Postconditions -/

/-- `Q` holds of what a computation returns and of the state it ends in. -/
def After (m : EStateM ε σ α) (s : σ) (Q : Except ε α → σ → Prop) : Prop :=
  Q (value (m s)) (state (m s))

section
variable {s : σ}

/-- A pure value: the postcondition is asked at once. -/
@[simp] theorem after_pure {a : α} {Q : Except ε α → σ → Prop} :
    After (pure a) s Q ↔ Q (.ok a) s := Iff.rfl

/-- A throw: the postcondition is asked of the error, and the state is as it was. -/
@[simp] theorem after_throw {e : ε} {Q : Except ε α → σ → Prop} :
    After (throw e) s Q ↔ Q (.error e) s := Iff.rfl

/-- Reading the state returns it and leaves it alone. -/
@[simp] theorem after_get {Q : Except ε σ → σ → Prop} :
    After get s Q ↔ Q (.ok s) s := Iff.rfl

/-- A state update: the postcondition is asked of the updated state. -/
@[simp] theorem after_modify {f : σ → σ} {Q : Except ε PUnit → σ → Prop} :
    After (modify f) s Q ↔ Q (.ok ⟨⟩) (f s) := Iff.rfl

/-- A result that was computed without effects is returned or thrown as it is. -/
@[simp] theorem after_ofExcept {r : Except ε α} {Q : Except ε α → σ → Prop} :
    After (ofExcept r) s Q ↔ Q r s := by
  cases r <;> rfl

/-- A bind establishes what the continuation establishes, or what the exception does. -/
@[simp] theorem after_bind {m : EStateM ε σ α} {f : α → EStateM ε σ β}
    {Q : Except ε β → σ → Prop} :
    After (m >>= f) s Q ↔ After m s fun r t =>
      match r with
      | .ok a => After (f a) t Q
      | .error e => Q (.error e) t := by
  unfold After
  cases hm : m s with
  | ok a t => rw [bind_ok hm]; rfl
  | error e t => rw [bind_error hm]; rfl

/-- A bind whose postcondition says nothing of exceptions: the continuation is run on what
the first part returns. -/
theorem After.bind_ok {m : EStateM ε σ α} {f : α → EStateM ε σ β}
    {Q : Except ε β → σ → Prop} (hQ : ∀ e t, Q (.error e) t)
    (h : After m s fun r t => ∀ a, r = .ok a → After (f a) t Q) : After (m >>= f) s Q := by
  rw [after_bind]
  unfold After at h ⊢
  cases hr : value (m s) with
  | ok a => exact h a hr
  | error e => exact hQ e _

/-- After an attempt the outcome of the computation is a value, so a postcondition of the attempt is
one of the computation that looks at both outcomes. -/
@[simp] theorem after_attempt {m : EStateM ε σ α} {Q : Except δ (Except ε α) → σ → Prop} :
    After (attempt m) s Q ↔ After m s fun r t => Q (.ok r) t := Iff.rfl

/-- The branch is chosen first, and the postcondition is asked of that branch only. -/
@[simp] theorem after_ite {c : Prop} [Decidable c] {m n : EStateM ε σ α}
    {Q : Except ε α → σ → Prop} :
    After (if c then m else n) s Q ↔ if c then After m s Q else After n s Q := by
  split <;> rfl

/-- A weaker postcondition. -/
theorem After.mono {m : EStateM ε σ α} {Q R : Except ε α → σ → Prop} (h : After m s Q)
    (hQR : ∀ r t, Q r t → R r t) : After m s R := hQR _ _ h

/-- A postcondition that holds whatever the run does. -/
theorem After.of_forall {m : EStateM ε σ α} {Q : Except ε α → σ → Prop} (h : ∀ r t, Q r t) :
    After m s Q := h _ _

/-- The postcondition of a run that is known to succeed. -/
theorem after_of_ok {m : EStateM ε σ α} {t : σ} {a : α} (h : m s = .ok a t)
    {Q : Except ε α → σ → Prop} : After m s Q ↔ Q (.ok a) t := by
  unfold After
  rw [h]
  rfl

/-- The postcondition of a run that is known to throw. -/
theorem after_of_error {m : EStateM ε σ α} {t : σ} {e : ε} (h : m s = .error e t)
    {Q : Except ε α → σ → Prop} : After m s Q ↔ Q (.error e) t := by
  unfold After
  rw [h]
  rfl

/-- A run that succeeds, by the outcome it ends with. -/
theorem run_eq_of_isOk {m : EStateM ε σ α} (h : (value (m s)).isOk = true) :
    ∃ a, m s = .ok a (state (m s)) := by
  cases hm : m s with
  | ok a t => exact ⟨a, rfl⟩
  | error e t =>
      rw [hm] at h
      cases h

/-- Two postconditions at once. -/
theorem After.and {m : EStateM ε σ α} {Q R : Except ε α → σ → Prop} (hQ : After m s Q)
    (hR : After m s R) : After m s fun r t => Q r t ∧ R r t := ⟨hQ, hR⟩

/-- What a run returns is what its postcondition speaks of. -/
theorem After.of_run {m : EStateM ε σ α} {Q : Except ε α → σ → Prop} (h : After m s Q)
    {r : EStateM.Result ε σ α} (hr : m s = r) : Q (value r) (state r) := by
  subst hr
  exact h

end

/-! ### Frames -/

/-- A relation between the state before and after that a program can be built
up to respect: every state is related to itself and steps compose. -/
structure Frame (σ : Type) where
  rel : σ → σ → Prop
  refl : ∀ s, rel s s
  trans : ∀ {s t u}, rel s t → rel t u → rel s u

/-- Every run of the computation moves the state along the frame. -/
def Keeps (F : Frame σ) (m : EStateM ε σ α) : Prop := ∀ s, F.rel s (state (m s))

/-- The frame that holds a function of the state fixed. -/
def Frame.fixed {τ : Type} (f : σ → τ) : Frame σ where
  rel s t := f t = f s
  refl _ := rfl
  trans h₁ h₂ := h₂.trans h₁

/-- The frame of an invariant: what holds before holds after. -/
def Frame.preserves (I : σ → Prop) : Frame σ where
  rel s t := I s → I t
  refl _ h := h
  trans h₁ h₂ h := h₂ (h₁ h)

/-- Two frames at once. -/
def Frame.both (F G : Frame σ) : Frame σ where
  rel s t := F.rel s t ∧ G.rel s t
  refl s := ⟨F.refl s, G.refl s⟩
  trans h h' := ⟨F.trans h.1 h'.1, G.trans h.2 h'.2⟩

namespace Keeps

variable {F : Frame σ}

/-- A pure value keeps every frame, because frames are reflexive. -/
theorem pure (a : α) : Keeps F (Pure.pure a : EStateM ε σ α) := fun s => F.refl s

/-- A throw keeps every frame: the state is as it was. -/
theorem throw (e : ε) : Keeps F (MonadExcept.throw e : EStateM ε σ α) := fun s => F.refl s

/-- Reading the state keeps every frame. -/
theorem get : Keeps F (MonadState.get : EStateM ε σ σ) := fun s => F.refl s

/-- A result without effects keeps every frame. -/
theorem ofExcept (r : Except ε α) : Keeps F (Act.ofExcept r : EStateM ε σ α) := by
  cases r with
  | ok a => exact Keeps.pure a
  | error e => exact Keeps.throw e

/-- A sequence keeps a frame that its parts keep, because frames are transitive. When the first part
throws, the second does not run. -/
theorem bind {m : EStateM ε σ α} {f : α → EStateM ε σ β} (hm : Keeps F m)
    (hf : ∀ a, Keeps F (f a)) : Keeps F (m >>= f) := by
  intro s
  -- The first part keeps the frame whether it returns or throws.
  -- The rest runs after a return only.
  have h := hm s
  show F.rel s (state (EStateM.bind m f s))
  unfold EStateM.bind
  cases hms : m s with
  | ok a t =>
      rw [hms] at h
      exact F.trans h (hf a t)
  | error e t =>
      rw [hms] at h
      exact h

/-- An attempt keeps what the computation keeps, also when it fails. -/
theorem attempt {m : EStateM ε σ α} (hm : Keeps F m) :
    Keeps F (Act.attempt m : EStateM δ σ (Except ε α)) := fun s => hm s

/-- A frame is a postcondition of every run. -/
theorem after {m : EStateM ε σ α} (hm : Keeps F m) (s : σ) :
    After m s fun _ t => F.rel s t := hm s

/-- A frame relates the ends of a run that succeeds. -/
theorem of_ok {m : EStateM ε σ α} (hm : Keeps F m) {s t : σ} {a : α} (h : m s = .ok a t) :
    F.rel s t := by
  have hs := hm s
  rwa [h] at hs

/-- What respects two frames respects both at once. -/
theorem both {G : Frame σ} {m : EStateM ε σ α} (hF : Keeps F m) (hG : Keeps G m) :
    Keeps (F.both G) m := fun s => ⟨hF s, hG s⟩

/-- A wider frame. -/
theorem weaken {G : Frame σ} {m : EStateM ε σ α} (hm : Keeps F m)
    (h : ∀ s t, F.rel s t → G.rel s t) : Keeps G m := fun s => h _ _ (hm s)

end Keeps

/-! ### Results -/

/-- Whatever the state, a result satisfies `P`. -/
def Returns (m : EStateM ε σ α) (P : α → Prop) : Prop := ∀ s a, value (m s) = .ok a → P a

namespace Returns

variable {P : α → Prop}

/-- A pure value returns itself. -/
theorem pure {a : α} (h : P a) : Returns (Pure.pure a : EStateM ε σ α) P := by
  rintro s b hb
  cases hb
  exact h

/-- A throw returns nothing, so it satisfies every condition on results. -/
theorem throw (e : ε) : Returns (MonadExcept.throw e : EStateM ε σ α) P := nofun

/-- Every computation satisfies the trivial condition, which ends a chain of rules. -/
theorem any (m : EStateM ε σ α) : Returns m fun _ => True := fun _ _ _ => trivial

/-- In a sequence the condition on the first result is what the second part may assume. -/
theorem bind {Q : β → Prop} {m : EStateM ε σ α} {f : α → EStateM ε σ β} (hm : Returns m P)
    (hf : ∀ a, P a → Returns (f a) Q) : Returns (m >>= f) Q := by
  intro s b hb
  cases hms : m s with
  | ok a t =>
      rw [bind_ok hms] at hb
      exact hf a (hm s a (by rw [hms]; rfl)) t b hb
  | error e t =>
      rw [bind_error hms] at hb
      cases hb

/-- An attempt satisfies the condition where its outcome is a success. -/
theorem attempt {m : EStateM ε σ α} (hm : Returns m P) :
    Returns (Act.attempt m : EStateM δ σ (Except ε α)) fun r => ∀ a, r = .ok a → P a := by
  rintro s r hr a rfl
  exact hm s a (Except.ok.inj hr)

/-- A result postcondition, next to a postcondition of one run. -/
theorem after {m : EStateM ε σ α} (hm : Returns m P) (s : σ) :
    After m s fun r _ => ∀ a, r = .ok a → P a := fun a ha => hm s a ha

end Returns

/-- A frame along a bind whose continuation may use what the first part returns. -/
theorem Keeps.bind_returns {F : Frame σ} {P : α → Prop} {m : EStateM ε σ α}
    {f : α → EStateM ε σ β} (hm : Keeps F m) (hP : Returns m P)
    (hf : ∀ a, P a → Keeps F (f a)) : Keeps F (m >>= f) := by
  intro s
  have h := hm s
  cases hms : m s with
  | ok a t =>
      rw [bind_ok hms]
      rw [hms] at h
      exact F.trans h (hf a (hP s a (by rw [hms]; rfl)) t)
  | error e t =>
      rw [bind_error hms]
      rw [hms] at h
      exact h

/-! ### Computations that do not throw -/

/-- No run throws. -/
def Total (m : EStateM ε σ α) : Prop := ∀ s, ∃ a t, m s = .ok a t

namespace Total

/-- A pure value does not throw. -/
theorem pure (a : α) : Total (Pure.pure a : EStateM ε σ α) := fun s => ⟨a, s, rfl⟩

/-- An attempt does not throw, whatever the computation does. -/
theorem attempt (m : EStateM ε σ α) : Total (Act.attempt m : EStateM δ σ (Except ε α)) :=
  fun _ => ⟨_, _, rfl⟩

/-- A sequence does not throw when neither part does. -/
theorem bind {m : EStateM ε σ α} {f : α → EStateM ε σ β} (hm : Total m)
    (hf : ∀ a, Total (f a)) : Total (m >>= f) := by
  intro s
  obtain ⟨a, t, h⟩ := hm s
  rw [bind_ok h]
  exact hf a t

/-- A postcondition of a run that does not throw is one of its result. -/
theorem after {m : EStateM ε σ α} (hm : Total m) (s : σ) :
    After m s fun r _ => ∃ a, r = .ok a := by
  obtain ⟨a, t, h⟩ := hm s
  exact ⟨a, by rw [h]; rfl⟩

/-- A bind after a run that does not throw establishes what the continuation always does. -/
theorem bind_after {m : EStateM ε σ α} {f : α → EStateM ε σ β} {s : σ}
    {Q : Except ε β → σ → Prop} (hm : Total m) (h : ∀ a t, After (f a) t Q) :
    After (m >>= f) s Q := by
  obtain ⟨a, t, hms⟩ := hm s
  unfold After
  rw [bind_ok hms]
  exact h a t

end Total

end LeanCd.Act
