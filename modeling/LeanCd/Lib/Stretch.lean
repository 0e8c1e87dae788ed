import LeanCd.Lib.Log

/-!
# `LeanCd.Lib.Stretch`: the work between two marks

A `Gauge` says which entries of a log are marks and what the others weigh. `stretch` is the
largest weight of a run of entries without a mark, and `total` is the weight of them all.

* A run across the end of a log goes on up to the first mark of the next one
  (`stretch_append`).
* The marks cut a log into `marks + 1` runs, so the total is at most that often the stretch
  (`total_le`).
* `Refines` compares a log with a finer one, in which a mark may be followed by some more work
  of its own. The stretches of the finer log are longer by at most that work (`stretch_le`).
* `Brief` bounds the total of a program that performs no mark, and `Within` any measure of the
  logs of a program. Both add up along the program text.
* `Paced` is for a loop that performs a mark in every round: its stretch does not grow with the
  number of rounds.

The bounds compose. For a sequence that marks nothing in between the totals add up. For a loop
with a mark in every round the stretch is that of one round, whatever the number of rounds.
`Within` is stated for any subadditive measure, and the stretch, the number of marks and the total
are three of them.

Nothing here names the controller.
-/

set_option autoImplicit false

namespace LeanCd

open Act

/-- The marks of a log, and the weight of the other entries. -/
structure Gauge (A : Type) where
  weight : A → Nat
  mark : A → Bool

namespace Gauge

variable {A : Type} (G : Gauge A)

/-- The weight of the entries before the first mark. -/
def first : List A → Nat
  | [] => 0
  | a :: l => if G.mark a then 0 else G.weight a + first l

/-- The largest weight of a run without a mark. -/
def stretch : List A → Nat
  | [] => 0
  | a :: l => if G.mark a then stretch l else max (G.weight a + G.first l) (stretch l)

/-- The weight of the entries that are no marks. -/
def total : List A → Nat
  | [] => 0
  | a :: l => (if G.mark a then 0 else G.weight a) + total l

/-- The number of marks. -/
def marks (l : List A) : Nat := l.countP G.mark

variable {G}

/-- Nothing weighs nothing. -/
@[simp] theorem total_nil : G.total [] = 0 := rfl

/-- Weights add up. -/
@[simp] theorem total_append (l m : List A) : G.total (l ++ m) = G.total l + G.total m := by
  induction l with
  | nil => simp
  | cons a l ih => simp only [List.cons_append, total, ih, Nat.add_assoc]

/-- Marks add up. -/
@[simp] theorem marks_append (l m : List A) : G.marks (l ++ m) = G.marks l + G.marks m :=
  List.countP_append

/-! ### One run -/

/-- The first stretch is one of the stretches. -/
theorem first_le_stretch (l : List A) : G.first l ≤ G.stretch l := by
  induction l with
  | nil => exact Nat.le_refl 0
  | cons a l ih =>
      unfold first stretch
      split
      · exact Nat.zero_le _
      · exact le_max_left _ _

/-- The first stretch is a part of the whole log. -/
theorem first_le_total (l : List A) : G.first l ≤ G.total l := by
  induction l with
  | nil => exact Nat.le_refl 0
  | cons a l ih =>
      unfold first total
      split
      · exact Nat.zero_le _
      · omega

/-- When two logs are joined the first stretch grows into the second log at most as far as its own
first stretch. -/
theorem first_append_le (l m : List A) : G.first (l ++ m) ≤ G.first l + G.first m := by
  induction l with
  | nil => simp [first]
  | cons a l ih =>
      simp only [List.cons_append, first]
      split
      · exact Nat.zero_le _
      · omega

/-! ### All runs -/

/-- A run across the end of the first log goes on with the first run of the second one. -/
theorem stretch_append (l m : List A) :
    G.stretch (l ++ m) ≤ max (G.stretch l + G.first m) (G.stretch m) := by
  induction l with
  | nil => exact le_max_right _ _
  | cons a l ih =>
      simp only [List.cons_append, stretch]
      split
      · exact ih
      · have hfirst := G.first_append_le l m
        omega

/-- A stretch of a joined log lies in one of the parts or across the seam, so it is no longer than
the two longest together. -/
theorem stretch_append_le (l m : List A) :
    G.stretch (l ++ m) ≤ G.stretch l + G.stretch m := by
  have happend := G.stretch_append l m
  have hfirst := G.first_le_stretch m
  omega

/-- No stretch weighs more than the log. -/
theorem stretch_le_total (l : List A) : G.stretch l ≤ G.total l := by
  induction l with
  | nil => exact Nat.le_refl 0
  | cons a l ih =>
      have hfirst := G.first_le_total l
      unfold stretch total
      split
      · omega
      · omega

/-- The runs that the marks leave cover the log. -/
theorem total_le (l : List A) : G.total l ≤ (G.marks l + 1) * G.stretch l := by
  -- Before the first mark come `first` entries, and after each mark at most a stretch.
  have hruns : ∀ l, G.total l ≤ G.first l + G.marks l * G.stretch l := by
    intro l
    induction l with
    | nil => exact Nat.le_refl 0
    | cons a l ih =>
        have hfirst := G.first_le_stretch l
        -- A mark ends a run, which is at most as long as the longest.
        by_cases ha : G.mark a = true
        · simp only [total, first, stretch, marks, List.countP_cons, ha, if_true] at ih ⊢
          rw [Nat.add_mul]
          omega
        · simp only [total, first, stretch, marks, List.countP_cons, ha] at ih ⊢
          have hgrow : l.countP G.mark * G.stretch l ≤
              l.countP G.mark * max (G.weight a + G.first l) (G.stretch l) :=
            Nat.mul_le_mul_left _ (le_max_right _ _)
          simp only [Bool.false_eq_true, if_false, Nat.add_zero]
          omega
  have hfirst := G.first_le_stretch l
  have hall := hruns l
  rw [Nat.add_mul]
  omega

end Gauge

/-! ### A finer log -/

/-- What stands in a finer log for one entry: no mark and no more weight for work, and a mark
followed by at most `k` for a mark. -/
inductive Stands {A B : Type} (G : Gauge A) (H : Gauge B) (k : Nat) : A → List B → Prop
  | work {a : A} {bs : List B} (ha : G.mark a = false) (hbs : H.marks bs = 0)
      (hle : H.total bs ≤ G.weight a) : Stands G H k a bs
  | mark {a : A} {b : B} {bs : List B} (ha : G.mark a = true) (hb : H.mark b = true)
      (hbs : H.marks bs = 0) (hle : H.total bs ≤ k) : Stands G H k a (b :: bs)

/-- A log and a finer one, entry by entry. -/
inductive Refines {A B : Type} (G : Gauge A) (H : Gauge B) (k : Nat) : List A → List B → Prop
  | nil : Refines G H k [] []
  | cons {a : A} {bs : List B} {l : List A} {m : List B} (h : Stands G H k a bs)
      (hrest : Refines G H k l m) : Refines G H k (a :: l) (bs ++ m)

namespace Refines

variable {A B : Type} {G : Gauge A} {H : Gauge B} {k : Nat} {l : List A} {m : List B}

/-- The finer log has the same marks. -/
theorem marks_eq (h : Refines G H k l m) : H.marks m = G.marks l := by
  induction h with
  | nil => rfl
  | cons hstands _ ih =>
      rw [Gauge.marks_append, ih]
      cases hstands with
      | work ha hbs => simp [Gauge.marks, ha] at hbs ⊢; exact hbs
      | mark ha hb hbs =>
          simp only [Gauge.marks, List.countP_cons, ha, hb, if_true] at hbs ⊢
          omega

/-- Before the first mark the finer log does no more. -/
theorem first_le (h : Refines G H k l m) : H.first m ≤ G.first l := by
  induction h with
  | nil => exact Nat.le_refl 0
  | @cons a bs l m hstands _ ih =>
      cases hstands with
      | work ha hbs hle =>
          have happend := H.first_append_le bs m
          have htotal := H.first_le_total bs
          rw [Gauge.first, ha]
          simp only [Bool.false_eq_true, if_false]
          omega
      | mark ha hb hbs hle => simp [Gauge.first, hb]

/-- Between two marks the finer log does what follows the first of them, and no more than the
log itself. -/
theorem stretch_le (h : Refines G H k l m) : H.stretch m ≤ G.stretch l + k := by
  induction h with
  | nil => exact Nat.zero_le _
  | @cons a bs l m hstands hrest ih =>
      have hfirst := hrest.first_le
      have hle := G.first_le_stretch l
      cases hstands with
      -- An entry without a mark lengthens the run that it stands in.
      | work ha hbs hwork =>
          have happend := H.stretch_append bs m
          have htotal := H.stretch_le_total bs
          rw [Gauge.stretch, ha]
          simp only [Bool.false_eq_true, if_false]
          omega
      -- A mark starts a run, with the further work of its own.
      | @mark b bs ha hb hbs hwork =>
          have happend := H.stretch_append bs m
          have htotal := H.stretch_le_total bs
          simp only [List.cons_append, Gauge.stretch, ha, hb, if_true]
          omega

end Refines

/-! ### Measures that add up -/

/-- The measure of two logs together is at most the sum of their measures. -/
class Subadditive {A : Type} (f : List A → Nat) : Prop where
  nil : f [] = 0
  append : ∀ l m, f (l ++ m) ≤ f l + f m

namespace Subadditive

variable {A : Type} {f g : List A → Nat}

instance stretch (G : Gauge A) : Subadditive G.stretch := ⟨rfl, G.stretch_append_le⟩

instance marks (G : Gauge A) : Subadditive G.marks :=
  ⟨rfl, fun l m => (G.marks_append l m).le⟩

/-- What a measure exceeds another one by. -/
theorem sub (hf : Subadditive f) (hg : ∀ l m, g (l ++ m) = g l + g m) :
    Subadditive fun l => f l - g l := by
  refine ⟨by rw [hf.nil, Nat.zero_sub], ?_⟩
  intro l m
  have happend := hf.append l m
  have hsplit := hg l m
  omega

end Subadditive

section
variable {A ε σ α β : Type} {V : Vocabulary σ A} {m : EStateM ε σ α} {h : α → EStateM ε σ β}
  {f : List A → Nat} {k n : Nat}

/-- Every run performs a log of at most this measure. -/
def Within (V : Vocabulary σ A) (f : List A → Nat) (m : EStateM ε σ α) (n : Nat) : Prop :=
  Logs V m fun _ log => f log ≤ n

namespace Within

/-- A greater bound holds too. -/
theorem mono (hm : Within V f m k) (hkn : k ≤ n) : Within V f m n :=
  Logs.mono hm fun _ _ hlog => hlog.trans hkn

/-- A pure value adds nothing to the log, and the measure of an empty log is zero. -/
theorem pure [hf : Subadditive f] (a : α) : Within V f (Pure.pure a : EStateM ε σ α) n :=
  Logs.pure (by rw [hf.nil]; exact Nat.zero_le n)

/-- A throw adds nothing to the log. -/
theorem throw [hf : Subadditive f] (e : ε) :
    Within V f (MonadExcept.throw e : EStateM ε σ α) n :=
  Logs.throw (by rw [hf.nil]; exact Nat.zero_le n)

/-- In a sequence the bounds add up, because the measure of a joined log is at most the sum. -/
theorem bind [hf : Subadditive f] (hm : Within V f m k) (hh : ∀ a, Within V f (h a) n) :
    Within V f (m >>= h) (k + n) := by
  refine Logs.bind hm (fun _ _ hlog => Nat.le_add_right_of_le hlog) ?_
  intro a log hlog
  refine Logs.mono (hh a) ?_
  intro res log' hlog'
  exact (hf.append log log').trans (Nat.add_le_add hlog hlog')

/-- A rest that adds nothing. -/
theorem bind_free [Subadditive f] (hm : Within V f m n) (hh : ∀ a, Within V f (h a) 0) :
    Within V f (m >>= h) n := hm.bind hh

end Within

end

/-! ### Programs without a mark -/

section
variable {A ε σ α β δ : Type} {G : Gauge A} {V : Vocabulary σ A} {m : EStateM ε σ α}
  {f : α → EStateM ε σ β} {k n : Nat}

/-- Every run performs no mark, and entries of at most this weight. -/
def Brief (G : Gauge A) (V : Vocabulary σ A) (m : EStateM ε σ α) (n : Nat) : Prop :=
  Logs V m fun _ log => G.marks log = 0 ∧ G.total log ≤ n

namespace Brief

/-- A greater bound holds too. -/
theorem mono (h : Brief G V m k) (hkn : k ≤ n) : Brief G V m n :=
  Logs.mono h fun _ _ hlog => ⟨hlog.1, hlog.2.trans hkn⟩

/-- A pure value is brief: its log is empty. -/
theorem pure (a : α) : Brief G V (Pure.pure a : EStateM ε σ α) n :=
  Logs.pure ⟨rfl, Nat.zero_le n⟩

/-- A throw is brief. -/
theorem throw (e : ε) : Brief G V (MonadExcept.throw e : EStateM ε σ α) n :=
  Logs.throw ⟨rfl, Nat.zero_le n⟩

/-- A result without effects is brief. -/
theorem ofExcept (r : Except ε α) : Brief G V (Act.ofExcept r : EStateM ε σ α) n := by
  cases r with
  | ok a => exact pure a
  | error e => exact throw e

/-- A program that does not write to the log at all is brief with every bound. -/
theorem quiet (h : Keeps V.quiet m) : Brief G V m n := fun s =>
  ⟨[], .done (h s), rfl, Nat.zero_le n⟩

/-- What the program returns, next to its log. -/
theorem returns {P : α → Prop} (hm : Brief G V m n) (hP : Returns m P) :
    Logs V m fun res log => (∀ a, res = .ok a → P a) ∧ G.marks log = 0 ∧ G.total log ≤ n := by
  intro s
  obtain ⟨log, hperforms, hlog⟩ := hm s
  exact ⟨log, hperforms, fun a ha => hP s a ha, hlog⟩

/-- The rest may use what the first part returns. -/
theorem bind_returns {P : α → Prop} (hm : Brief G V m k) (hP : Returns m P)
    (hf : ∀ a, P a → Brief G V (f a) n) : Brief G V (m >>= f) (k + n) := by
  refine (hm.returns hP).bind ?_ ?_
  · intro e log hlog
    exact ⟨hlog.2.1, Nat.le_add_right_of_le hlog.2.2⟩
  · intro a log hlog
    refine Logs.mono (hf a (hlog.1 a rfl)) ?_
    intro res log' hlog'
    constructor
    · rw [Gauge.marks_append, hlog.2.1, hlog'.1]
    · rw [Gauge.total_append]
      exact Nat.add_le_add hlog.2.2 hlog'.2

/-- Brief programs one after the other make a brief one, since neither of them marks anything. -/
theorem bind (hm : Brief G V m k) (hf : ∀ a, Brief G V (f a) n) :
    Brief G V (m >>= f) (k + n) := hm.bind_returns (Returns.any m) fun a _ => hf a

/-- A rest that weighs nothing. -/
theorem bind_free (hm : Brief G V m n) (hf : ∀ a, Brief G V (f a) 0) :
    Brief G V (m >>= f) n := hm.bind hf

/-- A first part that weighs nothing. -/
theorem free_bind (hm : Brief G V m 0) (hf : ∀ a, Brief G V (f a) n) :
    Brief G V (m >>= f) n := (hm.bind hf).mono (Nat.zero_add n).le

/-- An attempt is as brief as the computation. -/
theorem attempt (hm : Brief G V m n) :
    Brief G V (Act.attempt m : EStateM δ σ (Except ε α)) n := fun s => hm s

/-- A program without a mark is one stretch. -/
theorem stretch (h : Brief G V m n) : Within V G.stretch m n :=
  Logs.mono h fun _ log hlog => (G.stretch_le_total log).trans hlog.2

/-- A brief program makes no mark. -/
theorem marks (h : Brief G V m n) : Within V G.marks m 0 :=
  Logs.mono h fun _ _ hlog => hlog.1.le

/-- A program that is one entry, in every state. -/
theorem entry (h : ∀ s, ∃ a, G.mark a = false ∧ G.weight a ≤ n ∧ V.runs a s (state (m s))) :
    Brief G V m n := by
  intro s
  obtain ⟨a, ha, hn, hruns⟩ := h s
  refine ⟨[a], .one hruns, ?_, ?_⟩
  · simp [Gauge.marks, ha]
  · simpa [Gauge.total, ha] using hn

end Brief

/-! ### Rounds that start with a mark -/

/-- Every run weighs at most `k` before its first mark, and `n` between two marks. -/
def Paced (G : Gauge A) (V : Vocabulary σ A) (m : EStateM ε σ α) (k n : Nat) : Prop :=
  Logs V m fun _ log => G.first log ≤ k ∧ G.stretch log ≤ n

namespace Paced

variable {j : Nat}

/-- A pure value is paced: with an empty log there is no stretch to bound. -/
theorem pure (a : α) : Paced G V (Pure.pure a : EStateM ε σ α) k n :=
  Logs.pure ⟨Nat.zero_le k, Nat.zero_le n⟩

/-- A mark starts a run of its own. -/
theorem mark {a : A} (ha : G.mark a = true) (ht : Total m)
    (hm : ∀ s b t, m s = .ok b t → V.runs a s t) (hf : ∀ b, Paced G V (f b) k n) :
    Paced G V (m >>= f) 0 n := by
  have hmark : Logs V m fun res log => ∃ b, res = .ok b ∧ log = [a] := Logs.action ht hm
  refine hmark.bind_ok ?_
  intro b log hlog
  refine Logs.mono (hf b) ?_
  intro res log' hlog'
  rw [hlog]
  simp only [List.singleton_append, Gauge.first, Gauge.stretch, ha, if_true]
  exact ⟨Nat.le_refl 0, hlog'.2⟩

/-- A brief program in front of a paced one only makes the first stretch longer. -/
theorem brief_bind (hm : Brief G V m j) (hf : ∀ a, Paced G V (f a) k n) (hn : j + k ≤ n) :
    Paced G V (m >>= f) (j + k) n := by
  refine Logs.bind hm ?_ ?_
  · intro e log hlog
    have hfirst := G.first_le_total log
    have hstretch := G.stretch_le_total log
    omega
  · intro a log hlog
    refine Logs.mono (hf a) ?_
    intro res log' hlog'
    have hfirst := G.first_append_le log log'
    have hle := G.first_le_total log
    have hstretch := G.stretch_append log log'
    have hall := G.stretch_le_total log
    omega

/-- In a paced program every stretch is bounded, the first one and those between its marks. -/
theorem stretch (h : Paced G V m k n) : Within V G.stretch m n :=
  Logs.mono h fun _ _ hlog => hlog.2

end Paced

end

end LeanCd
