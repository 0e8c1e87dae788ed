import LeanCd.Lib.Text
import Mathlib.Order.Bounds.Defs

/-!
# `LeanCd.Lib.Utf8`: texts as bytes

`Str` is `str`: bytes that encode some characters. `isCharBoundary` looks at one byte, as the
standard library does, and `Str.sliceTo` has no result where a slice would panic.
`isCharBoundary_iff`: the byte test finds the ends of the characters.

`walkBack` is the loop that goes back from an index until a test succeeds. It stops at the greatest
index where the test does (`isGreatest_walkBack`).

The bridge between bytes and characters is `isCharBoundary_iff`. With it a function on bytes is
compared with one on lists of characters, where induction is by character and every prefix is a
text.

Nothing here names the controller.
-/

set_option autoImplicit false

namespace LeanCd

namespace Utf8

/-- The bytes of some characters. -/
def encode (cs : List Char) : List UInt8 := cs.flatMap String.utf8EncodeChar

/-- The first byte of a character: as an `i8` it is at least `-0x40`. -/
def startsChar (b : UInt8) : Bool := b < 0x80 || 0xC0 ≤ b

/-- `str::is_char_boundary`. -/
def isCharBoundary (bytes : List UInt8) (index : Nat) : Bool :=
  if index = 0 then true
  else
    match bytes[index]? with
    | some b => startsChar b
    | none => index == bytes.length

/-- The empty text has no bytes. -/
@[simp] theorem encode_nil : encode [] = [] := rfl

/-- The bytes of the first character come first. -/
@[simp] theorem encode_cons (c : Char) (cs : List Char) :
    encode (c :: cs) = String.utf8EncodeChar c ++ encode cs := List.flatMap_cons

/-- Joined texts have joined bytes. -/
@[simp] theorem encode_append (cs ds : List Char) :
    encode (cs ++ ds) = encode cs ++ encode ds := List.flatMap_append

/-- The number of bytes is the sum of the characters' sizes. -/
theorem length_encode (cs : List Char) : (encode cs).length = Text.byteLen cs := by
  induction cs with
  | nil => rfl
  | cons c cs ih =>
      rw [encode_cons, List.length_append, String.length_utf8EncodeChar, ih, Text.byteLen_cons]

/-! ### The bytes of one character -/

/-- A byte starts a character when it is an ASCII byte or a leading byte, by its value. -/
theorem startsChar_ofNat {n : Nat} (h : n < 256) :
    startsChar (UInt8.ofNat n) = (decide (n < 0x80) || decide (0xC0 ≤ n)) := by
  have hvalue : (UInt8.ofNat n).toNat = n := UInt8.toNat_ofNat_of_lt' h
  simp [startsChar, UInt8.lt_iff_toNat_lt, UInt8.le_iff_toNat_le, hvalue]

/-- A byte of a character after its first. -/
theorem startsChar_rest (n : Nat) : startsChar (UInt8.ofNat (n % 0x40 + 0x80)) = false := by
  rw [startsChar_ofNat (by omega)]
  simp only [Bool.or_eq_false_iff, decide_eq_false_iff_not]
  omega

/-- The first byte of a character of several. -/
theorem startsChar_lead {n : Nat} (hlow : 0xC0 ≤ n) (hhigh : n < 256) :
    startsChar (UInt8.ofNat n) = true := by
  rw [startsChar_ofNat hhigh, decide_eq_true hlow, Bool.or_true]

/-- The first byte of a character begins one, and no other byte of it does. -/
theorem exists_encodeChar (c : Char) : ∃ b rest, String.utf8EncodeChar c = b :: rest ∧
    startsChar b = true ∧ ∀ x ∈ rest, startsChar x = false := by
  -- One case for each length of the encoding.
  fun_cases String.utf8EncodeChar c with
  | case1 v hone =>
      refine ⟨_, _, rfl, ?_, by simp⟩
      rw [startsChar_ofNat (by omega), decide_eq_true (by omega), Bool.true_or]
  | case2 | case3 | case4 =>
      refine ⟨_, _, rfl, startsChar_lead (by omega) (by omega), ?_⟩
      simp only [List.forall_mem_cons, startsChar_rest, true_and, List.not_mem_nil, false_imp_iff,
        implies_true]

/-! ### Boundaries -/

/-- What follows a boundary begins with a first byte. -/
theorem startsChar_of_head {cs : List Char} {b : UInt8} (h : (encode cs)[0]? = some b) :
    startsChar b = true := by
  cases cs with
  | nil => cases h
  | cons c cs =>
      obtain ⟨b', rest, hc, hb', -⟩ := exists_encodeChar c
      rw [encode_cons, hc, List.cons_append, List.getElem?_cons_zero, Option.some.injEq] at h
      exact h ▸ hb'

/-- The end of some first characters is a boundary. -/
theorem isCharBoundary_append (cs ds : List Char) :
    isCharBoundary (encode (cs ++ ds)) (encode cs).length = true := by
  unfold isCharBoundary
  split
  next => rfl
  next =>
    have hnext : (encode (cs ++ ds))[(encode cs).length]? = (encode ds)[0]? := by
      rw [encode_append, List.getElem?_append_right (Nat.le_refl _), Nat.sub_self]
    rw [hnext]
    split
    next b hb => exact startsChar_of_head hb
    next hend =>
      have hds : (encode ds).length = 0 := Nat.le_zero.mp (List.getElem?_eq_none_iff.mp hend)
      rw [encode_append, List.length_append, hds, Nat.add_zero]
      exact beq_self_eq_true _

/-- Inside a character there is no boundary. -/
theorem not_isCharBoundary_inside {c : Char} {cs : List Char} {k : Nat} (hpos : 0 < k)
    (hk : k < (String.utf8EncodeChar c).length) : isCharBoundary (encode (c :: cs)) k = false := by
  obtain ⟨b, rest, hc, -, hrest⟩ := exists_encodeChar c
  obtain ⟨j, rfl⟩ := Nat.exists_eq_succ_of_ne_zero (Nat.ne_of_gt hpos)
  rw [hc] at hk
  have hj : j < rest.length := Nat.lt_of_succ_lt_succ hk
  have hbyte : (encode (c :: cs))[j + 1]? = some rest[j] := by
    rw [encode_cons, hc, List.cons_append, List.getElem?_cons_succ, List.getElem?_append_left hj,
      List.getElem?_eq_getElem hj]
  rw [isCharBoundary, if_neg (Nat.succ_ne_zero j), hbyte]
  exact hrest _ (List.getElem_mem hj)

/-- Behind a character the boundaries are those of the rest. -/
theorem isCharBoundary_rest {c : Char} {cs : List Char} {k : Nat} (hpos : 0 < k)
    (h : isCharBoundary (encode (c :: cs)) ((String.utf8EncodeChar c).length + k) = true) :
    isCharBoundary (encode cs) k = true := by
  have hbyte : (encode (c :: cs))[(String.utf8EncodeChar c).length + k]? = (encode cs)[k]? := by
    rw [encode_cons, List.getElem?_append_right (Nat.le_add_right _ _), Nat.add_sub_cancel_left]
  rw [isCharBoundary, if_neg (by omega), hbyte, encode_cons, List.length_append] at h
  rw [isCharBoundary, if_neg (Nat.ne_of_gt hpos)]
  cases hk : (encode cs)[k]? with
  | some b =>
      rw [hk] at h
      exact h
  | none =>
      rw [hk] at h
      exact beq_iff_eq.mpr (Nat.add_left_cancel (beq_iff_eq.mp h))

/-- The boundaries are the ends of the characters. -/
theorem isCharBoundary_encode {cs : List Char} {k : Nat} :
    isCharBoundary (encode cs) k = true ↔ ∃ pre, pre <+: cs ∧ (encode pre).length = k := by
  constructor
  · intro h
    induction cs generalizing k with
    | nil =>
        refine ⟨[], List.nil_prefix, ?_⟩
        cases k with
        | zero => rfl
        | succ k => cases h
    | cons c cs ih =>
        rcases Nat.eq_zero_or_pos k with rfl | hpos
        · exact ⟨[], List.nil_prefix, rfl⟩
        -- Between zero and the end of the first character there is no boundary.
        · have hout : (String.utf8EncodeChar c).length ≤ k := Nat.le_of_not_lt fun hin => by
            rw [not_isCharBoundary_inside hpos hin] at h
            cases h
          obtain ⟨j, rfl⟩ := Nat.exists_eq_add_of_le hout
          have hrest : isCharBoundary (encode cs) j = true := by
            rcases Nat.eq_zero_or_pos j with rfl | hj
            · rfl
            · exact isCharBoundary_rest hj h
          obtain ⟨pre, hpre, hlen⟩ := ih hrest
          refine ⟨c :: pre, List.cons_prefix_cons.mpr ⟨rfl, hpre⟩, ?_⟩
          rw [encode_cons, List.length_append, hlen]
  · rintro ⟨pre, ⟨ds, rfl⟩, rfl⟩
    exact isCharBoundary_append pre ds

/-- The byte test agrees with the search for characters that fill the bytes. -/
theorem isCharBoundary_eq (cs : List Char) (k : Nat) :
    isCharBoundary (encode cs) k = Text.isCharBoundary cs k := by
  rw [Bool.eq_iff_iff, isCharBoundary_encode, Text.isCharBoundary, beq_iff_eq]
  constructor
  · rintro ⟨pre, ⟨ds, rfl⟩, rfl⟩
    rw [length_encode, Text.takeBytes_append]
  · intro hfill
    exact ⟨Text.takeBytes k cs, Text.takeBytes_prefix k cs, by rw [length_encode, hfill]⟩

/-- The bytes before a boundary are those of the characters that fit. -/
theorem take_encode {cs : List Char} {k : Nat} (h : isCharBoundary (encode cs) k = true) :
    (encode cs).take k = encode (Text.takeBytes k cs) := by
  obtain ⟨pre, ⟨ds, rfl⟩, rfl⟩ := isCharBoundary_encode.mp h
  rw [encode_append, List.take_left, length_encode, Text.takeBytes_append]

end Utf8

/-! ### Texts -/

open Utf8

/-- `str`: the bytes of some characters. -/
@[ext] structure Str where
  bytes : List UInt8
  valid : ∃ cs, encode cs = bytes

namespace Str

/-- The bytes of a text. -/
def ofString (s : String) : Str := ⟨encode s.toList, s.toList, rfl⟩

/-- The bytes of a text are the encoding of its characters. -/
@[simp] theorem bytes_ofString (s : String) : (ofString s).bytes = encode s.toList := rfl

/-- `str::len`. -/
def len (s : Str) : Nat := s.bytes.length

/-- `str::is_char_boundary`. -/
def isCharBoundary (s : Str) (index : Nat) : Bool := Utf8.isCharBoundary s.bytes index

/-- The characters of the text can be parted after so many bytes. -/
def Boundary (s : Str) (k : Nat) : Prop :=
  ∃ cs ds, s.bytes = encode (cs ++ ds) ∧ (encode cs).length = k

variable {s t : Str} {k : Nat}

/-- The boundary test of the standard library, on bytes, finds exactly the ends of the prefixes. A
byte that continues a character is never the first of one. -/
theorem isCharBoundary_iff : s.isCharBoundary k = true ↔ s.Boundary k := by
  constructor
  · intro h
    obtain ⟨cs, hcs⟩ := s.valid
    rw [isCharBoundary, ← hcs, isCharBoundary_encode] at h
    obtain ⟨pre, ⟨ds, rfl⟩, hlen⟩ := h
    exact ⟨pre, ds, hcs.symm, hlen⟩
  · rintro ⟨cs, ds, hs, rfl⟩
    rw [isCharBoundary, hs]
    exact isCharBoundary_append cs ds

/-- The end of a text is a boundary. -/
theorem boundary_len : s.Boundary s.len := by
  obtain ⟨cs, hcs⟩ := s.valid
  exact ⟨cs, [], by rw [List.append_nil, hcs], by rw [hcs, len]⟩

/-- A boundary is no further than the end. -/
theorem Boundary.le_len (h : s.Boundary k) : k ≤ s.len := by
  obtain ⟨cs, ds, hs, rfl⟩ := h
  rw [len, hs, encode_append, List.length_append]
  exact Nat.le_add_right _ _

/-- What is before a boundary encodes some characters. -/
theorem Boundary.valid_take (h : s.Boundary k) : ∃ cs, encode cs = s.bytes.take k := by
  obtain ⟨cs, ds, hs, rfl⟩ := h
  exact ⟨cs, by rw [hs, encode_append, List.take_left]⟩

/-- `&s[..stop]`, without a result where it panics. -/
def sliceTo (s : Str) (stop : Nat) : Option Str :=
  if h : s.isCharBoundary stop = true then
    some ⟨s.bytes.take stop, (isCharBoundary_iff.mp h).valid_take⟩
  else none

/-- A slice panics nowhere but inside of a character and behind the end. -/
theorem sliceTo_eq_some (h : s.Boundary k) :
    ∃ t, s.sliceTo k = some t ∧ t.bytes = s.bytes.take k ∧ t.len = k := by
  refine ⟨_, dif_pos (isCharBoundary_iff.mpr h), rfl, ?_⟩
  exact List.length_take_of_le h.le_len

/-- The length in bytes is that of the characters' encoding. -/
theorem len_ofString (s : String) : (ofString s).len = Text.byteLen s.toList :=
  length_encode s.toList

instance : Append Str where
  append s t := ⟨s.bytes ++ t.bytes, by
    obtain ⟨cs, hcs⟩ := s.valid
    obtain ⟨ds, hds⟩ := t.valid
    exact ⟨cs ++ ds, by rw [encode_append, hcs, hds]⟩⟩

/-- The bytes of a joined text are joined. -/
@[simp] theorem bytes_append : (s ++ t).bytes = s.bytes ++ t.bytes := rfl

/-- The lengths of joined texts add up. -/
@[simp] theorem len_append : (s ++ t).len = s.len + t.len := List.length_append

/-- To join texts and then take their bytes is to take the bytes and join them. -/
theorem ofString_append (s t : String) : ofString (s ++ t) = ofString s ++ ofString t := by
  ext1
  rw [bytes_append, bytes_ofString, String.toList_append, encode_append]
  rfl

end Str

/-! ### Going back -/

/-- Go back from `n` while the test fails, to zero at most. -/
def walkBack (p : Nat → Bool) : Nat → Nat
  | 0 => 0
  | n + 1 => if p (n + 1) then n + 1 else walkBack p n

/-- The loop stops at the last index where the test succeeds. -/
theorem isGreatest_walkBack {p : Nat → Bool} (hzero : p 0 = true) (n : Nat) :
    IsGreatest {k | p k = true ∧ k ≤ n} (walkBack p n) := by
  induction n with
  | zero => exact ⟨⟨hzero, Nat.le_refl 0⟩, fun k hk => hk.2⟩
  | succ n ih =>
      rw [walkBack]
      split
      next hp => exact ⟨⟨hp, Nat.le_refl _⟩, fun k hk => hk.2⟩
      next hp =>
        refine ⟨⟨ih.1.1, Nat.le_succ_of_le ih.1.2⟩, fun k hk => ih.2 ⟨hk.1, ?_⟩⟩
        have hne : k ≠ n + 1 := by
          rintro rfl
          exact hp hk.1
        exact Nat.le_of_lt_succ (Nat.lt_of_le_of_ne hk.2 hne)

end LeanCd
