import LeanCd.Lib.Utf8
import LeanCd.Proofs.HolderNames

/-!
# `LeanCd.Proofs.IdentityBytes`: the identity on bytes

`truncate_char_boundary` walks back over bytes and takes a slice, which panics inside of a
character. `Bytes.truncateCharBoundary` and `Bytes.holderIdentity` are the two functions on bytes,
without a result where they would panic. `truncateCharBoundary_bytes` and `holderIdentity_bytes`:
they have the results of the functions of `LeanCd.Lock`.

`LongestPrefix` is what a truncated text is meant to be. `identity_truncated` is the result for
both functions.

The bound is on bytes and the characters of a name may have several, which is why the source walks
back. The loop stops at the last boundary, at most three bytes before the bound, and a cut at a
boundary leaves a text. So neither slice panics, and the prefix is the longest that fits.
-/

set_option autoImplicit false

namespace LeanCd.Lock

/-- The longest text that `s` begins with, that ends where a character of `s` ends, and that
fits. -/
structure LongestPrefix (s : Str) (maxBytes : Nat) (t : Str) : Prop where
  isPrefix : t.bytes <+: s.bytes
  greatest : IsGreatest {k | s.Boundary k ∧ k ≤ maxBytes} t.len

/-- A text is truncated to its longest prefix that fits. No slice panics. -/
theorem truncateCharBoundary_longest (s : Str) (maxBytes : Nat) :
    ∃ t, Bytes.truncateCharBoundary s maxBytes = some t ∧ LongestPrefix s maxBytes t := by
  rw [Bytes.truncateCharBoundary]
  split
  next hfits =>
    exact ⟨s, rfl, List.prefix_refl _, ⟨Str.boundary_len, hfits⟩, fun k hk => hk.1.le_len⟩
  next =>
    have hcut := isGreatest_walkBack (p := s.isCharBoundary) rfl maxBytes
    simp only [Str.isCharBoundary_iff] at hcut
    obtain ⟨t, ht, hbytes, hlen⟩ := Str.sliceTo_eq_some hcut.1.1
    exact ⟨t, ht, hbytes ▸ List.take_prefix _ _, hlen ▸ hcut⟩

-- The limit is inside of the second character.
example : (Bytes.truncateCharBoundary (.ofString "ああ") 5).map Str.bytes =
    some (Utf8.encode ['あ']) := by decide

/-! ### The functions on characters -/

/-- To walk back over bytes until one starts a character is to find the last boundary among
characters. -/
theorem walkBack_eq_lastBoundary (cs : List Char) (n : Nat) :
    walkBack (Utf8.isCharBoundary (Utf8.encode cs)) n = lastBoundary cs n := by
  induction n with
  | zero => rfl
  | succ n ih => rw [walkBack, lastBoundary, ih, Utf8.isCharBoundary_eq]

/-- A truncation on bytes is one on characters. -/
theorem truncateCharBoundary_bytes (s : String) (maxBytes : Nat) :
    Bytes.truncateCharBoundary (.ofString s) maxBytes =
      some (.ofString (truncateCharBoundary s maxBytes)) := by
  rw [Bytes.truncateCharBoundary, truncateCharBoundary, Str.len_ofString]
  split
  next => rfl
  next =>
    have hcut := isGreatest_walkBack (p := (Str.ofString s).isCharBoundary) rfl maxBytes
    obtain ⟨t, ht, hbytes, -⟩ := Str.sliceTo_eq_some (Str.isCharBoundary_iff.mp hcut.1.1)
    rw [ht, Option.some.injEq, Str.ext_iff, hbytes, ← walkBack_eq_lastBoundary]
    refine (Utf8.take_encode hcut.1.1).trans ?_
    rw [Str.bytes_ofString, String.toList_ofList]
    rfl

/-- An identity on bytes is one on characters. -/
theorem holderIdentity_bytes (base : String) (pid : UInt32) :
    Bytes.holderIdentity (.ofString base) pid = some (.ofString (holderIdentity base pid)) := by
  have hempty : (Str.ofString base).len = 0 ↔ base = "" := by
    rw [Str.len_ofString, Text.byteLen_eq_zero, String.toList_eq_nil_iff]
  have hsuffix : (Bytes.suffix pid).len = Text.byteLen (":" ++ toString pid.toNat).toList :=
    Str.len_ofString _
  rw [Bytes.holderIdentity, holderIdentity, hsuffix, truncateCharBoundary_bytes]
  simp only [hempty]
  split
  next => rw [Str.ofString_append]; rfl
  next => rw [Str.ofString_append]; rfl

/-! ### The bound -/

/-- The suffix is the colon and the digits of the process id. -/
theorem len_suffix (pid : UInt32) : (Bytes.suffix pid).len = 1 + Text.byteLen (pidDigits pid) := by
  have hlist : (":" ++ toString pid.toNat).toList = ':' :: pidDigits pid := by
    simp [pidDigits]
  rw [Str.len, Bytes.suffix, Str.ofString, Utf8.length_encode, hlist, Text.byteLen_cons]
  rfl

/-- An identity never panics, and it fits with the longest part of the base there is room for. -/
theorem holderIdentity_fits (base : Str) (pid : UInt32) :
    ∃ chosen, Bytes.holderIdentity base pid = some (chosen ++ Bytes.suffix pid) ∧
      (chosen ++ Bytes.suffix pid).len ≤ 63 ∧
      (base.len = 0 ∧ chosen = .ofString "leancd" ∨
        base.len ≠ 0 ∧ LongestPrefix base (63 - (Bytes.suffix pid).len) chosen) := by
  have hsuffix := len_suffix pid
  have hdigits := byteLen_pidDigits_le pid
  rw [Bytes.holderIdentity]
  by_cases hbase : base.len = 0
  · have hfallback : (Str.ofString "leancd").len = 6 := by decide
    refine ⟨.ofString "leancd", by rw [if_pos hbase]; rfl, ?_, .inl ⟨hbase, rfl⟩⟩
    rw [Str.len_append]
    omega
  · obtain ⟨chosen, hchosen, hlongest⟩ := truncateCharBoundary_longest base
      (63 - (Bytes.suffix pid).len)
    refine ⟨chosen, by rw [if_neg hbase, hchosen]; rfl, ?_, .inr ⟨hbase, hlongest⟩⟩
    have hfits := hlongest.greatest.1.2
    rw [Str.len_append]
    omega

/-- A truncation never panics and gives the longest prefix that ends with a character and fits.
An identity never panics, has at most 63 bytes, and is a base with the process id behind it: the
fallback when the given base is empty, and its longest prefix that fits next to the id otherwise. -/
theorem identity_truncated (s : Str) (maxBytes : Nat) (base : Str) (pid : UInt32) :
    (∃ t, Bytes.truncateCharBoundary s maxBytes = some t ∧ LongestPrefix s maxBytes t) ∧
      ∃ chosen, Bytes.holderIdentity base pid = some (chosen ++ Bytes.suffix pid) ∧
        (chosen ++ Bytes.suffix pid).len ≤ 63 ∧
        (base.len = 0 ∧ chosen = .ofString "leancd" ∨
          base.len ≠ 0 ∧ LongestPrefix base (63 - (Bytes.suffix pid).len) chosen) :=
  ⟨truncateCharBoundary_longest s maxBytes, holderIdentity_fits base pid⟩

end LeanCd.Lock
