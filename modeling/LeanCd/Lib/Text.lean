import Mathlib.Data.List.Basic

/-!
# `LeanCd.Lib.Text`: the text functions of Rust's standard library

Splitting, trimming, ASCII case folding and number parsing, on lists of
characters and by structural recursion, so that a kernel can run them. The
`String` versions convert on the way in and out.

A decimal number that was printed is read back (`digitsFrom_toDigits`),
which is what makes identifiers with numbers in them distinct. Of a text only its characters count
here. Its bytes are in `LeanCd.Lib.Utf8`.

Nothing here names the controller.
-/

set_option autoImplicit false

namespace LeanCd.Text

/-- `str::split` on one separator character. The result is never empty: a text
without the separator is its own single part. -/
def splitChars (sep : Char) : List Char → List (List Char)
  | [] => [[]]
  | c :: cs =>
      if c = sep then [] :: splitChars sep cs
      else
        -- The rest starts with the part this character belongs to.
        match splitChars sep cs with
        | [] => [[c]]
        | part :: parts => (c :: part) :: parts

/-- `str::split` on one separator character. -/
def split (sep : Char) (s : String) : List String :=
  (splitChars sep s.toList).map String.ofList

/-- A split has at least one part, which is empty for the empty text. -/
theorem splitChars_ne_nil (sep : Char) (cs : List Char) : splitChars sep cs ≠ [] := by
  cases cs with
  | nil => simp [splitChars]
  | cons c cs =>
      rw [splitChars]
      split
      · simp
      · split <;> simp

/-- A separator cuts a split in two. -/
theorem splitChars_append (sep : Char) (cs ds : List Char) :
    splitChars sep (cs ++ sep :: ds) = splitChars sep cs ++ splitChars sep ds := by
  induction cs with
  | nil => simp [splitChars]
  | cons c cs ih =>
      rw [List.cons_append, splitChars, splitChars, ih]
      split
      · rfl
      · cases hparts : splitChars sep cs with
        | nil => exact absurd hparts (splitChars_ne_nil sep cs)
        | cons part parts => rfl

/-- A text without the separator is the only part of its split. -/
theorem splitChars_single {sep : Char} {cs : List Char} (h : sep ∉ cs) :
    splitChars sep cs = [cs] := by
  induction cs with
  | nil => rfl
  | cons c cs ih =>
      have hc : c ≠ sep := fun heq => h (by simp [heq])
      rw [splitChars, if_neg hc, ih fun hmem => h (List.mem_cons_of_mem c hmem)]

/-- A text is split at a separator in its middle. -/
theorem split_append (s t : String) : split '/' (s ++ "/" ++ t) = split '/' s ++ split '/' t := by
  have hlist : (s ++ "/" ++ t).toList = s.toList ++ '/' :: t.toList := by simp
  rw [split, hlist, splitChars_append, List.map_append]
  rfl

/-- A text without the separator is its own single part. -/
theorem split_single {s : String} (h : '/' ∉ s.toList) : split '/' s = [s] := by
  rw [split, splitChars_single h]
  simp

/-- `str::split_once` on one separator character: the text before the first
separator and the text after it. -/
def splitOnceChars (sep : Char) : List Char → Option (List Char × List Char)
  | [] => none
  | c :: cs =>
      if c = sep then some ([], cs)
      else (splitOnceChars sep cs).map fun (before, after) => (c :: before, after)

/-- A text that is not split has no separator. -/
theorem splitOnceChars_none {sep : Char} {cs : List Char} (h : splitOnceChars sep cs = none) :
    sep ∉ cs := by
  induction cs with
  | nil => simp
  | cons c cs ih =>
      rw [splitOnceChars] at h
      split at h
      next => cases h
      next hc => simpa [Ne.symm hc] using ih (by simpa using h)

/-- A text is split at its first separator. -/
theorem splitOnceChars_some {sep : Char} {cs before after : List Char}
    (h : splitOnceChars sep cs = some (before, after)) :
    sep ∉ before ∧ cs = before ++ sep :: after := by
  induction cs generalizing before with
  | nil => cases h
  | cons c cs ih =>
      rw [splitOnceChars] at h
      split at h
      next hc =>
        cases h
        exact ⟨List.not_mem_nil, by rw [hc]; rfl⟩
      next hc =>
        obtain ⟨⟨before', after'⟩, hrest, heq⟩ := Option.map_eq_some_iff.mp h
        cases heq
        obtain ⟨hnot, hcs⟩ := ih hrest
        exact ⟨by simpa [Ne.symm hc] using hnot, by rw [hcs]; rfl⟩

/-- `str::split_once` on one separator character. -/
def splitOnce (sep : Char) (s : String) : Option (String × String) :=
  (splitOnceChars sep s.toList).map fun (before, after) =>
    (String.ofList before, String.ofList after)

/-- `char::is_whitespace`: the Unicode `White_Space` property. -/
def isWhitespace (c : Char) : Bool :=
  let n := c.toNat
  (9 ≤ n && n ≤ 13) || n == 0x20 || n == 0x85 || n == 0xA0 || n == 0x1680 ||
    (0x2000 ≤ n && n ≤ 0x200A) || n == 0x2028 || n == 0x2029 || n == 0x202F ||
    n == 0x205F || n == 0x3000

/-- `str::trim` on characters: white space goes on both ends. -/
def trimChars (cs : List Char) : List Char :=
  ((cs.dropWhile isWhitespace).reverse.dropWhile isWhitespace).reverse

/-- `str::trim`. -/
def trim (s : String) : String := String.ofList (trimChars s.toList)

/-- `str::to_ascii_lowercase`. -/
def toAsciiLowercase (s : String) : String := String.ofList (s.toList.map Char.toLower)

/-- `str::starts_with` on a text prefix. -/
def startsWith (s pre : String) : Bool := pre.toList.isPrefixOf s.toList

/-- `str::ends_with` on a text suffix. -/
def endsWith (s suffix : String) : Bool := suffix.toList.isSuffixOf s.toList

/-- `str::len`: the bytes of the UTF-8 form. -/
def byteLen : List Char → Nat
  | [] => 0
  | c :: cs => c.utf8Size + byteLen cs

/-- The characters that fit into so many bytes. -/
def takeBytes : Nat → List Char → List Char
  | _, [] => []
  | n, c :: cs => if c.utf8Size ≤ n then c :: takeBytes (n - c.utf8Size) cs else []

/-- The empty text has no bytes. -/
@[simp] theorem byteLen_nil : byteLen [] = 0 := rfl

/-- The bytes of the first character come first. -/
@[simp] theorem byteLen_cons (c : Char) (cs : List Char) :
    byteLen (c :: cs) = c.utf8Size + byteLen cs := rfl

/-- Byte lengths add up. -/
@[simp] theorem byteLen_append (cs ds : List Char) :
    byteLen (cs ++ ds) = byteLen cs + byteLen ds := by
  induction cs with
  | nil => simp
  | cons c cs ih => rw [List.cons_append, byteLen_cons, byteLen_cons, ih, Nat.add_assoc]

/-- Only the empty text has no bytes, since every character has at least one. -/
theorem byteLen_eq_zero {cs : List Char} : byteLen cs = 0 ↔ cs = [] := by
  cases cs with
  | nil => simp
  | cons c cs =>
      have hc := c.utf8Size_pos
      rw [byteLen_cons]
      refine ⟨fun h => absurd h (by omega), fun h => by cases h⟩

/-- A character has at most four bytes. -/
theorem byteLen_le_four_mul (cs : List Char) : byteLen cs ≤ 4 * cs.length := by
  induction cs with
  | nil => exact Nat.le_refl _
  | cons c cs ih =>
      have hc := Char.utf8Size_le_four c
      rw [byteLen_cons, List.length_cons]
      omega

/-- The characters that fit do fit. -/
theorem byteLen_takeBytes_le (n : Nat) (cs : List Char) : byteLen (takeBytes n cs) ≤ n := by
  induction cs generalizing n with
  | nil => exact Nat.zero_le n
  | cons c cs ih =>
      unfold takeBytes
      split
      next hfits =>
        have htail := ih (n - c.utf8Size)
        rw [byteLen_cons]
        omega
      next => exact Nat.zero_le n

/-- Room that is not used may be taken away. -/
theorem takeBytes_eq_of_le {n m : Nat} {cs : List Char} (hmn : m ≤ n)
    (h : byteLen (takeBytes n cs) ≤ m) : takeBytes m cs = takeBytes n cs := by
  induction cs generalizing n m with
  | nil => simp [takeBytes]
  | cons c cs ih =>
      unfold takeBytes at h ⊢
      split at h
      next hfits =>
        rw [byteLen_cons] at h
        have hfits' : c.utf8Size ≤ m := by omega
        have htail : m - c.utf8Size ≤ n - c.utf8Size := by omega
        rw [if_pos hfits, if_pos hfits', ih htail (by omega)]
      next hlong =>
        have hlong' : ¬c.utf8Size ≤ m := by omega
        rw [if_neg hlong, if_neg hlong']

/-- A text that fits is taken whole. -/
theorem takeBytes_of_le {n : Nat} {cs : List Char} (h : byteLen cs ≤ n) :
    takeBytes n cs = cs := by
  induction cs generalizing n with
  | nil => simp [takeBytes]
  | cons c cs ih =>
      rw [byteLen_cons] at h
      rw [takeBytes, if_pos (by omega), ih (by omega)]

/-- The characters that fit are at the front. -/
theorem takeBytes_prefix (n : Nat) (cs : List Char) : takeBytes n cs <+: cs := by
  induction cs generalizing n with
  | nil => exact List.nil_prefix
  | cons c cs ih =>
      unfold takeBytes
      split
      next => exact List.cons_prefix_cons.mpr ⟨rfl, ih _⟩
      next => exact List.nil_prefix

/-- Some characters at the front fit into their bytes, and no more do. -/
theorem takeBytes_append (cs ds : List Char) : takeBytes (byteLen cs) (cs ++ ds) = cs := by
  induction cs with
  | nil =>
      cases ds with
      | nil => rfl
      | cons d ds => exact if_neg (Nat.not_le_of_lt d.utf8Size_pos)
  | cons c cs ih =>
      rw [byteLen_cons, List.cons_append, takeBytes, if_pos (Nat.le_add_right _ _),
        Nat.add_sub_cancel_left, ih]

/-- `str::is_char_boundary`: some characters at the front fill so many bytes. -/
def isCharBoundary (cs : List Char) (n : Nat) : Bool := byteLen (takeBytes n cs) == n

/-- The value of a decimal digit. -/
def digitValue (c : Char) : Option Nat :=
  if '0' ≤ c ∧ c ≤ '9' then some (c.toNat - '0'.toNat) else none

/-- A non-empty run of decimal digits, read after the value `acc`. -/
def digitsFrom (acc : Nat) : List Char → Option Nat
  | [] => some acc
  | c :: cs => (digitValue c).bind fun d => digitsFrom (10 * acc + d) cs

/-- A decimal number with at least one digit. -/
def digits : List Char → Option Nat
  | [] => none
  | cs => digitsFrom 0 cs

/-- `i64::MIN`. -/
def i64Min : Int := -0x8000000000000000

/-- `i64::MAX`. -/
def i64Max : Int := 0x7fffffffffffffff

/-- `u64::MAX`. -/
def u64Max : Nat := 0xffffffffffffffff

/-- `str::parse::<i64>`: an optional sign, then digits, inside the range. -/
def parseI64 (s : String) : Option Int :=
  let signed : Option Int :=
    match s.toList with
    | '+' :: cs => (digits cs).map Int.ofNat
    | '-' :: cs => (digits cs).map fun n => -Int.ofNat n
    | cs => (digits cs).map Int.ofNat
  signed.filter fun i => decide (i64Min ≤ i) && decide (i ≤ i64Max)

/-- `str::parse::<usize>` on a 64-bit platform. -/
def parseUsize (s : String) : Option Nat :=
  let unsigned : Option Nat :=
    match s.toList with
    | '+' :: cs => digits cs
    | cs => digits cs
  unsigned.filter fun n => decide (n ≤ u64Max)

/-! ### A printed number -/

/-- A decimal digit is read as the number it prints. -/
theorem digitValue_digitChar {d : Nat} (h : d < 10) : digitValue (Nat.digitChar d) = some d := by
  have hall : ∀ d < 10, digitValue (Nat.digitChar d) = some d := by decide
  exact hall d h

/-- A decimal digit is no white space, so trimming stops at it. -/
theorem isWhitespace_digitChar {d : Nat} (h : d < 10) : isWhitespace (Nat.digitChar d) = false := by
  have hall : ∀ d < 10, isWhitespace (Nat.digitChar d) = false := by decide
  exact hall d h

/-- Reading digits from left to right may be cut anywhere: the first part's number is what the
second part starts from. -/
theorem digitsFrom_append (acc : Nat) (cs ds : List Char) :
    digitsFrom acc (cs ++ ds) = (digitsFrom acc cs).bind fun n => digitsFrom n ds := by
  induction cs generalizing acc with
  | nil => rfl
  | cons c cs ih =>
      rw [List.cons_append, digitsFrom, digitsFrom]
      cases digitValue c with
      | none => rfl
      | some d => exact ih (10 * acc + d)

/-- What is printed in decimal is read back. By strong induction on the number, since its last digit
is its rest by ten. -/
theorem digitsFrom_toDigits (n : Nat) : digitsFrom 0 (Nat.toDigits 10 n) = some n := by
  induction n using Nat.strongRecOn with
  | ind n ih =>
      by_cases hn : n < 10
      · rw [Nat.toDigits_of_lt_base hn, digitsFrom, digitValue_digitChar hn]
        simp [digitsFrom]
      · have hlast : n % 10 < 10 := Nat.mod_lt n (by decide)
        rw [Nat.toDigits_of_base_le (by decide) (Nat.le_of_not_lt hn), digitsFrom_append,
          ih (n / 10) (by omega), Option.bind_some, digitsFrom, digitValue_digitChar hlast]
        simp only [Option.bind_some, digitsFrom, Option.some.injEq]
        omega

/-- Different numbers print differently, because a printed number can be read back. -/
theorem toString_injective : Function.Injective (toString : Nat → String) := by
  intro n m heq
  have hdigits : Nat.toDigits 10 n = Nat.toDigits 10 m := by
    have hlists := congrArg String.toList heq
    rwa [Nat.toString_eq_ofList_toDigits, Nat.toString_eq_ofList_toDigits, String.toList_ofList,
      String.toList_ofList] at hlists
  have hread := digitsFrom_toDigits n
  rw [hdigits, digitsFrom_toDigits] at hread
  exact (Option.some.inj hread).symm

/-- A printed number consists of decimal digits. -/
theorem exists_digit_of_mem_toDigits {n : Nat} {c : Char} (h : c ∈ Nat.toDigits 10 n) :
    ∃ d < 10, c = Nat.digitChar d := by
  induction n using Nat.strongRecOn with
  | ind n ih =>
      by_cases hn : n < 10
      · rw [Nat.toDigits_of_lt_base hn, List.mem_singleton] at h
        exact ⟨n, hn, h⟩
      · rw [Nat.toDigits_of_base_le (by decide) (Nat.le_of_not_lt hn), List.mem_append,
          List.mem_singleton] at h
        rcases h with h | h
        · exact ih (n / 10) (by omega) h
        · exact ⟨n % 10, Nat.mod_lt n (by decide), h⟩

/-- Trimming a line takes its end off. -/
theorem trimChars_line {cs : List Char} (h : ∀ c ∈ cs, isWhitespace c = false) :
    trimChars (cs ++ ['\n']) = cs := by
  have hdrop : ∀ cs : List Char, (∀ c ∈ cs, isWhitespace c = false) →
      cs.dropWhile isWhitespace = cs := by
    intro cs hcs
    cases cs with
    | nil => rfl
    | cons c cs => rw [List.dropWhile_cons, if_neg (by simp [hcs c List.mem_cons_self])]
  unfold trimChars
  cases cs with
  | nil => decide
  | cons c cs =>
      rw [List.cons_append, List.dropWhile_cons, if_neg (by simp [h c List.mem_cons_self]),
        ← List.cons_append, List.reverse_append, List.reverse_singleton, List.singleton_append,
        List.dropWhile_cons, if_pos (by decide), hdrop, List.reverse_reverse]
      exact fun c' hc' => h c' (List.mem_reverse.mp hc')

/-- A number on a line of its own is read back. -/
theorem parseUsize_trim_line {n : Nat} (h : n ≤ u64Max) :
    parseUsize (trim (toString n ++ "\n")) = some n := by
  -- The line break is white space and is trimmed, and the digits are not.
  have htrim : (trim (toString n ++ "\n")).toList = Nat.toDigits 10 n := by
    have hlist : (toString n ++ "\n").toList = Nat.toDigits 10 n ++ ['\n'] := by
      rw [String.toList_append, Nat.toString_eq_ofList_toDigits, String.toList_ofList]
      rfl
    rw [trim, String.toList_ofList, hlist, trimChars_line]
    intro c hc
    obtain ⟨d, hd, rfl⟩ := exists_digit_of_mem_toDigits hc
    exact isWhitespace_digitChar hd
  have hread := digitsFrom_toDigits n
  rw [parseUsize, htrim]
  cases hds : Nat.toDigits 10 n with
  | nil => exact absurd hds Nat.toDigits_ne_nil
  | cons c cs =>
      -- The first character is no sign, as it is a digit.
      have hplus : c ≠ '+' := by
        obtain ⟨d, hd, rfl⟩ :=
          exists_digit_of_mem_toDigits (n := n) (c := c) (by rw [hds]; exact List.mem_cons_self)
        have hall : ∀ d < 10, Nat.digitChar d ≠ '+' := by decide
        exact hall d hd
      rw [hds] at hread
      split
      next heq => exact absurd (List.cons.inj heq).1 hplus
      next =>
        rw [digits, hread, Option.filter_some, decide_eq_true h, if_pos rfl]
        intro heq
        cases heq

/-- A character as `str::escape_debug` writes it. `unprintable` is the table of the
characters outside ASCII that are written as an escape. -/
def escapeDebugChar (unprintable : Char → Bool) (c : Char) : List Char :=
  if c = '"' then ['\\', '"']
  else if c = '\\' then ['\\', '\\']
  else if c = '\n' then ['\\', 'n']
  else if c = '\r' then ['\\', 'r']
  else if c = '\t' then ['\\', 't']
  else if c.toNat = 0 then ['\\', '0']
  -- Controls go by a rule, the characters outside ASCII by Rust's own tables.
  else if c.toNat < 0x20 || c.toNat = 0x7F || (0x80 ≤ c.toNat && unprintable c) then
    "\\u\x7b".toList ++ (Nat.toDigits 16 c.toNat) ++ ['\x7d']
  else [c]

/-- The `Debug` form of a text. -/
def debug (unprintable : Char → Bool) (s : String) : String :=
  String.ofList ('"' :: s.toList.flatMap (escapeDebugChar unprintable) ++ ['"'])

/-- The characters that are escaped in the userinfo part of a URL: controls, everything
outside ASCII, and the delimiters. -/
def userinfoEscaped (c : Char) : Bool :=
  c.toNat < 0x20 || 0x7F ≤ c.toNat || " \"<>\x60#?\x7b\x7d/:;=@[\\]^|".toList.contains c

/-- A byte as a percent escape. -/
def percentByte (b : UInt8) : List Char :=
  ['%', (Nat.digitChar (b.toNat / 16)).toUpper, (Nat.digitChar (b.toNat % 16)).toUpper]

/-- A text percent-encoded for the userinfo part of a URL. -/
def percentEncode (s : String) : String :=
  String.ofList (s.toList.flatMap fun c =>
    if userinfoEscaped c then (String.utf8EncodeChar c).flatMap percentByte else [c])

example : percentEncode "p@ss wörd" = "p%40ss%20w%C3%B6rd" := by decide

/-- `[T]::join` on texts. -/
def joinWith (sep : String) : List String → String
  | [] => ""
  | [s] => s
  | s :: rest => s ++ sep ++ joinWith sep rest

/-- The `Debug` form of a list of texts. -/
def debugList (unprintable : Char → Bool) (l : List String) : String :=
  "[" ++ joinWith ", " (l.map (debug unprintable)) ++ "]"

end LeanCd.Text
