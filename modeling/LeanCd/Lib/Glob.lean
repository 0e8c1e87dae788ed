import LeanCd.Lib.Text
import Mathlib.Data.List.Infix

/-!
# `LeanCd.Lib.Glob`: glob patterns over paths

The pattern language of the `glob` crate. A pattern is split at `/`, and each component is a
pattern for one component of a path: `?` and `*` stand for one and for any characters,
`[…]` and `[!…]` for a character in and outside a class. The component `**` stands for any
number of components. A class that is not closed and a `**` inside a component are errors.

`matchPath_append` splits the match of a pattern in two. `parse_literal` says that a component
without metacharacters matches itself alone, `matchTokens_suffix` what a component such as
`*.yaml` matches.

Matching is by recursion on the pattern. A star tries every way to cut the rest of the name, and
the component `**` every way to cut the rest of the path. Both are lists of tails, so that the
lemmas about them are facts about appended lists.

Nothing here names the controller.
-/

set_option autoImplicit false

namespace LeanCd.Glob

/-- One entry of a character class. -/
inductive CharSpec where
  | single (c : Char)
  | range (first last : Char)
deriving DecidableEq

/-- One element of a component. -/
inductive Token where
  | char (c : Char)
  | anyChar
  | anySequence
  | within (specs : List CharSpec)
  | except (specs : List CharSpec)
deriving DecidableEq

/-- One component of a pattern. -/
inductive Component where
  | recursive
  | segment (tokens : List Token)
deriving DecidableEq

/-! ### Parsing -/

/-- The entries of a class, read from the left. -/
def charSpecs : List Char → List CharSpec
  | first :: '-' :: last :: rest => .range first last :: charSpecs rest
  | c :: rest => .single c :: charSpecs rest
  | [] => []

/-- Where in a component the parser is: in the text, behind a `[`, or inside a class with the
characters read so far, last one first. -/
inductive Reading where
  | text
  | opened
  | inClass (negated : Bool) (read : List Char)

/-- A class with these characters. -/
def classToken (negated : Bool) (read : List Char) : Token :=
  if negated then .except (charSpecs read.reverse) else .within (charSpecs read.reverse)

/-- The text of the error for a class that is not closed. -/
def invalidRange : String := "invalid range pattern"

/-- The text of the error for a `**` that is not a component of its own. -/
def recursiveWildcards : String := "recursive wildcards must form a single path component"

/-- The elements of a component. -/
def tokenize : Reading → List Char → Except String (List Token)
  | .text, [] => .ok []
  | .opened, [] => .error invalidRange
  | .inClass _ _, [] => .error invalidRange
  | .text, c :: cs =>
      if c = '[' then tokenize .opened cs
      else if c = '*' then
        if cs.head? = some '*' then .error recursiveWildcards
        else (tokenize .text cs).map (.anySequence :: ·)
      else if c = '?' then (tokenize .text cs).map (.anyChar :: ·)
      else (tokenize .text cs).map (.char c :: ·)
  | .opened, c :: cs =>
      if c = '!' then tokenize (.inClass true []) cs else tokenize (.inClass false [c]) cs
  | .inClass negated read, c :: cs =>
      -- The first character of a class belongs to it, also when it is a bracket.
      if c = ']' ∧ read ≠ [] then (tokenize .text cs).map (classToken negated read :: ·)
      else tokenize (.inClass negated (c :: read)) cs

/-- The pattern of one component. -/
def parse (s : String) : Except String Component :=
  if s = "**" then .ok .recursive else (tokenize .text s.toList).map .segment

/-- The patterns of a list of components, stopping at the first error. -/
def parseAll : List String → Except String (List Component)
  | [] => .ok []
  | s :: rest =>
      match parse s with
      | .error e => .error e
      | .ok p => (parseAll rest).map (p :: ·)

/-- The components of a pattern. -/
def components (pattern : String) : List String := (Text.split '/' pattern).filter (· ≠ "")

/-- The pattern of a text. -/
def compile (pattern : String) : Except String (List Component) := parseAll (components pattern)

/-- The pattern is absolute, and has no component that moves within the tree. -/
def Absolute (pattern : String) : Prop :=
  Text.startsWith pattern "/" = true ∧ ∀ c ∈ components pattern, c ≠ "." ∧ c ≠ ".."

/-- A path that is put together with a separator splits into the components of both parts. -/
theorem components_append (s t : String) :
    components (s ++ "/" ++ t) = components s ++ components t := by
  rw [components, Text.split_append, List.filter_append]
  rfl

/-- A text without a separator is one component. -/
theorem components_single {s : String} (hne : s ≠ "") (h : '/' ∉ s.toList) :
    components s = [s] := by
  rw [components, Text.split_single h]
  simp [hne]

/-- The components of a path. -/
theorem components_join {path : List String} (h : ∀ s ∈ path, s ≠ "" ∧ '/' ∉ s.toList) :
    components (Text.joinWith "/" path) = path := by
  induction path with
  | nil => rfl
  | cons s rest ih =>
      have hs := h s List.mem_cons_self
      have hrest := ih fun t ht => h t (List.mem_cons_of_mem s ht)
      cases rest with
      | nil => exact components_single hs.1 hs.2
      | cons t rest =>
          rw [Text.joinWith, components_append, components_single hs.1 hs.2, hrest]
          · rfl
          · simp

/-! ### Matching -/

/-- The character is of the entry. -/
def CharSpec.holds (c : Char) : CharSpec → Bool
  | .single d => c = d
  | .range first last => first ≤ c ∧ c ≤ last

/-- The element matches the character. -/
def Token.accepts (c : Char) : Token → Bool
  | .char d => c = d
  | .anyChar => true
  | .anySequence => false
  | .within specs => specs.any (·.holds c)
  | .except specs => !specs.any (·.holds c)

/-- The elements match the text. -/
def matchTokens : List Token → List Char → Bool
  | [], cs => cs.isEmpty
  | t :: ts, cs =>
      if t = .anySequence then cs.tails.any (matchTokens ts)
      else
        match cs with
        | [] => false
        | c :: cs => t.accepts c && matchTokens ts cs

/-- The pattern matches the path. -/
def matchPath : List Component → List String → Bool
  | [], path => path.isEmpty
  | .recursive :: ps, path => path.tails.any (matchPath ps)
  | .segment ts :: ps, path =>
      match path with
      | [] => false
      | name :: path => matchTokens ts name.toList && matchPath ps path

/-- A test on the tails of a list succeeds when some way to cut the list passes it. This is what a
star does with the rest of a name. -/
theorem any_tails {α : Type} (f : List α → Bool) (l : List α) :
    l.tails.any f = true ↔ ∃ a b, l = a ++ b ∧ f b = true := by
  rw [List.any_eq_true]
  constructor
  · intro h
    obtain ⟨b, hb, hf⟩ := h
    obtain ⟨a, ha⟩ := (List.mem_tails b l).mp hb
    exact ⟨a, b, ha.symm, hf⟩
  · intro h
    obtain ⟨a, b, hl, hf⟩ := h
    exact ⟨b, (List.mem_tails b l).mpr ⟨a, hl.symm⟩, hf⟩

/-- A pattern in two parts matches what one part matches, followed by what the other does. -/
theorem matchPath_append (ps qs : List Component) (path : List String) :
    matchPath (ps ++ qs) path = true ↔
      ∃ a b, path = a ++ b ∧ matchPath ps a = true ∧ matchPath qs b = true := by
  induction ps generalizing path with
  | nil => simp [matchPath]
  | cons p ps ih =>
      cases p with
      -- The component `**` may skip nothing, so it belongs to the first part with what it skips.
      | recursive =>
          simp only [List.cons_append, matchPath, any_tails, ih]
          constructor
          · intro h
            obtain ⟨skipped, -, rfl, a, b, rfl, ha, hb⟩ := h
            exact ⟨skipped ++ a, b, by simp, ⟨skipped, a, rfl, ha⟩, hb⟩
          · intro h
            obtain ⟨-, b, rfl, ⟨skipped, a, rfl, ha⟩, hb⟩ := h
            exact ⟨skipped, a ++ b, by simp, a, b, rfl, ha, hb⟩
      -- A segment takes one name, which is the first of the first part.
      | segment ts =>
          cases path with
          | nil => simp [matchPath]
          | cons name path =>
              simp only [List.cons_append, matchPath, Bool.and_eq_true, ih]
              constructor
              · intro h
                obtain ⟨hname, a, b, rfl, ha, hb⟩ := h
                exact ⟨name :: a, b, rfl, by simp [hname, ha], hb⟩
              · intro h
                obtain ⟨a, b, hpath, ha, hb⟩ := h
                cases a with
                | nil => simp at ha
                | cons name' a =>
                    cases hpath
                    simp only [Bool.and_eq_true] at ha
                    exact ⟨ha.1, a, b, rfl, ha.2, hb⟩

/-- Any depth, and a name. -/
theorem matchPath_recursive_segment (ts : List Token) (path : List String) :
    matchPath [.recursive, .segment ts] path = true ↔
      ∃ mid name, path = mid ++ [name] ∧ matchTokens ts name.toList = true := by
  rw [matchPath, any_tails]
  constructor
  · intro h
    obtain ⟨mid, rest, rfl, h⟩ := h
    cases rest with
    | nil => simp [matchPath] at h
    | cons name rest =>
        simp only [matchPath, Bool.and_eq_true, List.isEmpty_iff] at h
        exact ⟨mid, name, by rw [h.2], h.1⟩
  · intro h
    obtain ⟨mid, name, rfl, h⟩ := h
    exact ⟨mid, [name], rfl, by simp [matchPath, h]⟩

/-! ### Components without metacharacters -/

/-- The characters that are syntax in a pattern. -/
def metachars : List Char := ['?', '*', '[', ']']

/-- No character of the text is syntax. -/
def Literal (s : String) : Prop := ∀ c ∈ s.toList, c ∉ metachars

/-- A text without metacharacters is read as its own characters. -/
theorem tokenize_literal {cs : List Char} (h : ∀ c ∈ cs, c ∉ metachars) :
    tokenize .text cs = .ok (cs.map .char) := by
  induction cs with
  | nil => rfl
  | cons c cs ih =>
      have hc : c ∉ metachars := h c List.mem_cons_self
      have hrest := ih fun d hd => h d (List.mem_cons_of_mem c hd)
      simp only [metachars, List.mem_cons, List.not_mem_nil, or_false, not_or] at hc
      rw [tokenize, if_neg hc.2.2.1, if_neg hc.2.1, if_neg hc.1, hrest]
      rfl

/-- Plain characters match one text only, namely themselves. -/
theorem matchTokens_chars (cs ds : List Char) :
    matchTokens (cs.map .char) ds = true ↔ ds = cs := by
  induction cs generalizing ds with
  | nil => simp [matchTokens]
  | cons c cs ih =>
      cases ds with
      | nil => simp [matchTokens]
      | cons d ds => simp [matchTokens, Token.accepts, ih]

/-- A component without metacharacters matches itself. -/
theorem parse_literal {s : String} (h : Literal s) :
    parse s = .ok (.segment (s.toList.map .char)) := by
  have hne : s ≠ "**" := by
    intro hs
    have hstar := h '*' (by rw [hs]; decide)
    simp [metachars] at hstar
  rw [parse, if_neg hne, tokenize_literal h]
  rfl

/-- Hence a path without metacharacters parses, one segment for each component. -/
theorem parseAll_literal {path : List String} (h : ∀ s ∈ path, Literal s) :
    parseAll path = .ok (path.map fun s => .segment (s.toList.map .char)) := by
  induction path with
  | nil => rfl
  | cons s rest ih =>
      rw [parseAll, parse_literal (h s List.mem_cons_self)]
      simp [ih fun t ht => h t (List.mem_cons_of_mem s ht), Except.map]

/-- A path without metacharacters matches itself alone. -/
theorem matchPath_literal (path path' : List String) :
    matchPath (path.map fun s => .segment (s.toList.map .char)) path' = true ↔
      path' = path := by
  induction path generalizing path' with
  | nil => simp [matchPath]
  | cons s rest ih =>
      cases path' with
      | nil => simp [matchPath]
      | cons s' rest' =>
          simp [matchPath, matchTokens_chars, ih, String.toList_inj]

/-- A list of components is parsed in parts. -/
theorem parseAll_append (path path' : List String) :
    parseAll (path ++ path') =
      match parseAll path with
      | .error e => .error e
      | .ok ps => (parseAll path').map (ps ++ ·) := by
  induction path with
  | nil =>
      show parseAll path' = (parseAll path').map id
      cases parseAll path' <;> rfl
  | cons s rest ih =>
      rw [List.cons_append, parseAll, parseAll, ih]
      cases parse s with
      | error e => rfl
      | ok p =>
          cases parseAll rest with
          | error e => rfl
          | ok ps => cases parseAll path' <;> rfl

/-- A `*` and a text match what ends with the text. -/
theorem matchTokens_suffix (cs ds : List Char) :
    matchTokens (.anySequence :: cs.map .char) ds = true ↔ cs <:+ ds := by
  unfold matchTokens
  rw [if_pos rfl, any_tails]
  simp only [matchTokens_chars]
  constructor
  · intro h
    obtain ⟨a, b, hd, rfl⟩ := h
    exact ⟨a, hd.symm⟩
  · intro h
    obtain ⟨a, hd⟩ := h
    exact ⟨a, cs, hd.symm, rfl⟩

example : compile "/work/app[1]/**/*.yaml" =
    .ok [.segment (['w', 'o', 'r', 'k'].map .char),
      .segment (['a', 'p', 'p'].map .char ++ [.within [.single '1']]), .recursive,
      .segment (.anySequence :: ['.', 'y', 'a', 'm', 'l'].map .char)] := by
  decide

end LeanCd.Glob
