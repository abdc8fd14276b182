/-
This file defines the methods of texts that are read and written as a whole: counting a
pattern, replacing characters, line endings, and stripping. A text is its list of
characters. The counting lemmas say that a separator outside the pattern cuts a text in
two, and that translating line endings moves no occurrence.
-/

import Mathlib.Algebra.GroupWithZero.Nat
import Mathlib.Data.List.Basic
import Mathlib.Data.List.Infix

namespace Python

/-! ### Counting -/

/-- Occurrences of a pattern after `skip` characters that belong to the last one. -/
def countFrom (pattern : List Char) : Nat → List Char → Nat
  | _, [] => 0
  | 0, first :: rest =>
      if pattern.isPrefixOf (first :: rest) then
        countFrom pattern (pattern.length - 1) rest + 1
      else countFrom pattern 0 rest
  | skip + 1, _ :: rest => countFrom pattern skip rest

/-- `text.count(pattern)`: occurrences do not overlap. -/
def count (pattern text : List Char) : Nat := countFrom pattern 0 text

section Counting

variable {pattern : List Char} {separator : Char}

/-- A prefix that avoids a separator ends before it. -/
theorem prefix_append_cons_iff (avoids : separator ∉ pattern) (before after : List Char) :
    pattern <+: before ++ separator :: after ↔ pattern <+: before := by
  constructor
  · rintro ⟨rest, same⟩
    rcases List.append_eq_append_iff.mp same with ⟨more, rfl, _⟩ | ⟨more, rfl, starts⟩
    · exact List.prefix_append _ _
    · cases more with
      | nil => rw [List.append_nil]
      | cons first more =>
        obtain ⟨rfl, _⟩ := List.cons.inj starts
        exact absurd (List.mem_append_right before List.mem_cons_self) avoids
  · exact fun matched => matched.trans (List.prefix_append _ _)

/-- A separator outside the pattern cuts the count in two. -/
theorem countFrom_append_cons (nonempty : pattern ≠ []) (avoids : separator ∉ pattern)
    (before after : List Char) (skip : Nat) (short : skip ≤ before.length) :
    countFrom pattern skip (before ++ separator :: after) =
      countFrom pattern skip before + count pattern after := by
  induction before generalizing skip with
  | nil =>
    obtain rfl := Nat.le_zero.mp short
    have unmatched : pattern.isPrefixOf (separator :: after) = false := by
      rw [Bool.eq_false_iff, ne_eq, List.isPrefixOf_iff_prefix]
      exact fun matched => nonempty (List.prefix_nil.mp
        ((prefix_append_cons_iff avoids [] after).mp matched))
    simp [countFrom, count, unmatched]
  | cons first rest inductionHypothesis =>
    cases skip with
    | succ skip =>
      simp only [List.cons_append, countFrom]
      exact inductionHypothesis skip (Nat.le_of_succ_le_succ short)
    | zero =>
      have same : pattern.isPrefixOf (first :: (rest ++ separator :: after)) =
          pattern.isPrefixOf (first :: rest) := by
        rw [Bool.eq_iff_iff, List.isPrefixOf_iff_prefix, List.isPrefixOf_iff_prefix]
        exact prefix_append_cons_iff avoids (first :: rest) after
      simp only [List.cons_append, countFrom, same]
      split
      · rename_i matched
        have bound := (List.isPrefixOf_iff_prefix.mp matched).length_le
        rw [List.length_cons] at bound
        rw [inductionHypothesis _ (by omega)]
        omega
      · exact inductionHypothesis 0 (Nat.zero_le _)

theorem count_append_cons (nonempty : pattern ≠ []) (avoids : separator ∉ pattern)
    (before after : List Char) :
    count pattern (before ++ separator :: after) = count pattern before + count pattern after :=
  countFrom_append_cons nonempty avoids before after 0 (Nat.zero_le _)

/-- A text without one of the pattern's characters holds no occurrence. -/
theorem count_eq_zero {mark : Char} (needed : mark ∈ pattern) {text : List Char}
    (absent : mark ∉ text) : count pattern text = 0 := by
  unfold count
  induction text with
  | nil => rfl
  | cons first rest inductionHypothesis =>
    have unmatched : pattern.isPrefixOf (first :: rest) = false := by
      rw [Bool.eq_false_iff, ne_eq, List.isPrefixOf_iff_prefix]
      exact fun matched => absent (matched.subset needed)
    rw [countFrom, unmatched]
    exact inductionHypothesis fun member => absent (List.mem_cons_of_mem _ member)

/-- Lines that end with a separator are counted one by one. -/
theorem count_flatMap {Row : Type} (nonempty : pattern ≠ []) (avoids : separator ∉ pattern)
    {line : Row → List Char} (ended : ∀ row, ∃ inner, line row = inner ++ [separator])
    (rows : List Row) :
    count pattern (rows.flatMap line) = (rows.map fun row => count pattern (line row)).sum := by
  induction rows with
  | nil => rfl
  | cons row rest inductionHypothesis =>
    obtain ⟨inner, same⟩ := ended row
    have alone : count pattern (inner ++ [separator]) = count pattern inner :=
      count_append_cons nonempty avoids inner []
    rw [List.flatMap_cons, List.map_cons, List.sum_cons, ← inductionHypothesis, same, alone,
      List.append_assoc, List.singleton_append, count_append_cons nonempty avoids]

end Counting

/-! ### Line endings -/

/-- What reading in text mode makes of line endings: `\r\n` and `\r` become `\n`. -/
def universalNewlines : List Char → List Char
  | [] => []
  | '\r' :: '\n' :: rest => '\n' :: universalNewlines rest
  | '\r' :: rest => '\n' :: universalNewlines rest
  | first :: rest => first :: universalNewlines rest

theorem universalNewlines_append {before : List Char} (plain : '\r' ∉ before)
    (after : List Char) :
    universalNewlines (before ++ after) = before ++ universalNewlines after := by
  induction before with
  | nil => rfl
  | cons first rest inductionHypothesis =>
    have different : first ≠ '\r' := fun same => plain (same ▸ List.mem_cons_self)
    have others : '\r' ∉ rest := fun member => plain (List.mem_cons_of_mem _ member)
    rw [List.cons_append, universalNewlines, inductionHypothesis others, List.cons_append]
    · exact fun _ same => absurd same different
    · exact fun same => absurd same different

theorem universalNewlines_of_plain {text : List Char} (plain : '\r' ∉ text) :
    universalNewlines text = text := by
  have whole := universalNewlines_append plain []
  rwa [List.append_nil, universalNewlines, List.append_nil] at whole

theorem notMem_universalNewlines {char : Char} (different : char ≠ '\n') {text : List Char}
    (absent : char ∉ text) : char ∉ universalNewlines text := by
  fun_induction universalNewlines text with
  | case1 => exact List.not_mem_nil
  | case2 rest inductionHypothesis =>
    simp only [List.mem_cons, not_or] at absent ⊢
    exact ⟨different, inductionHypothesis absent.2.2⟩
  | case3 rest _ inductionHypothesis =>
    simp only [List.mem_cons, not_or] at absent ⊢
    exact ⟨different, inductionHypothesis absent.2⟩
  | case4 first rest _ _ inductionHypothesis =>
    simp only [List.mem_cons, not_or] at absent ⊢
    exact ⟨absent.1, inductionHypothesis absent.2⟩

/-- Translating line endings moves no occurrence of a pattern without line endings. -/
theorem count_universalNewlines {pattern : List Char} (nonempty : pattern ≠ [])
    (noReturn : '\r' ∉ pattern) (noNewline : '\n' ∉ pattern) (text : List Char) :
    count pattern (universalNewlines text) = count pattern text := by
  -- The induction is on the length: the text is cut at its first `\r`.
  induction bound : text.length using Nat.strong_induction_on generalizing text with
  | _ length inductionHypothesis =>
    by_cases plain : '\r' ∈ text
    · obtain ⟨before, after, rfl, first⟩ := List.eq_append_cons_of_mem plain
      rw [universalNewlines_append first, count_append_cons nonempty noReturn]
      rw [List.length_append, List.length_cons] at bound
      cases after with
      | nil =>
        rw [universalNewlines, count_append_cons nonempty noNewline, universalNewlines]
        exact fun _ same => absurd same (List.cons_ne_nil _ _).symm
      | cons next rest =>
        rw [List.length_cons] at bound
        by_cases paired : next = '\n'
        · subst paired
          rw [universalNewlines, count_append_cons nonempty noNewline,
            inductionHypothesis rest.length (by omega) rest rfl,
            ← List.nil_append ('\n' :: rest), count_append_cons nonempty noNewline]
          exact congrArg (count pattern before + ·) (Nat.zero_add _).symm
        · rw [universalNewlines, count_append_cons nonempty noNewline,
            inductionHypothesis (next :: rest).length (by rw [List.length_cons]; omega) _ rfl]
          intro _ same
          exact absurd (List.cons.inj same).1 paired
    · rw [universalNewlines_of_plain plain]

/-- The characters that end a line for `splitlines`. -/
def isLineBreak (char : Char) : Bool :=
  char ∈ ['\n', '\u000b', '\u000c', '\r', '\u001c', '\u001d', '\u001e', '\u0085',
    '\u2028', '\u2029']

/-- The lines of a text after the characters of the current line, last one first. -/
def splitlinesFrom (line : List Char) : List Char → List (List Char)
  | [] => if line = [] then [] else [line.reverse]
  | '\r' :: '\n' :: rest => line.reverse :: splitlinesFrom [] rest
  | first :: rest =>
      if isLineBreak first then line.reverse :: splitlinesFrom [] rest
      else splitlinesFrom (first :: line) rest

/-- `text.splitlines()` -/
def splitlines (text : List Char) : List (List Char) := splitlinesFrom [] text

/-! ### Stripping and replacing -/

/-- `text` without the characters to drop around it. -/
def stripBy (drop : Char → Bool) (text : List Char) : List Char :=
  ((text.dropWhile drop).reverse.dropWhile drop).reverse

theorem stripBy_subset (drop : Char → Bool) (text : List Char) : stripBy drop text ⊆ text := by
  intro char member
  have inside := (List.dropWhile_sublist drop).subset (List.mem_reverse.mp member)
  exact (List.dropWhile_sublist drop).subset (List.mem_reverse.mp inside)

/-- The characters `strip()` drops. -/
def isSpace (char : Char) : Bool :=
  char ∈ ['\t', '\n', '\u000b', '\u000c', '\r', '\u001c', '\u001d', '\u001e', '\u001f', ' ',
    '\u0085', '\u00a0', '\u1680', '\u2028', '\u2029', '\u202f', '\u205f', '\u3000'] ||
  0x2000 ≤ char.toNat && char.toNat ≤ 0x200a

/-- `text.replace(old, new)`, for one character `old`. -/
def replaceChar (old : Char) (new text : List Char) : List Char :=
  text.flatMap fun char => if char = old then new else [char]

theorem notMem_replaceChar_self {old : Char} {new : List Char} (apart : old ∉ new)
    (text : List Char) : old ∉ replaceChar old new text := by
  intro member
  obtain ⟨char, _, inside⟩ := List.mem_flatMap.mp member
  split at inside
  · exact apart inside
  · rename_i different
    exact different (List.mem_singleton.mp inside).symm

theorem notMem_replaceChar {old char : Char} {new text : List Char} (fresh : char ∉ new)
    (absent : char ∉ text) : char ∉ replaceChar old new text := by
  intro member
  obtain ⟨source, sourceMember, inside⟩ := List.mem_flatMap.mp member
  split at inside
  · exact fresh inside
  · exact absent (List.mem_singleton.mp inside ▸ sourceMember)

end Python
