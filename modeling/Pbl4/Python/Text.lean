/-
This file defines the string methods of Python the scripts use: `startswith`,
`endswith`, `in`, `lower` and splitting at a separator.
-/

import Mathlib.Data.List.Infix

namespace Python

/-! ### Parts of a text -/

/-- `text.startswith(pattern)` -/
def startswith (text pattern : String) : Bool :=
  pattern.toList.isPrefixOf text.toList

/-- `text.endswith(pattern)` -/
def endswith (text pattern : String) : Bool :=
  pattern.toList.isSuffixOf text.toList

/-- `pattern in text`, on characters. -/
def occursIn (pattern : List Char) : List Char → Bool
  | [] => pattern.isEmpty
  | first :: rest => pattern.isPrefixOf (first :: rest) || occursIn pattern rest

/-- `pattern in text` -/
def contains (text pattern : String) : Bool :=
  occursIn pattern.toList text.toList

theorem startswith_iff {text pattern : String} :
    startswith text pattern = true ↔ pattern.toList <+: text.toList :=
  List.isPrefixOf_iff_prefix

theorem occursIn_iff {pattern text : List Char} :
    occursIn pattern text = true ↔ pattern <:+: text := by
  induction text with
  | nil => rw [occursIn, List.isEmpty_iff, List.infix_nil]
  | cons first rest inductionHypothesis =>
    rw [occursIn, Bool.or_eq_true, List.isPrefixOf_iff_prefix, inductionHypothesis,
      List.infix_cons_iff]

theorem contains_iff {text pattern : String} :
    contains text pattern = true ↔ pattern.toList <:+: text.toList :=
  occursIn_iff

/-- `text.split(separator)`, for a separator of one character. -/
def split (text : String) (separator : Char) : List String :=
  (text.toList.splitOn separator).map String.ofList

/-! ### Lower case -/

/-- The lower case of one character, as far as a search for ASCII text can tell. Apart from
the ASCII capitals, only the dotted capital I and the Kelvin sign have an ASCII letter in
their lower case; every other character stays outside ASCII and is left as it is. -/
def lowerChar (char : Char) : List Char :=
  if char = '\u0130' then ['i', '\u0307']
  else if char = '\u212A' then ['k']
  else [char.toLower]

/-- `text.lower()`, as far as a search for ASCII text can tell. -/
def lower (text : String) : String :=
  String.ofList (text.toList.flatMap lowerChar)

theorem toList_lower (text : String) : (lower text).toList = text.toList.flatMap lowerChar :=
  String.toList_ofList

end Python
