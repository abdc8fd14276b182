/-
This file reads a PEP 508 requirement as far as its distribution name and extras: blanks,
an identifier, extras in brackets, and then nothing or the first character of a version,
an address or a marker. What follows that character is not looked at, so every PEP 508
text is read, and some others. Names are compared in their normal form.
-/

import Mathlib.Data.List.Basic
import Pbl4.Python.Characters
import Pbl4.Python.Text

namespace Python

/-! ### Identifiers -/

/-- The separators inside an identifier. -/
def isSeparator (char : Char) : Bool := char = '-' || char = '_' || char = '.'

/-- The characters of an identifier. -/
def isIdentifierChar (char : Char) : Bool := char.isAlphanum || isSeparator char

/-- An identifier begins and ends with a letter or a digit. -/
def isIdentifier (chars : List Char) : Bool :=
  chars.head?.any Char.isAlphanum && chars.getLast?.any Char.isAlphanum &&
    chars.all isIdentifierChar

/-- Blanks between the parts of a requirement. -/
def isBlank (char : Char) : Bool := char = ' ' || char = '\t'

/-! ### Requirements -/

/-- The name and the extras of a requirement. -/
structure Requirement where
  name : String
  extras : List String
  deriving DecidableEq

/-- A version, an address or a marker may start here, or the requirement ends. -/
def startsTail (chars : List Char) : Bool :=
  match chars.dropWhile isBlank with
  | [] => true
  | first :: _ => first ∈ ['<', '>', '=', '!', '~', '(', '@', ';']

/-- The extras after an opening bracket, and what follows the closing one. -/
def parseExtras (inner : List Char) : Option (List String × List Char) :=
  let names := ((inner.takeWhile (· ≠ ']')).splitOn ',').map (stripBy isBlank)
  match inner.dropWhile (· ≠ ']') with
  | [] => none
  | _ :: rest =>
      if names = [[]] then some ([], rest)
      else if names.all isIdentifier then some (names.map String.ofList, rest)
      else none

/-- The requirement a text states, if it states one. -/
def parseRequirement (text : String) : Option Requirement :=
  let chars := text.toList.dropWhile isBlank
  let name := chars.takeWhile isIdentifierChar
  if isIdentifier name then
    match (chars.dropWhile isIdentifierChar).dropWhile isBlank with
    | '[' :: inner =>
        match parseExtras inner with
        | some (extras, rest) =>
            if startsTail rest then some ⟨String.ofList name, extras⟩ else none
        | none => none
    | rest => if startsTail rest then some ⟨String.ofList name, []⟩ else none
  else none

/-- The name of a requirement is part of its text. -/
theorem name_infix_of_parseRequirement {text : String} {requirement : Requirement}
    (parsed : parseRequirement text = some requirement) :
    requirement.name.toList <:+: text.toList := by
  have written : requirement.name.toList =
      (text.toList.dropWhile isBlank).takeWhile isIdentifierChar := by
    unfold parseRequirement at parsed
    simp only at parsed
    split at parsed
    · split at parsed
      · split at parsed
        · split at parsed
          · exact (Option.some.inj parsed) ▸ String.toList_ofList
          · exact absurd parsed (by simp)
        · exact absurd parsed (by simp)
      · split at parsed
        · exact (Option.some.inj parsed) ▸ String.toList_ofList
        · exact absurd parsed (by simp)
    · exact absurd parsed (by simp)
  rw [written]
  exact (List.takeWhile_prefix _).isInfix.trans (List.dropWhile_suffix _).isInfix

/-! ### Normal names -/

/-- A run of separators becomes one `-`, and letters their lower case. -/
def normalizeChars : List Char → List Char
  | [] => []
  | [last] => if isSeparator last then ['-'] else lowerChar last
  | first :: second :: rest =>
      if isSeparator first then
        if isSeparator second then normalizeChars (second :: rest)
        else '-' :: normalizeChars (second :: rest)
      else lowerChar first ++ normalizeChars (second :: rest)

/-- `re.sub(r"[-_.]+", "-", name).lower()` -/
def normalizeName (name : String) : String := String.ofList (normalizeChars name.toList)

theorem dash_mem_normalizeChars {first : Char} {rest : List Char}
    (separator : isSeparator first = true) : '-' ∈ normalizeChars (first :: rest) := by
  induction rest generalizing first with
  | nil => simp [normalizeChars, separator]
  | cons second rest inductionHypothesis =>
    rw [normalizeChars, if_pos separator]
    split
    · rename_i secondSeparator
      exact inductionHypothesis secondSeparator
    · exact List.mem_cons_self

/-- A normal name without a `-` is the lower case of the name. -/
theorem normalizeChars_eq_lower {chars : List Char} (plain : '-' ∉ normalizeChars chars) :
    normalizeChars chars = chars.flatMap lowerChar := by
  induction chars with
  | nil => rfl
  | cons first rest inductionHypothesis =>
    have letter : ¬ isSeparator first = true :=
      fun separator => plain (dash_mem_normalizeChars separator)
    cases rest with
    | nil => simp [normalizeChars, letter]
    | cons second rest =>
      rw [normalizeChars, if_neg letter] at plain ⊢
      have tail := inductionHypothesis fun member => plain (List.mem_append_right _ member)
      exact (congrArg (lowerChar first ++ ·) tail).trans List.flatMap_cons.symm

/-- The distribution a requirement is about, in normal form. -/
def distribution (text : String) : Option String :=
  (parseRequirement text).map fun requirement => normalizeName requirement.name

/-- A requirement mentions its distribution, when that is one word. -/
theorem contains_of_distribution {text name : String} (plain : '-' ∉ name.toList)
    (named : distribution text = some name) : contains (lower text) name = true := by
  obtain ⟨requirement, parsed, rfl⟩ := Option.map_eq_some_iff.mp named
  rw [contains_iff, toList_lower]
  rw [normalizeName, String.toList_ofList] at plain ⊢
  rw [normalizeChars_eq_lower plain]
  obtain ⟨before, after, split⟩ := name_infix_of_parseRequirement parsed
  rw [← split, List.flatMap_append, List.flatMap_append]
  exact List.infix_append _ _ _

end Python
