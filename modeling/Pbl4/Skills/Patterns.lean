/-
This file defines the regular expressions of `.agents/scripts/verify_skills.py`: the link
pattern, the supply-chain scan, the front matter of a skill and the scheme of an address.
Each is matched as the regular expression is, from the left, and the classes in the link
pattern leave no choice about where a match ends.
-/

import Mathlib.Data.List.Basic
import Mathlib.Data.List.TakeWhile
import Pbl4.Python.Characters
import Pbl4.Python.Text

namespace Pbl4.Skills

open Python

/-! ### Links -/

/-- A match of `\[[^\]\n]*\]\(([^)]+)\)` at the start of a text: its group and its length. -/
def linkAt : List Char → Option (List Char × Nat)
  | '[' :: rest =>
      let label := rest.takeWhile fun char => char ≠ ']' && char ≠ '\n'
      match rest.drop label.length with
      | ']' :: '(' :: inner =>
          let target := inner.takeWhile (· ≠ ')')
          if target ≠ [] ∧ target.length < inner.length then
            some (target, label.length + target.length + 4)
          else none
      | _ => none
  | _ => none

/-- The groups of the matches after `skip` characters that belong to the last one. -/
def linksFrom : Nat → List Char → List (List Char)
  | _, [] => []
  | 0, first :: rest =>
      match linkAt (first :: rest) with
      | some (target, length) => target :: linksFrom (length - 1) rest
      | none => linksFrom 0 rest
  | skip + 1, _ :: rest => linksFrom skip rest

/-- `LINK.findall(text)` -/
def findLinks (text : List Char) : List (List Char) := linksFrom 0 text

/-- A link starts with an opening bracket. -/
theorem findLinks_append {before : List Char} (plain : '[' ∉ before) (after : List Char) :
    findLinks (before ++ after) = findLinks after := by
  induction before with
  | nil => rfl
  | cons first rest inductionHypothesis =>
    have different : first ≠ '[' := fun same => plain (same ▸ List.mem_cons_self)
    have unmatched : linkAt (first :: (rest ++ after)) = none := by
      rw [linkAt]
      exact fun _ same => absurd (List.cons.inj same).1 different
    rw [List.cons_append, findLinks, linksFrom, unmatched]
    exact inductionHypothesis fun member => plain (List.mem_cons_of_mem _ member)

theorem findLinks_eq_nil {text : List Char} (plain : '[' ∉ text) : findLinks text = [] := by
  have whole := findLinks_append plain []
  rwa [List.append_nil] at whole

/-- A link ends with a closing parenthesis. -/
theorem linkAt_eq_none {text : List Char} (plain : ')' ∉ text) : linkAt text = none := by
  unfold linkAt
  split
  · rename_i rest
    simp only
    split
    · rename_i inner found
      have inside : ')' ∉ inner := by
        intro member
        refine plain (List.mem_cons_of_mem _ (List.mem_of_mem_drop (i := ?_) ?_))
        · exact (rest.takeWhile fun char => char ≠ ']' && char ≠ '\n').length
        · rw [found]
          exact List.mem_cons_of_mem _ (List.mem_cons_of_mem _ member)
      have all : inner.takeWhile (· ≠ ')') = inner := by
        rw [List.takeWhile_eq_self_iff]
        intro char member
        exact decide_eq_true fun same => inside (same ▸ member)
      rw [all, if_neg (fun whole => absurd whole.2 (Nat.lt_irrefl _))]
    · rfl
  · rfl

theorem findLinks_eq_nil_of_unclosed {text : List Char} (plain : ')' ∉ text) :
    findLinks text = [] := by
  unfold findLinks
  induction text with
  | nil => rfl
  | cons first rest inductionHypothesis =>
    rw [linksFrom, linkAt_eq_none plain]
    exact inductionHypothesis fun member => plain (List.mem_cons_of_mem _ member)

/-- The group of a match holds no closing parenthesis. -/
theorem notMem_of_linkAt {text target : List Char} {length : Nat}
    (matched : linkAt text = some (target, length)) : ')' ∉ target := by
  unfold linkAt at matched
  split at matched
  · simp only at matched
    split at matched
    · split at matched
      · obtain ⟨rfl, _⟩ := Prod.mk.inj (Option.some.inj matched)
        intro member
        have different := List.mem_takeWhile_imp member
        exact absurd different (by decide)
      · cases matched
    · cases matched
  · cases matched

theorem notMem_of_mem_linksFrom {skip : Nat} {text group : List Char}
    (member : group ∈ linksFrom skip text) : ')' ∉ group := by
  fun_induction linksFrom skip text with
  | case1 => exact absurd member List.not_mem_nil
  | case2 first rest target length matched inductionHypothesis =>
    rcases List.mem_cons.mp member with rfl | later
    · exact notMem_of_linkAt matched
    · exact inductionHypothesis later
  | case3 first rest _ inductionHypothesis => exact inductionHypothesis member
  | case4 skip first rest inductionHypothesis => exact inductionHypothesis member

/-- `re.match(r"[a-zA-Z][a-zA-Z0-9+.-]*:", target)` -/
def hasScheme : List Char → Bool
  | first :: rest =>
      first.isAlpha && (rest.dropWhile fun char =>
        char.isAlphanum || char = '+' || char = '.' || char = '-').head? = some ':'
  | [] => false

/-! ### The scan -/

/-- The character an ASCII letter of a pattern is compared with when case is ignored. -/
def foldCase (char : Char) : Char :=
  if char = '\u0130' ∨ char = '\u0131' then 'i'
  else if char = '\u017f' then 's'
  else if char = '\u212a' then 'k'
  else char.toLower

/-- The text after the first occurrence of a pattern. -/
def afterFirst (pattern : List Char) : List Char → Option (List Char)
  | [] => none
  | first :: rest =>
      if pattern.isPrefixOf (first :: rest) then some ((first :: rest).drop pattern.length)
      else afterFirst pattern rest

/-- The alternatives of `SCAN` without a wildcard. -/
def scanWords : List String := [
  "main", "master", "latest", "raw.githubusercontent.com", "curl", "wget", "npx",
  "pip install", "npm install", "shell", "subprocess", "binary", "download"]

/-- `first.*second`, on one line. -/
def occursBefore (first second : String) (line : List Char) : Bool :=
  match afterFirst first.toList line with
  | some rest => occursIn second.toList rest
  | none => false

/-- `SCAN.search(line)` -/
def scanSearch (line : List Char) : Bool :=
  let folded := line.map foldCase
  scanWords.any (fun word => occursIn word.toList folded) ||
    occursBefore "remote" "fetch" folded || occursBefore "fetch" "remote" folded

/-! ### Front matter -/

/-- The text before the first occurrence of a pattern. -/
def beforeFirst (pattern : List Char) : List Char → Option (List Char)
  | [] => none
  | first :: rest =>
      if pattern.isPrefixOf (first :: rest) then some []
      else (beforeFirst pattern rest).map (first :: ·)

/-- The group of `re.match(r"^---\n(.*?)\n---", text, re.S)`. -/
def frontMatter (text : List Char) : Option (List Char) :=
  if "---\n".toList.isPrefixOf text then beforeFirst "\n---".toList (text.drop 4) else none

/-- The end of the text or of a line. -/
def endsLine : List Char → Bool
  | [] => true
  | first :: _ => first = '\n'

/-- Search for a pattern between the start and the end of a line. -/
def hasLineFrom (line : List Char) : Bool → List Char → Bool
  | atStart, [] => atStart && line.isEmpty
  | atStart, first :: rest =>
      (atStart && line.isPrefixOf (first :: rest) &&
        endsLine ((first :: rest).drop line.length)) ||
      hasLineFrom line (first = '\n') rest

/-- `re.search(r"^name: " + re.escape(name) + r"$", front, re.M)` -/
def namesSkill (front : List Char) (name : String) : Bool :=
  hasLineFrom ("name: ".toList ++ name.toList) true front

end Pbl4.Skills
