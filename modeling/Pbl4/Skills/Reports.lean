/-
This file models what `.agents/scripts/verify_skills.py` does after its checks: the two
reports written with `--write-reports`, and the exit code. The scan report escapes the text
of a matched line; the report on disabled links copies paths and targets as they are. What
a report holds for the checks of the next run is read off its rows: the fences in them, and
the links that may form in and across them.
-/

import Mathlib.Data.List.Flatten
import Pbl4.Skills.Verify

namespace Pbl4.Skills

open Python

/-! ### Reports -/

/-- The text of a line in the report. -/
def safe (line : List Char) : List Char :=
  replaceChar '>' "&gt;".toList (replaceChar '<' "&lt;".toList
    (replaceChar '`' "&#96;".toList (replaceChar '|' "&#124;".toList
      (replaceChar ']' "&#93;".toList (replaceChar '[' "&#91;".toList line)))))

/-- The head of `SUPPLY_CHAIN_SCAN.md`. -/
def scanHeader : List Char :=
  ("# Supply-chain occurrence inventory\n\nGenerated by scripts/verify_" ++
    "skills.py. Each matched line is classified below. " ++
    "HISTORICAL_REFERENCE_DISABLED means unmodified inactive upstream " ++
    "text (including ordinary uses of main/latest and illustrative cod" ++
    "e), not authorization to execute/fetch. " ++
    "LOCAL_POLICY_OR_SCOPED_CONTEXT means local prohibitions, applicab" ++
    "ility boundaries or existing local-tool preflight. Review these r" ++
    "ows for imperative installs/fetches; the scanner alone cannot pro" ++
    "ve instruction safety.\n\n" ++
    "| File | Line | Classification | Text |\n|---|---:|---|---|\n").toList

/-- A row of `SUPPLY_CHAIN_SCAN.md`. -/
def scanRow (finding : Finding) : List Char :=
  "| ".toList ++ posix finding.path ++ " | ".toList ++ (toString finding.number).toList ++
    " | ".toList ++ finding.classification.text.toList ++ " | ".toList ++ safe finding.line ++
    " |\n".toList

/-- `SUPPLY_CHAIN_SCAN.md` -/
def scanReport (findings : List Finding) : List Char :=
  scanHeader ++ findings.flatMap scanRow

/-- The head of `RAW_REFERENCE_EXCLUSIONS.md`. -/
def exclusionHeader : List Char :=
  ("# Disabled raw reference links\n\nUpstream snapshots preserve bytes" ++
    " and may link to unimported commands, build assets or native/fram" ++
    "ework references. " ++
    "These links are disabled by every wrapper; do not resolve them by" ++
    " downloading content. Enabled wrapper links are checked separatel" ++
    "y and must all exist. " ++
    "Renamed upstream entrypoints are provenance only. No omitted refe" ++
    "rence is required by the enabled local workflow.\n\n" ++
    "| Snapshot file | Disabled target |\n|---|---|\n").toList

/-- A row of `RAW_REFERENCE_EXCLUSIONS.md`. -/
def exclusionRow (excluded : List String × List Char) : List Char :=
  "| ".toList ++ posix excluded.1 ++ " | ".toList ++ excluded.2 ++ " |\n".toList

/-- `RAW_REFERENCE_EXCLUSIONS.md` -/
def exclusionReport (excluded : List (List String × List Char)) : List Char :=
  exclusionHeader ++ excluded.flatMap exclusionRow

/-! ### Fences in the reports -/

/-- The cells of a row of the scan report after its first. -/
def scanCells (finding : Finding) : List Char :=
  "| ".toList ++ (toString finding.number).toList ++ " | ".toList ++
    finding.classification.text.toList ++ " | ".toList ++ safe finding.line ++ " |\n".toList

theorem scanRow_eq (finding : Finding) :
    scanRow finding = ['|'] ++ ' ' :: (posix finding.path ++ ' ' :: scanCells finding) := by
  unfold scanRow scanCells
  simp only [List.append_assoc]
  rfl

theorem exclusionRow_eq (excluded : List String × List Char) :
    exclusionRow excluded =
      ['|'] ++ ' ' :: (posix excluded.1 ++ ' ' :: (['|'] ++ ' ' :: (excluded.2 ++
        ' ' :: ['|', '\n']))) := by
  unfold exclusionRow
  simp only [List.append_assoc]
  rfl

theorem notMem_safe {mark : Char} (special : mark = '`' ∨ mark = '[') (line : List Char) :
    mark ∉ safe line := by
  unfold safe
  rcases special with rfl | rfl
  · refine notMem_replaceChar (by decide) (notMem_replaceChar (by decide) ?_)
    exact notMem_replaceChar_self (by decide) _
  · refine notMem_replaceChar (by decide) (notMem_replaceChar (by decide) ?_)
    refine notMem_replaceChar (by decide) (notMem_replaceChar (by decide) ?_)
    exact notMem_replaceChar (by decide) (notMem_replaceChar_self (by decide) _)

/-- Whatever line is matched, its row has no backtick and no opening bracket after the path. -/
theorem notMem_scanCells {mark : Char} (special : mark = '`' ∨ mark = '[') (finding : Finding) :
    mark ∉ scanCells finding := by
  have number : mark ∉ (toString finding.number).toList := by
    intro member
    have digit : mark.isDigit = true :=
      Nat.isDigit_of_mem_toDigits (by decide) (by decide) (Nat.toList_repr ▸ member)
    rcases special with rfl | rfl <;> exact absurd digit (by decide)
  have classification : mark ∉ finding.classification.text.toList := by
    cases finding.classification <;> rcases special with rfl | rfl <;> decide
  have separators : mark ∉ "| ".toList ∧ mark ∉ " | ".toList ∧ mark ∉ " |\n".toList := by
    rcases special with rfl | rfl <;> decide
  unfold scanCells
  simp only [List.mem_append, not_or]
  exact ⟨⟨⟨⟨⟨⟨separators.1, number⟩, separators.2.1⟩, classification⟩, separators.2.1⟩,
    notMem_safe special _⟩, separators.2.2⟩

/-- A space cuts the fences of a text in two. -/
theorem count_fence_space (before after : List Char) :
    count fence (before ++ ' ' :: after) = count fence before + count fence after :=
  count_append_cons (by decide) (by decide) before after

theorem count_fence_scanRow (finding : Finding) :
    count fence (scanRow finding) = count fence (posix finding.path) := by
  have cells : count fence (scanCells finding) = 0 :=
    count_eq_zero (by decide) (notMem_scanCells (Or.inl rfl) finding)
  rw [scanRow_eq, count_fence_space, count_fence_space, cells, Nat.add_zero]
  exact Nat.zero_add _

theorem count_fence_exclusionRow (excluded : List String × List Char) :
    count fence (exclusionRow excluded) =
      count fence (posix excluded.1) + count fence excluded.2 := by
  have bar : count fence ['|'] = 0 := by decide
  have final : count fence ['|', '\n'] = 0 := by decide
  rw [exclusionRow_eq]
  simp only [count_fence_space, bar, final, Nat.zero_add, Nat.add_zero]

/-- A newline cuts the fences of a text in two. -/
theorem count_fence_newline (before after : List Char) :
    count fence (before ++ '\n' :: after) = count fence before + count fence after :=
  count_append_cons (by decide) (by decide) before after

/-- A text that may stand before the rows of a report: whole lines, with no character that
takes part in a fence, a link or a line ending of another system. -/
structure IsHead (head : List Char) : Prop where
  ended : head.getLast? = some '\n'
  noBacktick : '`' ∉ head
  noBracket : '[' ∉ head
  noReturn : '\r' ∉ head

theorem isHead_scanHeader : IsHead scanHeader := by
  constructor <;> delta scanHeader
  case ended =>
    rw [String.toList_append, List.getLast?_append, String.toList_ofList]
    rfl
  all_goals
    simp only [String.toList_append, List.mem_append, not_or]
    repeat' apply And.intro
    all_goals rw [String.toList_ofList]; decide +kernel

theorem isHead_exclusionHeader : IsHead exclusionHeader := by
  constructor <;> delta exclusionHeader
  case ended =>
    rw [String.toList_append, List.getLast?_append, String.toList_ofList]
    rfl
  all_goals
    simp only [String.toList_append, List.mem_append, not_or]
    repeat' apply And.intro
    all_goals rw [String.toList_ofList]; decide +kernel

theorem IsHead.count_fence {head : List Char} (isHead : IsHead head) (rows : List Char) :
    count fence (head ++ rows) = count fence rows := by
  have absent : '`' ∉ head.dropLast := fun member =>
    isHead.noBacktick (List.mem_of_mem_dropLast member)
  rw [← List.dropLast_append_getLast? _ isHead.ended, List.append_assoc,
    List.singleton_append, count_fence_newline, count_eq_zero (by decide) absent, Nat.zero_add]

/-- A row ends its line. -/
theorem scanRow_ended (finding : Finding) : ∃ inner, scanRow finding = inner ++ ['\n'] :=
  ⟨_, (List.append_assoc _ [' ', '|'] ['\n']).symm⟩

theorem exclusionRow_ended (excluded : List String × List Char) :
    ∃ inner, exclusionRow excluded = inner ++ ['\n'] :=
  ⟨_, (List.append_assoc _ [' ', '|'] ['\n']).symm⟩

/-- The fences of the scan report are those of the paths in it. -/
theorem count_fence_scanReport (findings : List Finding) :
    count fence (scanReport findings) =
      (findings.map fun finding => count fence (posix finding.path)).sum := by
  rw [scanReport, isHead_scanHeader.count_fence,
    count_flatMap (by decide) (show '\n' ∉ fence by decide) scanRow_ended]
  simp only [count_fence_scanRow]

/-- The fences of the report on disabled links are those of the paths and targets in it. -/
theorem count_fence_exclusionReport (excluded : List (List String × List Char)) :
    count fence (exclusionReport excluded) =
      (excluded.map fun link => count fence (posix link.1) + count fence link.2).sum := by
  rw [exclusionReport, isHead_exclusionHeader.count_fence,
    count_flatMap (by decide) (show '\n' ∉ fence by decide) exclusionRow_ended]
  simp only [count_fence_exclusionRow]

/-! ### Rows of the reports -/

/-- Leaving out a row that is not empty changes the text. -/
theorem flatMap_filter_eq_iff {Row : Type} {line : Row → List Char}
    (nonempty : ∀ row, line row ≠ []) {keep : Row → Bool} {rows : List Row} :
    (rows.filter keep).flatMap line = rows.flatMap line ↔ ∀ row ∈ rows, keep row = true := by
  induction rows with
  | nil => simp
  | cons row rest inductionHypothesis =>
    rw [List.forall_mem_cons]
    by_cases kept : keep row = true
    · rw [List.filter_cons_of_pos kept, List.flatMap_cons, List.flatMap_cons,
        List.append_cancel_left_eq, inductionHypothesis]
      exact ⟨fun others => ⟨kept, others⟩, And.right⟩
    · rw [List.filter_cons_of_neg kept, List.flatMap_cons]
      refine ⟨fun same => absurd (congrArg List.length same) ?_, fun all => absurd all.1 kept⟩
      have part : (rest.filter keep).Sublist rest := List.filter_sublist
      have shorter := (part.flatMap line).length_le
      have added := List.length_pos_of_ne_nil (nonempty row)
      rw [List.length_append]
      omega

theorem exclusionReport_filter_eq_iff {excluded : List (List String × List Char)}
    {keep : List String × List Char → Bool} :
    exclusionReport (excluded.filter keep) = exclusionReport excluded ↔
      ∀ link ∈ excluded, keep link = true := by
  rw [exclusionReport, exclusionReport, List.append_cancel_left_eq]
  refine flatMap_filter_eq_iff fun link empty => ?_
  obtain ⟨inner, ended⟩ := exclusionRow_ended link
  rw [empty] at ended
  exact absurd ended (by simp)

/-! ### Links in the reports -/

/-- The head of a report takes no part in a link. -/
theorem IsHead.findLinks {head : List Char} (isHead : IsHead head) (rows : List Char) :
    findLinks (universalNewlines (head ++ rows)) = Skills.findLinks (universalNewlines rows) := by
  rw [universalNewlines_append isHead.noReturn, findLinks_append isHead.noBracket]

/-- Links in the scan report come from opening brackets in paths. -/
theorem findLinks_scanRows_eq_nil {findings : List Finding}
    (plain : ∀ finding ∈ findings, '[' ∉ posix finding.path) :
    findLinks (universalNewlines (findings.flatMap scanRow)) = [] := by
  refine findLinks_eq_nil (notMem_universalNewlines (by decide) fun member => ?_)
  obtain ⟨finding, listed, inside⟩ := List.mem_flatMap.mp member
  have absent := notMem_scanCells (Or.inr rfl) finding
  rw [scanRow_eq] at inside
  simp [plain finding listed, absent] at inside

/-- Links in the report on disabled links end in closing parentheses of paths: the targets have
none. -/
theorem findLinks_exclusionRows_eq_nil {excluded : List (List String × List Char)}
    (plain : ∀ link ∈ excluded, ')' ∉ posix link.1 ∧ ')' ∉ link.2) :
    findLinks (universalNewlines (excluded.flatMap exclusionRow)) = [] := by
  refine findLinks_eq_nil_of_unclosed (notMem_universalNewlines (by decide) fun member => ?_)
  obtain ⟨link, listed, inside⟩ := List.mem_flatMap.mp member
  rw [exclusionRow_eq] at inside
  simp [plain link listed] at inside

/-! ### The run -/

/-- The name of the scan report. -/
def scanName : String := "SUPPLY_CHAIN_SCAN.md"

/-- The name of the report on disabled links. -/
def exclusionName : String := "RAW_REFERENCE_EXCLUSIONS.md"

theorem isName_scanName : IsName scanName := by decide

theorem isName_exclusionName : IsName exclusionName := by decide

/-- Write the two reports. -/
def writeReports (host : Host) (tree : Tree) (verification : Verification) :
    Except PyError Tree := do
  let scanned ← tree.writeText (host.place scanName) isName_scanName
    (scanReport verification.findings)
  scanned.writeText (host.place exclusionName) isName_exclusionName
    (exclusionReport verification.excluded)

/-- The exit code and the lines printed. -/
structure Outcome where
  code : Nat
  stdout : List String

/-- The verdict on the checks. -/
def outcome (tree : Tree) (verification : Verification) : Outcome :=
  if verification.errors ≠ [] then ⟨1, "FAIL" :: verification.errors⟩
  else
    ⟨0, [s!"PASS: {tree.active.length} intended skills; {tree.actual.length} pinned files " ++
        "hash-verified; enabled links/fences valid; no raw discovery entrypoint or executable.",
      s!"Scan: {verification.findings.length} classified lines; " ++
        s!"{verification.excluded.length} disabled raw links. Semantic scenario evaluation " ++
        "is a separate manual gate."]⟩

/-- `main()`, with the flag `--write-reports` or without it: the outcome, and the tree it
leaves. -/
def main (host : Host) (write : Bool) (tree : Tree) : Except PyError (Outcome × Tree) := do
  let verification ← verify host tree
  if write then
    let after ← writeReports host tree verification
    return (outcome tree verification, after)
  else
    return (outcome tree verification, tree)

theorem outcome_code_eq_zero {tree : Tree} {verification : Verification} :
    (outcome tree verification).code = 0 ↔ verification.errors = [] := by
  unfold outcome
  split
  · rename_i failed
    exact ⟨fun impossible => absurd impossible Nat.one_ne_zero, fun none => absurd none failed⟩
  · rename_i passed
    exact ⟨fun _ => not_not.mp passed, fun _ => rfl⟩

theorem main_true_eq_ok {host : Host} {tree after : Tree} {result : Outcome} :
    main host true tree = .ok (result, after) ↔
      ∃ verification, verify host tree = .ok verification ∧
        writeReports host tree verification = .ok after ∧
        outcome tree verification = result := by
  constructor
  · intro ran
    obtain ⟨verification, checked, ran⟩ := bind_eq_ok.mp ran
    obtain ⟨rest, written, same⟩ := bind_eq_ok.mp ran
    obtain ⟨ended, rfl⟩ := Prod.mk.inj (Except.ok.inj same)
    exact ⟨verification, checked, written, ended⟩
  · rintro ⟨verification, checked, written, rfl⟩
    exact bind_eq_ok.mpr ⟨verification, checked, bind_eq_ok.mpr ⟨after, written, rfl⟩⟩

theorem main_false_eq_ok {host : Host} {tree after : Tree} {result : Outcome} :
    main host false tree = .ok (result, after) ↔
      ∃ verification, verify host tree = .ok verification ∧ tree = after ∧
        outcome tree verification = result := by
  constructor
  · intro ran
    obtain ⟨verification, checked, same⟩ := bind_eq_ok.mp ran
    obtain ⟨ended, rfl⟩ := Prod.mk.inj (Except.ok.inj same)
    exact ⟨verification, checked, rfl, ended⟩
  · rintro ⟨verification, checked, rfl, rfl⟩
    exact bind_eq_ok.mpr ⟨verification, checked, rfl⟩

end Pbl4.Skills
