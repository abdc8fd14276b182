/-
This file settles when `--write-reports` leaves a tree that passes again. A second run differs
from the first in three places: the fences of the reports, the links of the reports, and the
links of vendored files that lead to a report. The reports are stable exactly when none of
them gets in the way, and a target that is copied as it is can.
-/

import Pbl4.Skills.Rewrite

namespace Pbl4.Skills

open Python

/-! ### Refreshing the reports -/

/-- The script ends with exit code 0 after refreshing the reports. -/
def Passes (host : Host) (tree after : Tree) : Prop :=
  ∃ result, main host true tree = .ok (result, after) ∧ result.code = 0

/-- The script ends with exit code 0 without the flag. -/
def Verifies (host : Host) (tree : Tree) : Prop :=
  ∃ result rest, main host false tree = .ok (result, rest) ∧ result.code = 0

/-- A tree whose reports stand: it passes without the flag, and refreshing the reports again
leaves both as they are. -/
structure Stable (host : Host) (tree : Tree) : Prop where
  passes : Verifies host tree
  unchanged : ∃ result again, main host true tree = .ok (result, again) ∧
    again.find [scanName] = tree.find [scanName] ∧
    again.find [exclusionName] = tree.find [exclusionName]

/-! ### The condition -/

/-- The text of a file, if it can be read. -/
def Entry.text : Entry → List Char
  | .file (.text decoded) => universalNewlines decoded
  | _ => []

theorem Entry.text_of_readText {entry : Entry} {text : List Char}
    (read : entry.readText = .ok text) : entry.text = text := by
  unfold readText at read
  split at read
  · cases read
  · cases read
  · exact Except.ok.inj read

/-- The matched lines of the vendored files and the skills, in the order of the paths. -/
def matchedLines (tree : Tree) : List Finding :=
  tree.scanned.flatMap fun file => findingsOf file.1 file.2.text

/-- The link of a group whose target is looked up and leads nowhere. -/
def deadLink (host : Host) (tree : Tree) (path : List String) (group : List Char) :
    List (List String × List Char) :=
  let target := cleanTarget group
  if target ≠ [] ∧ hasScheme target = false ∧
      (lookup host tree (resolvePath (targetPath host path target))).isNone then
    [(path, target)]
  else []

/-- The dead links of the vendored Markdown files. -/
def deadLinks (host : Host) (tree : Tree) : List (List String × List Char) :=
  (tree.markdown.filter fun file => isVendored file.1).flatMap fun file =>
    (findLinks file.2.text).flatMap (deadLink host tree file.1)

/-- A link of a report is skipped or leads to what is there, a report included. -/
def isSettled (host : Host) (tree : Tree) (group : List Char) : Bool :=
  let target := cleanTarget group
  let path := joinPath host.root (unquote target)
  target = [] || hasScheme target ||
    match resolvesToEntry host tree path with
    | .ok found => found || isReportPath host (resolvePath path)
    | .error _ => false

/-- What is copied into the reports gives the next run no error. -/
structure ReportsSafe (host : Host) (tree : Tree) : Prop where
  scanFences :
    ((matchedLines tree).map fun finding => count fence (posix finding.path)).sum % 2 = 0
  exclusionFences :
    ((deadLinks host tree).map fun link =>
      count fence (posix link.1) + count fence link.2).sum % 2 = 0
  scanLinks :
    ∀ group ∈ findLinks (universalNewlines ((matchedLines tree).flatMap scanRow)),
      isSettled host tree group = true
  exclusionLinks :
    ∀ group ∈ findLinks (universalNewlines ((deadLinks host tree).flatMap exclusionRow)),
      isSettled host tree group = true

/-- Besides, no dead link leads to a report, which the next run would find. -/
structure RefreshSafe (host : Host) (tree : Tree) : Prop extends ReportsSafe host tree where
  targets : ∀ link ∈ deadLinks host tree, staysDisabled host link = true

/-- Paths without brackets or backticks and targets without backticks do not disturb the next
run, when no dead link leads to a report. -/
theorem refreshSafe_of_plain {host : Host} {tree : Tree}
    (scanned : ∀ finding ∈ matchedLines tree,
      '`' ∉ posix finding.path ∧ '[' ∉ posix finding.path)
    (dead : ∀ link ∈ deadLinks host tree,
      '`' ∉ posix link.1 ∧ ')' ∉ posix link.1 ∧ '`' ∉ link.2)
    (targets : ∀ link ∈ deadLinks host tree, staysDisabled host link = true) :
    RefreshSafe host tree := by
  have noFence : ∀ {text : List Char}, '`' ∉ text → count fence text = 0 :=
    count_eq_zero (by decide)
  have closed : ∀ link ∈ deadLinks host tree, ')' ∉ link.2 := by
    intro link member
    obtain ⟨file, _, inFile⟩ := List.mem_flatMap.mp member
    obtain ⟨group, found, inGroup⟩ := List.mem_flatMap.mp inFile
    unfold deadLink at inGroup
    simp only at inGroup
    split at inGroup
    · obtain rfl := List.mem_singleton.mp inGroup
      exact fun inside => notMem_of_mem_linksFrom found (cleanTarget_subset group inside)
    · exact absurd inGroup List.not_mem_nil
  refine ⟨⟨?_, ?_, ?_, ?_⟩, targets⟩
  · rw [List.sum_eq_zero_iff_forall_eq_nat.mpr]
    intro total member
    obtain ⟨finding, listed, rfl⟩ := List.mem_map.mp member
    exact noFence (scanned finding listed).1
  · rw [List.sum_eq_zero_iff_forall_eq_nat.mpr]
    intro total member
    obtain ⟨link, listed, rfl⟩ := List.mem_map.mp member
    rw [noFence (dead link listed).1, noFence (dead link listed).2.2]
  · rw [findLinks_scanRows_eq_nil fun finding listed => (scanned finding listed).2]
    exact fun group member => absurd member List.not_mem_nil
  · rw [findLinks_exclusionRows_eq_nil fun link listed =>
      ⟨(dead link listed).2.1, closed link listed⟩]
    exact fun group member => absurd member List.not_mem_nil

theorem Clean.findings_eq {host : Host} {tree : Tree} {manifest : List ManifestNote}
    {markdown : List MarkdownNote} {findings : List Finding}
    (clean : Clean host tree manifest markdown findings) : findings = matchedLines tree := by
  refine collect_eq_flatMap clean.scan fun file _ found visited => ?_
  obtain ⟨text, read, rfl⟩ := map_eq_ok.mp visited
  rw [Entry.text_of_readText read]

/-- A vendored file leaves its dead links as notes. -/
theorem linkNotes_vendored {host : Host} {tree : Tree} {path : List String} {group : List Char}
    {found : List MarkdownNote} (vendored : isVendored path = true)
    (visited : linkNotes host tree path group = .ok found) :
    found = (deadLink host tree path group).map fun link => .exclusion link.1 link.2 := by
  unfold linkNotes at visited
  unfold deadLink
  simp only at visited ⊢
  split at visited
  · rename_i skipped
    obtain rfl := Except.ok.inj visited
    rw [if_neg]
    · rfl
    · rintro ⟨nonempty, unschemed, _⟩
      rcases skipped with empty | schemed
      · exact nonempty empty
      · rw [unschemed] at schemed
        cases schemed
  · rename_i linked
    simp only [not_or, Bool.not_eq_true] at linked
    obtain ⟨there, resolved, rfl⟩ := map_eq_ok.mp visited
    unfold resolvesToEntry at resolved
    split at resolved
    · cases resolved
    · split at resolved
      · cases resolved
      · obtain rfl := Except.ok.inj resolved
        rw [brokenLink, if_pos vendored]
        cases lookup host tree (resolvePath (targetPath host path (cleanTarget group))) <;>
          simp [linked]

theorem Clean.exclusions_eq {host : Host} {tree : Tree} {manifest : List ManifestNote}
    {markdown : List MarkdownNote} {findings : List Finding}
    (clean : Clean host tree manifest markdown findings) :
    exclusions markdown = deadLinks host tree := by
  have vendoredOnly : collect (markdownNotes host tree)
      (tree.markdown.filter fun file => isVendored file.1) = .ok markdown := by
    refine (collect_filter fun file member enabled => ?_).trans clean.documents
    obtain ⟨found, visited, inside⟩ := subset_of_collect clean.documents member
    rw [visited, markdownNotes_eq_nil_of_clean visited
      (fun message here => clean.valid message (inside here)) enabled]
  have listed : markdown = (deadLinks host tree).map fun link => .exclusion link.1 link.2 := by
    rw [deadLinks, List.map_flatMap]
    refine collect_eq_flatMap vendoredOnly fun file member found visited => ?_
    have vendored : isVendored file.1 = true := (List.mem_filter.mp member).2
    obtain ⟨text, read, visited⟩ := bind_eq_ok.mp visited
    obtain ⟨links, collected, same⟩ := bind_eq_ok.mp visited
    obtain rfl := Except.ok.inj same
    have noFence : fenceNotes host file.1 text = [] := by
      rw [fenceNotes, if_neg]
      exact fun whole => absurd (vendored.symm.trans whole.1) (by decide)
    rw [noFence, List.nil_append, Entry.text_of_readText read, List.map_flatMap]
    exact collect_eq_flatMap collected fun group _ found visited =>
      linkNotes_vendored vendored visited
  rw [listed, exclusions, List.filterMap_map]
  exact List.filterMap_some

/-! ### The reports in the next run -/

section Reports

variable {host : Host} {tree after : Tree} {verification : Verification}
  (written : writeReports host tree verification = .ok after)

include written

theorem linkNotes_report {path : List String} (report : isReport path = true)
    (group : List Char) :
    linkNotes host after path group = .ok [] ↔ isSettled host tree group = true := by
  have top : targetPath host path (cleanTarget group) =
      joinPath host.root (unquote (cleanTarget group)) := by
    rcases isReport_iff.mp report with rfl | rfl <;> rw [targetPath] <;>
      exact congrArg (joinPath · _) (List.append_nil _)
  unfold linkNotes isSettled
  simp only [top, resolvesToEntry_writeReports written, Bool.or_eq_true, decide_eq_true_eq]
  split
  · rename_i skipped
    exact ⟨fun _ => Or.inl skipped, fun _ => rfl⟩
  · rename_i linked
    rw [or_iff_right linked]
    cases resolvesToEntry host tree (joinPath host.root (unquote (cleanTarget group))) with
    | error failure => simp [Except.map]
    | ok found => cases found <;> simp [Except.map]

theorem markdownNotes_report {path : List String} (report : isReport path = true)
    (text : List Char) :
    markdownNotes host after (path, .file (.text text)) = .ok [] ↔
      count fence text % 2 = 0 ∧
        ∀ group ∈ findLinks (universalNewlines text), isSettled host tree group = true := by
  have fences : fenceNotes host path (universalNewlines text) = [] ↔
      count fence text % 2 = 0 := by
    rw [fenceNotes, count_universalNewlines (by decide) (by decide) (by decide)]
    rw [isVendored_of_isReport report]
    split
    · rename_i odd
      simp [odd.2]
    · rename_i even
      simp only [true_and] at even
      exact ⟨fun _ => by omega, fun _ => rfl⟩
  have links : collect (linkNotes host after path) (findLinks (universalNewlines text)) =
      .ok [] ↔ ∀ group ∈ findLinks (universalNewlines text),
        isSettled host tree group = true := by
    rw [collect_eq_nil]
    exact forall₂_congr fun group _ => linkNotes_report written report group
  rw [← fences, ← links]
  constructor
  · intro ran
    obtain ⟨read, same, ran⟩ := bind_eq_ok.mp ran
    obtain rfl := Except.ok.inj same
    obtain ⟨found, collected, same⟩ := bind_eq_ok.mp ran
    obtain ⟨noFence, rfl⟩ := List.append_eq_nil_iff.mp (Except.ok.inj same)
    exact ⟨noFence, collected⟩
  · rintro ⟨noFence, collected⟩
    refine bind_eq_ok.mpr ⟨_, rfl, bind_eq_ok.mpr ⟨[], collected, ?_⟩⟩
    rw [show fenceNotes host (path, Entry.file (.text text)).1 _ = [] from noFence]
    rfl

/-- The reports among the Markdown files are the two that were written. -/
theorem forall_report_iff :
    (∀ file ∈ after.markdown, isReport file.1 = true → markdownNotes host after file = .ok []) ↔
      markdownNotes host after
          ([scanName], .file (.text (scanReport verification.findings))) = .ok [] ∧
        markdownNotes host after
          ([exclusionName], .file (.text (exclusionReport verification.excluded))) = .ok [] := by
  have names : ([scanName].getLast?.any (endswith · ".md") = true ∧
      isReport [scanName] = true) ∧ [exclusionName].getLast?.any (endswith · ".md") = true ∧
      isReport [exclusionName] = true := by decide
  constructor
  · intro each
    constructor
    · exact each _ (List.mem_filter.mpr ⟨(mem_writeReports written).mpr (Or.inl rfl),
        names.1.1⟩) names.1.2
    · exact each _ (List.mem_filter.mpr ⟨(mem_writeReports written).mpr (Or.inr (Or.inl rfl)),
        names.2.1⟩) names.2.2
  · rintro ⟨scan, excluded⟩ file member report
    rcases (mem_writeReports written).mp (List.mem_of_mem_filter member) with
      rfl | rfl | ⟨other, _⟩
    · exact scan
    · exact excluded
    · rw [report] at other
      cases other

end Reports

/-! ### Stability -/

/-- After a refresh of a clean tree, the reports leave no note exactly when what is copied into
them is safe. -/
theorem reportsSafe_iff {host : Host} {tree after : Tree} {manifest : List ManifestNote}
    {markdown : List MarkdownNote} {findings : List Finding}
    (clean : Clean host tree manifest markdown findings)
    (written : writeReports host tree ⟨[], exclusions markdown, findings⟩ = .ok after) :
    ReportsSafe host tree ↔ ∀ file ∈ after.markdown, isReport file.1 = true →
      markdownNotes host after file = .ok [] := by
  rw [forall_report_iff written,
    markdownNotes_report written (show isReport [scanName] = true by decide),
    markdownNotes_report written (show isReport [exclusionName] = true by decide),
    count_fence_scanReport, count_fence_exclusionReport, scanReport, exclusionReport,
    isHead_scanHeader.findLinks, isHead_exclusionHeader.findLinks, clean.findings_eq,
    clean.exclusions_eq]
  constructor
  · exact fun safe => ⟨⟨safe.scanFences, safe.scanLinks⟩, safe.exclusionFences,
      safe.exclusionLinks⟩
  · rintro ⟨⟨scanFences, scanLinks⟩, exclusionFences, exclusionLinks⟩
    exact ⟨scanFences, exclusionFences, scanLinks, exclusionLinks⟩

theorem Passes.clean {host : Host} {tree after : Tree} (passed : Passes host tree after) :
    ∃ manifest markdown findings, Clean host tree manifest markdown findings ∧
      writeReports host tree ⟨[], exclusions markdown, findings⟩ = .ok after := by
  obtain ⟨result, ran, code⟩ := passed
  obtain ⟨verification, checked, written, rfl⟩ := main_true_eq_ok.mp ran
  obtain ⟨manifest, markdown, findings, clean, rfl⟩ :=
    verify_clean_iff.mp ⟨checked, outcome_code_eq_zero.mp code⟩
  exact ⟨manifest, markdown, findings, clean, written⟩

theorem verifies_iff {host : Host} {tree : Tree} :
    Verifies host tree ↔ ∃ manifest markdown findings,
      Clean host tree manifest markdown findings := by
  constructor
  · rintro ⟨result, rest, ran, code⟩
    obtain ⟨verification, checked, _, rfl⟩ := main_false_eq_ok.mp ran
    obtain ⟨manifest, markdown, findings, clean, _⟩ :=
      verify_clean_iff.mp ⟨checked, outcome_code_eq_zero.mp code⟩
    exact ⟨manifest, markdown, findings, clean⟩
  · rintro ⟨manifest, markdown, findings, clean⟩
    obtain ⟨checked, errors⟩ := verify_clean_iff.mpr ⟨_, _, _, clean, rfl⟩
    exact ⟨_, tree, main_false_eq_ok.mpr ⟨_, checked, rfl, rfl⟩,
      outcome_code_eq_zero.mpr errors⟩

/-- After a refresh that passes, the tree passes again exactly when what was copied into the
reports is safe. -/
theorem Passes.verifies_iff {host : Host} {tree after : Tree} (passed : Passes host tree after) :
    Verifies host after ↔ ReportsSafe host tree := by
  obtain ⟨manifest, markdown, findings, clean, written⟩ := passed.clean
  rw [reportsSafe_iff clean written, Skills.verifies_iff]
  constructor
  · rintro ⟨_, _, _, cleanAfter⟩ file member report
    obtain ⟨found, visited, inside⟩ := subset_of_collect cleanAfter.documents member
    rw [visited, markdownNotes_eq_nil_of_clean visited
      (fun message here => cleanAfter.valid message (inside here))
      (isVendored_of_isReport report)]
  · exact fun reports => ⟨_, _, _, clean.writeReports written reports⟩

/-- Refreshing the reports of a tree that was refreshed and passes leaves them as they are
exactly when no dead link of the first run leads to a report. -/
theorem unchanged_iff {host : Host} {tree after : Tree} {manifest : List ManifestNote}
    {markdown : List MarkdownNote} {findings : List Finding}
    (written : writeReports host tree ⟨[], exclusions markdown, findings⟩ = .ok after)
    (cleanAfter : Clean host after manifest (markdown.filter (remains host)) findings) :
    (∃ result again, main host true after = .ok (result, again) ∧
      again.find [scanName] = after.find [scanName] ∧
      again.find [exclusionName] = after.find [exclusionName]) ↔
      ∀ link ∈ exclusions markdown, staysDisabled host link = true := by
  obtain ⟨checked, _⟩ := verify_clean_iff.mpr ⟨_, _, _, cleanAfter, rfl⟩
  rw [exclusions_filter_remains] at checked
  constructor
  · rintro ⟨result, again, ran, _, same⟩
    obtain ⟨verification, checkedAgain, writtenAgain, _⟩ := main_true_eq_ok.mp ran
    rw [checked] at checkedAgain
    obtain rfl := Except.ok.inj checkedAgain
    rw [Tree.find_eq_some.mpr ((mem_writeReports writtenAgain).mpr (Or.inr (Or.inl rfl))),
      Tree.find_eq_some.mpr ((mem_writeReports written).mpr (Or.inr (Or.inl rfl)))] at same
    simp only [Option.some.injEq, Entry.file.injEq, Content.text.injEq] at same
    exact exclusionReport_filter_eq_iff.mp same
  · intro targets
    rw [List.filter_eq_self.mpr targets] at checked
    have writtenAgain :
        writeReports host after ⟨[], exclusions markdown, findings⟩ = .ok after := by
      refine bind_eq_ok.mpr ⟨after, ?_, ?_⟩
      · exact Tree.writeText_eq_self.mpr ((mem_writeReports written).mpr (Or.inl rfl))
      · exact Tree.writeText_eq_self.mpr ((mem_writeReports written).mpr (Or.inr (Or.inl rfl)))
    exact ⟨_, after, main_true_eq_ok.mpr ⟨_, checked, writtenAgain, rfl⟩, rfl, rfl⟩

/-- After a refresh that passes, the tree passes again and the reports stand, exactly when
nothing that was copied into them disturbs the next run. -/
theorem refresh_stable_iff {host : Host} {tree after : Tree} (passed : Passes host tree after) :
    Stable host after ↔ RefreshSafe host tree := by
  obtain ⟨manifest, markdown, findings, clean, written⟩ := passed.clean
  have unchanged (safe : ReportsSafe host tree) := unchanged_iff written
    (clean.writeReports written ((reportsSafe_iff clean written).mp safe))
  rw [clean.exclusions_eq] at unchanged
  constructor
  · intro stable
    have safe := passed.verifies_iff.mp stable.passes
    exact ⟨safe, (unchanged safe).mp stable.unchanged⟩
  · intro safe
    exact ⟨passed.verifies_iff.mpr safe.toReportsSafe,
      (unchanged safe.toReportsSafe).mpr safe.targets⟩

/-! ### Two trees that pass -/

/-- A vendored file with its digests. -/
structure Sample where
  notes : String
  sha256 : String
  blob : String

/-- A pinned commit. -/
def samplePin : String := "3add7b9612102f2a7dbe4ed4fe886e07e847c24d"

/-- The manifest of a sample. -/
def Sample.manifest (sample : Sample) : Json :=
  .object [("snapshots", .array [.object [
    ("name", .text "notes"),
    ("repo", .text "owner/notes"),
    ("sha", .text samplePin),
    ("files", .array [.object [
      ("local_path", .text "vendor/notes.md"),
      ("upstream_path", .text "notes.md"),
      ("url", .text
        ("https://raw.githubusercontent.com/owner/notes/" ++ samplePin ++ "/notes.md")),
      ("sha256", .text sample.sha256),
      ("git_blob_sha", .text sample.blob)]])]])]

/-- The text of the manifest. -/
def Sample.manifestText (sample : Sample) : List Char :=
  "\x7b\"snapshots\": [\x7b\"name\": \"notes\", \"repo\": \"owner/notes\", \"sha\": \"".toList ++
    samplePin.toList ++
    "\", \"files\": [\x7b\"local_path\": \"vendor/notes.md\", ".toList ++
    "\"upstream_path\": \"notes.md\", \"url\": \"".toList ++
    "https://raw.githubusercontent.com/owner/notes/".toList ++ samplePin.toList ++
    "/notes.md\", \"sha256\": \"".toList ++ sample.sha256.toList ++
    "\", \"git_blob_sha\": \"".toList ++ sample.blob.toList ++ "\"\x7d]\x7d]\x7d".toList

/-- The text of a skill. -/
def skillText (name : String) : List Char :=
  "---\nname: ".toList ++ name.toList ++ "\ndescription: rules\n---\n".toList

/-- The entries of a sample: every expected skill, the vendored file and the manifest. -/
def Sample.entries (sample : Sample) : List (List String × Entry) :=
  (["skills"], .directory) ::
    (expected.flatMap fun name => [
      (["skills", name], .directory),
      (["skills", name, "SKILL.md"], .file (.text (skillText name)))]) ++ [
    (["vendor"], .directory),
    (["vendor", "notes.md"], .file (.text sample.notes.toList)),
    (["VENDOR_MANIFEST.json"], .file (.text sample.manifestText))]

/-- Digests and JSON as far as the sample needs them. -/
def Sample.host (sample : Sample) : Host where
  root := ["repository", ".agents"]
  named := by decide
  outside := fun _ => none
  refuses := fun _ => false
  place := fun _ => 0
  loads := fun text =>
    if text = sample.manifestText then .ok sample.manifest else .error .jsonDecodeError
  sha256 := fun data =>
    if data = (Content.text sample.notes.toList).bytes then sample.sha256 else ""
  sha1 := fun data =>
    if data = gitBlob (Content.text sample.notes.toList).bytes then sample.blob else ""

theorem exists_of_any {Failure Value : Type} {ran : Except Failure Value} {good : Value → Bool}
    (checked : ran.toOption.any good = true) : ∃ value, ran = .ok value ∧ good value = true := by
  cases ran with
  | error failure => cases checked
  | ok value => exact ⟨value, rfl, checked⟩

theorem exists_passes {host : Host} {tree : Tree}
    (checked : ((main host true tree).toOption.any fun ended => ended.1.code = 0) = true) :
    ∃ after, Passes host tree after := by
  obtain ⟨⟨result, after⟩, ran, code⟩ := exists_of_any checked
  exact ⟨after, result, ran, of_decide_eq_true code⟩

/-- A link to a file that is not there. -/
def goneSample : Sample where
  notes := "[x](gone.md)\n"
  sha256 := "87359d14eb4ab19ad41918fe65b8b181df1c441d0d72941836764c779deb0e08"
  blob := "749c4357b7efa674dd3854d060d78534a3152afe"

/-- The tree of that link. -/
def goneTree : Tree where
  entries := goneSample.entries
  distinct := by decide +kernel
  rooted := by decide +kernel
  named := by decide +kernel

theorem goneTree_passes : ∃ after, Passes goneSample.host goneTree after :=
  exists_passes (by decide +kernel)

theorem goneTree_stable :
    ∃ after, Passes goneSample.host goneTree after ∧ Stable goneSample.host after := by
  obtain ⟨after, passed⟩ := goneTree_passes
  refine ⟨after, passed, (refresh_stable_iff passed).mpr (refreshSafe_of_plain ?_ ?_ ?_)⟩ <;>
    decide +kernel

/-- A link whose target is a fence. -/
def fenceSample : Sample where
  notes := "[x](```)\n"
  sha256 := "88d8c48658a002c2206345eedba9b19cb6c3dcf3964cb1cdf51f43c4095d1596"
  blob := "258bff3692a0f392ffd0831ad3bc35967f27c245"

/-- The tree of that link. -/
def fenceTree : Tree where
  entries := fenceSample.entries
  distinct := by decide +kernel
  rooted := by decide +kernel
  named := by decide +kernel

theorem fenceTree_passes : ∃ after, Passes fenceSample.host fenceTree after :=
  exists_passes (by decide +kernel)

/-- The target is copied into a report as it is and opens a fence there. -/
theorem fenceTree_not_stable :
    ∃ after, Passes fenceSample.host fenceTree after ∧ ¬ Verifies fenceSample.host after := by
  obtain ⟨after, passed⟩ := fenceTree_passes
  refine ⟨after, passed, fun verifies => ?_⟩
  have safe := passed.verifies_iff.mp verifies
  exact absurd safe.exclusionFences (by decide +kernel)

end Pbl4.Skills
