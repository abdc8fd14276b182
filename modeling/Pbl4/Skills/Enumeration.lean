/-
This file is about the order in which the file system lists the tree, which `glob` and `rglob`
leave open. Every check of `verify_skills.py` is about which entries there are, so two listings
of one tree get the same verdict. The scan is sorted and comes out the same; the report on
disabled links follows the listing, and only the order of its rows depends on it.
-/

import Pbl4.Skills.Refresh

namespace Pbl4.Skills

open Python

/-- The trees differ in the order of enumeration only. -/
def Reordered (first second : Tree) : Prop := first.entries.Perm second.entries

/-! ### What does not depend on the order -/

theorem sameSet_perm {Item : Type} [DecidableEq Item] {first second others rest : List Item}
    (same : first.Perm second) (sameOthers : others.Perm rest) :
    sameSet first others = sameSet second rest := by
  rw [Bool.eq_iff_iff, sameSet_iff, sameSet_iff]
  refine forall_congr' fun item => ?_
  rw [same.mem_iff, sameOthers.mem_iff]

section Reordered

variable {host : Host} {first second : Tree} (same : Reordered first second)

include same

theorem find_reordered : first.find = second.find := by
  funext path
  refine Option.ext fun entry => ?_
  rw [Tree.find_eq_some, Tree.find_eq_some, same.mem_iff]

theorem lookup_reordered : lookup host first = lookup host second := by
  funext path
  unfold lookup
  rw [find_reordered same]

theorem markdownNotes_reordered : markdownNotes host first = markdownNotes host second := by
  have resolves : resolvesToEntry host first = resolvesToEntry host second := by
    funext path
    unfold resolvesToEntry
    rw [lookup_reordered same]
  have links : linkNotes host first = linkNotes host second := by
    funext path group
    unfold linkNotes
    rw [resolves]
  funext file
  unfold markdownNotes
  rw [links]

theorem manifestNotes_reordered : manifestNotes host first = manifestNotes host second := by
  have stats : stat host first = stat host second := by
    funext path
    unfold stat
    rw [lookup_reordered same]
  have reads : readFile host first = readFile host second := by
    funext path
    unfold readFile
    rw [stats]
  have files : fileNotes host first = fileNotes host second := by
    funext item entry
    unfold fileNotes
    rw [reads]
  have items : snapshotNotes host first = snapshotNotes host second := by
    funext item
    unfold snapshotNotes
    rw [files]
  unfold manifestNotes snapshots
  rw [items, find_reordered same]

theorem discoveryErrors_reordered : discoveryErrors first = discoveryErrors second := by
  have active : first.active.Perm second.active := same.filter _
  have entrypoints : (first.rglobName "SKILL.md").Perm (second.rglobName "SKILL.md") :=
    same.filter _
  unfold discoveryErrors
  rw [sameSet_perm (active.map _) (.refl expected),
    sameSet_perm (entrypoints.map _) (active.map _)]

theorem inventoryErrors_reordered (notes : List ManifestNote) :
    inventoryErrors host first notes = inventoryErrors host second notes := by
  have actual : first.actual.Perm second.actual := same.filter _
  unfold inventoryErrors
  rw [sameSet_perm (actual.map _) (.refl (declared notes))]

/-- The scan goes through the files in the order of their paths. -/
theorem scanned_reordered : first.scanned = second.scanned := by
  refine insertionSort_pathLe_perm ((same.filter _).append (same.filter _)) ?_
  have apart : ∀ entry ∈ first.active, isVendored entry.1 = false := by
    intro entry member
    have skill := (List.mem_filter.mp member).2
    unfold isActivePath at skill
    split at skill
    · rename_i path
      rw [path]
      rfl
    · cases skill
  rw [List.map_append]
  refine List.nodup_append.mpr ⟨first.distinct.sublist (List.filter_sublist.map _),
    first.distinct.sublist (List.filter_sublist.map _), ?_⟩
  intro path vendored _ skill rfl
  obtain ⟨file, fileMember, rfl⟩ := List.mem_map.mp vendored
  obtain ⟨entry, entryMember, found⟩ := List.mem_map.mp skill
  have inside := (List.mem_filter.mp fileMember).2
  rw [← found, apart entry entryMember] at inside
  cases inside

/-- The checks record the same in any order, errors and disabled links in the order of the
listing. -/
theorem verify_reordered {verification : Verification}
    (checked : verify host first = .ok verification) :
    ∃ other, verify host second = .ok other ∧ verification.errors.Perm other.errors ∧
      verification.excluded.Perm other.excluded ∧ verification.findings = other.findings := by
  obtain ⟨skills, skillsChecked, checked⟩ := bind_eq_ok.mp checked
  obtain ⟨manifest, declarations, checked⟩ := bind_eq_ok.mp checked
  obtain ⟨markdown, documents, checked⟩ := bind_eq_ok.mp checked
  obtain ⟨findings, scan, recorded⟩ := bind_eq_ok.mp checked
  obtain rfl := Except.ok.inj recorded
  obtain ⟨otherSkills, otherSkillsChecked, skillsPerm⟩ :=
    collect_perm (same.filter fun entry => isActivePath entry.1) skillsChecked
  obtain ⟨otherMarkdown, otherDocuments, markdownPerm⟩ :=
    collect_perm (same.filter fun entry => entry.1.getLast?.any (endswith · ".md")) documents
  rw [markdownNotes_reordered same] at otherDocuments
  rw [scanned_reordered same] at scan
  rw [manifestNotes_reordered same] at declarations
  refine ⟨_, bind_eq_ok.mpr ⟨otherSkills, otherSkillsChecked, bind_eq_ok.mpr ⟨manifest,
    declarations, bind_eq_ok.mpr ⟨otherMarkdown, otherDocuments, bind_eq_ok.mpr ⟨findings, scan,
      rfl⟩⟩⟩⟩, ?_, markdownPerm.filterMap _, rfl⟩
  rw [discoveryErrors_reordered same, inventoryErrors_reordered same]
  exact ((((skillsPerm.append_left _).append_right _).append_right _).append
    (markdownPerm.filterMap _))

end Reordered

/-! ### Two runs -/

/-- The reports can be written when no directory has their name. -/
theorem writeReports_isOk {host : Host} {tree : Tree} {verification : Verification} :
    (∃ after, writeReports host tree verification = .ok after) ↔
      tree.Writable scanName ∧ tree.Writable exclusionName := by
  constructor
  · rintro ⟨after, written⟩
    obtain ⟨scanned, first, second⟩ := bind_eq_ok.mp written
    refine ⟨(Tree.writeText_eq_ok.mp first).1, fun entry member named => ?_⟩
    refine (Tree.writeText_eq_ok.mp second).1 entry ?_ named
    exact (Tree.mem_writeText first).mpr
      (Or.inr ⟨named ▸ show [exclusionName] ≠ [scanName] by decide, member⟩)
  · rintro ⟨scanWritable, exclusionWritable⟩
    obtain ⟨scanned, first⟩ : ∃ scanned, tree.writeText (host.place scanName) isName_scanName
        (scanReport verification.findings) = .ok scanned := ⟨_, dif_pos scanWritable⟩
    have writable : scanned.Writable exclusionName := by
      intro entry member named
      rcases (Tree.mem_writeText first).mp member with rfl | ⟨_, old⟩
      · rfl
      · exact exclusionWritable entry old named
    exact ⟨_, bind_eq_ok.mpr ⟨scanned, first, dif_pos writable⟩⟩

section Runs

variable {host : Host} {first second : Tree} (same : Reordered first second)

include same

/-- Refreshing the reports leaves the same files in any order, up to the rows of the report on
disabled links. -/
theorem writeReports_reordered {verification other : Verification} {after : Tree}
    (findings : verification.findings = other.findings)
    (written : writeReports host first verification = .ok after) :
    ∃ rest, writeReports host second other = .ok rest ∧
      (∀ path, path ≠ [exclusionName] → rest.find path = after.find path) ∧
      after.find [exclusionName] =
        some (.file (.text (exclusionReport verification.excluded))) ∧
      rest.find [exclusionName] = some (.file (.text (exclusionReport other.excluded))) := by
  have writable : ∀ name, first.Writable name → second.Writable name := by
    intro name free entry member named
    exact free entry (same.mem_iff.mpr member) named
  obtain ⟨scanFree, exclusionFree⟩ := writeReports_isOk.mp ⟨after, written⟩
  obtain ⟨rest, again⟩ : ∃ rest, writeReports host second other = .ok rest :=
    writeReports_isOk.mpr ⟨writable _ scanFree, writable _ exclusionFree⟩
  refine ⟨rest, again, fun path different => ?_, ?_, ?_⟩
  · by_cases scan : path = [scanName]
    · rw [scan, Tree.find_eq_some.mpr ((mem_writeReports written).mpr (Or.inl rfl)),
        Tree.find_eq_some.mpr ((mem_writeReports again).mpr (Or.inl rfl)), findings]
    · have others : isReport path = false :=
        Bool.eq_false_iff.mpr fun report => (isReport_iff.mp report).elim scan different
      rw [find_writeReports again others, find_writeReports written others, find_reordered same]
  · exact Tree.find_eq_some.mpr ((mem_writeReports written).mpr (Or.inr (Or.inl rfl)))
  · exact Tree.find_eq_some.mpr ((mem_writeReports again).mpr (Or.inr (Or.inl rfl)))

/-- The outcome of the checks is the same in any order, up to the order of the errors. -/
theorem outcome_reordered {verification other : Verification}
    (errors : verification.errors.Perm other.errors)
    (excluded : verification.excluded.Perm other.excluded)
    (findings : verification.findings = other.findings) :
    (outcome second other).code = (outcome first verification).code ∧
      (outcome first verification).stdout.Perm (outcome second other).stdout ∧
      ((outcome first verification).code = 0 →
        outcome second other = outcome first verification) := by
  have active : first.active.Perm second.active := same.filter _
  have actual : first.actual.Perm second.actual := same.filter _
  by_cases passed : verification.errors = []
  · have otherPassed : other.errors = [] := (passed ▸ errors).nil_eq.symm
    have agree : outcome second other = outcome first verification := by
      rw [outcome, outcome, if_neg (not_not.mpr passed), if_neg (not_not.mpr otherPassed),
        active.length_eq, actual.length_eq, excluded.length_eq, findings]
    rw [agree]
    exact ⟨rfl, .refl _, fun _ => rfl⟩
  · have otherFailed : other.errors ≠ [] := fun none => passed (none ▸ errors).eq_nil
    rw [outcome, outcome, if_pos passed, if_pos otherFailed]
    exact ⟨rfl, errors.cons _, fun zero => absurd zero Nat.one_ne_zero⟩

/-- Two listings of one tree get the same run: an exception in both or in neither, the same exit
code, the same errors in some order, and the same files afterwards. The scan report is the same
text; the report on disabled links has the same rows, in some order. -/
theorem main_reordered {write : Bool} {result : Outcome} {after : Tree}
    (ran : main host write first = .ok (result, after)) :
    ∃ other rest, main host write second = .ok (other, rest) ∧ other.code = result.code ∧
      result.stdout.Perm other.stdout ∧ (result.code = 0 → other = result) ∧
      (∀ path, path ≠ [exclusionName] → rest.find path = after.find path) ∧
      (rest.find [exclusionName] = after.find [exclusionName] ∨
        ∃ rows others, rows.Perm others ∧
          after.find [exclusionName] = some (.file (.text (exclusionReport rows))) ∧
          rest.find [exclusionName] = some (.file (.text (exclusionReport others)))) := by
  cases write with
  | false =>
    obtain ⟨verification, checked, rfl, rfl⟩ := main_false_eq_ok.mp ran
    obtain ⟨other, otherChecked, errors, excluded, findings⟩ := verify_reordered same checked
    obtain ⟨code, stdout, agree⟩ := outcome_reordered same errors excluded findings
    exact ⟨outcome second other, second, main_false_eq_ok.mpr ⟨other, otherChecked, rfl, rfl⟩,
      code, stdout, agree, fun path _ => by rw [find_reordered same],
      Or.inl (by rw [find_reordered same])⟩
  | true =>
    obtain ⟨verification, checked, written, rfl⟩ := main_true_eq_ok.mp ran
    obtain ⟨other, otherChecked, errors, excluded, findings⟩ := verify_reordered same checked
    obtain ⟨code, stdout, agree⟩ := outcome_reordered same errors excluded findings
    obtain ⟨rest, again, files, rows, others⟩ := writeReports_reordered same findings written
    exact ⟨outcome second other, rest, main_true_eq_ok.mpr ⟨other, otherChecked, again, rfl⟩,
      code, stdout, agree, files, Or.inr ⟨_, _, excluded, rows, others⟩⟩

theorem Verifies.reordered (verifies : Verifies host first) : Verifies host second := by
  obtain ⟨result, rest, ran, code⟩ := verifies
  obtain ⟨verification, checked, _, rfl⟩ := main_false_eq_ok.mp ran
  obtain ⟨other, otherChecked, errors, excluded, findings⟩ := verify_reordered same checked
  have codes := (outcome_reordered same errors excluded findings).1
  exact ⟨_, second, main_false_eq_ok.mpr ⟨other, otherChecked, rfl, rfl⟩, codes.trans code⟩

end Runs

/-- The same entries, listed backwards. -/
def Tree.backwards (tree : Tree) : Tree where
  entries := tree.entries.reverse
  distinct := by
    rw [List.map_reverse, List.nodup_reverse]
    exact tree.distinct
  rooted := fun entry member => by
    simpa only [List.mem_reverse] using tree.rooted entry (List.mem_reverse.mp member)
  named := fun entry member => tree.named entry (List.mem_reverse.mp member)

theorem reordered_backwards (tree : Tree) : Reordered tree tree.backwards :=
  (List.reverse_perm tree.entries).symm

/-- A refresh passes on the sample listed backwards. -/
theorem main_reordered_goneTree : ∃ rest, Passes goneSample.host goneTree.backwards rest := by
  obtain ⟨after, result, ran, code⟩ := goneTree_passes
  obtain ⟨other, rest, again, same, _⟩ := main_reordered (reordered_backwards goneTree) ran
  exact ⟨rest, other, again, same.trans code⟩

end Pbl4.Skills
