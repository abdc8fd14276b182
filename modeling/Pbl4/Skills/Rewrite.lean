/-
This file says what writing the reports changes for the checks of `verify_skills.py`. The two
reports are replaced and nothing else: the skills, the manifest and the scan are checked as
before, and a Markdown file that was there before leaves what it left, less the links that
lead to a report. A tree without errors is therefore without errors after writing when the
reports themselves are.
-/

import Pbl4.Skills.Reports

namespace Pbl4.Skills

open Python

/-! ### What the reports change -/

/-- The paths of the two reports. -/
def isReport (path : List String) : Bool := path = [scanName] || path = [exclusionName]

theorem isReport_iff {path : List String} :
    isReport path = true ↔ path = [scanName] ∨ path = [exclusionName] := by
  rw [isReport, Bool.or_eq_true, decide_eq_true_eq, decide_eq_true_eq]

/-- The absolute path of a report. -/
def isReportPath (host : Host) (path : List String) : Bool :=
  host.root.isPrefixOf path && isReport (path.drop host.root.length)

section Written

variable {host : Host} {tree after : Tree} {verification : Verification}
  (written : writeReports host tree verification = .ok after)

include written

/-- The entries after writing: the two reports, and what was there before under other names. -/
theorem mem_writeReports {entry : List String × Entry} :
    entry ∈ after.entries ↔
      entry = ([scanName], .file (.text (scanReport verification.findings))) ∨
      entry = ([exclusionName], .file (.text (exclusionReport verification.excluded))) ∨
      isReport entry.1 = false ∧ entry ∈ tree.entries := by
  obtain ⟨scanned, first, second⟩ := bind_eq_ok.mp written
  rw [Tree.mem_writeText second, Tree.mem_writeText first]
  simp only [isReport, Bool.or_eq_false_iff, decide_eq_false_iff_not]
  constructor
  · rintro (excluded | ⟨other, scan | ⟨another, old⟩⟩)
    · exact Or.inr (Or.inl excluded)
    · exact Or.inl scan
    · exact Or.inr (Or.inr ⟨⟨another, other⟩, old⟩)
  · rintro (rfl | excluded | ⟨⟨another, other⟩, old⟩)
    · exact Or.inr ⟨show [scanName] ≠ [exclusionName] by decide, Or.inl rfl⟩
    · exact Or.inl excluded
    · exact Or.inr ⟨other, Or.inr ⟨another, old⟩⟩

theorem filter_writeReports {keep : List String × Entry → Bool}
    (others : ∀ entry, isReport entry.1 = true → keep entry = false) :
    after.entries.filter keep = tree.entries.filter keep := by
  obtain ⟨scanned, first, second⟩ := bind_eq_ok.mp written
  rw [Tree.filter_writeText second fun _ =>
      others _ (show isReport [exclusionName] = true by decide),
    Tree.filter_writeText first fun _ => others _ (show isReport [scanName] = true by decide)]

theorem find_writeReports {path : List String} (other : isReport path = false) :
    after.find path = tree.find path := by
  refine Option.ext fun entry => ?_
  rw [Tree.find_eq_some, Tree.find_eq_some, mem_writeReports written]
  constructor
  · rintro (scan | excluded | ⟨_, old⟩)
    · rw [(Prod.mk.inj scan).1] at other
      exact absurd other (by decide)
    · rw [(Prod.mk.inj excluded).1] at other
      exact absurd other (by decide)
    · exact old
  · exact fun old => Or.inr (Or.inr ⟨other, old⟩)

theorem find_report {path : List String} (report : isReport path = true) :
    (after.find path).isSome = true := by
  rcases isReport_iff.mp report with rfl | rfl
  · rw [Tree.find_eq_some.mpr ((mem_writeReports written).mpr (Or.inl rfl))]
    rfl
  · rw [Tree.find_eq_some.mpr ((mem_writeReports written).mpr (Or.inr (Or.inl rfl)))]
    rfl

theorem lookup_writeReports {path : List String} (other : isReportPath host path = false) :
    lookup host after path = lookup host tree path := by
  unfold lookup
  split
  · rfl
  · split
    · rename_i inside
      rw [isReportPath, inside, Bool.true_and] at other
      exact find_writeReports written other
    · rfl

theorem lookup_report {path : List String} (report : isReportPath host path = true) :
    (lookup host after path).isSome = true := by
  rw [isReportPath, Bool.and_eq_true] at report
  unfold lookup
  split
  · rfl
  · rw [if_pos report.1]
    exact find_report written report.2

/-- A path leads somewhere after writing if it did before or leads to a report. -/
theorem resolvesToEntry_writeReports (path : List String) :
    resolvesToEntry host after path = (resolvesToEntry host tree path).map fun found =>
      found || isReportPath host (resolvePath path) := by
  unfold resolvesToEntry
  split
  · rfl
  · split
    · rfl
    · cases report : isReportPath host (resolvePath path) with
      | true => simp [Except.map, lookup_report written report]
      | false => simp [Except.map, lookup_writeReports written report]

theorem stat_writeReports {path : List String}
    (other : ∀ count, isReportPath host (resolvePath (path.take count)) = false) :
    stat host after path = stat host tree path := by
  have last := other path.length
  rw [List.take_length] at last
  simp only [stat, lookup_writeReports written (other _), lookup_writeReports written last]

end Written

/-! ### The manifest after writing -/

/-- A path below `vendor`, from the root of the file system. -/
def IsVendorPath (host : Host) (path : List String) : Prop :=
  ∃ below, path = host.root ++ below ∧ isVendored below = true ∧ ∀ part ∈ below, IsName part

/-- No report lies on the way to a vendored file. -/
theorem IsVendorPath.isReportPath_take {host : Host} {path : List String}
    (vendorPath : IsVendorPath host path) (count : Nat) :
    isReportPath host (resolvePath (path.take count)) = false := by
  obtain ⟨below, rfl, vendored, names⟩ := vendorPath
  have resolved : resolvePath ((host.root ++ below).take count) =
      (host.root ++ below).take count := by
    refine resolvePath_eq_self fun part member => ?_
    have isName : IsName part := by
      rcases List.mem_append.mp (List.mem_of_mem_take member) with inRoot | inBelow
      · exact host.named part inRoot
      · exact names part inBelow
    exact ⟨fun same => isName.2.2.2 (same ▸ by decide), isName.2.2.1⟩
  rw [resolved, isReportPath, List.drop_take, List.drop_left, Bool.and_eq_false_iff]
  refine Or.inr ?_
  cases below with
  | nil => exact absurd vendored (by decide)
  | cons first rest =>
    cases count - host.root.length with
    | zero => rfl
    | succ more =>
      have top : first = "vendor" := by
        unfold isVendored at vendored
        split at vendored
        · rename_i same
          exact (List.cons.inj same).1
        · cases vendored
      rw [List.take_succ_cons, top, isReport, Bool.or_eq_false_iff]
      constructor <;> refine decide_eq_false fun same => ?_
      · exact absurd (List.cons.inj same).1 (by decide)
      · exact absurd (List.cons.inj same).1 (by decide)

section Manifest

variable {host : Host} {tree after : Tree} {verification : Verification}
  (written : writeReports host tree verification = .ok after)

include written

theorem snapshots_writeReports : snapshots host after = snapshots host tree := by
  unfold snapshots
  rw [find_writeReports written (show isReport ["VENDOR_MANIFEST.json"] = false by decide)]

theorem readFile_writeReports {path : List String} (vendorPath : IsVendorPath host path) :
    readFile host after path = readFile host tree path := by
  unfold readFile
  rw [stat_writeReports written vendorPath.isReportPath_take]

theorem fileNotes_writeReports {item entry : Json} {found : List ManifestNote}
    (ran : fileNotes host tree item entry = .ok found)
    (vendorPaths : ∀ path, ManifestNote.declared path ∈ found → IsVendorPath host path) :
    fileNotes host after item entry = .ok found := by
  obtain ⟨localPath, named, ran⟩ := bind_eq_ok.mp ran
  obtain ⟨content, read, checked⟩ := bind_eq_ok.mp ran
  have vendorPath : IsVendorPath host (joinPath host.root localPath.toList) := by
    refine vendorPaths _ ?_
    cases content with
    | none =>
      obtain rfl := Except.ok.inj checked
      exact List.mem_cons_self
    | some content =>
      obtain ⟨notes, _, same⟩ := bind_eq_ok.mp checked
      obtain rfl := Except.ok.inj same
      exact List.mem_cons_self
  refine bind_eq_ok.mpr ⟨localPath, named, bind_eq_ok.mpr ⟨content, ?_, checked⟩⟩
  rw [readFile_writeReports written vendorPath, read]

theorem snapshotNotes_writeReports {item : Json} {found : List ManifestNote}
    (ran : snapshotNotes host tree item = .ok found)
    (vendorPaths : ∀ path, ManifestNote.declared path ∈ found → IsVendorPath host path) :
    snapshotNotes host after item = .ok found := by
  obtain ⟨sha, hasSha, ran⟩ := bind_eq_ok.mp ran
  obtain ⟨pinned, checked, ran⟩ := bind_eq_ok.mp ran
  obtain ⟨files, listed, ran⟩ := bind_eq_ok.mp ran
  obtain ⟨notes, collected, same⟩ := bind_eq_ok.mp ran
  obtain rfl := Except.ok.inj same
  refine bind_eq_ok.mpr ⟨sha, hasSha, bind_eq_ok.mpr ⟨pinned, checked,
    bind_eq_ok.mpr ⟨files, listed, bind_eq_ok.mpr ⟨notes, ?_, rfl⟩⟩⟩⟩
  refine collect_congr collected fun entry _ found visited inside => ?_
  exact fileNotes_writeReports written visited fun path member =>
    vendorPaths path (List.mem_append_right _ (inside member))

/-- Where the declared paths are the files below `vendor`, the manifest is checked as before. -/
theorem manifestNotes_writeReports {notes : List ManifestNote}
    (ran : manifestNotes host tree = .ok notes) (inventory : inventoryErrors host tree notes = []) :
    manifestNotes host after = .ok notes := by
  have vendorPaths : ∀ path, ManifestNote.declared path ∈ notes → IsVendorPath host path := by
    intro path member
    have onDisk : path ∈ tree.actual.map fun entry => host.root ++ entry.1 := by
      unfold inventoryErrors at inventory
      split at inventory
      · rename_i same
        exact (sameSet_iff.mp same path).mpr (List.mem_filterMap.mpr ⟨_, member, rfl⟩)
      · cases inventory
    obtain ⟨entry, actual, rfl⟩ := List.mem_map.mp onDisk
    obtain ⟨member, vendored⟩ := List.mem_filter.mp actual
    exact ⟨entry.1, rfl, (Bool.and_eq_true_iff.mp vendored).1, tree.named entry member⟩
  obtain ⟨items, listed, ran⟩ := bind_eq_ok.mp ran
  refine bind_eq_ok.mpr ⟨items, (snapshots_writeReports written).trans listed, ?_⟩
  refine collect_congr ran fun item _ found visited inside => ?_
  exact snapshotNotes_writeReports written visited fun path member =>
    vendorPaths path (inside member)

end Manifest

/-! ### The Markdown files after writing -/

/-- A disabled link stays disabled unless it leads to a report. -/
def staysDisabled (host : Host) (link : List String × List Char) : Bool :=
  !isReportPath host (resolvePath (targetPath host link.1 link.2))

/-- What a run records that finds the reports written. -/
def remains (host : Host) : MarkdownNote → Bool
  | .error _ => true
  | .exclusion path target => staysDisabled host (path, target)

theorem exclusions_filter_remains (host : Host) (notes : List MarkdownNote) :
    exclusions (notes.filter (remains host)) =
      (exclusions notes).filter (staysDisabled host) := by
  rw [exclusions, exclusions, List.filterMap_filter, List.filter_filterMap]
  congr 1
  funext note
  cases note with
  | error message => rfl
  | exclusion path target =>
    cases stays : staysDisabled host (path, target) <;> simp [remains, stays, Option.filter]

theorem isVendored_of_isReport {path : List String} (report : isReport path = true) :
    isVendored path = false := by
  rcases isReport_iff.mp report with rfl | rfl <;> rfl

/-- Without an error, a file outside `vendor` leaves no note. -/
theorem markdownNotes_eq_nil_of_clean {host : Host} {tree : Tree} {file : List String × Entry}
    {notes : List MarkdownNote} (ran : markdownNotes host tree file = .ok notes)
    (clean : ∀ message, MarkdownNote.error message ∉ notes)
    (enabled : isVendored file.1 = false) : notes = [] := by
  refine List.eq_nil_iff_forall_not_mem.mpr fun note member => ?_
  cases note with
  | error message => exact clean message member
  | exclusion path target =>
    rw [isVendored_of_mem_markdownNotes ran member] at enabled
    cases enabled

section Markdown

variable {host : Host} {tree after : Tree} {verification : Verification}
  (written : writeReports host tree verification = .ok after)

include written

theorem linkNotes_writeReports {path : List String} {group : List Char}
    {notes : List MarkdownNote} (ran : linkNotes host tree path group = .ok notes)
    (clean : ∀ message, MarkdownNote.error message ∉ notes) :
    linkNotes host after path group = .ok (notes.filter (remains host)) := by
  unfold linkNotes at ran ⊢
  simp only at ran ⊢
  split
  · rename_i skipped
    rw [if_pos skipped] at ran
    obtain rfl := Except.ok.inj ran
    rfl
  · rename_i linked
    rw [if_neg linked] at ran
    obtain ⟨found, resolved, rfl⟩ := map_eq_ok.mp ran
    rw [resolvesToEntry_writeReports written, resolved]
    refine congrArg Except.ok ?_
    cases found with
    | true => rfl
    | false =>
      have excluded : brokenLink path (cleanTarget group) =
          .exclusion path (cleanTarget group) := by
        unfold brokenLink at clean ⊢
        split
        · rfl
        · rename_i enabled
          rw [if_neg Bool.false_ne_true, if_neg enabled] at clean
          exact absurd List.mem_cons_self (clean _)
      rw [excluded]
      cases report : isReportPath host (resolvePath (targetPath host path (cleanTarget group)))
        <;> simp [remains, staysDisabled, report]

theorem markdownNotes_writeReports {file : List String × Entry} {notes : List MarkdownNote}
    (ran : markdownNotes host tree file = .ok notes)
    (clean : ∀ message, MarkdownNote.error message ∉ notes) :
    markdownNotes host after file = .ok (notes.filter (remains host)) := by
  obtain ⟨text, read, ran⟩ := bind_eq_ok.mp ran
  obtain ⟨links, collected, same⟩ := bind_eq_ok.mp ran
  obtain rfl := Except.ok.inj same
  have fences : (fenceNotes host file.1 text).filter (remains host) =
      fenceNotes host file.1 text := by
    unfold fenceNotes
    split <;> rfl
  refine bind_eq_ok.mpr ⟨text, read, bind_eq_ok.mpr ⟨links.filter (remains host), ?_, ?_⟩⟩
  · refine collect_part collected fun group _ found visited inside => ?_
    exact linkNotes_writeReports written visited fun message member =>
      clean message (List.mem_append_right _ (inside member))
  · rw [List.filter_append, fences]
    rfl

/-- When neither report is at fault, the next run records what remains. -/
theorem collect_markdownNotes_writeReports {notes : List MarkdownNote}
    (ran : collect (markdownNotes host tree) tree.markdown = .ok notes)
    (clean : ∀ message, MarkdownNote.error message ∉ notes)
    (reports : ∀ file ∈ after.markdown, isReport file.1 = true →
      markdownNotes host after file = .ok []) :
    collect (markdownNotes host after) after.markdown = .ok (notes.filter (remains host)) := by
  have others : collect (markdownNotes host tree)
      (tree.markdown.filter fun file => !isReport file.1) = .ok notes := by
    refine (collect_filter fun file member report => ?_).trans ran
    obtain ⟨found, visited, inside⟩ := subset_of_collect ran member
    rw [visited, markdownNotes_eq_nil_of_clean visited (fun message here =>
      clean message (inside here)) (isVendored_of_isReport (by simpa using report))]
  have same : after.markdown.filter (fun file => !isReport file.1) =
      tree.markdown.filter fun file => !isReport file.1 := by
    unfold Tree.markdown
    rw [List.filter_filter, List.filter_filter]
    exact filter_writeReports written fun entry report => by rw [report]; rfl
  have old : collect (markdownNotes host after)
      (after.markdown.filter fun file => !isReport file.1) =
      collect (markdownNotes host after) after.markdown :=
    collect_filter fun file member report => reports file member (by simpa using report)
  rw [← old, same]
  refine collect_part others fun file _ found visited inside => ?_
  exact markdownNotes_writeReports written visited fun message here =>
    clean message (inside here)

end Markdown

/-! ### Runs that pass -/

/-- The checks find no error: what they record of the manifest and of the Markdown files, and
the matched lines. -/
structure Clean (host : Host) (tree : Tree) (manifest : List ManifestNote)
    (markdown : List MarkdownNote) (findings : List Finding) : Prop where
  discovery : discoveryErrors tree = []
  skills : collect (skillErrors host) tree.active = .ok []
  declarations : manifestNotes host tree = .ok manifest
  intact : manifestErrors manifest = []
  inventory : inventoryErrors host tree manifest = []
  documents : collect (markdownNotes host tree) tree.markdown = .ok markdown
  valid : ∀ message, MarkdownNote.error message ∉ markdown
  scan : collect fileFindings tree.scanned = .ok findings

theorem verify_clean_iff {host : Host} {tree : Tree} {verification : Verification} :
    verify host tree = .ok verification ∧ verification.errors = [] ↔
      ∃ manifest markdown findings, Clean host tree manifest markdown findings ∧
        verification = ⟨[], exclusions markdown, findings⟩ := by
  constructor
  · rintro ⟨checked, errors⟩
    obtain ⟨skills, skillsChecked, checked⟩ := bind_eq_ok.mp checked
    obtain ⟨manifest, declarations, checked⟩ := bind_eq_ok.mp checked
    obtain ⟨markdown, documents, checked⟩ := bind_eq_ok.mp checked
    obtain ⟨findings, scan, same⟩ := bind_eq_ok.mp checked
    obtain rfl := Except.ok.inj same
    simp only [List.append_eq_nil_iff] at errors
    obtain ⟨⟨⟨⟨discovery, rfl⟩, intact⟩, inventory⟩, valid⟩ := errors
    refine ⟨manifest, markdown, findings, ⟨discovery, skillsChecked, declarations, intact,
      inventory, documents, markdownErrors_eq_nil.mp valid, scan⟩, ?_⟩
    simp [discovery, intact, inventory, valid]
  · rintro ⟨manifest, markdown, findings, clean, rfl⟩
    refine ⟨?_, rfl⟩
    refine bind_eq_ok.mpr ⟨[], clean.skills, bind_eq_ok.mpr ⟨manifest, clean.declarations,
      bind_eq_ok.mpr ⟨markdown, clean.documents, bind_eq_ok.mpr ⟨findings, clean.scan, ?_⟩⟩⟩⟩
    rw [clean.discovery, clean.intact, clean.inventory, markdownErrors_eq_nil.mpr clean.valid]
    rfl

/-- A tree that is clean is clean after writing, when neither report is at fault. -/
theorem Clean.writeReports {host : Host} {tree after : Tree} {verification : Verification}
    {manifest : List ManifestNote} {markdown : List MarkdownNote} {findings : List Finding}
    (clean : Clean host tree manifest markdown findings)
    (written : writeReports host tree verification = .ok after)
    (reports : ∀ file ∈ after.markdown, isReport file.1 = true →
      markdownNotes host after file = .ok []) :
    Clean host after manifest (markdown.filter (remains host)) findings := by
  have active : after.active = tree.active := by
    refine filter_writeReports written fun entry report => ?_
    rcases isReport_iff.mp report with same | same <;> rw [same] <;> rfl
  have entrypoints : after.rglobName "SKILL.md" = tree.rglobName "SKILL.md" := by
    refine filter_writeReports written fun entry report => ?_
    rcases isReport_iff.mp report with same | same <;> rw [same] <;> decide
  have actual : after.actual = tree.actual := by
    refine filter_writeReports written fun entry report => ?_
    rw [isVendored_of_isReport report, Bool.false_and]
  have scanned : after.scanned = tree.scanned := by
    rw [Tree.scanned, active, actual, Tree.scanned]
  constructor
  · rw [discoveryErrors, active, entrypoints]
    exact clean.discovery
  · rw [active]
    exact clean.skills
  · exact manifestNotes_writeReports written clean.declarations clean.inventory
  · exact clean.intact
  · rw [inventoryErrors, actual]
    exact clean.inventory
  · exact collect_markdownNotes_writeReports written clean.documents clean.valid reports
  · exact fun message member => clean.valid message (List.mem_of_mem_filter member)
  · rw [scanned]
    exact clean.scan

end Pbl4.Skills
