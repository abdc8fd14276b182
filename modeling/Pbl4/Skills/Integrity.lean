/-
This file is about what a passing run of `verify_skills.py` says of the vendored files. The
manifest fixes them: two trees that pass with one manifest have files at the same paths below
`vendor`, and the files at one path have the same digests, so a vendored file can only change
unnoticed by a collision of both digests. The line the script prints counts what is there.
-/

import Pbl4.Skills.Conformance
import Pbl4.Skills.Enumeration

namespace Pbl4.Skills

open Python

/-! ### Files below the root -/

section Below

variable {host : Host} {tree : Tree}

theorem lookup_below {below : List String} (nonempty : below ≠ []) :
    lookup host tree (host.root ++ below) = tree.find below := by
  have longer : (host.root ++ below).isPrefixOf host.root = false := by
    rw [Bool.eq_false_iff, ne_eq, List.isPrefixOf_iff_prefix]
    intro pre
    have bound := pre.length_le
    have positive := List.length_pos_of_ne_nil nonempty
    rw [List.length_append] at bound
    omega
  have inside : host.root.isPrefixOf (host.root ++ below) = true :=
    List.isPrefixOf_iff_prefix.mpr (List.prefix_append _ _)
  rw [lookup, longer, inside, if_neg Bool.false_ne_true, if_pos rfl, List.drop_left]

/-- What lies on the way to an entry is a directory. -/
theorem find_take {count : Nat} (positive : 0 < count) (more : Nat) :
    ∀ entry ∈ tree.entries, entry.1.length = count + more + 1 →
      tree.find (entry.1.take count) = some .directory := by
  induction more with
  | zero =>
    intro entry member length
    have dropped : entry.1.dropLast = entry.1.take count := by
      rw [List.dropLast_eq_take, length]
      rfl
    obtain ⟨_, top | ⟨parent, parentMember, path, directory⟩⟩ := tree.rooted entry member
    · have short := congrArg List.length top
      rw [List.length_dropLast, length, List.length_nil] at short
      omega
    · obtain ⟨parentPath, parentEntry⟩ := parent
      cases parentEntry with
      | directory => exact Tree.find_eq_some.mpr (dropped ▸ path ▸ parentMember)
      | file content => cases directory
  | succ more inductionHypothesis =>
    intro entry member length
    obtain ⟨_, top | ⟨parent, parentMember, path, _⟩⟩ := tree.rooted entry member
    · have short := congrArg List.length top
      rw [List.length_dropLast, length, List.length_nil] at short
      omega
    · have parentLength : parent.1.length = count + more + 1 := by
        rw [path, List.length_dropLast, length]
        omega
      have taken : parent.1.take count = entry.1.take count := by
        rw [path, List.dropLast_eq_take, List.take_take, length]
        congr 1
        omega
      rw [← taken]
      exact inductionHypothesis parent parentMember parentLength

/-- A file of the tree is found under its absolute path. -/
theorem stat_root_append {path : List String} {entry : Entry}
    (member : (path, entry) ∈ tree.entries) :
    stat host tree (host.root ++ path) = some entry := by
  have nonempty : path ≠ [] := (tree.rooted _ member).1
  have names : ∀ part ∈ host.root ++ path, part ≠ "/" ∧ part ≠ ".." := by
    intro part partMember
    have isName : IsName part :=
      (List.mem_append.mp partMember).elim (host.named part) (tree.named _ member part)
    exact ⟨fun same => isName.2.2.2 (same ▸ by decide), isName.2.2.1⟩
  have resolved : ∀ count, resolvePath ((host.root ++ path).take count) =
      (host.root ++ path).take count := fun count =>
    resolvePath_eq_self fun part taken => names part (List.mem_of_mem_take taken)
  have directories : ∀ count ∈ List.range (host.root ++ path).length,
      (lookup host tree (resolvePath ((host.root ++ path).take count))).any
        Entry.isDirectory = true := by
    intro count within
    rw [List.mem_range, List.length_append] at within
    rw [resolved]
    by_cases outside : count ≤ host.root.length
    · have pre : ((host.root ++ path).take count).isPrefixOf host.root = true := by
        rw [List.isPrefixOf_iff_prefix, List.take_append_of_le_length outside]
        exact List.take_prefix _ _
      rw [lookup, if_pos pre]
      rfl
    · obtain ⟨more, rfl⟩ := Nat.exists_eq_add_of_lt (Nat.lt_of_not_le outside)
      have taken : (host.root ++ path).take (host.root.length + more + 1) =
          host.root ++ path.take (more + 1) := by
        rw [Nat.add_assoc, List.take_length_add_append]
      have shorter : path.take (more + 1) ≠ [] := by
        intro none
        rcases List.take_eq_nil_iff.mp none with zero | empty
        · cases zero
        · exact nonempty empty
      obtain ⟨rest, length⟩ := Nat.exists_eq_add_of_lt (show more + 1 < path.length by omega)
      rw [taken, lookup_below shorter, find_take (Nat.succ_pos more) rest _ member length]
      rfl
  rw [stat, if_pos (List.all_eq_true.mpr directories), resolvePath_eq_self names,
    lookup_below nonempty]
  exact Tree.find_eq_some.mpr member

theorem readFile_eq_some {path : List String} {file content : Content}
    (member : (path, .file file) ∈ tree.entries)
    (read : readFile host tree (host.root ++ path) = .ok (some content)) : content = file := by
  unfold readFile at read
  split at read
  · cases read
  · split at read
    · cases read
    · rw [stat_root_append member] at read
      exact (Option.some.inj (Except.ok.inj read)).symm

end Below

/-! ### Pinned files -/

theorem Locates.unique {host : Host} {entry : Json} {p q : List String}
    (first : Locates host entry p) (second : Locates host entry q) : p = q := by
  obtain ⟨localPath, named, rfl⟩ := first
  obtain ⟨other, again, rfl⟩ := second
  rw [Except.ok.inj (named.symm.trans again)]

/-- In a tree that passes, an entry of the manifest pins the file it is about. -/
theorem Inventoried.pins {host : Host} {tree : Tree} (inventoried : Inventoried host tree)
    {items files : List Json} {item entry : Json} (parsed : snapshots host tree = .ok items)
    (itemMember : item ∈ items) (listed : (item.get "files").bind Json.iterate = .ok files)
    (entryMember : entry ∈ files) {path : List String} {content : Content}
    (located : Locates host entry (host.root ++ path))
    (stored : (path, .file content) ∈ tree.entries) :
    Pins host item entry (host.root ++ path) content.bytes := by
  obtain ⟨others, again, vouched, _⟩ := inventoried
  obtain rfl := Except.ok.inj (parsed.symm.trans again)
  obtain ⟨found, foundRead, each⟩ := (vouched item itemMember).files
  obtain rfl := Except.ok.inj (listed.symm.trans foundRead)
  obtain ⟨p, file, sameLocated, read, pins⟩ := each entry entryMember
  obtain rfl := sameLocated.unique located
  rwa [readFile_eq_some stored read] at pins

section Manifest

variable {host : Host} {first second : Tree} (firstPasses : Verifies host first)
  (secondPasses : Verifies host second)
  (manifest : first.find ["VENDOR_MANIFEST.json"] = second.find ["VENDOR_MANIFEST.json"])

include firstPasses secondPasses manifest

theorem exists_vendored {path : List String} (vendored : isVendored path = true)
    {content : Content} (stored : (path, .file content) ∈ first.entries) :
    ∃ other, (path, .file other) ∈ second.entries := by
  obtain ⟨items, parsed, _, inventory⟩ := (verifies_iff_conforms.mp firstPasses).inventoried
  obtain ⟨others, again, _, otherInventory⟩ := (verifies_iff_conforms.mp secondPasses).inventoried
  have same : snapshots host first = snapshots host second := by
    unfold snapshots
    rw [manifest]
  obtain rfl := Except.ok.inj (parsed.symm.trans (same.trans again))
  have declares := (inventory _).mp ⟨path, content, vendored, stored, rfl⟩
  obtain ⟨found, other, _, otherStored, path⟩ := (otherInventory _).mpr declares
  exact ⟨other, List.append_cancel_left path ▸ otherStored⟩

/-- Two trees that pass with the same manifest have vendored files at the same paths, and the
files at one path have the same digests. -/
theorem pinned_contents {path : List String} (vendored : isVendored path = true) :
    ((∃ content, (path, .file content) ∈ first.entries) ↔
      ∃ content, (path, .file content) ∈ second.entries) ∧
    ∀ content other, (path, .file content) ∈ first.entries →
      (path, .file other) ∈ second.entries →
        host.sha256 content.bytes = host.sha256 other.bytes ∧
          host.sha1 (gitBlob content.bytes) = host.sha1 (gitBlob other.bytes) := by
  refine ⟨⟨?_, ?_⟩, fun content other stored otherStored => ?_⟩
  · rintro ⟨content, stored⟩
    exact exists_vendored firstPasses secondPasses manifest vendored stored
  · rintro ⟨content, stored⟩
    exact exists_vendored secondPasses firstPasses manifest.symm vendored stored
  · have firstConforms := verifies_iff_conforms.mp firstPasses
    have secondConforms := verifies_iff_conforms.mp secondPasses
    obtain ⟨items, parsed, _, inventory⟩ := firstConforms.inventoried
    have same : snapshots host second = .ok items := by
      rw [← parsed]
      unfold snapshots
      rw [manifest]
    obtain ⟨item, itemMember, files, listed, entry, entryMember, located⟩ :=
      (inventory _).mp ⟨path, content, vendored, stored, rfl⟩
    have pins := firstConforms.inventoried.pins parsed itemMember listed entryMember located stored
    have otherPins := secondConforms.inventoried.pins same itemMember listed entryMember located
      otherStored
    exact ⟨Json.text.inj (Except.ok.inj (pins.sha256.symm.trans otherPins.sha256)),
      Json.text.inj (Except.ok.inj (pins.blob.symm.trans otherPins.blob))⟩

end Manifest

/-- The vendored file of the sample, in its other listing. -/
theorem pinned_contents_goneTree : ∃ other : Content,
    (["vendor", "notes.md"], Entry.file other) ∈ goneTree.backwards.entries ∧
      goneSample.host.sha256 (Content.text goneSample.notes.toList).bytes =
        goneSample.host.sha256 other.bytes := by
  obtain ⟨after, passed⟩ := goneTree_passes
  obtain ⟨manifest, markdown, findings, clean, _⟩ := passed.clean
  have verifies := verifies_iff.mpr ⟨manifest, markdown, findings, clean⟩
  have same := reordered_backwards goneTree
  have stored : (["vendor", "notes.md"], Entry.file (.text goneSample.notes.toList)) ∈
      goneTree.entries :=
    List.mem_append_right _ (List.mem_cons_of_mem _ List.mem_cons_self)
  have pinned := pinned_contents verifies (verifies.reordered same)
    (congrFun (find_reordered same) _) (show isVendored ["vendor", "notes.md"] = true from rfl)
  obtain ⟨other, otherStored⟩ := pinned.1.mp ⟨_, stored⟩
  exact ⟨other, otherStored, (pinned.2 _ other stored otherStored).1⟩

/-! ### The lines of a pass -/

section Lines

variable {host : Host} {tree : Tree}

/-- Each expected skill is active once. -/
theorem Discovered.active_length (discovered : Discovered tree) :
    tree.active.length = expected.length := by
  have skills : (tree.active.map Prod.fst).Perm
      (expected.map fun name => ["skills", name, "SKILL.md"]) := by
    refine (List.perm_ext_iff_of_nodup (tree.distinct.sublist (List.filter_sublist.map _))
      (by decide)).mpr fun path => ?_
    rw [List.mem_map, List.mem_map]
    constructor
    · rintro ⟨⟨path, entry⟩, member, rfl⟩
      obtain ⟨stored, name, rfl⟩ : (path, entry) ∈ tree.entries ∧
          ∃ name, path = ["skills", name, "SKILL.md"] := mem_active.mp member
      obtain ⟨other, listed, same⟩ := (discovered _).mp ⟨entry, stored, rfl⟩
      exact ⟨other, listed, same.symm⟩
    · rintro ⟨name, listed, rfl⟩
      obtain ⟨entry, stored, _⟩ := (discovered _).mpr ⟨name, listed, rfl⟩
      exact ⟨(_, entry), mem_active.mpr ⟨stored, name, rfl⟩, rfl⟩
  simpa using skills.length_eq

/-- The vendored files, each once. -/
theorem Inventoried.exists_pinned (inventoried : Inventoried host tree) :
    ∃ items, snapshots host tree = .ok items ∧ ∃ pinned : List (List String), pinned.Nodup ∧
      pinned.length = tree.actual.length ∧
        ∀ p, p ∈ pinned ↔ ∃ item ∈ items, Declares host item p := by
  obtain ⟨items, parsed, _, inventory⟩ := inventoried
  refine ⟨items, parsed, tree.actual.map fun file => host.root ++ file.1, ?_,
    List.length_map _, fun p => ?_⟩
  · have paths : (tree.actual.map Prod.fst).Nodup :=
      tree.distinct.sublist (List.filter_sublist.map _)
    have whole := paths.map (List.append_right_injective host.root)
    rwa [List.map_map] at whole
  · rw [← inventory, List.mem_map]
    constructor
    · rintro ⟨⟨path, entry⟩, member, rfl⟩
      obtain ⟨content, vendored, stored, _⟩ := mem_actual.mp member
      exact ⟨path, content, vendored, stored, rfl⟩
    · rintro ⟨path, content, vendored, stored, rfl⟩
      exact ⟨(path, .file content), mem_actual.mpr ⟨content, vendored, stored, rfl⟩, rfl⟩

/-- The lines of a pass count what is there: the expected skills, the files the manifest
declares, the matched lines and the dead links. -/
theorem pass_lines {write : Bool} {result : Outcome} {after : Tree}
    (ran : main host write tree = .ok (result, after)) (passed : result.code = 0) :
    ∃ items, snapshots host tree = .ok items ∧ ∃ pinned : List (List String), pinned.Nodup ∧
      (∀ p, p ∈ pinned ↔ ∃ item ∈ items, Declares host item p) ∧
      result.stdout = [
        s!"PASS: {expected.length} intended skills; {pinned.length} pinned files " ++
          "hash-verified; enabled links/fences valid; no raw discovery entrypoint or executable.",
        s!"Scan: {(matchedLines tree).length} classified lines; " ++
          s!"{(deadLinks host tree).length} disabled raw links. Semantic scenario evaluation " ++
          "is a separate manual gate."] := by
  obtain ⟨verification, checked, rfl⟩ : ∃ verification, verify host tree = .ok verification ∧
      outcome tree verification = result := by
    cases write with
    | false =>
      obtain ⟨verification, checked, _, same⟩ := main_false_eq_ok.mp ran
      exact ⟨verification, checked, same⟩
    | true =>
      obtain ⟨verification, checked, _, same⟩ := main_true_eq_ok.mp ran
      exact ⟨verification, checked, same⟩
  obtain ⟨manifest, markdown, findings, clean, rfl⟩ :=
    verify_clean_iff.mp ⟨checked, outcome_code_eq_zero.mp passed⟩
  have conforms := verifies_iff_conforms.mp (verifies_iff.mpr ⟨_, _, _, clean⟩)
  obtain ⟨items, parsed, pinned, distinct, length, declares⟩ :=
    conforms.inventoried.exists_pinned
  refine ⟨items, parsed, pinned, distinct, declares, ?_⟩
  rw [outcome, if_neg (not_not.mpr rfl), conforms.discovered.active_length, length,
    clean.findings_eq, clean.exclusions_eq]

end Lines

/-- The sample passes with one vendored file. -/
theorem pass_lines_goneTree : ∃ result after,
    main goneSample.host true goneTree = .ok (result, after) ∧
    ∃ pinned : List (List String), pinned.Nodup ∧ result.stdout.head? = some (
      s!"PASS: {expected.length} intended skills; {pinned.length} pinned files " ++
      "hash-verified; enabled links/fences valid; no raw discovery entrypoint or executable.") := by
  obtain ⟨after, result, ran, code⟩ := goneTree_passes
  obtain ⟨items, parsed, pinned, distinct, declares, lines⟩ := pass_lines ran code
  exact ⟨result, after, ran, pinned, distinct, congrArg List.head? lines⟩

end Pbl4.Skills
