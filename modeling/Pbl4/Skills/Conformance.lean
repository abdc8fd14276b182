/-
This file says which trees `verify_skills.py` passes, check by check and without its loops. A
tree conforms when its entry points are the expected skills, each skill describes itself, every
vendored file is pinned by the manifest and every pinned file is there, and no enabled Markdown
file has an open fence or a link that leads nowhere. The script ends with exit code 0 exactly
on the trees that conform.
-/

import Pbl4.Skills.Refresh

namespace Pbl4.Skills

open Python

/-! ### Skills -/

/-- Every file named `SKILL.md` belongs to an expected skill, and every expected skill has one. -/
def Discovered (tree : Tree) : Prop :=
  ∀ path, (∃ entry, (path, entry) ∈ tree.entries ∧ path.getLast? = some "SKILL.md") ↔
    ∃ name ∈ expected, path = ["skills", name, "SKILL.md"]

/-- The text of a skill names it and describes it. -/
def Describes (name : String) (text : List Char) : Prop :=
  ∃ front, frontMatter text = some front ∧ namesSkill front name = true ∧
    occursIn "description:".toList front = true

theorem isActivePath_iff {path : List String} :
    isActivePath path = true ↔ ∃ name, path = ["skills", name, "SKILL.md"] := by
  unfold isActivePath
  split
  · rename_i name
    exact ⟨fun _ => ⟨name, rfl⟩, fun _ => rfl⟩
  · rename_i other
    exact ⟨fun impossible => absurd impossible Bool.false_ne_true,
      fun ⟨name, same⟩ => (other name same).elim⟩

theorem mem_active {tree : Tree} {skill : List String × Entry} :
    skill ∈ tree.active ↔
      skill ∈ tree.entries ∧ ∃ name, skill.1 = ["skills", name, "SKILL.md"] := by
  rw [Tree.active, List.mem_filter, isActivePath_iff]

/-- A check reports nothing when its condition holds. -/
theorem report_eq_nil {Report : Type} {holds : Prop} [Decidable holds] {report : Report} :
    (if holds then [] else [report]) = [] ↔ holds := by
  split
  · rename_i met
    exact ⟨fun _ => met, fun _ => rfl⟩
  · rename_i unmet
    exact ⟨fun impossible => absurd impossible (List.cons_ne_nil _ _), fun met => absurd met unmet⟩

theorem mem_map_fst {Key Value : Type} {items : List (Key × Value)} {key : Key} :
    key ∈ items.map Prod.fst ↔ ∃ value, (key, value) ∈ items := by
  rw [List.mem_map]
  constructor
  · rintro ⟨⟨_, value⟩, member, rfl⟩
    exact ⟨value, member⟩
  · rintro ⟨value, member⟩
    exact ⟨_, member, rfl⟩

/-- The two comparisons of the discovery, as equalities of sets. -/
theorem discoveryErrors_eq_nil_iff_sets {tree : Tree} : discoveryErrors tree = [] ↔
    (∀ name, (∃ skill ∈ tree.active, parentName skill.1 = name) ↔ name ∈ expected) ∧
      ∀ path, (∃ entry, (path, entry) ∈ tree.entries ∧ path.getLast? = some "SKILL.md") ↔
        ∃ entry, (path, entry) ∈ tree.active := by
  have named : ∀ {path : List String} {entry : Entry},
      (path, entry) ∈ tree.rglobName "SKILL.md" ↔
        (path, entry) ∈ tree.entries ∧ path.getLast? = some "SKILL.md" := by
    intro path entry
    rw [Tree.rglobName, List.mem_filter, decide_eq_true_eq]
  rw [discoveryErrors, List.append_eq_nil_iff, report_eq_nil, report_eq_nil, sameSet_iff,
    sameSet_iff]
  refine and_congr (forall_congr' fun name => by rw [List.mem_map])
    (forall_congr' fun path => iff_congr ?_ ?_)
  · rw [mem_map_fst]
    exact exists_congr fun entry => named
  · exact mem_map_fst

theorem discoveryErrors_eq_nil {tree : Tree} : discoveryErrors tree = [] ↔ Discovered tree := by
  rw [discoveryErrors_eq_nil_iff_sets]
  constructor
  · rintro ⟨names, paths⟩ path
    rw [paths]
    constructor
    · rintro ⟨entry, member⟩
      obtain ⟨_, name, same⟩ := mem_active.mp member
      simp only at same
      exact ⟨name, (names name).mp ⟨_, member, by rw [same]; rfl⟩, same⟩
    · rintro ⟨name, listed, rfl⟩
      obtain ⟨⟨path, entry⟩, member, parent⟩ := (names name).mpr listed
      obtain ⟨_, found, same⟩ := mem_active.mp member
      simp only at same parent
      rw [same] at parent member
      obtain rfl := show found = name from parent
      exact ⟨entry, member⟩
  · intro discovered
    constructor
    · intro name
      constructor
      · rintro ⟨⟨path, entry⟩, member, rfl⟩
        obtain ⟨stored, name, same⟩ := mem_active.mp member
        simp only at same
        obtain ⟨found, listed, path⟩ := (discovered path).mp ⟨entry, stored, same ▸ rfl⟩
        exact path ▸ listed
      · intro listed
        obtain ⟨entry, stored, _⟩ := (discovered _).mpr ⟨name, listed, rfl⟩
        exact ⟨_, mem_active.mpr ⟨stored, name, rfl⟩, rfl⟩
    · intro path
      constructor
      · rintro ⟨entry, stored, last⟩
        obtain ⟨name, _, same⟩ := (discovered path).mp ⟨entry, stored, last⟩
        exact ⟨entry, mem_active.mpr ⟨stored, name, same⟩⟩
      · rintro ⟨entry, member⟩
        obtain ⟨stored, name, same⟩ := mem_active.mp member
        simp only at same
        exact ⟨entry, stored, same ▸ rfl⟩

theorem skillErrors_eq_nil {host : Host} {skill : List String × Entry} :
    skillErrors host skill = .ok [] ↔
      ∃ text, skill.2.readText = .ok text ∧ Describes (parentName skill.1) text := by
  rw [skillErrors, bind_eq_ok]
  refine exists_congr fun text => and_congr_right fun _ => ?_
  show Except.ok _ = Except.ok [] ↔ _
  rw [Except.ok.injEq, List.append_eq_nil_iff, report_eq_nil, report_eq_nil,
    Option.any_eq_true, Option.any_eq_true]
  constructor
  · rintro ⟨⟨front, found, names⟩, other, again, describes⟩
    obtain rfl := Option.some.inj (found.symm.trans again)
    exact ⟨front, found, names, describes⟩
  · rintro ⟨front, found, names, describes⟩
    exact ⟨⟨front, found, names⟩, front, found, describes⟩

/-! ### Vendored files -/

/-- The entry of a snapshot pins the bytes of a file: it states both digests and the address in
the pinned commit, and nothing discovers or runs a file of that name. -/
structure Pins (host : Host) (item entry : Json) (p : List String) (data : List UInt8) :
    Prop where
  sha256 : entry.get "sha256" = .ok (.text (host.sha256 data))
  blob : entry.get "git_blob_sha" = .ok (.text (host.sha1 (gitBlob data)))
  origin : ∃ repo sha upstreamPath, item.getText "repo" = .ok repo ∧
    item.getText "sha" = .ok sha ∧ entry.getText "upstream_path" = .ok upstreamPath ∧
    entry.get "url" = .ok (.text ("https://raw.githubusercontent.com/" ++ repo ++ "/" ++ sha ++
      "/" ++ upstreamPath))
  inactive : p.getLast?.getD "" ∉ ["SKILL.md", "AGENTS.md", "openai.yaml"] ∧
    suffix (p.getLast?.getD "") ∈ [".md", ".txt", ""]

/-- The entry of a snapshot is about the file at a path. -/
def Locates (host : Host) (entry : Json) (p : List String) : Prop :=
  ∃ localPath, entry.getText "local_path" = .ok localPath ∧
    joinPath host.root localPath.toList = p

/-- A snapshot is of one commit, and every file it declares is there as its entry pins it. -/
structure Vouched (host : Host) (tree : Tree) (item : Json) : Prop where
  commit : ∃ sha, item.getText "sha" = .ok sha ∧ isPinned sha = true
  files : ∃ files, (item.get "files").bind Json.iterate = .ok files ∧ ∀ entry ∈ files,
    ∃ p content, Locates host entry p ∧ readFile host tree p = .ok (some content) ∧
      Pins host item entry p content.bytes

/-- A snapshot declares a file at a path. -/
def Declares (host : Host) (item : Json) (p : List String) : Prop :=
  ∃ files, (item.get "files").bind Json.iterate = .ok files ∧ ∃ entry ∈ files,
    Locates host entry p

/-- A note that is no error. -/
def ManifestNote.IsDeclared (note : ManifestNote) : Prop := ∃ path, note = .declared path

theorem Json.isText_iff {text : String} {value : Json} :
    value.isText text = true ↔ value = .text text := by
  cases value <;> simp [isText]

theorem ManifestNote.unless_eq_nil {holds : Bool} {message : String} :
    ManifestNote.unless holds message = [] ↔ holds = true := report_eq_nil

theorem manifestErrors_eq_nil {notes : List ManifestNote} :
    manifestErrors notes = [] ↔ ∀ note ∈ notes, note.IsDeclared := by
  rw [manifestErrors, List.filterMap_eq_nil_iff]
  refine forall₂_congr fun note _ => ?_
  cases note with
  | declared path => exact ⟨fun _ => ⟨path, rfl⟩, fun _ => rfl⟩
  | error message =>
    exact ⟨fun impossible => absurd impossible (Option.some_ne_none _),
      fun ⟨_, impossible⟩ => by cases impossible⟩

theorem mem_declared {notes : List ManifestNote} {path : List String} :
    path ∈ declared notes ↔ ManifestNote.declared path ∈ notes := by
  rw [declared, List.mem_filterMap]
  constructor
  · rintro ⟨note, member, found⟩
    cases note with
    | declared other => exact Option.some.inj found ▸ member
    | error message => cases found
  · exact fun member => ⟨_, member, rfl⟩

section Manifest

variable {host : Host} {tree : Tree} {item entry : Json} {p : List String} {data : List UInt8}

/-- The checks of a file find nothing when its entry pins it. -/
theorem contentNotes_eq_nil :
    contentNotes host item entry p data = .ok [] ↔ Pins host item entry p data := by
  constructor
  · intro ran
    obtain ⟨sha256, shaRead, ran⟩ := bind_eq_ok.mp ran
    obtain ⟨blob, blobRead, ran⟩ := bind_eq_ok.mp ran
    obtain ⟨repo, repoRead, ran⟩ := bind_eq_ok.mp ran
    obtain ⟨sha, commitRead, ran⟩ := bind_eq_ok.mp ran
    obtain ⟨url, urlRead, ran⟩ := bind_eq_ok.mp ran
    obtain ⟨upstreamPath, upstreamRead, ran⟩ := bind_eq_ok.mp ran
    have silent := Except.ok.inj ran
    rw [List.append_eq_nil_iff, List.append_eq_nil_iff, List.append_eq_nil_iff,
      ManifestNote.unless_eq_nil, ManifestNote.unless_eq_nil, ManifestNote.unless_eq_nil,
      ManifestNote.unless_eq_nil, Json.isText_iff, Json.isText_iff, Json.isText_iff,
      Bool.and_eq_true, decide_eq_true_eq, decide_eq_true_eq] at silent
    obtain ⟨⟨⟨rfl, rfl⟩, rfl⟩, inactive⟩ := silent
    exact ⟨shaRead, blobRead, ⟨repo, sha, upstreamPath, repoRead, commitRead, upstreamRead,
      urlRead⟩, inactive⟩
  · rintro ⟨shaRead, blobRead, ⟨repo, sha, upstreamPath, repoRead, commitRead, upstreamRead,
      urlRead⟩, inactive⟩
    refine bind_eq_ok.mpr ⟨_, shaRead, bind_eq_ok.mpr ⟨_, blobRead, bind_eq_ok.mpr ⟨_, repoRead,
      bind_eq_ok.mpr ⟨_, commitRead, bind_eq_ok.mpr ⟨_, urlRead, bind_eq_ok.mpr ⟨_, upstreamRead,
        congrArg Except.ok ?_⟩⟩⟩⟩⟩⟩
    rw [List.append_eq_nil_iff, List.append_eq_nil_iff, List.append_eq_nil_iff,
      ManifestNote.unless_eq_nil, ManifestNote.unless_eq_nil, ManifestNote.unless_eq_nil,
      ManifestNote.unless_eq_nil, Json.isText_iff, Json.isText_iff, Json.isText_iff,
      Bool.and_eq_true, decide_eq_true_eq, decide_eq_true_eq]
    exact ⟨⟨⟨rfl, rfl⟩, rfl⟩, inactive⟩

/-- The notes of the checks of a file are errors. -/
theorem contentNotes_errors {notes : List ManifestNote}
    (ran : contentNotes host item entry p data = .ok notes) {note : ManifestNote}
    (member : note ∈ notes) : ¬ note.IsDeclared := by
  obtain ⟨_, _, ran⟩ := bind_eq_ok.mp ran
  obtain ⟨_, _, ran⟩ := bind_eq_ok.mp ran
  obtain ⟨_, _, ran⟩ := bind_eq_ok.mp ran
  obtain ⟨_, _, ran⟩ := bind_eq_ok.mp ran
  obtain ⟨_, _, ran⟩ := bind_eq_ok.mp ran
  obtain ⟨_, _, ran⟩ := bind_eq_ok.mp ran
  obtain rfl := Except.ok.inj ran
  have errors : ∀ {holds : Bool} {message : String}, note ∈ ManifestNote.unless holds message →
      ¬ note.IsDeclared := by
    rintro holds message inside ⟨path, rfl⟩
    unfold ManifestNote.unless at inside
    split at inside
    · exact absurd inside List.not_mem_nil
    · exact absurd (List.mem_singleton.mp inside) (by simp)
  simp only [List.mem_append] at member
  rcases member with ((inside | inside) | inside) | inside <;> exact errors inside

/-- The body of the loop over the files finds no error when the file is there as it is pinned. -/
theorem fileNotes_conforms :
    (∃ notes, fileNotes host tree item entry = .ok notes ∧ ∀ note ∈ notes, note.IsDeclared) ↔
      ∃ p content, Locates host entry p ∧ readFile host tree p = .ok (some content) ∧
        Pins host item entry p content.bytes := by
  constructor
  · rintro ⟨notes, ran, clean⟩
    obtain ⟨localPath, named, ran⟩ := bind_eq_ok.mp ran
    obtain ⟨content, read, checked⟩ := bind_eq_ok.mp ran
    cases content with
    | none =>
      obtain rfl := Except.ok.inj checked
      obtain ⟨_, impossible⟩ := clean _ (List.mem_cons_of_mem _ List.mem_cons_self)
      cases impossible
    | some content =>
      obtain ⟨found, foundRan, same⟩ := bind_eq_ok.mp checked
      obtain rfl := Except.ok.inj same
      have silent : found = [] := by
        refine List.eq_nil_iff_forall_not_mem.mpr fun note member => ?_
        exact contentNotes_errors foundRan member (clean note (List.mem_cons_of_mem _ member))
      rw [silent] at foundRan
      exact ⟨_, content, ⟨localPath, named, rfl⟩, read, contentNotes_eq_nil.mp foundRan⟩
  · rintro ⟨_, content, ⟨localPath, named, rfl⟩, read, pins⟩
    refine ⟨[.declared (joinPath host.root localPath.toList)], ?_, fun note member => ?_⟩
    · exact bind_eq_ok.mpr ⟨_, named, bind_eq_ok.mpr ⟨_, read,
        bind_eq_ok.mpr ⟨_, contentNotes_eq_nil.mpr pins, rfl⟩⟩⟩
    · exact ⟨_, List.mem_singleton.mp member⟩

/-- The file a turn of that loop declares is the one the entry is about. -/
theorem declared_mem_fileNotes {notes : List ManifestNote}
    (ran : fileNotes host tree item entry = .ok notes) :
    ManifestNote.declared p ∈ notes ↔ Locates host entry p := by
  obtain ⟨localPath, named, ran⟩ := bind_eq_ok.mp ran
  obtain ⟨content, _, checked⟩ := bind_eq_ok.mp ran
  have located : Locates host entry p ↔ joinPath host.root localPath.toList = p := by
    constructor
    · rintro ⟨other, again, same⟩
      rwa [Except.ok.inj (named.symm.trans again)]
    · exact fun same => ⟨localPath, named, same⟩
  have first : ∀ {rest : List ManifestNote}, ManifestNote.declared p ∉ rest →
      (ManifestNote.declared p ∈ .declared (joinPath host.root localPath.toList) :: rest ↔
        joinPath host.root localPath.toList = p) := by
    intro rest absent
    rw [List.mem_cons, or_iff_left absent, ManifestNote.declared.injEq, eq_comm]
  rw [located]
  cases content with
  | none =>
    obtain rfl := Except.ok.inj checked
    exact first (by simp)
  | some content =>
    obtain ⟨found, foundRan, same⟩ := bind_eq_ok.mp checked
    obtain rfl := Except.ok.inj same
    exact first fun member => contentNotes_errors foundRan member ⟨p, rfl⟩

/-- The body of the loop over the snapshots finds no error when the snapshot is vouched for. -/
theorem snapshotNotes_conforms :
    (∃ notes, snapshotNotes host tree item = .ok notes ∧ ∀ note ∈ notes, note.IsDeclared) ↔
      Vouched host tree item := by
  constructor
  · rintro ⟨notes, ran, clean⟩
    obtain ⟨sha, shaRead, ran⟩ := bind_eq_ok.mp ran
    obtain ⟨pinned, pinnedRan, ran⟩ := bind_eq_ok.mp ran
    obtain ⟨files, filesRead, ran⟩ := bind_eq_ok.mp ran
    obtain ⟨found, collected, same⟩ := bind_eq_ok.mp ran
    obtain rfl := Except.ok.inj same
    refine ⟨⟨sha, shaRead, ?_⟩, files, filesRead, fun entry member => ?_⟩
    · unfold pinNotes at pinnedRan
      split at pinnedRan
      · assumption
      · obtain ⟨name, _, rfl⟩ := map_eq_ok.mp pinnedRan
        obtain ⟨_, impossible⟩ := clean _ (List.mem_append_left _ List.mem_cons_self)
        cases impossible
    · refine fileNotes_conforms.mp (collect_conforms.mp ⟨found, collected, fun note inside => ?_⟩
        entry member)
      exact clean note (List.mem_append_right _ inside)
  · rintro ⟨⟨sha, shaRead, pinned⟩, files, filesRead, each⟩
    obtain ⟨found, collected, clean⟩ :=
      collect_conforms.mpr fun entry member => fileNotes_conforms.mpr (each entry member)
    exact ⟨[] ++ found, bind_eq_ok.mpr ⟨sha, shaRead, bind_eq_ok.mpr ⟨[], if_pos pinned,
      bind_eq_ok.mpr ⟨files, filesRead, bind_eq_ok.mpr ⟨found, collected, rfl⟩⟩⟩⟩, clean⟩

theorem declared_mem_snapshotNotes {notes : List ManifestNote}
    (ran : snapshotNotes host tree item = .ok notes) :
    ManifestNote.declared p ∈ notes ↔ Declares host item p := by
  obtain ⟨sha, _, ran⟩ := bind_eq_ok.mp ran
  obtain ⟨pinned, pinnedRan, ran⟩ := bind_eq_ok.mp ran
  obtain ⟨files, filesRead, ran⟩ := bind_eq_ok.mp ran
  obtain ⟨found, collected, same⟩ := bind_eq_ok.mp ran
  obtain rfl := Except.ok.inj same
  have absent : ManifestNote.declared p ∉ pinned := by
    unfold pinNotes at pinnedRan
    split at pinnedRan
    · obtain rfl := Except.ok.inj pinnedRan
      exact List.not_mem_nil
    · obtain ⟨name, _, rfl⟩ := map_eq_ok.mp pinnedRan
      exact fun member => absurd (List.mem_singleton.mp member) (by simp)
  rw [List.mem_append, or_iff_right absent, mem_collect collected]
  constructor
  · rintro ⟨entry, member, inner, visited, inside⟩
    exact ⟨files, filesRead, entry, member, (declared_mem_fileNotes visited).mp inside⟩
  · rintro ⟨again, readAgain, entry, member, located⟩
    obtain rfl := Except.ok.inj (filesRead.symm.trans readAgain)
    obtain ⟨inner, visited, _⟩ := subset_of_collect collected member
    exact ⟨entry, member, inner, visited, (declared_mem_fileNotes visited).mpr located⟩

/-- The manifest is without errors when every snapshot is vouched for and the declared files are
those below `vendor`. -/
def Inventoried (host : Host) (tree : Tree) : Prop :=
  ∃ items, snapshots host tree = .ok items ∧ (∀ item ∈ items, Vouched host tree item) ∧
    ∀ p, (∃ path content, isVendored path = true ∧ (path, .file content) ∈ tree.entries ∧
        host.root ++ path = p) ↔ ∃ item ∈ items, Declares host item p

theorem mem_actual {path : List String} {entry : Entry} :
    (path, entry) ∈ tree.actual ↔
      ∃ content, isVendored path = true ∧ (path, .file content) ∈ tree.entries ∧
        entry = .file content := by
  rw [Tree.actual, List.mem_filter, Bool.and_eq_true]
  constructor
  · rintro ⟨member, vendored, isFile⟩
    cases entry with
    | directory => cases isFile
    | file content => exact ⟨content, vendored, member, rfl⟩
  · rintro ⟨content, vendored, member, rfl⟩
    exact ⟨member, vendored, rfl⟩

theorem inventoryErrors_eq_nil {notes : List ManifestNote} :
    inventoryErrors host tree notes = [] ↔
      ∀ p, (∃ path content, isVendored path = true ∧ (path, .file content) ∈ tree.entries ∧
        host.root ++ path = p) ↔ ManifestNote.declared p ∈ notes := by
  rw [inventoryErrors, report_eq_nil, sameSet_iff]
  refine forall_congr' fun p => ?_
  rw [mem_declared, List.mem_map]
  refine iff_congr ⟨?_, ?_⟩ Iff.rfl
  · rintro ⟨⟨path, entry⟩, member, same⟩
    obtain ⟨content, vendored, stored, _⟩ := mem_actual.mp member
    exact ⟨path, content, vendored, stored, same⟩
  · rintro ⟨path, content, vendored, stored, same⟩
    exact ⟨(path, .file content), mem_actual.mpr ⟨content, vendored, stored, rfl⟩, same⟩

theorem manifestNotes_conforms :
    (∃ notes, manifestNotes host tree = .ok notes ∧ manifestErrors notes = [] ∧
      inventoryErrors host tree notes = []) ↔ Inventoried host tree := by
  have listed : ∀ {items : List Json} {notes : List ManifestNote},
      collect (snapshotNotes host tree) items = .ok notes → ∀ p,
        (ManifestNote.declared p ∈ notes ↔ ∃ item ∈ items, Declares host item p) := by
    intro items notes collected p
    rw [mem_collect collected]
    refine exists_congr fun item => and_congr_right fun member => ?_
    obtain ⟨found, visited, _⟩ := subset_of_collect collected member
    constructor
    · rintro ⟨inner, again, inside⟩
      exact (declared_mem_snapshotNotes again).mp inside
    · exact fun declares => ⟨found, visited, (declared_mem_snapshotNotes visited).mpr declares⟩
  constructor
  · rintro ⟨notes, ran, clean, inventory⟩
    obtain ⟨items, found, collected⟩ := bind_eq_ok.mp ran
    refine ⟨items, found, fun item member => ?_, fun p => ?_⟩
    · exact snapshotNotes_conforms.mp
        (collect_conforms.mp ⟨notes, collected, manifestErrors_eq_nil.mp clean⟩ item member)
    · rw [inventoryErrors_eq_nil.mp inventory, listed collected]
  · rintro ⟨items, found, vouched, inventory⟩
    obtain ⟨notes, collected, clean⟩ :=
      collect_conforms.mpr fun item member => snapshotNotes_conforms.mpr (vouched item member)
    refine ⟨notes, bind_eq_ok.mpr ⟨items, found, collected⟩, manifestErrors_eq_nil.mpr clean,
      inventoryErrors_eq_nil.mpr fun p => ?_⟩
    rw [inventory, listed collected]

end Manifest

/-! ### Markdown files -/

/-- A link of a file is no link to a file, or leads to an entry. Links of vendored files may lead
nowhere. -/
def Leads (host : Host) (tree : Tree) (path : List String) (group : List Char) : Prop :=
  cleanTarget group = [] ∨ hasScheme (cleanTarget group) = true ∨
    ∃ found, resolvesToEntry host tree (targetPath host path (cleanTarget group)) = .ok found ∧
      (isVendored path = false → found = true)

/-- The text of a Markdown file has no open fence, unless it is vendored, and its links lead
somewhere. -/
def Presentable (host : Host) (tree : Tree) (path : List String) (text : List Char) : Prop :=
  (isVendored path = false → count fence text % 2 = 0) ∧
    ∀ group ∈ findLinks text, Leads host tree path group

/-- A note that is no error. -/
def MarkdownNote.IsExclusion (note : MarkdownNote) : Prop :=
  ∀ message, note ≠ .error message

section Markdown

variable {host : Host} {tree : Tree} {path : List String}

theorem linkNotes_conforms {group : List Char} :
    (∃ notes, linkNotes host tree path group = .ok notes ∧ ∀ note ∈ notes, note.IsExclusion) ↔
      Leads host tree path group := by
  unfold linkNotes Leads
  simp only
  split
  · rename_i skipped
    exact ⟨fun _ => skipped.imp_right Or.inl,
      fun _ => ⟨[], rfl, fun note member => absurd member List.not_mem_nil⟩⟩
  · rename_i linked
    rw [not_or] at linked
    rw [or_iff_right linked.1, or_iff_right linked.2]
    constructor
    · rintro ⟨notes, ran, clean⟩
      obtain ⟨found, resolved, rfl⟩ := map_eq_ok.mp ran
      refine ⟨found, resolved, fun enabled => ?_⟩
      cases found with
      | true => rfl
      | false =>
        have broken := clean _ (List.mem_singleton.mpr rfl)
        rw [brokenLink, if_neg (by rw [enabled]; exact Bool.false_ne_true)] at broken
        exact absurd rfl (broken _)
    · rintro ⟨found, resolved, required⟩
      refine ⟨_, map_eq_ok.mpr ⟨found, resolved, rfl⟩, fun note member message => ?_⟩
      cases found with
      | true => exact absurd member List.not_mem_nil
      | false =>
        have vendored : isVendored path = true := by
          cases enabled : isVendored path with
          | true => rfl
          | false => exact absurd (required enabled) Bool.false_ne_true
        rw [List.mem_singleton.mp member, brokenLink, if_pos vendored]
        exact MarkdownNote.noConfusion

theorem markdownNotes_conforms {entry : Entry} :
    (∃ notes, markdownNotes host tree (path, entry) = .ok notes ∧
      ∀ note ∈ notes, note.IsExclusion) ↔
      ∃ text, entry.readText = .ok text ∧ Presentable host tree path text := by
  have fences : ∀ text, (∀ note ∈ fenceNotes host path text, note.IsExclusion) ↔
      (isVendored path = false → count fence text % 2 = 0) := by
    intro text
    unfold fenceNotes
    split
    · rename_i opened
      refine ⟨fun clean => absurd rfl (clean _ (List.mem_singleton.mpr rfl) _), fun even => ?_⟩
      rw [even opened.1] at opened
      exact absurd opened.2 (by decide)
    · rename_i closed
      refine ⟨fun _ enabled => ?_, fun _ note member => absurd member List.not_mem_nil⟩
      have odd : count fence text % 2 ≠ 1 := fun odd => closed ⟨enabled, odd⟩
      omega
  constructor
  · rintro ⟨notes, ran, clean⟩
    obtain ⟨text, read, ran⟩ := bind_eq_ok.mp ran
    obtain ⟨links, collected, same⟩ := bind_eq_ok.mp ran
    obtain rfl := Except.ok.inj same
    rw [List.forall_mem_append] at clean
    refine ⟨text, read, (fences text).mp clean.1, fun group member => ?_⟩
    exact linkNotes_conforms.mp (collect_conforms.mp ⟨links, collected, clean.2⟩ group member)
  · rintro ⟨text, read, closed, leads⟩
    obtain ⟨links, collected, clean⟩ :=
      collect_conforms.mpr fun group member => linkNotes_conforms.mpr (leads group member)
    exact ⟨_, bind_eq_ok.mpr ⟨text, read, bind_eq_ok.mpr ⟨links, collected, rfl⟩⟩,
      List.forall_mem_append.mpr ⟨(fences text).mpr closed, clean⟩⟩

end Markdown

/-! ### The whole tree -/

/-- What a tree has to be. -/
structure Conforms (host : Host) (tree : Tree) : Prop where
  discovered : Discovered tree
  described : ∀ name ∈ expected, ∀ entry, (["skills", name, "SKILL.md"], entry) ∈ tree.entries →
    ∃ text, entry.readText = .ok text ∧ Describes name text
  inventoried : Inventoried host tree
  presentable : ∀ path entry, (path, entry) ∈ tree.markdown →
    ∃ text, entry.readText = .ok text ∧ Presentable host tree path text
  readable : ∀ path content, isVendored path = true → (path, .file content) ∈ tree.entries →
    ∃ text, Entry.readText (.file content) = .ok text

section Whole

variable {host : Host} {tree : Tree}

theorem skills_conform (discovered : Discovered tree) :
    collect (skillErrors host) tree.active = .ok [] ↔
      ∀ name ∈ expected, ∀ entry, (["skills", name, "SKILL.md"], entry) ∈ tree.entries →
        ∃ text, entry.readText = .ok text ∧ Describes name text := by
  rw [collect_eq_nil]
  constructor
  · intro each name _ entry stored
    exact skillErrors_eq_nil.mp (each _ (mem_active.mpr ⟨stored, name, rfl⟩))
  · rintro described ⟨path, entry⟩ member
    obtain ⟨stored, name, rfl⟩ : (path, entry) ∈ tree.entries ∧
        ∃ name, path = ["skills", name, "SKILL.md"] := mem_active.mp member
    obtain ⟨other, listed, same⟩ := (discovered _).mp ⟨entry, stored, rfl⟩
    obtain rfl : name = other := by simpa using same
    exact skillErrors_eq_nil.mpr (described name listed entry stored)

theorem documents_conform :
    (∃ notes, collect (markdownNotes host tree) tree.markdown = .ok notes ∧
      ∀ message, MarkdownNote.error message ∉ notes) ↔
      ∀ path entry, (path, entry) ∈ tree.markdown →
        ∃ text, entry.readText = .ok text ∧ Presentable host tree path text := by
  have valid : ∀ {notes : List MarkdownNote}, (∀ message, MarkdownNote.error message ∉ notes) ↔
      ∀ note ∈ notes, note.IsExclusion :=
    ⟨fun clean note member message same => clean message (same ▸ member),
      fun clean message member => clean _ member message rfl⟩
  simp only [valid]
  rw [collect_conforms, Prod.forall]
  exact forall₂_congr fun path entry => imp_congr_right fun _ => markdownNotes_conforms

/-- The files of the scan are the vendored files and the skills. -/
theorem scan_conforms (described : ∀ skill ∈ tree.active, ∃ text, skill.2.readText = .ok text) :
    (∃ findings, collect fileFindings tree.scanned = .ok findings) ↔
      ∀ path content, isVendored path = true → (path, .file content) ∈ tree.entries →
        ∃ text, Entry.readText (.file content) = .ok text := by
  have readable : ∀ file : List String × Entry, (∃ found, fileFindings file = .ok found) ↔
      ∃ text, file.2.readText = .ok text := by
    intro file
    unfold fileFindings
    cases file.2.readText <;> simp [Except.map]
  rw [collect_isOk]
  constructor
  · intro each path content vendored stored
    refine (readable _).mp (each (path, .file content) ((List.mem_insertionSort _).mpr ?_))
    exact List.mem_append_left _ (mem_actual.mpr ⟨content, vendored, stored, rfl⟩)
  · rintro each ⟨path, entry⟩ member
    rw [readable]
    rcases List.mem_append.mp ((List.mem_insertionSort _).mp member) with inVendor | inSkills
    · obtain ⟨content, vendored, stored, rfl⟩ := mem_actual.mp inVendor
      exact each path content vendored stored
    · exact described _ inSkills

/-- The script passes a tree exactly when it conforms. -/
theorem verifies_iff_conforms : Verifies host tree ↔ Conforms host tree := by
  rw [verifies_iff]
  constructor
  · rintro ⟨manifest, markdown, findings, clean⟩
    have discovered := discoveryErrors_eq_nil.mp clean.discovery
    have skills := collect_eq_nil.mp clean.skills
    refine ⟨discovered, (skills_conform discovered).mp clean.skills,
      manifestNotes_conforms.mp ⟨manifest, clean.declarations, clean.intact, clean.inventory⟩,
      documents_conform.mp ⟨markdown, clean.documents, clean.valid⟩,
      (scan_conforms fun skill member => ?_).mp ⟨findings, clean.scan⟩⟩
    obtain ⟨text, read, _⟩ := skillErrors_eq_nil.mp (skills skill member)
    exact ⟨text, read⟩
  · intro conforms
    obtain ⟨manifest, declarations, intact, inventory⟩ :=
      manifestNotes_conforms.mpr conforms.inventoried
    obtain ⟨markdown, documents, valid⟩ := documents_conform.mpr conforms.presentable
    have skills : collect (skillErrors host) tree.active = .ok [] :=
      (skills_conform conforms.discovered).mpr conforms.described
    obtain ⟨findings, scan⟩ := (scan_conforms fun skill member => by
      obtain ⟨text, read, _⟩ := skillErrors_eq_nil.mp (collect_eq_nil.mp skills skill member)
      exact ⟨text, read⟩).mpr conforms.readable
    exact ⟨manifest, markdown, findings, discoveryErrors_eq_nil.mpr conforms.discovered, skills,
      declarations, intact, inventory, documents, valid, scan⟩

end Whole

end Pbl4.Skills
