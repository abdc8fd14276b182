/-
This file models the import gate of `scripts/check_architecture.py` and says exactly
when it is right. The gate keeps of a statement the name written in it: it drops the
level of a relative import and the names imported from a module. A statement can
therefore hide a forbidden dependency, or mimic one it does not have. The gate is right
on a package directory when one statement shows its forbidden module, or when hidden
dependencies occur exactly if mimicked ones do.
-/

import Mathlib.Data.List.Sort
import Pbl4.Python.Modules
import Pbl4.Python.Paths

namespace Pbl4.Architecture

open Python

/-! ### The source tree -/

/-- An entry of the source tree. A file holds its syntax tree, or the text of the error
that reading or parsing it raises. -/
inductive Entry where
  | directory
  | file (source : Except String Node)

/-- The entry is a directory. -/
def Entry.isDirectory : Entry → Bool
  | .directory => true
  | .file _ => false

/-- The tree at `SRC_ROOT`: its entries under their paths from there, every one inside a
directory. `location` is the path of `SRC_ROOT` itself. -/
structure Tree where
  location : String
  entries : List (List String × Entry)
  distinct : (entries.map Prod.fst).Nodup
  rooted : ∀ entry ∈ entries, entry.1 ≠ [] →
    ∃ parent ∈ entries, parent.1 = entry.1.dropLast ∧ parent.2.isDirectory = true

/-- `path.exists()`, for a path from `SRC_ROOT`. -/
def Tree.Has (tree : Tree) (path : List String) : Prop := path ∈ tree.entries.map Prod.fst

instance (tree : Tree) (path : List String) : Decidable (tree.Has path) :=
  inferInstanceAs (Decidable (_ ∈ _))

/-- A file with its path from `SRC_ROOT`. -/
structure SourceFile where
  path : List String
  source : Except String Node

/-- The files of a tree. -/
def Tree.files (tree : Tree) : List SourceFile :=
  tree.entries.filterMap fun entry =>
    match entry.2 with
    | .directory => none
    | .file source => some ⟨entry.1, source⟩

/-- A `.py` file below a directory, as `rglob` matches it. -/
def SourceFile.Under (file : SourceFile) (directory : List String) : Prop :=
  directory <+: file.path ∧ directory ≠ file.path ∧
    ∃ name ∈ file.path.getLast?, endswith name ".py" = true

instance (file : SourceFile) (directory : List String) : Decidable (file.Under directory) :=
  inferInstanceAs (Decidable (_ ∧ _ ∧ ∃ name ∈ file.path.getLast?, _))

/-- `get_python_files` -/
def getPythonFiles (tree : Tree) (packageDir : List String) : List SourceFile :=
  if tree.Has packageDir then
    (tree.files.filter fun file => file.Under packageDir).insertionSort fun first second =>
      pathLe first.path second.path = true
  else []

/-! ### The check -/

/-- `str(filepath)` -/
def filepath (tree : Tree) (file : SourceFile) : String :=
  "/".intercalate (tree.location :: file.path)

/-- `file_path.relative_to(SRC_ROOT.parent)` -/
def relPath (file : SourceFile) : String := "/".intercalate ("pbl4" :: file.path)

/-- The names `extract_imports` keeps of a node. -/
def imports : Node → List String
  | .importModules names => names
  | .importFrom (some module) _ _ => if module.text = "" then [] else [module.text]
  | .importFrom none _ _ => []
  | .other _ => []

/-- `extract_imports` -/
def extractImports (tree : Tree) (file : SourceFile) : List String × Option String :=
  match file.source with
  | .error message => ([], some s!"AST parse failure in {filepath tree file}: {message}")
  | .ok root => ((walk root).flatMap imports, none)

/-- The report of a file that does not parse. -/
def syntaxViolation (file : SourceFile) (parseErr : String) : String :=
  s!"  [SYNTAX ERROR] {relPath file}\n" ++
  s!"    Detail: {parseErr}\n" ++
  "    Violated architectural rule: Architecture check requires valid Python AST"

/-- The report of an import that matches a forbidden prefix. -/
def importViolation (file : SourceFile) (ruleDescription imp pre : String) : String :=
  s!"  [VIOLATION] {relPath file}\n" ++
  s!"    Offending import: '{imp}' (matches forbidden prefix '{pre}')\n" ++
  s!"    Violated architectural rule: {ruleDescription}"

/-- The violations of one file. -/
def fileViolations (tree : Tree) (forbiddenPrefixes : List String) (ruleDescription : String)
    (file : SourceFile) : List String :=
  match extractImports tree file with
  | (_, some parseErr) => [syntaxViolation file parseErr]
  | (found, none) => found.flatMap fun imp =>
      (forbiddenPrefixes.filter fun pre => imp = pre ∨ startswith imp (pre ++ ".") = true).map
        (importViolation file ruleDescription imp)

/-- `SRC_ROOT.joinpath(*package_subpath.split("/"))`, from `SRC_ROOT`: empty parts and `.`
stand for the directory they are in. -/
def targetDir (packageSubpath : String) : List String :=
  (split packageSubpath '/').filter fun part => part ≠ "" ∧ part ≠ "."

/-- `check_forbidden_imports` -/
def checkForbiddenImports (tree : Tree) (packageSubpath : String)
    (forbiddenPrefixes : List String) (ruleDescription : String) : List String :=
  (getPythonFiles tree (targetDir packageSubpath)).flatMap
    (fileViolations tree forbiddenPrefixes ruleDescription)

/-! ### What the gate decides -/

section Decides

variable {tree : Tree} {directory : List String} {file : SourceFile}

/-- Some node, at any depth of a `.py` file under a directory, has a property. -/
def Tree.SomeNode (tree : Tree) (directory : List String)
    (property : SourceFile → Node → Prop) : Prop :=
  ∃ file ∈ tree.files, file.Under directory ∧
    ∃ root, file.source = .ok root ∧ ∃ node, node.Within root ∧ property file node

/-- Search a file for a node with a property. -/
def SourceFile.hasNode (file : SourceFile) (property : SourceFile → Node → Prop)
    [∀ file node, Decidable (property file node)] : Bool :=
  match file.source with
  | .ok root => (walk root).any fun node => property file node
  | .error _ => false

theorem SourceFile.hasNode_iff {property : SourceFile → Node → Prop}
    [∀ file node, Decidable (property file node)] :
    file.hasNode property = true ↔
      ∃ root, file.source = .ok root ∧ ∃ node, node.Within root ∧ property file node := by
  unfold hasNode
  cases file.source with
  | error message => simp
  | ok root => simp [mem_walk]

instance (tree : Tree) (directory : List String) (property : SourceFile → Node → Prop)
    [∀ file node, Decidable (property file node)] :
    Decidable (tree.SomeNode directory property) :=
  decidable_of_iff (∃ file ∈ tree.files, file.Under directory ∧ file.hasNode property = true)
    (by simp only [SourceFile.hasNode_iff, Tree.SomeNode])

theorem Tree.someNode_congr {first second : SourceFile → Node → Prop}
    (same : ∀ file node, first file node ↔ second file node) :
    tree.SomeNode directory first ↔ tree.SomeNode directory second := by
  unfold Tree.SomeNode
  simp only [same]

theorem Tree.someNode_or {first second : SourceFile → Node → Prop} :
    tree.SomeNode directory (fun file node => first file node ∨ second file node) ↔
      tree.SomeNode directory first ∨ tree.SomeNode directory second := by
  unfold Tree.SomeNode
  simp only [and_or_left, exists_or]

/-- Every file of the tree parses. -/
def Tree.Parsable (tree : Tree) : Prop :=
  ∀ file ∈ tree.files, ∃ root, file.source = .ok root

theorem Tree.mem_files : file ∈ tree.files ↔ (file.path, .file file.source) ∈ tree.entries := by
  unfold Tree.files
  rw [List.mem_filterMap]
  constructor
  · rintro ⟨⟨path, entry⟩, member, found⟩
    cases entry with
    | directory => exact absurd found (by simp)
    | file source =>
      obtain rfl := Option.some.inj found
      exact member
  · intro member
    exact ⟨_, member, rfl⟩

/-- Whatever lies below a directory is in a tree only together with the directory. -/
theorem Tree.mem_of_prefix (tree : Tree) (below : Nat) :
    ∀ entry ∈ tree.entries, entry.1.length = directory.length + below →
      directory <+: entry.1 → tree.Has directory := by
  induction below with
  | zero =>
    intro entry member length pre
    rw [pre.eq_of_length length.symm]
    exact List.mem_map_of_mem member
  | succ below inductionHypothesis =>
    intro entry member length pre
    have nonempty : entry.1 ≠ [] := by
      intro empty
      rw [empty, List.length_nil] at length
      omega
    obtain ⟨parent, parentMember, path, _⟩ := tree.rooted entry member nonempty
    have parentLength : parent.1.length = directory.length + below := by
      rw [path, List.length_dropLast, length]
      omega
    refine inductionHypothesis parent parentMember parentLength ?_
    refine List.prefix_of_prefix_length_le pre (path ▸ List.dropLast_prefix entry.1) ?_
    omega

theorem mem_getPythonFiles :
    file ∈ getPythonFiles tree directory ↔ file ∈ tree.files ∧ file.Under directory := by
  unfold getPythonFiles
  split
  · rw [List.mem_insertionSort, List.mem_filter, decide_eq_true_eq]
  · rename_i absent
    refine ⟨fun member => absurd member List.not_mem_nil, fun ⟨member, under⟩ => ?_⟩
    have bound := under.1.length_le
    exact absurd (tree.mem_of_prefix (file.path.length - directory.length) _
      (Tree.mem_files.mp member) (by simp only; omega) under.1) absent

theorem fileViolations_eq_nil {root : Node} (parsed : file.source = .ok root)
    (forbidden : List String) (ruleDescription : String) :
    fileViolations tree forbidden ruleDescription file = [] ↔
      ∀ node, node.Within root → ∀ imp ∈ imports node, ¬ Covered forbidden imp := by
  unfold fileViolations extractImports
  simp only [parsed, List.flatMap_eq_nil_iff, List.map_eq_nil_iff, List.filter_eq_nil_iff,
    List.mem_flatMap, mem_walk, decide_eq_true_eq, Covered, Below, not_exists, not_and]
  exact ⟨fun silent node within imp member pre preMember =>
      silent imp ⟨node, within, member⟩ pre preMember,
    fun silent imp ⟨node, within, member⟩ pre preMember =>
      silent node within imp member pre preMember⟩

/-- The gate is silent when no statement has a forbidden name written in it. -/
theorem checkForbiddenImports_eq_nil (parsable : tree.Parsable) (packageSubpath : String)
    (forbidden : List String) (ruleDescription : String) :
    checkForbiddenImports tree packageSubpath forbidden ruleDescription = [] ↔
      ¬ tree.SomeNode (targetDir packageSubpath)
        fun _ node => ∃ imp ∈ imports node, Covered forbidden imp := by
  unfold checkForbiddenImports
  rw [List.flatMap_eq_nil_iff]
  constructor
  · rintro silent ⟨file, member, under, root, parsed, node, within, imp, impMember, covered⟩
    have quiet := silent file (mem_getPythonFiles.mpr ⟨member, under⟩)
    exact (fileViolations_eq_nil parsed forbidden _).mp quiet node within imp impMember covered
  · intro none file fileMember
    obtain ⟨member, under⟩ := mem_getPythonFiles.mp fileMember
    obtain ⟨root, parsed⟩ := parsable file member
    refine (fileViolations_eq_nil parsed forbidden _).mpr fun node within imp impMember => ?_
    exact fun covered =>
      none ⟨file, member, under, root, parsed, node, within, imp, impMember, covered⟩

end Decides

end Pbl4.Architecture
