/-
This file models the rest of `scripts/verify_scaffold.py`: the checks of the layout, the
runs of the compiler and of the import gate, and `main()`, which runs all checks whatever
the earlier ones say. It is exact: it passes the repositories that meet a specification,
and raises where a dependency group holds a table. The layout it asks for also keeps the
rules of the import gate from being idle, for a rule about a missing directory is silent:
all of them but one are about a directory that is there.
-/

import Pbl4.Architecture.Layers
import Pbl4.Scaffold.Dependencies

namespace Pbl4.Scaffold

open Python

/-! ### The repository -/

/-- The repository at `ROOT_DIR`. `source` is the tree at `src/pbl4`, and `others` are the paths
outside it. The rest is up to the Python installation: what `compileall` finds and prints in a
directory, and what the interpreter prints when a script is missing. -/
structure Repository where
  source : Architecture.Tree
  others : List (List String)
  outside : ∀ path ∈ others, ¬ ["src", "pbl4"] <+: path
  pyproject : Pyproject
  declared : ["pyproject.toml"] ∈ others ↔ pyproject ≠ .missing
  compileDir : List String → Bool × List String
  noScript : List String

/-- `full_path.exists()` -/
def Repository.Has (repository : Repository) (path : List String) : Prop :=
  path ∈ repository.others ∨
    path ∈ repository.source.entries.map fun entry => ["src", "pbl4"] ++ entry.1

instance (repository : Repository) (path : List String) : Decidable (repository.Has path) :=
  inferInstanceAs (Decidable (_ ∨ _))

/-- `ROOT_DIR.joinpath(*rel_path.split("/"))`, from `ROOT_DIR`. -/
def fullPath (relPath : String) : List String := split relPath '/'

/-- `REQUIRED_PATHS` -/
def requiredPaths : List String := [
  "AGENTS.md",
  "README.md",
  "CONTRIBUTING.md",
  ".editorconfig",
  ".gitattributes",
  ".node-version",
  "pyproject.toml",
  "docs/IMPLEMENTATION_CONTRACT.md",
  "docs/OPEN_ISSUES.md",
  "migrations/README.md",
  "tests/README.md",
  "scripts/check_architecture.py",
  "scripts/run_local_cluster.py",
  "scripts/verify_scaffold.py",
  "src/pbl4/__init__.py",
  "src/pbl4/common",
  "src/pbl4/protocol",
  "src/pbl4/transport",
  "src/pbl4/runtime",
  "src/pbl4/worker",
  "src/pbl4/adapter",
  "src/pbl4/dataset_manager",
  "src/pbl4/management_backend",
  "src/pbl4/management_protocol",
  "src/pbl4/cli",
  "src/pbl4/runtime/entrypoint.py",
  "src/pbl4/worker/entrypoint.py",
  "src/pbl4/dataset_manager/entrypoint.py",
  "src/pbl4/management_backend/entrypoint.py",
  "src/pbl4/cli/pblctl.py",
  "src/pbl4/protocol/AGENTS.md",
  "src/pbl4/runtime/AGENTS.md",
  "src/pbl4/management_backend/AGENTS.md",
  "src/pbl4/dataset_manager/AGENTS.md",
  "web/AGENTS.md",
  ".agents/skills/architecture-guard/SKILL.md",
  ".agents/skills/protocol-change/SKILL.md",
  ".agents/skills/contract-change/SKILL.md",
  ".agents/skills/distributed-debug/SKILL.md",
  ".agents/skills/distributed-verification/SKILL.md",
  ".agents/skills/doc-sync/SKILL.md",
  ".agents/skills/release-gate/SKILL.md",
  "web/package.json",
  "web/src/api",
  "web/src/app",
  "web/src/components",
  "web/src/domain",
  "web/src/features",
  "web/src/live",
  "web/src/pages",
  "web/src/strategies"]

/-- `PROHIBITED_PATHS` -/
def prohibitedPaths : List String := [
  "src/pbl4/backend",
  ".agents/skills/pbl4-architecture-guard",
  ".agents/skills/pbl4-protocol-change",
  ".agents/skills/pbl4-contract-change",
  ".agents/skills/pbl4-distributed-debug",
  ".agents/skills/pbl4-distributed-verification",
  ".agents/skills/pbl4-doc-sync",
  ".agents/skills/pbl4-release-gate"]

/-! ### The checks -/

/-- The report on a list of paths: none may be on it. -/
def pathReport (failure success : String) (paths : List String) : Report :=
  if paths ≠ [] then
    ⟨false, [], s!"[FAIL] {failure} ({paths.length}):" :: paths.map fun path => s!"  - {path}"⟩
  else ⟨true, [s!"[PASS] {success}"], []⟩

/-- `check_required_paths` -/
def checkRequiredPaths (repository : Repository) : Report :=
  pathReport "Missing required paths" "All required repository structural paths exist."
    (requiredPaths.filter fun relPath => ¬ repository.Has (fullPath relPath))

/-- `check_prohibited_paths` -/
def checkProhibitedPaths (repository : Repository) : Report :=
  pathReport "Found prohibited obsolete paths" "No prohibited obsolete paths found."
    (prohibitedPaths.filter fun relPath => repository.Has (fullPath relPath))

/-- `check_python_compilation` -/
def checkPythonCompilation (repository : Repository) : Report :=
  let source := repository.compileDir ["src", "pbl4"]
  let scripts := repository.compileDir ["scripts"]
  if source.1 = false then
    ⟨false, source.2, ["[FAIL] Python compilation failed in src/pbl4"]⟩
  else if scripts.1 = false then
    ⟨false, source.2 ++ scripts.2, ["[FAIL] Python compilation failed in scripts/"]⟩
  else
    ⟨true, source.2 ++ scripts.2 ++
      ["[PASS] All Python sources in src/ and scripts/ compile cleanly."], []⟩

/-- The subprocess of `check_architecture`: the interpreter runs the gate, or finds no script. -/
def Repository.runGate (repository : Repository) : Architecture.Outcome :=
  if repository.Has ["scripts", "check_architecture.py"] then
    Architecture.main repository.source
  else ⟨2, [], repository.noScript⟩

/-- `check_architecture` -/
def checkArchitecture (repository : Repository) : Report :=
  let proc := repository.runGate
  if proc.code ≠ 0 then
    ⟨false, [], "[FAIL] Architecture constraint check failed:" :: proc.stderr⟩
  else ⟨true, ["[PASS] Architecture boundary checks passed."], []⟩

/-- The exit code and the lines printed. -/
structure Outcome where
  code : Nat
  stdout : List String
  stderr : List String

/-- The end of `main()`, after all checks. -/
def conclude (reports : List Report) : Outcome :=
  let stdout := "Running PBL4 bootstrap scaffold verification..." :: reports.flatMap Report.stdout
  let stderr := reports.flatMap Report.stderr
  if reports.any fun report => report.result = false then
    ⟨1, stdout, stderr ++ ["\nScaffold verification FAILED."]⟩
  else
    ⟨0, stdout ++
      ["\nScaffold verification PASSED: Repository layout and constraints are clean."], stderr⟩

/-- `main()`: only the last check can raise. -/
def main (repository : Repository) : Except PyError Outcome := do
  let layout := [checkRequiredPaths repository, checkProhibitedPaths repository]
  let code := [checkPythonCompilation repository, checkArchitecture repository]
  let dependencies ← checkPyprojectDependencies repository.pyproject
  return conclude (layout ++ code ++ [dependencies])

/-! ### What passes -/

/-- What a repository has to be. -/
structure Sound (repository : Repository) : Prop where
  required : ∀ relPath ∈ requiredPaths, repository.Has (fullPath relPath)
  permitted : ∀ relPath ∈ prohibitedPaths, ¬ repository.Has (fullPath relPath)
  compiles : (repository.compileDir ["src", "pbl4"]).1 = true ∧
    (repository.compileDir ["scripts"]).1 = true
  layered : ∀ rule ∈ Architecture.rules, ∀ file ∈ repository.source.files,
    file.Under rule.directory → ∃ root, file.source = .ok root ∧ ∀ node : Node,
      node.Within root → ∀ name ∈ Architecture.imports node,
        ¬ Covered rule.forbiddenPrefixes name
  independent : ∃ data, repository.pyproject = .parsed data ∧ ¬ data.HasTable ∧ ¬ data.HasMention

section Checks

variable {repository : Repository}

theorem pathReport_result {failure success : String} {paths : List String} :
    (pathReport failure success paths).result = true ↔ paths = [] := by
  unfold pathReport
  split
  · rename_i some
    simp [some]
  · rename_i none
    simp [Classical.not_not.mp none]

theorem checkRequiredPaths_result :
    (checkRequiredPaths repository).result = true ↔
      ∀ relPath ∈ requiredPaths, repository.Has (fullPath relPath) := by
  rw [checkRequiredPaths, pathReport_result, List.filter_eq_nil_iff]
  simp

theorem checkProhibitedPaths_result :
    (checkProhibitedPaths repository).result = true ↔
      ∀ relPath ∈ prohibitedPaths, ¬ repository.Has (fullPath relPath) := by
  rw [checkProhibitedPaths, pathReport_result, List.filter_eq_nil_iff]
  simp

theorem checkPythonCompilation_result :
    (checkPythonCompilation repository).result = true ↔
      (repository.compileDir ["src", "pbl4"]).1 = true ∧
        (repository.compileDir ["scripts"]).1 = true := by
  simp only [checkPythonCompilation]
  split
  · rename_i failed
    simp [failed]
  · rename_i source
    split
    · rename_i failed
      simp [failed]
    · rename_i scripts
      simp [Bool.eq_true_of_not_eq_false source, Bool.eq_true_of_not_eq_false scripts]

/-- The paths below `src/pbl4` are those of the source tree. -/
theorem Repository.has_source {path : List String} :
    repository.Has (["src", "pbl4"] ++ path) ↔ repository.source.Has path := by
  unfold Repository.Has Architecture.Tree.Has
  constructor
  · rintro (other | inside)
    · exact absurd (List.prefix_append _ _) (repository.outside _ other)
    · obtain ⟨entry, member, same⟩ := List.mem_map.mp inside
      exact List.mem_map.mpr ⟨entry, member, List.append_cancel_left same⟩
  · intro inside
    obtain ⟨entry, member, rfl⟩ := List.mem_map.mp inside
    exact Or.inr (List.mem_map.mpr ⟨entry, member, rfl⟩)

/-- A file passes when it parses and no name written in it is forbidden. -/
theorem fileViolations_eq_nil_iff {tree : Architecture.Tree} {file : Architecture.SourceFile}
    {forbidden : List String} {ruleDescription : String} :
    Architecture.fileViolations tree forbidden ruleDescription file = [] ↔
      ∃ root, file.source = .ok root ∧ ∀ node : Node, node.Within root →
        ∀ name ∈ Architecture.imports node, ¬ Covered forbidden name := by
  cases parsed : file.source with
  | error message =>
    unfold Architecture.fileViolations Architecture.extractImports
    rw [parsed]
    simp
  | ok root =>
    rw [Architecture.fileViolations_eq_nil parsed]
    simp

/-- The gate passes exactly when there is a source root and every file of a rule passes. -/
theorem gate_code {tree : Architecture.Tree} :
    (Architecture.main tree).code = 0 ↔ tree.Has [] ∧
      ∀ rule ∈ Architecture.rules, ∀ file ∈ tree.files, file.Under rule.directory →
        ∃ root, file.source = .ok root ∧ ∀ node : Node, node.Within root →
          ∀ name ∈ Architecture.imports node, ¬ Covered rule.forbiddenPrefixes name := by
  have silent : Architecture.violations tree = [] ↔
      ∀ rule ∈ Architecture.rules, ∀ file ∈ tree.files, file.Under rule.directory →
        ∃ root, file.source = .ok root ∧ ∀ node : Node, node.Within root →
          ∀ name ∈ Architecture.imports node, ¬ Covered rule.forbiddenPrefixes name := by
    rw [Architecture.violations, List.flatMap_eq_nil_iff]
    refine forall₂_congr fun rule _ => ?_
    rw [Architecture.checkForbiddenImports, List.flatMap_eq_nil_iff]
    simp only [Architecture.mem_getPythonFiles, fileViolations_eq_nil_iff, and_imp]
    rfl
  rw [← silent]
  unfold Architecture.main
  split
  · rename_i rooted
    split
    · rename_i some
      simp [some]
    · rename_i none
      simp [rooted, Classical.not_not.mp none]
  · rename_i absent
    simp [absent]

theorem checkArchitecture_result :
    (checkArchitecture repository).result = true ↔ repository.runGate.code = 0 := by
  simp only [checkArchitecture]
  split
  · rename_i failed
    simp [failed]
  · rename_i passed
    simp [Classical.not_not.mp passed]

/-- The end of `main()` gives 0 when every report is good. -/
theorem conclude_code {reports : List Report} :
    (conclude reports).code = 0 ↔ ∀ report ∈ reports, report.result = true := by
  simp only [conclude]
  split
  · rename_i failed
    obtain ⟨report, member, bad⟩ := List.any_eq_true.mp failed
    refine ⟨fun impossible => absurd impossible (by simp), fun good => ?_⟩
    rw [good report member] at bad
    exact absurd bad (by simp)
  · rename_i passed
    refine ⟨fun _ report member => ?_, fun _ => rfl⟩
    refine Bool.eq_true_of_not_eq_false fun bad => passed ?_
    exact List.any_eq_true.mpr ⟨report, member, decide_eq_true bad⟩

theorem checkPyprojectDependencies_raises {pyproject : Pyproject} :
    (∃ failure, checkPyprojectDependencies pyproject = .error failure) ↔
      ∃ data, pyproject = .parsed data ∧ data.HasTable := by
  cases pyproject with
  | missing => simp [checkPyprojectDependencies]
  | malformed message => simp [checkPyprojectDependencies]
  | parsed data =>
    have silent : (¬ ∃ report, checkPyprojectDependencies (.parsed data) = .ok report) ↔
        data.HasTable := by
      rw [checkPyprojectDependencies_isOk, Classical.not_not]
    simp only [Pyproject.parsed.injEq, exists_eq_left']
    rw [← silent]
    cases checkPyprojectDependencies (.parsed data) <;> simp

theorem checkPyprojectDependencies_passes {pyproject : Pyproject} :
    (∃ report, checkPyprojectDependencies pyproject = .ok report ∧ report.result = true) ↔
      ∃ data, pyproject = .parsed data ∧ ¬ data.HasTable ∧ ¬ data.HasMention := by
  cases pyproject with
  | missing => simp [checkPyprojectDependencies]
  | malformed message => simp [checkPyprojectDependencies]
  | parsed data =>
    simp only [Pyproject.parsed.injEq, exists_eq_left']
    constructor
    · rintro ⟨report, answered, good⟩
      exact ⟨checkPyprojectDependencies_isOk.mp ⟨report, answered⟩,
        (checkPyprojectDependencies_result answered).mp good⟩
    · rintro ⟨noTable, noMention⟩
      obtain ⟨report, answered⟩ := checkPyprojectDependencies_isOk.mpr noTable
      exact ⟨report, answered, (checkPyprojectDependencies_result answered).mpr noMention⟩

/-- Where the required paths are, the gate runs and finds the source root. -/
theorem runGate_code
    (required : ∀ relPath ∈ requiredPaths, repository.Has (fullPath relPath)) :
    repository.runGate.code = 0 ↔
      ∀ rule ∈ Architecture.rules, ∀ file ∈ repository.source.files, file.Under rule.directory →
        ∃ root, file.source = .ok root ∧ ∀ node : Node, node.Within root →
          ∀ name ∈ Architecture.imports node, ¬ Covered rule.forbiddenPrefixes name := by
  have script : repository.Has ["scripts", "check_architecture.py"] :=
    required "scripts/check_architecture.py" (by decide)
  have common : repository.Has (["src", "pbl4"] ++ ["common"]) :=
    required "src/pbl4/common" (by decide)
  obtain ⟨entry, member, path⟩ := List.mem_map.mp (Repository.has_source.mp common)
  have rooted : repository.source.Has [] := by
    refine repository.source.mem_of_prefix 1 entry member ?_ List.nil_prefix
    rw [path]
    rfl
  rw [Repository.runGate, if_pos script, gate_code, and_iff_right rooted]

/-- `main()` answers when the last check does. -/
theorem main_eq_ok {outcome : Outcome} :
    main repository = .ok outcome ↔
      ∃ report, checkPyprojectDependencies repository.pyproject = .ok report ∧
        conclude [checkRequiredPaths repository, checkProhibitedPaths repository,
          checkPythonCompilation repository, checkArchitecture repository, report] = outcome := by
  unfold main
  rw [bind_eq_ok]
  refine exists_congr fun report => and_congr_right fun _ => ?_
  show Except.ok _ = Except.ok _ ↔ _
  rw [Except.ok.injEq]
  rfl

end Checks

/-- The script exits with 0. -/
def Passes (repository : Repository) : Prop :=
  ∃ outcome, main repository = .ok outcome ∧ outcome.code = 0

/-- The script passes a repository exactly when all five checks do. -/
theorem passes_iff {repository : Repository} :
    Passes repository ↔
      (checkRequiredPaths repository).result = true ∧
      (checkProhibitedPaths repository).result = true ∧
      (checkPythonCompilation repository).result = true ∧
      (checkArchitecture repository).result = true ∧
      ∃ report, checkPyprojectDependencies repository.pyproject = .ok report ∧
        report.result = true := by
  unfold Passes
  simp only [main_eq_ok]
  constructor
  · rintro ⟨_, ⟨report, answered, rfl⟩, code⟩
    have good := conclude_code.mp code
    simp only [List.forall_mem_cons] at good
    obtain ⟨required, permitted, compiles, layered, independent, _⟩ := good
    exact ⟨required, permitted, compiles, layered, report, answered, independent⟩
  · rintro ⟨required, permitted, compiles, layered, report, answered, independent⟩
    refine ⟨_, ⟨report, answered, rfl⟩, conclude_code.mpr ?_⟩
    simp only [List.forall_mem_cons]
    exact ⟨required, permitted, compiles, layered, independent,
      fun _ member => absurd member List.not_mem_nil⟩

theorem passes_iff_sound {repository : Repository} : Passes repository ↔ Sound repository := by
  rw [passes_iff, checkRequiredPaths_result, checkProhibitedPaths_result,
    checkPythonCompilation_result, checkArchitecture_result, checkPyprojectDependencies_passes]
  constructor
  · rintro ⟨required, permitted, compiles, gate, independent⟩
    exact ⟨required, permitted, compiles, (runGate_code required).mp gate, independent⟩
  · rintro ⟨required, permitted, compiles, layered, independent⟩
    exact ⟨required, permitted, compiles, (runGate_code required).mpr layered, independent⟩

/-- A file of the source tree without statements. -/
def emptyFile (path : List String) : List String × Architecture.Entry :=
  (path, .file (.ok (.other [])))

/-- A source tree with what the layout asks for, in its order. -/
def bareSource : Architecture.Tree where
  location := "/repo/src/pbl4"
  entries := [
    ([], .directory),
    emptyFile ["__init__.py"],
    (["common"], .directory),
    (["protocol"], .directory),
    (["transport"], .directory),
    (["runtime"], .directory),
    (["worker"], .directory),
    (["adapter"], .directory),
    (["dataset_manager"], .directory),
    (["management_backend"], .directory),
    (["management_protocol"], .directory),
    (["cli"], .directory),
    emptyFile ["runtime", "entrypoint.py"],
    emptyFile ["worker", "entrypoint.py"],
    emptyFile ["dataset_manager", "entrypoint.py"],
    emptyFile ["management_backend", "entrypoint.py"],
    emptyFile ["cli", "pblctl.py"],
    emptyFile ["protocol", "AGENTS.md"],
    emptyFile ["runtime", "AGENTS.md"],
    emptyFile ["management_backend", "AGENTS.md"],
    emptyFile ["dataset_manager", "AGENTS.md"]]
  distinct := by decide +kernel
  rooted := by decide +kernel

/-- The paths the layout asks for outside the source tree. -/
def barePaths : List (List String) :=
  (requiredPaths.map fullPath).filter fun path => ¬ ["src", "pbl4"] <+: path

/-- A repository with what the layout asks for, and the directories it is in. -/
def bareRepository : Repository where
  source := bareSource
  others := (barePaths.flatMap List.inits).filter fun path => ¬ ["src", "pbl4"] <+: path
  outside := by simp
  pyproject := .parsed ⟨none, none⟩
  declared := by
    have listed : ["pyproject.toml"] ∈ barePaths := by decide +kernel
    refine ⟨fun _ => by simp, fun _ => List.mem_filter.mpr ⟨?_, by decide⟩⟩
    exact List.mem_flatMap.mpr ⟨_, listed, (List.mem_inits _ _).mpr (List.prefix_refl _)⟩
  compileDir _ := (true, [])
  noScript := []

theorem bareRepository_required :
    ∀ relPath ∈ requiredPaths, bareRepository.Has (fullPath relPath) := by
  have inside : ((requiredPaths.map fullPath).filter fun path => ["src", "pbl4"] <+: path) =
      (bareSource.entries.map fun entry => ["src", "pbl4"] ++ entry.1).tail := by
    decide +kernel
  intro relPath member
  by_cases source : ["src", "pbl4"] <+: fullPath relPath
  · refine Or.inr (List.mem_of_mem_tail ?_)
    show fullPath relPath ∈ (bareSource.entries.map fun entry => ["src", "pbl4"] ++ entry.1).tail
    rw [← inside]
    exact List.mem_filter.mpr ⟨List.mem_map_of_mem member, decide_eq_true source⟩
  · have listed : fullPath relPath ∈ barePaths :=
      List.mem_filter.mpr ⟨List.mem_map_of_mem member, decide_eq_true source⟩
    refine Or.inl (List.mem_filter.mpr ⟨?_, decide_eq_true source⟩)
    exact List.mem_flatMap.mpr ⟨_, listed, (List.mem_inits _ _).mpr (List.prefix_refl _)⟩

theorem bareRepository_permitted :
    ∀ relPath ∈ prohibitedPaths, ¬ bareRepository.Has (fullPath relPath) := by
  have absent : ∀ relPath ∈ prohibitedPaths,
      (∀ path ∈ barePaths, ¬ fullPath relPath <+: path) ∧
        fullPath relPath ∉ bareSource.entries.map fun entry => ["src", "pbl4"] ++ entry.1 := by
    decide +kernel
  rintro relPath member (other | source)
  · obtain ⟨path, listed, pre⟩ := List.mem_flatMap.mp (List.mem_filter.mp other).1
    exact (absent relPath member).1 path listed ((List.mem_inits _ _).mp pre)
  · exact (absent relPath member).2 source

theorem bareSource_files {file : Architecture.SourceFile} (member : file ∈ bareSource.files) :
    file.source = .ok (.other []) := by
  have plain : ∀ entry ∈ bareSource.entries,
      entry.2 = .directory ∨ entry.2 = .file (.ok (.other [])) := by
    simp [bareSource, emptyFile]
  rcases plain _ (Architecture.Tree.mem_files.mp member) with directory | empty
  · cases directory
  · exact Architecture.Entry.file.inj empty

theorem bareRepository_sound : Sound bareRepository where
  required := bareRepository_required
  permitted := bareRepository_permitted
  compiles := ⟨rfl, rfl⟩
  layered := by
    intro rule _ file member _
    refine ⟨.other [], bareSource_files member, fun node within name written => ?_⟩
    rcases Node.within_iff.mp within with rfl | ⟨inner, impossible, _⟩
    · exact absurd written List.not_mem_nil
    · exact absurd impossible List.not_mem_nil
  independent := by
    refine ⟨⟨none, none⟩, rfl, ?_, ?_⟩
    · simp [Document.HasTable, Document.groups, Dict.empty]
    · simp [Document.HasMention, Document.scopes, Document.baseDeps, Document.extras,
        Document.groups, Dict.empty]

end Pbl4.Scaffold
