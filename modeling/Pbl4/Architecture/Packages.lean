/-
This file compares the import gate with a graph of the ten packages: an edge where no rule of
the one forbids the other. Chains of imports in an accepted tree follow the graph, and every
path of the graph is a chain of some accepted tree. What the gate guarantees between packages
is thus read off the graph, and it is little: `common` reaches no other package, and every
other package reaches them all.
-/

import Pbl4.Architecture.Layers

namespace Pbl4.Architecture

open Python

/-! ### The graph -/

/-- The packages the rules are about. -/
def packages : List String := [
  "protocol", "transport", "common", "worker", "management_backend", "dataset_manager",
  "runtime", "management_protocol", "adapter", "cli"]

/-- No rule of the first package forbids the second. -/
def MayImport (source target : String) : Prop :=
  source ∈ packages ∧ target ∈ packages ∧ ∀ rule ∈ rules, rule.directory = [source] →
    ¬ Covered rule.forbiddenPrefixes (dotted ["pbl4", target])

instance (source target : String) : Decidable (MayImport source target) :=
  inferInstanceAs (Decidable (_ ∧ _ ∧ ∀ rule ∈ rules, _))

/-- From `common` the graph leads nowhere else. -/
theorem eq_common_of_path {target : String}
    (path : Relation.ReflTransGen MayImport "common" target) : target = "common" := by
  have closed : ∀ next ∈ packages, MayImport "common" next → next = "common" := by
    decide +kernel
  induction path with
  | refl => rfl
  | tail _ edge inductionHypothesis =>
    rw [inductionHypothesis] at edge
    exact closed _ edge.2.1 edge

/-- From every other package it leads through `adapter` to every package. -/
theorem path_of_ne_common {source target : String} (sourceListed : source ∈ packages)
    (targetListed : target ∈ packages) (other : source ≠ "common") :
    Relation.ReflTransGen MayImport source target := by
  have toAdapter : ∀ source ∈ packages, source ≠ "common" → MayImport source "adapter" := by
    decide +kernel
  have fromAdapter : ∀ target ∈ packages, MayImport "adapter" target ∨
      ∃ middle ∈ ["worker", "cli", "management_protocol"],
        MayImport "adapter" middle ∧ MayImport middle target := by
    decide +kernel
  refine .head (toAdapter source sourceListed other) ?_
  rcases fromAdapter target targetListed with direct | ⟨middle, _, first, second⟩
  · exact .single direct
  · exact .head first (.single second)

theorem path_iff {source target : String} (sourceListed : source ∈ packages)
    (targetListed : target ∈ packages) :
    Relation.ReflTransGen MayImport source target ↔ source = target ∨ source ≠ "common" := by
  constructor
  · intro path
    by_cases common : source = "common"
    · rw [common] at path
      exact Or.inl (common.trans (eq_common_of_path path).symm)
    · exact Or.inr common
  · rintro (rfl | other)
    · exact .refl
    · exact path_of_ne_common sourceListed targetListed other

/-! ### Chains follow the graph -/

/-- A file below a directory lies in every package above it. -/
theorem under_of_prefix {file : SourceFile} {above directory : List String}
    (pre : above <+: directory) (under : file.Under directory) : file.Under above := by
  obtain ⟨inside, different, last⟩ := under
  refine ⟨pre.trans inside, fun same => different ?_, last⟩
  refine inside.eq_of_length (Nat.le_antisymm inside.length_le ?_)
  rw [← same]
  exact pre.length_le

theorem package_unique {file : SourceFile} {first second : String} (inFirst : file.Under [first])
    (inSecond : file.Under [second]) : first = second := by
  have same := List.prefix_of_prefix_length_le inFirst.1 inSecond.1 (Nat.le_refl 1)
  exact List.singleton_inj.mp (same.eq_of_length rfl)

section Chains

variable {tree : Tree} (accepted : (main tree).code = 0) (absolute : tree.Absolute)

include accepted absolute

/-- An import from a file of one package of a file of another is an edge. -/
theorem mayImport_of_loads {file other : SourceFile} {source target : String}
    (member : file ∈ tree.files) (sourceListed : source ∈ packages)
    (targetListed : target ∈ packages) (under : file.Under [source])
    (otherUnder : other.Under [target]) (edge : Loads tree file other) :
    MayImport source target := by
  obtain ⟨_, name, written, module, named, below⟩ := edge
  refine ⟨sourceListed, targetListed, fun rule declared directory covered => ?_⟩
  refine not_covered_of_accepted accepted absolute declared member (directory ▸ under)
    (mem_importedNames.mp written) (covered_of_below covered ?_)
  exact (below_moduleName otherUnder named).trans below

/-- A chain from a package follows a path, as far as it stays in the packages. -/
theorem path_of_chain (layered : tree.Layered) {start last : SourceFile} {source target : String}
    (member : start ∈ tree.files) (under : start.Under [source])
    (chain : Relation.ReflTransGen (Loads tree) start last)
    (targetListed : target ∈ packages) (lastUnder : last.Under [target]) :
    Relation.ReflTransGen MayImport source target := by
  induction chain generalizing target with
  | refl =>
    rw [package_unique under lastUnder]
  | @tail middle next before edge inductionHypothesis =>
    have middleMember := mem_files_of_chain member before
    rcases layered middle middleMember with ⟨rule, declared, inside⟩ | idle
    · have located : ∀ rule ∈ rules, ∃ package ∈ packages, [package] <+: rule.directory := by
        decide
      obtain ⟨package, listed, pre⟩ := located rule declared
      have middleUnder := under_of_prefix pre inside
      exact (inductionHypothesis listed middleUnder).tail (mayImport_of_loads accepted absolute
        middleMember listed targetListed middleUnder lastUnder edge)
    · obtain ⟨_, name, written, _⟩ := edge
      exact absurd (mem_importedNames.mp written) (idle name)

end Chains

/-! ### Paths are chains -/

/-- A file of the package that imports whatever its rule does not forbid. -/
def openFile (package : String) : SourceFile where
  path := [package, "code.py"]
  source := .ok (.other [.importModules
    ((packages.filter fun target => MayImport package target).map fun target =>
      dotted ["pbl4", target, "code"])])

/-- The tree of these files. -/
def openTree : Tree where
  location := "/repo/src/pbl4"
  entries := ([], .directory) :: packages.flatMap fun package => [
    ([package], .directory), ((openFile package).path, .file (openFile package).source)]
  distinct := by decide +kernel
  rooted := by decide +kernel

theorem openTree_accepted : (main openTree).code = 0 := by
  decide +kernel

theorem mem_openTree_files {file : SourceFile} :
    file ∈ openTree.files ↔ ∃ package ∈ packages, file = openFile package := by
  rw [Tree.mem_files]
  simp only [openTree, List.mem_cons, List.mem_flatMap, Prod.mk.injEq, reduceCtorEq, and_false,
    false_or, List.mem_nil_iff, or_false, Entry.file.injEq]
  constructor
  · rintro ⟨package, listed, path, source⟩
    cases file
    exact ⟨package, listed, SourceFile.mk.injEq .. ▸ ⟨path, source⟩⟩
  · rintro ⟨package, listed, rfl⟩
    exact ⟨package, listed, rfl, rfl⟩

theorem openFile_under (package : String) : (openFile package).Under [package] := by
  refine ⟨⟨["code.py"], rfl⟩, fun same => ?_, "code.py", rfl, by decide⟩
  cases same

theorem openTree_absolute : openTree.Absolute := by
  intro file member root parsed node within
  obtain ⟨package, _, rfl⟩ := mem_openTree_files.mp member
  obtain rfl := Except.ok.inj parsed
  rw [← mem_walk] at within
  rcases List.mem_cons.mp within with rfl | rest
  · trivial
  · rw [List.mem_singleton.mp rest]
    trivial

theorem openTree_layered : openTree.Layered := by
  have declared : ∀ package ∈ packages, ∃ rule ∈ rules, rule.directory = [package] := by decide
  intro file member
  obtain ⟨package, listed, rfl⟩ := mem_openTree_files.mp member
  obtain ⟨rule, ruleDeclared, directory⟩ := declared package listed
  exact Or.inl ⟨rule, ruleDeclared, directory ▸ openFile_under package⟩

theorem moduleName_openFile (package : String) :
    (openFile package).moduleName = some (dotted ["pbl4", package, "code"]) := by
  have stem : "code.py".toList.take ("code.py".length - 3) = "code".toList := by decide
  have isModule : endswith "code.py" ".py" = true ∧ "code.py" ≠ ".py" ∧
      "code.py" ≠ "__init__.py" := by decide
  have parts : moduleParts ((openFile package).path, .file (openFile package).source) =
      some [package, "code"] := by
    refine (if_pos isModule).trans ?_
    show some ([package] ++ [String.ofList ("code.py".toList.take ("code.py".length - 3))]) = _
    rw [stem, String.ofList_toList]
    rfl
  have last : (openFile package).path.getLast? ≠ some "__init__.py" := by
    show some "code.py" ≠ some "__init__.py"
    decide
  rw [SourceFile.moduleName, if_neg last, parts]
  rfl

theorem loads_openFile {source target : String} (edge : MayImport source target) :
    Loads openTree (openFile source) (openFile target) := by
  refine ⟨mem_openTree_files.mpr ⟨target, edge.2.1, rfl⟩, dotted ["pbl4", target, "code"], ?_,
    dotted ["pbl4", target, "code"], ?_, Or.inl rfl⟩
  · refine mem_importedNames.mpr ⟨_, rfl, _, .child List.mem_cons_self (.self _), ?_⟩
    exact List.mem_map.mpr ⟨target, List.mem_filter.mpr ⟨edge.2.1, decide_eq_true edge⟩, rfl⟩
  · exact moduleName_openFile target

theorem chain_of_path {source target : String}
    (path : Relation.ReflTransGen MayImport source target) :
    Relation.ReflTransGen (Loads openTree) (openFile source) (openFile target) :=
  path.lift openFile fun _ _ => loads_openFile

/-! ### What the gate guarantees between packages -/

end Pbl4.Architecture
