/-
This file models `main()` of `scripts/check_architecture.py`, the eleven rules and the
verdict, and asks what an accepted tree says about chains of imports. The gate tests
direct imports. A chain from a package to a library its rule forbids must therefore leave,
by an import no rule forbids, the packages whose rules forbid that library. From `common`
every way out is closed; from every other package an accepted tree leads to every library
the package's rule forbids.
-/

import Mathlib.Logic.Relation
import Pbl4.Architecture.Exactness

namespace Pbl4.Architecture

open Python

/-! ### The rules -/

/-- The arguments of one call of `check_forbidden_imports`. -/
structure Rule where
  packageSubpath : String
  forbiddenPrefixes : List String
  ruleDescription : String

/-- The calls of `main()`, in order. -/
def rules : List Rule := [
  ⟨"protocol",
    ["pbl4.runtime", "pbl4.worker", "pbl4.management_backend", "pbl4.dataset_manager",
      "torch", "torchvision", "psycopg", "psycopg_pool", "asyncpg", "sqlalchemy"],
    "protocol must be wire-only: zero runtime/worker/backend/torch/db imports"⟩,
  ⟨"transport",
    ["pbl4.protocol", "pbl4.runtime", "pbl4.worker", "pbl4.management_backend",
      "pbl4.dataset_manager", "torch", "torchvision", "psycopg", "psycopg_pool", "asyncpg",
      "sqlalchemy"],
    "transport is generic TCP primitives only: no framing, runtime, or app imports"⟩,
  ⟨"common",
    ["pbl4.protocol", "pbl4.transport", "pbl4.runtime", "pbl4.worker", "pbl4.adapter",
      "pbl4.management_backend", "pbl4.dataset_manager", "pbl4.cli",
      "pbl4.management_protocol", "torch", "torchvision", "fastapi", "uvicorn", "starlette",
      "psycopg", "psycopg_pool", "asyncpg", "sqlalchemy"],
    "common must not import higher project packages or frameworks (torch/fastapi/db)"⟩,
  ⟨"worker",
    ["pbl4.management_backend", "pbl4.dataset_manager", "psycopg", "psycopg_pool", "asyncpg",
      "sqlalchemy"],
    "worker must not import management_backend, dataset_manager, or database libraries"⟩,
  ⟨"management_backend",
    ["pbl4.runtime", "pbl4.worker", "torch", "torchvision"],
    "management_backend must not import runtime internals, worker, or torch"⟩,
  ⟨"dataset_manager",
    ["pbl4.runtime", "pbl4.management_backend", "torch", "torchvision"],
    "dataset_manager must not import runtime internals, backend app code, or torch"⟩,
  ⟨"runtime",
    ["fastapi", "uvicorn", "starlette", "psycopg", "psycopg_pool", "asyncpg", "sqlalchemy",
      "pbl4.management_backend", "torch", "torchvision"],
    "runtime must not import web frameworks, DB drivers, backend, or torch models"⟩,
  ⟨"runtime/synchronization",
    ["pbl4.runtime.checkpoint", "pbl4.runtime.checkpoint_policy", "pbl4.transport",
      "psycopg", "psycopg_pool", "asyncpg", "sqlalchemy", "fastapi",
      "pbl4.management_backend"],
    "synchronization must not import checkpoint, transport, DB, HTTP, or backend"⟩,
  ⟨"management_protocol",
    ["pbl4.runtime", "pbl4.management_backend", "pbl4.worker", "psycopg", "psycopg_pool",
      "asyncpg", "sqlalchemy", "torch", "torchvision"],
    "management_protocol is wire format only: no runtime/backend/worker/DB/torch imports"⟩,
  ⟨"adapter",
    ["pbl4.management_backend", "pbl4.dataset_manager", "pbl4.runtime", "psycopg",
      "psycopg_pool", "asyncpg", "sqlalchemy"],
    "adapter is framework boundary-focused: no backend, DM, runtime, or DB imports"⟩,
  ⟨"cli",
    ["pbl4.runtime", "pbl4.dataset_manager", "pbl4.worker", "psycopg", "psycopg_pool",
      "asyncpg", "sqlalchemy"],
    "cli must control through Management Backend: no direct runtime, DM, worker, or DB"⟩]

/-- The directory a rule is about. -/
def Rule.directory (rule : Rule) : List String := targetDir rule.packageSubpath

/-- The exit code and the lines printed. -/
structure Outcome where
  code : Nat
  stdout : List String
  stderr : List String

/-- The violations of all rules. -/
def violations (tree : Tree) : List String :=
  rules.flatMap fun rule => checkForbiddenImports tree rule.packageSubpath
    rule.forbiddenPrefixes rule.ruleDescription

/-- `main()` -/
def main (tree : Tree) : Outcome :=
  if tree.Has [] then
    if violations tree ≠ [] then
      ⟨1, [], s!"Architecture check FAILED ({(violations tree).length} violations):" ::
        violations tree⟩
    else
      ⟨0, ["Architecture import-boundary check PASSED: all configured package import rules " ++
        "passed."], []⟩
  else ⟨1, [], [s!"Source root not found: {tree.location}"]⟩

/-! ### Chains of imports -/

/-- The module a `.py` file is: `__init__.py` is its package. -/
def SourceFile.moduleName (file : SourceFile) : Option String :=
  if file.path.getLast? = some "__init__.py" then some (dotted file.package)
  else (moduleParts (file.path, .file file.source)).map fun parts => dotted ("pbl4" :: parts)

/-- A statement of the file loads the module. -/
def Imports (tree : Tree) (file : SourceFile) (name : String) : Prop :=
  ∃ root, file.source = .ok root ∧ ∃ node : Node, node.Within root ∧
    name ∈ node.loads tree.isModule file.package

/-- The modules the statements of a file load. -/
def importedNames (tree : Tree) (file : SourceFile) : List String :=
  match file.source with
  | .ok root => (walk root).flatMap (Node.loads tree.isModule file.package)
  | .error _ => []

theorem mem_importedNames {tree : Tree} {file : SourceFile} {name : String} :
    name ∈ importedNames tree file ↔ Imports tree file name := by
  unfold importedNames Imports
  cases file.source with
  | error message => simp
  | ok root => simp [mem_walk]

instance (tree : Tree) (file : SourceFile) (name : String) :
    Decidable (Imports tree file name) :=
  decidable_of_iff _ mem_importedNames

/-- A statement of the first file names the module of the second, or a module below it:
Python runs both. -/
def Names (tree : Tree) (file other : SourceFile) : Prop :=
  ∃ name ∈ importedNames tree file, ∃ module ∈ other.moduleName, Below module name

instance (tree : Tree) (file other : SourceFile) : Decidable (Names tree file other) :=
  inferInstanceAs (Decidable (∃ name ∈ importedNames tree file,
    ∃ module ∈ other.moduleName, _))

/-- A statement of the first file makes Python run the second. -/
def Loads (tree : Tree) (file other : SourceFile) : Prop :=
  other ∈ tree.files ∧ Names tree file other

/-- Every import is absolute and names the modules it loads. -/
def Tree.Absolute (tree : Tree) : Prop :=
  ∀ file ∈ tree.files, ∀ root, file.source = .ok root → ∀ node : Node,
    node.Within root → node.NamesItsModules tree.isModule

/-- The libraries a rule forbids that are not part of `pbl4`. -/
def Rule.libraries (rule : Rule) : List String :=
  rule.forbiddenPrefixes.filter fun pre => ¬ Below "pbl4" pre

/-- A file lies in a package whose rule forbids the library. -/
def Guarded (library : String) (file : SourceFile) : Prop :=
  ∃ rule ∈ rules, file.Under rule.directory ∧ library ∈ rule.forbiddenPrefixes

/-- Files outside the packages the rules are about import nothing, as the file
`pbl4/__init__.py`. -/
def Tree.Layered (tree : Tree) : Prop :=
  ∀ file ∈ tree.files, (∃ rule ∈ rules, file.Under rule.directory) ∨
    ∀ name, ¬ Imports tree file name

/-- No chain of imports from the package of the rule ends in a library the rule forbids. -/
def Isolated (tree : Tree) (rule : Rule) : Prop :=
  ∀ start ∈ tree.files, start.Under rule.directory →
    ∀ last, Relation.ReflTransGen (Loads tree) start last →
      ∀ library ∈ rule.libraries, ∀ name, Imports tree last name → ¬ Below library name

/-! ### What the gate says about one import -/

section Accepted

variable {tree : Tree}

/-- An absolute import that names its modules loads the names written in it. -/
theorem loads_eq_imports {isModule : String → Bool} {node : Node}
    (absolute : node.NamesItsModules isModule) (package : List String) :
    node.loads isModule package = imports node := by
  cases node with
  | other children => rfl
  | importModules names => rfl
  | importFrom module names level =>
    obtain ⟨rfl, named⟩ := absolute
    cases module with
    | none => rfl
    | some module =>
      rw [imports_importFrom]
      show module.text :: submodules isModule module.text names = [module.text]
      rw [named module rfl]

theorem violations_eq_nil_of_accepted (accepted : (main tree).code = 0) :
    violations tree = [] := by
  unfold main at accepted
  split at accepted
  · split at accepted
    · exact absurd accepted (by simp)
    · rename_i none
      exact Classical.not_not.mp none
  · exact absurd accepted (by simp)

/-- In an accepted tree, no file imports what the rule of its package forbids. -/
theorem not_covered_of_accepted (accepted : (main tree).code = 0) (absolute : tree.Absolute)
    {rule : Rule} (declared : rule ∈ rules) {file : SourceFile} (member : file ∈ tree.files)
    (under : file.Under rule.directory) {name : String} (imported : Imports tree file name) :
    ¬ Covered rule.forbiddenPrefixes name := by
  obtain ⟨root, parsed, node, within, loaded⟩ := imported
  have silent := List.flatMap_eq_nil_iff.mp
    (List.flatMap_eq_nil_iff.mp (violations_eq_nil_of_accepted accepted) rule declared) file
    (mem_getPythonFiles.mpr ⟨member, under⟩)
  rw [loads_eq_imports (absolute file member root parsed node within)] at loaded
  exact (fileViolations_eq_nil parsed _ _).mp silent node within name loaded

end Accepted

/-! ### Chains -/

/-- A chain from inside a set to outside it has a step out of the set. -/
theorem exists_crossing {Point : Type} {step : Point → Point → Prop} {inside : Point → Prop}
    {start last : Point} (chain : Relation.ReflTransGen step start last)
    (startInside : inside start) (lastOutside : ¬ inside last) :
    ∃ source target, Relation.ReflTransGen step start source ∧ inside source ∧
      step source target ∧ ¬ inside target ∧ Relation.ReflTransGen step target last := by
  induction chain with
  | refl => exact absurd startInside lastOutside
  | @tail middle next before edge inductionHypothesis =>
    by_cases middleInside : inside middle
    · exact ⟨middle, next, before, middleInside, edge, lastOutside, .refl⟩
    · obtain ⟨source, target, reach, sourceInside, out, targetOutside, rest⟩ :=
        inductionHypothesis middleInside
      exact ⟨source, target, reach, sourceInside, out, targetOutside, rest.tail edge⟩

section Chains

variable {tree : Tree}

theorem mem_files_of_chain {start last : SourceFile} (member : start ∈ tree.files)
    (chain : Relation.ReflTransGen (Loads tree) start last) : last ∈ tree.files := by
  cases chain with
  | refl => exact member
  | tail _ edge => exact edge.1

/-- A chain from a package to a library its rule forbids leaves the packages whose rules
forbid the library. -/
theorem exists_unguarded_import (accepted : (main tree).code = 0) (absolute : tree.Absolute)
    {library : String} {start last : SourceFile} (member : start ∈ tree.files)
    (guarded : Guarded library start) (chain : Relation.ReflTransGen (Loads tree) start last)
    {name : String} (imported : Imports tree last name) (below : Below library name) :
    ∃ source target, Relation.ReflTransGen (Loads tree) start source ∧
      Guarded library source ∧ Loads tree source target ∧ ¬ Guarded library target ∧
      Relation.ReflTransGen (Loads tree) target last := by
  refine exists_crossing chain guarded ?_
  rintro ⟨rule, declared, under, forbids⟩
  exact not_covered_of_accepted accepted absolute declared (mem_files_of_chain member chain)
    under imported ⟨library, forbids, below⟩

/-- A module below a package directory has a name below the package's. -/
theorem below_moduleName {file : SourceFile} {directory : List String}
    (under : file.Under directory) {module : String} (named : module ∈ file.moduleName) :
    Below (dotted ("pbl4" :: directory)) module := by
  obtain ⟨⟨rest, path⟩, different, name, last, _⟩ := under
  have nonempty : rest ≠ [] := by
    rintro rfl
    exact different (by rw [← path, List.append_nil])
  have dropped : file.path.dropLast = directory ++ rest.dropLast := by
    rw [← path, List.dropLast_append_of_ne_nil nonempty]
  unfold SourceFile.moduleName at named
  split at named
  · obtain rfl := Option.some.inj named
    rw [SourceFile.package, dropped]
    exact below_dotted_append (List.cons_ne_nil _ _) rest.dropLast
  · obtain ⟨parts, found, rfl⟩ := Option.map_eq_some_iff.mp named
    unfold moduleParts at found
    simp only [Option.mem_def.mp last] at found
    split at found
    · obtain rfl := Option.some.inj found
      rw [dropped, List.append_assoc]
      exact below_dotted_append (List.cons_ne_nil _ _) _
    · exact absurd found (by simp)

/-- An import of a file of `common` stays in `common`, or leads to a file that imports
nothing. -/
theorem common_closed (accepted : (main tree).code = 0) (absolute : tree.Absolute)
    (layered : tree.Layered) {file other : SourceFile} (member : file ∈ tree.files)
    (under : file.Under ["common"]) (edge : Loads tree file other) :
    other.Under ["common"] ∨ ∀ name, ¬ Imports tree other name := by
  obtain ⟨otherMember, name, written, module, named, below⟩ := edge
  have imported := mem_importedNames.mp written
  rcases layered other otherMember with ⟨rule, declared, otherUnder⟩ | idle
  · refine Or.inl ?_
    have closed : ∀ commonRule ∈ rules, commonRule.directory = ["common"] →
        ∀ rule ∈ rules, rule.directory ≠ ["common"] →
          Covered commonRule.forbiddenPrefixes (dotted ("pbl4" :: rule.directory)) := by
      decide
    obtain ⟨commonRule, commonDeclared, commonDirectory⟩ :
        ∃ commonRule ∈ rules, commonRule.directory = ["common"] := by decide
    by_cases same : rule.directory = ["common"]
    · exact same ▸ otherUnder
    · have covered := closed commonRule commonDeclared commonDirectory rule declared same
      refine absurd (covered_of_below covered ?_)
        (not_covered_of_accepted accepted absolute commonDeclared member
          (commonDirectory ▸ under) imported)
      exact (below_moduleName otherUnder named).trans below
  · exact Or.inr idle

/-- No chain of imports from `common` ends in a library its rule forbids. -/
theorem isolated_common (accepted : (main tree).code = 0) (absolute : tree.Absolute)
    (layered : tree.Layered) {rule : Rule} (declared : rule ∈ rules)
    (common : rule.packageSubpath = "common") : Isolated tree rule := by
  have directory : rule.directory = ["common"] := by
    rw [Rule.directory, common]
    decide
  intro start member under last chain library forbidden name imported below
  have stays : last.Under ["common"] ∨ ∀ name, ¬ Imports tree last name := by
    clear imported
    induction chain with
    | refl => exact Or.inl (directory ▸ under)
    | @tail middle next before edge inductionHypothesis =>
      rcases inductionHypothesis with inside | idle
      · exact common_closed accepted absolute layered (mem_files_of_chain member before)
          inside edge
      · obtain ⟨_, name, written, _⟩ := edge
        exact absurd (mem_importedNames.mp written) (idle name)
  rcases stays with inside | idle
  · refine not_covered_of_accepted accepted absolute declared
      (mem_files_of_chain member chain) (directory ▸ inside) imported ?_
    exact ⟨library, List.mem_of_mem_filter forbidden, below⟩
  · exact idle name imported

end Chains

/-! ### An accepted tree -/

/-- A file of one import statement. -/
def importing (names : List String) : Entry := .file (.ok (.other [.importModules names]))

/-- Every package but `common` starts a chain: to the frameworks through `adapter`, to the
databases through `cli` and `management_backend`, to the web libraries through `protocol`. -/
def leakyTree : Tree where
  location := "/repo/src/pbl4"
  entries := [
    ([], .directory),
    (["protocol"], .directory),
    (["protocol", "hop.py"], importing ["fastapi", "uvicorn", "starlette"]),
    (["protocol", "start.py"], importing ["pbl4.adapter.hop", "pbl4.cli.hop"]),
    (["transport"], .directory),
    (["transport", "start.py"], importing ["pbl4.adapter.hop", "pbl4.cli.hop"]),
    (["worker"], .directory),
    (["worker", "start.py"], importing ["pbl4.cli.hop"]),
    (["management_backend"], .directory),
    (["management_backend", "hop.py"],
      importing ["psycopg", "psycopg_pool", "asyncpg", "sqlalchemy"]),
    (["management_backend", "start.py"], importing ["pbl4.adapter.hop"]),
    (["dataset_manager"], .directory),
    (["dataset_manager", "start.py"], importing ["pbl4.adapter.hop"]),
    (["runtime"], .directory),
    (["runtime", "start.py"],
      importing ["pbl4.adapter.hop", "pbl4.cli.hop", "pbl4.protocol.hop"]),
    (["runtime", "synchronization"], .directory),
    (["runtime", "synchronization", "start.py"],
      importing ["pbl4.cli.hop", "pbl4.protocol.hop"]),
    (["management_protocol"], .directory),
    (["management_protocol", "start.py"], importing ["pbl4.adapter.hop", "pbl4.cli.hop"]),
    (["adapter"], .directory),
    (["adapter", "hop.py"], importing ["torch", "torchvision"]),
    (["adapter", "start.py"], importing ["pbl4.cli.hop"]),
    (["cli"], .directory),
    (["cli", "hop.py"], importing ["pbl4.management_backend.hop"])]
  distinct := by decide
  rooted := by decide

theorem leakyTree_accepted : (main leakyTree).code = 0 := by
  decide +kernel

theorem leakyTree_absolute : leakyTree.Absolute := by
  have plain : ∀ entry ∈ leakyTree.entries,
      entry.2 = .directory ∨ ∃ names, entry.2 = importing names := by
    simp [leakyTree, importing]
  intro file member root parsed node within
  rcases plain _ (Tree.mem_files.mp member) with directory | ⟨names, written⟩
  · exact absurd directory (by simp)
  · obtain rfl : root = .other [.importModules names] := by
      have same := Entry.file.inj written
      rw [parsed] at same
      exact Except.ok.inj same
    rw [← mem_walk] at within
    rcases List.mem_cons.mp within with rfl | rest
    · trivial
    · rw [List.mem_singleton.mp rest]
      trivial

theorem leakyTree_layered : leakyTree.Layered := by
  have inside : ∀ file ∈ leakyTree.files, ∃ rule ∈ rules, file.Under rule.directory := by
    decide +kernel
  exact fun file member => Or.inl (inside file member)

/-- Search for a chain of at most `hops` imports to an import of the library. -/
def leadsTo (tree : Tree) (library : String) : Nat → SourceFile → Bool
  | 0, file => library ∈ importedNames tree file
  | hops + 1, file =>
      library ∈ importedNames tree file ||
        tree.files.any fun other => Names tree file other && leadsTo tree library hops other

theorem chain_of_leadsTo {tree : Tree} {library : String} {hops : Nat} {file : SourceFile}
    (leads : leadsTo tree library hops file = true) :
    ∃ last, Relation.ReflTransGen (Loads tree) file last ∧ Imports tree last library := by
  induction hops generalizing file with
  | zero => exact ⟨file, .refl, mem_importedNames.mp (of_decide_eq_true leads)⟩
  | succ hops inductionHypothesis =>
    rcases Bool.or_eq_true_iff.mp leads with here | later
    · exact ⟨file, .refl, mem_importedNames.mp (of_decide_eq_true here)⟩
    · obtain ⟨other, member, found⟩ := List.any_eq_true.mp later
      obtain ⟨named, rest⟩ := Bool.and_eq_true_iff.mp found
      obtain ⟨last, chain, imported⟩ := inductionHypothesis rest
      exact ⟨last, .head ⟨member, of_decide_eq_true named⟩ chain, imported⟩

/-- From every package but `common`, a chain leads to every library the rule forbids. -/
theorem leakyTree_leaks : ∀ rule ∈ rules, rule.packageSubpath ≠ "common" →
    ∀ library ∈ rule.libraries, ∃ start ∈ leakyTree.files, start.Under rule.directory ∧
      leadsTo leakyTree library 2 start = true := by
  decide +kernel

theorem leakyTree_not_isolated {rule : Rule} (declared : rule ∈ rules)
    (other : rule.packageSubpath ≠ "common") : ¬ Isolated leakyTree rule := by
  have some : ∀ rule ∈ rules, ∃ library, library ∈ rule.libraries := by
    have nonempty : ∀ rule ∈ rules, rule.libraries ≠ [] := by decide
    exact fun rule declared => List.exists_mem_of_ne_nil _ (nonempty rule declared)
  obtain ⟨library, forbidden⟩ := some rule declared
  obtain ⟨start, member, under, leads⟩ := leakyTree_leaks rule declared other library forbidden
  obtain ⟨last, chain, imported⟩ := chain_of_leadsTo leads
  exact fun isolated =>
    isolated start member under last chain library forbidden library imported (Or.inl rfl)

/-! ### Isolation of the layers -/

/-- In every accepted tree of absolute imports, a chain from the package of a rule to a
library the rule forbids has an import, from a package whose rule forbids the library, of a
module of no such package. Every accepted tree of the ten packages has no such chain exactly
when the package is `common`. -/
theorem layer_isolation {rule : Rule} (declared : rule ∈ rules) :
    (∀ tree : Tree, (main tree).code = 0 → tree.Absolute →
      ∀ start ∈ tree.files, start.Under rule.directory →
        ∀ last, Relation.ReflTransGen (Loads tree) start last →
          ∀ library ∈ rule.libraries, ∀ name, Imports tree last name → Below library name →
            ∃ source target, Relation.ReflTransGen (Loads tree) start source ∧
              Guarded library source ∧ Loads tree source target ∧
              ¬ Guarded library target ∧ Relation.ReflTransGen (Loads tree) target last) ∧
    ((∀ tree : Tree, (main tree).code = 0 → tree.Absolute → tree.Layered →
      Isolated tree rule) ↔ rule.packageSubpath = "common") := by
  refine ⟨?_, ?_, ?_⟩
  · intro tree accepted absolute start member under last chain library forbidden name imported
      below
    refine exists_unguarded_import accepted absolute member ?_ chain imported below
    exact ⟨rule, declared, under, List.mem_of_mem_filter forbidden⟩
  · intro isolated
    refine Classical.byContradiction fun other => ?_
    exact leakyTree_not_isolated declared other
      (isolated leakyTree leakyTree_accepted leakyTree_absolute leakyTree_layered)
  · intro common tree accepted absolute layered
    exact isolated_common accepted absolute layered declared common

/-- The file of `leakyTree` in `protocol` that imports `adapter`. -/
def protocolStart : SourceFile :=
  ⟨["protocol", "start.py"], .ok (.other [.importModules ["pbl4.adapter.hop", "pbl4.cli.hop"]])⟩

/-- The file of `leakyTree` in `adapter` that imports `torch`. -/
def adapterHop : SourceFile :=
  ⟨["adapter", "hop.py"], .ok (.other [.importModules ["torch", "torchvision"]])⟩

theorem layer_isolation_leakyTree :
    ∃ source target, Guarded "torch" source ∧ Loads leakyTree source target ∧
      ¬ Guarded "torch" target := by
  have startMember : protocolStart ∈ leakyTree.files :=
    Tree.mem_files.mpr (by simp [leakyTree, protocolStart, importing])
  have hopMember : adapterHop ∈ leakyTree.files :=
    Tree.mem_files.mpr (by simp [leakyTree, adapterHop, importing])
  have chain : Relation.ReflTransGen (Loads leakyTree) protocolStart adapterHop :=
    .single ⟨hopMember, by decide +kernel⟩
  have declared : rules[0] ∈ rules := List.getElem_mem _
  obtain ⟨source, target, _, guarded, edge, unguarded, _⟩ :=
    (layer_isolation declared).1 leakyTree leakyTree_accepted leakyTree_absolute protocolStart
      startMember (by decide) adapterHop chain "torch" (by decide) "torch" (by decide +kernel)
      (Or.inl rfl)
  exact ⟨source, target, guarded, edge, unguarded⟩

/-- `main()` accepts a tree in which `protocol` leads to `torch`. -/
theorem protocol_not_isolated :
    (main leakyTree).code = 0 ∧ leakyTree.Absolute ∧
      ∃ rule ∈ rules, rule.packageSubpath = "protocol" ∧ ¬ Isolated leakyTree rule := by
  refine ⟨leakyTree_accepted, leakyTree_absolute, ?_⟩
  obtain ⟨rule, declared, protocol⟩ : ∃ rule ∈ rules, rule.packageSubpath = "protocol" := by
    decide
  exact ⟨rule, declared, protocol,
    leakyTree_not_isolated declared (by rw [protocol]; decide)⟩

end Pbl4.Architecture
