/-
This file compares the import gate with import resolution. A statement shows a forbidden
module when the forbidden name is written in it and it loads a forbidden module; it hides
one when it loads a forbidden module whose name is not written in it, and it mimics one
when a forbidden name is written in it and it loads none. Each kind is defined by how the
statement is spelled. The gate reports the first and the third kind, and the first two
are the offending ones.
-/

import Pbl4.Architecture.Gate

namespace Pbl4.Architecture

open Python

/-! ### Modules of the tree -/

/-- The package a file belongs to. -/
def SourceFile.package (file : SourceFile) : List String := "pbl4" :: file.path.dropLast

/-- The module of an entry, by its path from `pbl4`: a directory is a package, and a `.py`
file other than `__init__.py` is the module of its stem. -/
def moduleParts (entry : List String × Entry) : Option (List String) :=
  match entry.2, entry.1.getLast? with
  | .directory, _ => some entry.1
  | .file _, some name =>
      if endswith name ".py" = true ∧ name ≠ ".py" ∧ name ≠ "__init__.py" then
        some (entry.1.dropLast ++ [String.ofList (name.toList.take (name.length - 3))])
      else none
  | .file _, none => none

/-- The name is a module of the tree. No import statement can name a part with a dot. -/
def Tree.isModule (tree : Tree) (name : String) : Bool :=
  (tree.entries.filterMap moduleParts).any fun parts =>
    parts.all (fun part => '.' ∉ part.toList) && dotted ("pbl4" :: parts) = name

/-- The statement loads a forbidden module. -/
def Offends (tree : Tree) (forbidden : List String) (file : SourceFile) (node : Node) : Prop :=
  ∃ module ∈ node.loads tree.isModule file.package, Covered forbidden module

instance (tree : Tree) (forbidden : List String) (file : SourceFile) (node : Node) :
    Decidable (Offends tree forbidden file node) :=
  inferInstanceAs (Decidable (∃ module ∈ node.loads tree.isModule file.package, _))

/-! ### Spellings -/

section Spellings

variable (isModule : String → Bool) (forbidden package : List String)

/-- A relative import whose resolution against the package is forbidden: the module it
starts from, or a module below that one among the imported names. -/
def ResolvesForbidden (module : Option ModuleName) (names : List String) (level : Nat) : Prop :=
  ∃ base ∈ fromModule package module level,
    Covered forbidden base ∨ ∃ name ∈ submodules isModule base names, Covered forbidden name

/-- The statement shows a forbidden module it loads: `import m`, or `from m import …` with
level 0, for a forbidden `m`; or a relative import that is forbidden as it is written and as
it resolves. -/
def Shows : Node → Prop
  | .importModules names => ∃ name ∈ names, Covered forbidden name
  | .importFrom (some module) _ 0 => Covered forbidden module.text
  | .importFrom (some module) names (above + 1) =>
      Covered forbidden module.text ∧
        ResolvesForbidden isModule forbidden package (some module) names (above + 1)
  | _ => False

/-- The statement hides a forbidden module it loads: `from m import n` for an allowed `m`
and a forbidden module `m.n`; or a relative import that resolves to a forbidden module and
does not have a forbidden name after its dots. -/
def Hides : Node → Prop
  | .importFrom (some module) names 0 =>
      ¬ Covered forbidden module.text ∧
        ∃ name ∈ submodules isModule module.text names, Covered forbidden name
  | .importFrom module names (above + 1) =>
      (∀ written ∈ module, ¬ Covered forbidden written.text) ∧
        ResolvesForbidden isModule forbidden package module names (above + 1)
  | _ => False

/-- The statement mimics a forbidden module: a relative import with a forbidden name after
its dots that resolves to allowed modules, or beyond the top-level package. -/
def Mimics : Node → Prop
  | .importFrom (some module) names (above + 1) =>
      Covered forbidden module.text ∧
        ¬ ResolvesForbidden isModule forbidden package (some module) names (above + 1)
  | _ => False

end Spellings

section Kinds

variable {isModule : String → Bool} {forbidden package : List String}

theorem resolvesForbidden_iff {module : Option ModuleName} {names : List String} {level : Nat} :
    ResolvesForbidden isModule forbidden package module names level ↔
      ∃ loaded ∈ (Node.importFrom module names level).loads isModule package,
        Covered forbidden loaded := by
  unfold ResolvesForbidden
  rw [Node.loads]
  cases found : fromModule package module level with
  | none => simp
  | some base => simp

theorem imports_importFrom (module : ModuleName) (names : List String) (level : Nat) :
    imports (.importFrom (some module) names level) = [module.text] :=
  if_neg module.nonempty

/-- A forbidden name is written in the statements of the first and the third kind. -/
theorem written_iff (node : Node) :
    (∃ imp ∈ imports node, Covered forbidden imp) ↔
      Shows isModule forbidden package node ∨ Mimics isModule forbidden package node := by
  cases node with
  | other children => simp [imports, Shows, Mimics]
  | importModules names => simp [imports, Shows, Mimics]
  | importFrom module names level =>
    cases module with
    | none => cases level <;> simp [imports, Shows, Mimics]
    | some module =>
      simp only [imports_importFrom, List.mem_singleton, exists_eq_left]
      cases level with
      | zero => exact (or_iff_left not_false).symm
      | succ above =>
        rw [Shows, Mimics, ← and_or_left]
        exact (and_iff_left (Classical.em _)).symm

/-- A forbidden module is loaded by the statements of the first two kinds. -/
theorem loads_iff (node : Node) :
    (∃ module ∈ node.loads isModule package, Covered forbidden module) ↔
      Shows isModule forbidden package node ∨ Hides isModule forbidden package node := by
  cases node with
  | other children => simp [Node.loads, Shows, Hides]
  | importModules names => simp [Node.loads, Shows, Hides]
  | importFrom module names level =>
    rw [← resolvesForbidden_iff]
    cases module with
    | none =>
      cases level with
      | zero => simp [ResolvesForbidden, fromModule, Shows, Hides]
      | succ above => simp [Shows, Hides]
    | some module =>
      cases level with
      | zero =>
        simp only [ResolvesForbidden, fromModule, Option.map_some, Option.mem_some_iff,
          exists_eq_left', Shows, Hides]
        by_cases shown : Covered forbidden module.text
        · simp [shown]
        · simp [shown]
      | succ above =>
        simp only [Shows, Hides, Option.mem_some_iff, forall_eq']
        by_cases written : Covered forbidden module.text
        · simp [written]
        · simp [written]

end Kinds

/-! ### Exactness -/

/-- The gate is right about a package directory: it is silent exactly when no statement loads
a forbidden module. -/
def Exact (tree : Tree) (packageSubpath : String) (forbidden : List String)
    (ruleDescription : String) : Prop :=
  checkForbiddenImports tree packageSubpath forbidden ruleDescription = [] ↔
    ¬ tree.SomeNode (targetDir packageSubpath) (Offends tree forbidden)

/-- A statement of a kind occurs below the package directory. -/
def Occurs (kind : (String → Bool) → List String → List String → Node → Prop) (tree : Tree)
    (packageSubpath : String) (forbidden : List String) : Prop :=
  tree.SomeNode (targetDir packageSubpath)
    fun file node => kind tree.isModule forbidden file.package node

/-- A tree of the package `runtime`, the module `protocol/torch.py` and `protocol/wire.py`,
which holds one statement. -/
def wireTree (statement : Node) : Tree where
  location := "/repo/src/pbl4"
  entries := [
    ([], .directory),
    (["protocol"], .directory),
    (["protocol", "torch.py"], .file (.ok (.other []))),
    (["protocol", "wire.py"], .file (.ok (.other [statement]))),
    (["runtime"], .directory),
    (["runtime", "__init__.py"], .file (.ok (.other [])))]
  distinct := by simp
  rooted := by simp [Entry.isDirectory]

theorem wireTree_parsable (statement : Node) : (wireTree statement).Parsable := by
  intro file member
  simp only [wireTree, Tree.files, List.filterMap_cons, List.filterMap_nil, List.mem_cons,
    List.not_mem_nil, or_false] at member
  rcases member with rfl | rfl | rfl <;> exact ⟨_, rfl⟩

end Pbl4.Architecture
