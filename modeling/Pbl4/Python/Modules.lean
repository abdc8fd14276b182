/-
This file says what an import statement loads. Module names are dotted. A relative
statement of level `k` starts from the package of its file with the last `k - 1`
components removed; and `from m import n` loads `m.n` as well when that is a module.
The set of modules is a parameter.
-/

import Mathlib.Data.List.Basic
import Pbl4.Python.Syntax
import Pbl4.Python.Text

namespace Python

/-! ### Dotted names -/

/-- `".".join(components)` -/
def dotted (components : List String) : String := ".".intercalate components

/-- The name is the module `root` or lies below it. -/
def Below (root name : String) : Prop :=
  name = root ∨ startswith name (root ++ ".") = true

instance (root name : String) : Decidable (Below root name) :=
  inferInstanceAs (Decidable (_ ∨ _))

/-- The name is one of the modules `roots` or lies below one. -/
def Covered (roots : List String) (name : String) : Prop :=
  ∃ root ∈ roots, Below root name

instance (roots : List String) (name : String) : Decidable (Covered roots name) :=
  inferInstanceAs (Decidable (∃ root ∈ roots, _))

theorem Below.trans {first second third : String} (secondBelow : Below first second)
    (thirdBelow : Below second third) : Below first third := by
  rcases thirdBelow with rfl | thirdStarts
  · exact secondBelow
  · refine Or.inr (startswith_iff.mpr ?_)
    have secondPrefix : second.toList <+: third.toList := by
      have longer := startswith_iff.mp thirdStarts
      rw [String.toList_append] at longer
      exact (List.prefix_append _ _).trans longer
    rcases secondBelow with rfl | secondStarts
    · exact startswith_iff.mp thirdStarts
    · exact (startswith_iff.mp secondStarts).trans secondPrefix

/-- A module whose name extends the components of another lies below it. -/
theorem below_dotted_append {components : List String} (nonempty : components ≠ [])
    (more : List String) : Below (dotted components) (dotted (components ++ more)) := by
  by_cases empty : more = []
  · exact Or.inl (by rw [empty, List.append_nil])
  · refine Or.inr (startswith_iff.mpr ?_)
    unfold dotted
    rw [String.intercalate_append_of_ne_nil nonempty empty]
    exact ⟨_, String.toList_append.symm⟩

theorem covered_of_below {roots : List String} {name above : String}
    (covered : Covered roots above) (below : Below above name) : Covered roots name := by
  obtain ⟨root, member, under⟩ := covered
  exact ⟨root, member, under.trans below⟩

/-! ### Loading -/

section Loading

variable (isModule : String → Bool) (package : List String)

/-- The module a `from` clause names: an absolute one as it stands, a relative one against
the package. A level beyond the top-level package names no module. -/
def fromModule (module : Option ModuleName) : Nat → Option String
  | 0 => module.map ModuleName.text
  | above + 1 =>
      if above < package.length then
        some (dotted (package.take (package.length - above) ++
          (module.map ModuleName.text).toList))
      else none

/-- The imported names that are modules below `base`; a star is no name. -/
def submodules (base : String) (names : List String) : List String :=
  ((names.filter (· ≠ "*")).map fun name => base ++ "." ++ name).filter isModule

/-- The modules a statement of a file of the package loads. -/
def Node.loads : Node → List String
  | .importModules names => names
  | .importFrom module names level =>
      match fromModule package module level with
      | some base => base :: submodules isModule base names
      | none => []
  | .other _ => []

/-- The statement is an absolute import of modules by their own names: what follows
`from m import` is no module. -/
def Node.NamesItsModules : Node → Prop
  | .importFrom module names level =>
      level = 0 ∧ ∀ base ∈ module, submodules isModule base.text names = []
  | _ => True

instance : DecidablePred (Node.NamesItsModules isModule)
  | .importModules _ => inferInstanceAs (Decidable True)
  | .importFrom _ _ _ => inferInstanceAs (Decidable (_ ∧ _))
  | .other _ => inferInstanceAs (Decidable True)

end Loading

end Python
