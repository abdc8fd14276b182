/-
This file models `check_pyproject_dependencies` of `scripts/verify_scaffold.py`. Three
loops look, in the base dependencies, the extras and the dependency groups, for a
forbidden name anywhere in the lower-cased text of each entry. An entry of a group may be
a table, which has no `lower`: the check then raises. It answers exactly when no group
holds a table, and passes when besides no entry mentions a name its list forbids.
-/

import Mathlib.Data.List.Basic
import Pbl4.Python.Loop
import Pbl4.Python.Text

namespace Pbl4.Scaffold

open Python

/-! ### The document -/

/-- A TOML table: its keys are distinct. -/
structure Dict (Item : Type) where
  items : List (String × Item)
  distinct : (items.map Prod.fst).Nodup

/-- The table without entries. -/
def Dict.empty {Item : Type} : Dict Item := ⟨[], List.nodup_nil⟩

/-- The `project` table. -/
structure Project where
  name : String
  dependencies : Option (List String)
  optionalDependencies : Option (Dict (List String))

/-- An entry of a dependency group: a requirement, or a table `{include-group = "…"}`. -/
inductive Dependency where
  | requirement (text : String)
  | includeGroup (group : String)
  deriving DecidableEq

/-- The parts of a parsed `pyproject.toml` the check reads. -/
structure Document where
  project : Option Project
  dependencyGroups : Option (Dict (List Dependency))

/-- `pyproject.toml` as the check finds it: missing, rejected by the TOML parser with a
message, or parsed. -/
inductive Pyproject where
  | missing
  | malformed (message : String)
  | parsed (data : Document)

/-- `data.get("project", {}).get("dependencies", [])` -/
def Document.baseDeps (data : Document) : List String :=
  (data.project.bind Project.dependencies).getD []

/-- `data.get("project", {}).get("optional-dependencies", {})` -/
def Document.extras (data : Document) : Dict (List String) :=
  (data.project.bind Project.optionalDependencies).getD .empty

/-- `data.get("dependency-groups", {})` -/
def Document.groups (data : Document) : Dict (List Dependency) :=
  data.dependencyGroups.getD .empty

/-! ### The lists -/

/-- `FORBIDDEN_GLOBAL_DEPENDENCIES` -/
def forbiddenGlobalDependencies : List String := ["asyncpg", "structlog"]

/-- `FORBIDDEN_RUNTIME_DEPENDENCIES` -/
def forbiddenRuntimeDependencies : List String :=
  ["sqlalchemy", "alembic", "asyncpg", "structlog"]

/-- `WHITELISTED_MIGRATION_TOOLING_EXTRAS` -/
def whitelistedMigrationToolingExtras : List String := ["management-backend"]

/-- `WHITELISTED_MIGRATION_TOOLING_GROUPS` -/
def whitelistedMigrationToolingGroups : List String := ["dev"]

/-! ### The check -/

/-- An exception, with its text. -/
inductive PyError where
  | attributeError (message : String)
  deriving DecidableEq

/-- The body of the loops over `deps`: every forbidden name that occurs in the lower-cased
entry is described. -/
def inspect (forbidden : List String) (describe : String → String → String) :
    Dependency → Except PyError (List String)
  | .requirement dep =>
      .ok ((forbidden.filter fun name => contains (lower dep) name).map
        fun name => describe name dep)
  | .includeGroup _ => .error (.attributeError "'dict' object has no attribute 'lower'")

/-- The loop over the base dependencies. -/
def inspectBase (data : Document) : Except PyError (List String) :=
  collect (inspect forbiddenRuntimeDependencies
    fun name dep => s!"{name} (found in base dependency '{dep}')")
    (data.baseDeps.map .requirement)

/-- The body of the loop over the extras. -/
def inspectExtra : String × List String → Except PyError (List String)
  | (extra, deps) =>
      if extra ∈ whitelistedMigrationToolingExtras then
        collect (inspect forbiddenGlobalDependencies
          fun name dep => s!"{name} (found in extra '{extra}': '{dep}')")
          (deps.map .requirement)
      else
        collect (inspect forbiddenRuntimeDependencies
          fun name dep => s!"{name} (found in non-persistence extra '{extra}': '{dep}')")
          (deps.map .requirement)

/-- The body of the loop over the dependency groups. -/
def inspectGroup : String × List Dependency → Except PyError (List String)
  | (group, deps) =>
      if group ∈ whitelistedMigrationToolingGroups then
        collect (inspect forbiddenGlobalDependencies
          fun name dep => s!"{name} (found in group '{group}': '{dep}')") deps
      else
        collect (inspect forbiddenRuntimeDependencies
          fun name dep => s!"{name} (found in group '{group}': '{dep}')") deps

/-- What the three loops append to `found_forbidden`. -/
def foundForbidden (data : Document) : Except PyError (List String) := do
  let base ← inspectBase data
  let extras ← collect inspectExtra data.extras.items
  let groups ← collect inspectGroup data.groups.items
  return base ++ extras ++ groups

/-- The result and the lines printed. -/
structure Report where
  result : Bool
  stdout : List String
  stderr : List String

/-- The end of the check: the findings are printed, and decide the result. -/
def verdict (found : List String) : Report :=
  if found ≠ [] then
    ⟨false, [], "[FAIL] Found forbidden dependencies in pyproject.toml:" ::
      found.map fun item => s!"  - {item}"⟩
  else
    ⟨true, ["[PASS] No forbidden dependencies declared in pyproject.toml."], []⟩

/-- `check_pyproject_dependencies` -/
def checkPyprojectDependencies : Pyproject → Except PyError Report
  | .missing => .ok ⟨false, [], ["[FAIL] pyproject.toml not found"]⟩
  | .malformed message =>
      .ok ⟨false, [], [s!"[FAIL] Error parsing pyproject.toml: {message}"]⟩
  | .parsed data => (foundForbidden data).map verdict

theorem verdict_result (found : List String) : (verdict found).result = true ↔ found = [] := by
  unfold verdict
  split
  · rename_i some
    exact ⟨fun impossible => absurd impossible (by simp), fun none => absurd none some⟩
  · rename_i none
    exact ⟨fun _ => Classical.not_not.mp none, fun _ => rfl⟩

/-! ### Scopes -/

/-- The places a requirement is declared in. -/
inductive Scope where
  | base
  | extra (name : String)
  | group (name : String)
  deriving DecidableEq

/-- The scopes of a document, each with its entries as written. -/
def Document.scopes (data : Document) : List (Scope × List Dependency) :=
  (.base, data.baseDeps.map .requirement) ::
    (data.extras.items.map fun entry => (.extra entry.1, entry.2.map .requirement)) ++
    (data.groups.items.map fun entry => (.group entry.1, entry.2))

/-- The names forbidden in a scope. -/
def Scope.forbidden : Scope → List String
  | .base => forbiddenRuntimeDependencies
  | .extra name =>
      if name ∈ whitelistedMigrationToolingExtras then forbiddenGlobalDependencies
      else forbiddenRuntimeDependencies
  | .group name =>
      if name ∈ whitelistedMigrationToolingGroups then forbiddenGlobalDependencies
      else forbiddenRuntimeDependencies

/-! ### What the check decides -/

section Decides

variable {data : Document}

/-- A text mentions a name: the name occurs in its lower case. -/
def Mentions (text name : String) : Prop := contains (lower text) name = true

instance (text name : String) : Decidable (Mentions text name) :=
  inferInstanceAs (Decidable (_ = _))

theorem inspect_isOk {forbidden : List String} {describe : String → String → String}
    {dependency : Dependency} :
    (∃ found, inspect forbidden describe dependency = .ok found) ↔
      ∃ text, dependency = .requirement text := by
  cases dependency with
  | requirement text => simp [inspect]
  | includeGroup group => simp [inspect]

theorem inspect_eq_nil {forbidden : List String} {describe : String → String → String}
    {dependency : Dependency} :
    inspect forbidden describe dependency = .ok [] ↔
      ∃ text, dependency = .requirement text ∧ ∀ name ∈ forbidden, ¬ Mentions text name := by
  cases dependency with
  | requirement text => simp [inspect, Mentions]
  | includeGroup group => simp [inspect]

/-- A group holds a table. -/
def Document.HasTable (data : Document) : Prop :=
  ∃ entry ∈ data.groups.items, ∃ group, .includeGroup group ∈ entry.2

/-- An entry of a scope mentions a name forbidden there. -/
def Document.HasMention (data : Document) : Prop :=
  ∃ scope ∈ data.scopes, ∃ text, .requirement text ∈ scope.2 ∧
    ∃ name ∈ scope.1.forbidden, Mentions text name

theorem Document.mem_scopes {scope : Scope × List Dependency} :
    scope ∈ data.scopes ↔
      scope = (.base, data.baseDeps.map .requirement) ∨
      (∃ entry ∈ data.extras.items, (Scope.extra entry.1, entry.2.map .requirement) = scope) ∨
      ∃ entry ∈ data.groups.items, (Scope.group entry.1, entry.2) = scope := by
  simp only [Document.scopes, List.cons_append, List.mem_cons, List.mem_append, List.mem_map]

theorem scan_isOk {forbidden : List String} {describe : String → String → String}
    {deps : List Dependency} :
    (∃ found, collect (inspect forbidden describe) deps = .ok found) ↔
      ∀ group, .includeGroup group ∉ deps := by
  simp only [collect_isOk, inspect_isOk]
  constructor
  · intro texts group member
    obtain ⟨text, same⟩ := texts _ member
    exact absurd same (by simp)
  · intro none dependency member
    cases dependency with
    | requirement text => exact ⟨text, rfl⟩
    | includeGroup group => exact absurd member (none group)

theorem scan_eq_nil {forbidden : List String} {describe : String → String → String}
    {deps : List Dependency} :
    collect (inspect forbidden describe) deps = .ok [] ↔
      (∀ group, .includeGroup group ∉ deps) ∧
        ∀ text, .requirement text ∈ deps → ∀ name ∈ forbidden, ¬ Mentions text name := by
  simp only [collect_eq_nil, inspect_eq_nil]
  constructor
  · intro texts
    refine ⟨fun group member => ?_, fun text member => ?_⟩
    · obtain ⟨text, same, _⟩ := texts _ member
      exact absurd same (by simp)
    · obtain ⟨_, same, silent⟩ := texts _ member
      exact Dependency.requirement.inj same ▸ silent
  · rintro ⟨none, silent⟩ dependency member
    cases dependency with
    | requirement text => exact ⟨text, rfl, silent text member⟩
    | includeGroup group => exact absurd member (none group)

/-- The extras are searched for the names their scope forbids. -/
theorem inspectExtra_eq (entry : String × List String) : ∃ describe,
    inspectExtra entry =
      collect (inspect (Scope.extra entry.1).forbidden describe)
        (entry.2.map .requirement) := by
  by_cases listed : entry.1 ∈ whitelistedMigrationToolingExtras
  · simp only [inspectExtra, Scope.forbidden, if_pos listed]
    exact ⟨_, rfl⟩
  · simp only [inspectExtra, Scope.forbidden, if_neg listed]
    exact ⟨_, rfl⟩

/-- The groups are searched for the names their scope forbids. -/
theorem inspectGroup_eq (entry : String × List Dependency) : ∃ describe,
    inspectGroup entry =
      collect (inspect (Scope.group entry.1).forbidden describe) entry.2 := by
  by_cases listed : entry.1 ∈ whitelistedMigrationToolingGroups
  · simp only [inspectGroup, Scope.forbidden, if_pos listed]
    exact ⟨_, rfl⟩
  · simp only [inspectGroup, Scope.forbidden, if_neg listed]
    exact ⟨_, rfl⟩

theorem foundForbidden_eq_ok {all : List String} :
    foundForbidden data = .ok all ↔
      ∃ base extras groups, inspectBase data = .ok base ∧
        collect inspectExtra data.extras.items = .ok extras ∧
        collect inspectGroup data.groups.items = .ok groups ∧
        base ++ extras ++ groups = all := by
  unfold foundForbidden
  cases inspectBase data with
  | error failure => simp [bind, Except.bind]
  | ok base =>
    cases collect inspectExtra data.extras.items with
    | error failure => simp [bind, Except.bind]
    | ok extras =>
      cases collect inspectGroup data.groups.items with
      | error failure => simp [bind, Except.bind]
      | ok groups => simp [bind, Except.bind, pure, Except.pure]

/-- The loops end without an exception when no group holds a table. -/
theorem foundForbidden_isOk :
    (∃ found, foundForbidden data = .ok found) ↔ ¬ data.HasTable := by
  have base : ∃ found, inspectBase data = .ok found :=
    scan_isOk.mpr fun group member => by simp at member
  have extras : ∃ found, collect inspectExtra data.extras.items = .ok found := by
    refine collect_isOk.mpr fun entry member => ?_
    obtain ⟨describe, same⟩ := inspectExtra_eq entry
    rw [same]
    exact scan_isOk.mpr fun group member => by simp at member
  have groups : (∃ found, collect inspectGroup data.groups.items = .ok found) ↔
      ¬ data.HasTable := by
    rw [collect_isOk]
    simp only [Document.HasTable, not_exists, not_and]
    refine forall₂_congr fun entry member => ?_
    obtain ⟨describe, same⟩ := inspectGroup_eq entry
    rw [same, scan_isOk]
  rw [← groups]
  constructor
  · rintro ⟨_, found⟩
    obtain ⟨_, _, foundGroups, _, _, run, _⟩ := foundForbidden_eq_ok.mp found
    exact ⟨foundGroups, run⟩
  · rintro ⟨foundGroups, run⟩
    obtain ⟨foundBase, baseRun⟩ := base
    obtain ⟨foundExtras, extrasRun⟩ := extras
    exact ⟨_, foundForbidden_eq_ok.mpr ⟨_, _, _, baseRun, extrasRun, run, rfl⟩⟩

theorem Document.not_hasMention_iff :
    ¬ data.HasMention ↔
      (∀ text ∈ data.baseDeps, ∀ name ∈ Scope.base.forbidden, ¬ Mentions text name) ∧
      (∀ entry ∈ data.extras.items, ∀ text ∈ entry.2,
        ∀ name ∈ (Scope.extra entry.1).forbidden, ¬ Mentions text name) ∧
      ∀ entry ∈ data.groups.items, ∀ text, .requirement text ∈ entry.2 →
        ∀ name ∈ (Scope.group entry.1).forbidden, ¬ Mentions text name := by
  have written {texts : List String} {text : String} :
      Dependency.requirement text ∈ texts.map .requirement ↔ text ∈ texts := by
    simp
  constructor
  · intro none
    refine ⟨fun text member name forbidden mentions => none ?_,
      fun entry entryMember text member name forbidden mentions => none ?_,
      fun entry entryMember text member name forbidden mentions => none ?_⟩
    · exact ⟨_, mem_scopes.mpr (Or.inl rfl), text, written.mpr member, name, forbidden,
        mentions⟩
    · exact ⟨_, mem_scopes.mpr (Or.inr (Or.inl ⟨entry, entryMember, rfl⟩)), text,
        written.mpr member, name, forbidden, mentions⟩
    · exact ⟨_, mem_scopes.mpr (Or.inr (Or.inr ⟨entry, entryMember, rfl⟩)), text, member, name,
        forbidden, mentions⟩
  · rintro ⟨base, extras, groups⟩ ⟨scope, scopeMember, text, member, name, forbidden, mentions⟩
    rcases mem_scopes.mp scopeMember with rfl | ⟨entry, entryMember, rfl⟩ |
      ⟨entry, entryMember, rfl⟩
    · exact base text (written.mp member) name forbidden mentions
    · exact extras entry entryMember text (written.mp member) name forbidden mentions
    · exact groups entry entryMember text member name forbidden mentions

/-- The loops find nothing when, besides, no entry mentions a name forbidden in its scope. -/
theorem foundForbidden_eq_nil :
    foundForbidden data = .ok [] ↔ ¬ data.HasTable ∧ ¬ data.HasMention := by
  have base : inspectBase data = .ok [] ↔
      ∀ text ∈ data.baseDeps, ∀ name ∈ Scope.base.forbidden, ¬ Mentions text name := by
    rw [inspectBase, scan_eq_nil]
    simp [Scope.forbidden]
  have extras : collect inspectExtra data.extras.items = .ok [] ↔
      ∀ entry ∈ data.extras.items, ∀ text ∈ entry.2,
        ∀ name ∈ (Scope.extra entry.1).forbidden, ¬ Mentions text name := by
    rw [collect_eq_nil]
    refine forall₂_congr fun entry _ => ?_
    obtain ⟨describe, same⟩ := inspectExtra_eq entry
    rw [same, scan_eq_nil]
    simp
  have groups : collect inspectGroup data.groups.items = .ok [] ↔
      ¬ data.HasTable ∧ ∀ entry ∈ data.groups.items, ∀ text, .requirement text ∈ entry.2 →
        ∀ name ∈ (Scope.group entry.1).forbidden, ¬ Mentions text name := by
    simp only [collect_eq_nil, Document.HasTable, not_exists, not_and, ← forall₂_and]
    refine forall₂_congr fun entry _ => ?_
    obtain ⟨describe, same⟩ := inspectGroup_eq entry
    rw [same, scan_eq_nil]
  rw [Document.not_hasMention_iff, ← base, ← extras, foundForbidden_eq_ok]
  constructor
  · rintro ⟨_, _, _, baseRun, extrasRun, groupsRun, empty⟩
    obtain ⟨front, rfl⟩ := List.append_eq_nil_iff.mp empty
    obtain ⟨rfl, rfl⟩ := List.append_eq_nil_iff.mp front
    obtain ⟨noTable, silent⟩ := groups.mp groupsRun
    exact ⟨noTable, baseRun, extrasRun, silent⟩
  · rintro ⟨noTable, baseRun, extrasRun, silent⟩
    exact ⟨[], [], [], baseRun, extrasRun, groups.mpr ⟨noTable, silent⟩, rfl⟩

/-- The check answers exactly when no group holds a table. -/
theorem checkPyprojectDependencies_isOk :
    (∃ report, checkPyprojectDependencies (.parsed data) = .ok report) ↔ ¬ data.HasTable := by
  rw [← foundForbidden_isOk]
  show (∃ report, (foundForbidden data).map verdict = .ok report) ↔ _
  cases foundForbidden data with
  | error failure => simp [Except.map]
  | ok found => simp [Except.map]

/-- An answer passes the document exactly when no entry mentions a name forbidden in its
scope. -/
theorem checkPyprojectDependencies_result {report : Report}
    (answered : checkPyprojectDependencies (.parsed data) = .ok report) :
    report.result = true ↔ ¬ data.HasMention := by
  have noTable := checkPyprojectDependencies_isOk.mp ⟨report, answered⟩
  have silent : ¬ data.HasMention ↔ foundForbidden data = .ok [] :=
    ⟨fun none => foundForbidden_eq_nil.mpr ⟨noTable, none⟩,
      fun found => (foundForbidden_eq_nil.mp found).2⟩
  obtain ⟨found, run⟩ := foundForbidden_isOk.mpr noTable
  have same : (foundForbidden data).map verdict = .ok report := answered
  rw [run] at same
  obtain rfl := Except.ok.inj same
  rw [silent, run, verdict_result]
  exact ⟨congrArg Except.ok, Except.ok.inj⟩

end Decides

end Pbl4.Scaffold
