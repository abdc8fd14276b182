/-
This file compares the dependency check with the dependency policy. The policy is about
the distributions a scope requires, after included groups and extras of the project
itself are expanded to any depth. The check is about the texts written in a scope. It
meets the policy exactly when no group holds a table and either a forbidden distribution
is required directly, or forbidden names are mentioned incidentally exactly if some are
required only through an expansion.
-/

import Mathlib.Logic.Relation
import Pbl4.Python.Requirement
import Pbl4.Scaffold.Dependencies

namespace Pbl4.Scaffold

open Python

/-! ### The policy -/

section Policy

variable (data : Document)

/-- The extras a requirement on the project itself asks for. -/
def Document.selfExtras (text : String) : List String :=
  match data.project, parseRequirement text with
  | some project, some requirement =>
      if normalizeName requirement.name = normalizeName project.name then requirement.extras
      else []
  | _, _ => []

/-- One expansion: an included group, or an extra of the project itself. Groups and extras
are found by their normal names. -/
inductive Expands : Scope × List Dependency → Scope × List Dependency → Prop
  | includeGroup {scope other : Scope × List Dependency} {group name : String}
      (written : .includeGroup group ∈ scope.2) (member : other ∈ data.scopes)
      (named : other.1 = .group name) (same : normalizeName name = normalizeName group) :
      Expands scope other
  | selfExtra {scope other : Scope × List Dependency} {text extra name : String}
      (written : .requirement text ∈ scope.2) (requested : extra ∈ data.selfExtras text)
      (member : other ∈ data.scopes) (named : other.1 = .extra name)
      (same : normalizeName name = normalizeName extra) : Expands scope other

/-- A requirement is written in a scope and is not one that an expansion replaces. -/
def Demands (scope : Scope × List Dependency) (text : String) : Prop :=
  .requirement text ∈ scope.2 ∧ data.selfExtras text = []

/-- A scope requires a text after any number of expansions. -/
def Requires (scope : Scope × List Dependency) (text : String) : Prop :=
  ∃ other, Relation.ReflTransGen (Expands data) scope other ∧ Demands data other text

/-- No scope requires a distribution forbidden in it. -/
def Policy : Prop :=
  ∀ scope ∈ data.scopes, ∀ text, Requires data scope text →
    ∀ name ∈ scope.1.forbidden, distribution text ≠ some name

/-- The check answers, and passes the document exactly when the policy holds. -/
def MeetsPolicy : Prop :=
  ∃ report, checkPyprojectDependencies (.parsed data) = .ok report ∧
    (report.result = true ↔ Policy data)

/-! ### Violations and mentions -/

/-- A scope itself states a requirement on a distribution forbidden there. -/
def Direct : Prop :=
  ∃ scope ∈ data.scopes, ∃ text, Demands data scope text ∧
    ∃ name ∈ scope.1.forbidden, distribution text = some name

/-- A scope requires a distribution forbidden there through at least one expansion. -/
def Inherited : Prop :=
  ∃ scope ∈ data.scopes, ∃ other, Relation.TransGen (Expands data) scope other ∧
    ∃ text, Demands data other text ∧
      ∃ name ∈ scope.1.forbidden, distribution text = some name

/-- A text of a scope mentions a name forbidden there without being a requirement on it. -/
def Incidental : Prop :=
  ∃ scope ∈ data.scopes, ∃ text, .requirement text ∈ scope.2 ∧
    ∃ name ∈ scope.1.forbidden, Mentions text name ∧
      ¬ (data.selfExtras text = [] ∧ distribution text = some name)

end Policy

section Compare

variable {data : Document}

/-- Forbidden names are single words. -/
theorem plain_of_forbidden {scope : Scope} {name : String} (forbidden : name ∈ scope.forbidden) :
    '-' ∉ name.toList := by
  have plain : ∀ name ∈ forbiddenRuntimeDependencies, '-' ∉ name.toList := by decide
  have fewer : forbiddenGlobalDependencies ⊆ forbiddenRuntimeDependencies := by decide
  cases scope with
  | base => exact plain name forbidden
  | extra extra =>
    simp only [Scope.forbidden] at forbidden
    split at forbidden
    · exact plain name (fewer forbidden)
    · exact plain name forbidden
  | group group =>
    simp only [Scope.forbidden] at forbidden
    split at forbidden
    · exact plain name (fewer forbidden)
    · exact plain name forbidden

/-- The check sees the direct violations and the incidental mentions. -/
theorem hasMention_iff : data.HasMention ↔ Direct data ∨ Incidental data := by
  constructor
  · rintro ⟨scope, member, text, written, name, forbidden, mentions⟩
    by_cases required : data.selfExtras text = [] ∧ distribution text = some name
    · exact Or.inl ⟨scope, member, text, ⟨written, required.1⟩, name, forbidden, required.2⟩
    · exact Or.inr ⟨scope, member, text, written, name, forbidden, mentions, required⟩
  · rintro (⟨scope, member, text, demanded, name, forbidden, named⟩ |
      ⟨scope, member, text, written, name, forbidden, mentions, _⟩)
    · exact ⟨scope, member, text, demanded.1, name, forbidden,
        contains_of_distribution (plain_of_forbidden forbidden) named⟩
    · exact ⟨scope, member, text, written, name, forbidden, mentions⟩

/-- The policy is broken directly or through an expansion. -/
theorem not_policy_iff : ¬ Policy data ↔ Direct data ∨ Inherited data := by
  unfold Policy
  constructor
  · intro broken
    simp only [not_forall, not_not] at broken
    obtain ⟨scope, member, text, ⟨other, chain, demanded⟩, name, forbidden, named⟩ := broken
    rcases Relation.reflTransGen_iff_eq_or_transGen.mp chain with rfl | expanded
    · exact Or.inl ⟨other, member, text, demanded, name, forbidden, named⟩
    · exact Or.inr ⟨scope, member, other, expanded, text, demanded, name, forbidden, named⟩
  · rintro (⟨scope, member, text, demanded, name, forbidden, named⟩ |
      ⟨scope, member, other, expanded, text, demanded, name, forbidden, named⟩) policy
    · exact policy scope member text ⟨scope, .refl, demanded⟩ name forbidden named
    · exact policy scope member text ⟨other, expanded.to_reflTransGen, demanded⟩ name forbidden
        named

/-- Without a table, the check meets the policy when it passes exactly the documents that do
not break it. -/
theorem meetsPolicy_iff_not_hasMention :
    MeetsPolicy data ↔ ¬ data.HasTable ∧ (data.HasMention ↔ ¬ Policy data) := by
  constructor
  · rintro ⟨report, answered, same⟩
    refine ⟨checkPyprojectDependencies_isOk.mp ⟨report, answered⟩, ?_⟩
    rw [← same, checkPyprojectDependencies_result answered, not_not]
  · rintro ⟨noTable, same⟩
    obtain ⟨report, answered⟩ := checkPyprojectDependencies_isOk.mpr noTable
    refine ⟨report, answered, ?_⟩
    rw [checkPyprojectDependencies_result answered, same, not_not]

/-- On every document, the check answers and meets the policy exactly when no group holds a
table and a forbidden distribution is required directly, or names are mentioned incidentally
exactly if forbidden distributions are inherited. -/
theorem checkPyprojectDependencies_meetsPolicy_iff (data : Document) :
    MeetsPolicy data ↔
      ¬ data.HasTable ∧ (Direct data ∨ (Incidental data ↔ Inherited data)) := by
  rw [meetsPolicy_iff_not_hasMention, hasMention_iff, not_policy_iff]
  refine and_congr_right fun _ => ?_
  by_cases direct : Direct data
  · simp [direct]
  · simp [direct]

end Compare

/-! ### Documents on which the check and the policy differ -/

/-- The document of a project with the given requirements. -/
def pbl4Document (dependencies : List String) (extras : Dict (List String))
    (groups : Dict (List Dependency)) : Document where
  project := some ⟨"pbl4-distributed-training", some dependencies, some extras⟩
  dependencyGroups := some groups

/-- The group `test` includes the group `dev`. -/
def includingDocument : Document :=
  pbl4Document [] .empty ⟨[("dev", [.requirement "ruff>=0.3.0"]),
    ("test", [.includeGroup "dev"])], by decide⟩

/-- The base requires a distribution whose name contains a forbidden name. -/
def mentioningDocument : Document :=
  pbl4Document ["sqlalchemy-utils>=0.41"] .empty .empty

/-- The extra `all` takes in the extra `management-backend`. -/
def inheritingDocument : Document :=
  pbl4Document [] ⟨[("management-backend", ["alembic>=1.13.0"]),
    ("all", ["pbl4-distributed-training[management-backend]"])], by decide⟩ .empty

theorem includingDocument_hasTable : includingDocument.HasTable :=
  ⟨("test", [.includeGroup "dev"]), by decide, "dev", by decide⟩

theorem mentioningDocument_policy : Policy mentioningDocument := by
  have scopes : ∀ scope ∈ mentioningDocument.scopes,
      scope = (.base, [.requirement "sqlalchemy-utils>=0.41"]) := by decide
  intro scope member text ⟨other, chain, demanded⟩ name forbidden
  obtain rfl := scopes scope member
  have stuck : ∀ next, ¬ Expands mentioningDocument
      (.base, [.requirement "sqlalchemy-utils>=0.41"]) next := by
    intro next expands
    cases expands with
    | includeGroup written => exact absurd written (by simp)
    | selfExtra written requested =>
      obtain rfl := Dependency.requirement.inj (List.mem_singleton.mp written)
      have none : mentioningDocument.selfExtras "sqlalchemy-utils>=0.41" = [] := by decide
      rw [none] at requested
      exact absurd requested List.not_mem_nil
  rcases Relation.ReflTransGen.cases_head chain with rfl | ⟨next, expands, _⟩
  · obtain rfl := Dependency.requirement.inj (List.mem_singleton.mp demanded.1)
    have apart : ∀ name ∈ Scope.base.forbidden,
        distribution "sqlalchemy-utils>=0.41" ≠ some name := by decide
    exact apart name forbidden
  · exact absurd expands (stuck next)

theorem inheritingDocument_not_policy : ¬ Policy inheritingDocument := by
  intro policy
  refine policy (.extra "all", [.requirement "pbl4-distributed-training[management-backend]"])
    (by decide) "alembic>=1.13.0" ⟨(.extra "management-backend",
      [.requirement "alembic>=1.13.0"]), ?_, ?_⟩ "alembic" (by decide) (by decide)
  · exact .single (.selfExtra (List.mem_singleton_self _)
      (show "management-backend" ∈ inheritingDocument.selfExtras _ by decide) (by decide) rfl
      rfl)
  · exact ⟨List.mem_singleton_self _, by decide⟩

/-- The check raises on the first document, rejects the second, which the policy allows, and
passes the third, which breaks the policy. -/
theorem checkPyprojectDependencies_not_meetsPolicy :
    ¬ MeetsPolicy includingDocument ∧ ¬ MeetsPolicy mentioningDocument ∧
      ¬ MeetsPolicy inheritingDocument := by
  have mentions : mentioningDocument.HasMention :=
    ⟨(.base, [.requirement "sqlalchemy-utils>=0.41"]), by decide, "sqlalchemy-utils>=0.41",
      by decide, "sqlalchemy", by decide, by decide⟩
  have silent : ¬ inheritingDocument.HasMention := by
    rw [Document.not_hasMention_iff]
    exact ⟨by decide, by decide, fun _ member => absurd member List.not_mem_nil⟩
  simp only [meetsPolicy_iff_not_hasMention]
  refine ⟨fun meets => meets.1 includingDocument_hasTable, fun meets => ?_, fun meets => ?_⟩
  · exact meets.2.mp mentions mentioningDocument_policy
  · exact silent (meets.2.mpr inheritingDocument_not_policy)

end Pbl4.Scaffold
