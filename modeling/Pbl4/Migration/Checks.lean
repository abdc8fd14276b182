/-
This file is about what the `CHECK` constraints of the migration come to. SQL lets a
`CHECK` pass when it is unknown, so a constraint on a nullable column can be avoided
by leaving the column out. None of the migration's can: every column a condition
compares is `NOT NULL`, hence every `CHECK` is true of every stored row, and every
partial index knows which rows it covers.
-/

import Pbl4.Migration.InitialSchema
import Pbl4.Sql.Database

namespace Pbl4.Migration

open Sql

/-! ### Compared columns -/

/-- The table has a `NOT NULL` column of that name. -/
def Requires (table : Table) (column : String) : Prop :=
  ∃ declared ∈ table.columns, declared.name = column ∧ declared.nullable = false

instance (table : Table) (column : String) : Decidable (Requires table column) :=
  inferInstanceAs (Decidable (∃ declared ∈ table.columns, _))

theorem requires_compared_checks : ∀ entry ∈ initialSchema.tables, ∀ check ∈ entry.2.checks,
    ∀ column ∈ check.condition.compared, Requires entry.2 column := by
  rw [initialSchema_eq]
  decide +kernel

theorem requires_compared_predicates : ∀ index ∈ initialSchema.indexes,
    ∀ condition ∈ index.predicate, ∃ entry ∈ initialSchema.tables, entry.1 = index.table ∧
      ∀ column ∈ condition.compared, Requires entry.2 column := by
  rw [initialSchema_eq]
  decide +kernel

section Accepted

variable {database : Database} {entry : String × Table} {row : Row}

/-- A condition that compares `NOT NULL` columns only is decided on every stored row. -/
theorem exists_eval_of_requires (accepted : initialSchema.Accepts database)
    (declared : entry ∈ initialSchema.tables) (member : row ∈ database entry.1)
    {condition : Condition} (required : ∀ column ∈ condition.compared, Requires entry.2 column) :
    ∃ value, condition.eval row = some value := by
  refine Condition.exists_eval fun column compared => ?_
  obtain ⟨found, listed, rfl, present⟩ := required column compared
  exact accepted.ne_null declared listed present member

/-- Every `CHECK` of a table is true of its rows. -/
theorem check_eval (accepted : initialSchema.Accepts database)
    (declared : entry ∈ initialSchema.tables) (member : row ∈ database entry.1) {check : Check}
    (listed : check ∈ entry.2.checks) : check.condition.eval row = some true := by
  obtain ⟨value, known⟩ := exists_eval_of_requires accepted declared member
    (requires_compared_checks entry declared check listed)
  have passes := (accepted.admitted entry declared row member).2 check listed
  cases value with
  | true => exact known
  | false => exact absurd known passes

end Accepted

/-! ### What the checks say -/

/-- `IS NOT NULL` over columns is true when none of them is null. -/
theorem allPresent_eval {first : String} {rest : List String} {row : Row} :
    (allPresent first rest).eval row = some true ↔
      ∀ column ∈ first :: rest, row column ≠ .null := by
  have folded : ∀ condition : Condition,
      (rest.foldl (fun condition column => .and condition (.isNotNull column)) condition).eval row =
          some true ↔
        condition.eval row = some true ∧ ∀ column ∈ rest, row column ≠ .null := by
    induction rest with
    | nil => simp
    | cons column rest inductionHypothesis =>
      intro condition
      rw [List.foldl_cons, inductionHypothesis, List.forall_mem_cons, Condition.eval,
        Condition.eval, kleeneAnd_eq_true, Option.some_inj, decide_eq_true_eq, and_assoc]
  rw [allPresent, folded, List.forall_mem_cons, Condition.eval, Option.some_inj, decide_eq_true_eq]

/-- A state that asks for columns has them. -/
theorem present_of_state {state first : String} {rest : List String} {row : Row}
    (holds : (Condition.or (.differs "state" state) (allPresent first rest)).eval row = some true)
    (reached : row "state" = .text state) : ∀ column ∈ first :: rest, row column ≠ .null := by
  have decided : kleeneOr (some false) ((allPresent first rest).eval row) = some true := by
    rw [Condition.eval, Condition.eval, reached, unlessNull_text] at holds
    simpa using holds
  refine allPresent_eval.mp ?_
  cases known : (allPresent first rest).eval row with
  | none => rw [known] at decided; cases decided
  | some value => rw [known, kleeneOr_some, Bool.false_or] at decided; exact decided

/-- In every state a run reaches, every `CHECK` is true, every partial index predicate is decided,
a column with a list of values holds one of them, a `READY` job is frozen, and a `COMPLETE`
checkpoint has all its artifacts. -/
theorem checks_hold {database : Database}
    (reachable : Reachable initialSchema anyStatement database) :
    (∀ entry ∈ initialSchema.tables, ∀ row ∈ database entry.1, ∀ check ∈ entry.2.checks,
      check.condition.eval row = some true) ∧
    (∀ index ∈ initialSchema.indexes, ∀ condition ∈ index.predicate,
      ∀ row ∈ database index.table, ∃ value, condition.eval row = some value) ∧
    (∀ entry ∈ initialSchema.tables, ∀ row ∈ database entry.1, ∀ check ∈ entry.2.checks,
      ∀ column texts, check.condition = .isIn column texts →
        ∃ text ∈ texts, row column = .text text) ∧
    (∀ job ∈ database "jobs", job "state" = .text "READY" →
      ∀ column ∈ ["resolved_contract", "contract_hash", "frozen_at"], job column ≠ .null) ∧
    (∀ checkpoint ∈ database "checkpoints", checkpoint "state" = .text "COMPLETE" →
      ∀ column ∈ ["contract_hash", "dataset_build_id", "dataset_manifest_hash",
        "parameter_manifest_hash", "model_path", "metadata_path", "model_sha256",
        "metadata_sha256", "completed_at"], checkpoint column ≠ .null) := by
  have accepted := reachable.accepted
  refine ⟨fun entry declared row member check listed => check_eval accepted declared member listed,
    fun index listed condition partially row member => ?_,
    fun entry declared row member check listed column texts same => ?_,
    fun job member ready => ?_, fun checkpoint member complete => ?_⟩
  · obtain ⟨entry, declared, home, required⟩ :=
      requires_compared_predicates index listed condition partially
    exact exists_eval_of_requires accepted declared (home ▸ member) required
  · exact Condition.isIn_selects.mp (same ▸ check_eval accepted declared member listed)
  · exact present_of_state (check_eval accepted declared_jobs member
      (show ⟨_, "ck_jobs__ready_frozen_contract"⟩ ∈ jobs.checks from
        List.mem_cons_of_mem _ (List.mem_singleton.mpr rfl))) ready
  · exact present_of_state (check_eval accepted declared_checkpoints member
      (show ⟨_, "ck_checkpoints__complete_requirements"⟩ ∈ checkpoints.checks from
        List.mem_cons_of_mem _ (List.mem_singleton.mpr rfl))) complete

/-- A job with a frozen contract. -/
def readyJob : Row := .of [
  ("job_id", .text "job"),
  ("display_name", .text "resnet baseline"),
  ("description", .text ""),
  ("state", .text "READY"),
  ("requested_contract", .document "{}"),
  ("resolved_contract", .document "{}"),
  ("contract_hash", .text "contract"),
  ("created_at", .timestamp 0),
  ("frozen_at", .timestamp 1)]

theorem checks_hold_readyJob : readyJob "frozen_at" ≠ .null := by
  have reachable : Reachable initialSchema anyStatement
      (emptyDatabase.inserting [("jobs", readyJob)]) := by
    refine Reachable.empty.inserting (fun _ _ _ => trivial) ?_
    rw [initialSchema_eq]
    decide +kernel
  exact (checks_hold reachable).2.2.2.1 readyJob (List.mem_singleton.mpr rfl) rfl "frozen_at"
    (by decide)

end Pbl4.Migration
