/-
This file says which statements the migration's tables accept. In every reachable state
the verdict depends on the row that is written and the rows that refer to it: an insert
is accepted when its row fits and finds what it refers to, an update when besides no
reference to the old row is lost, a delete when no other row refers to its row.
-/

import Pbl4.Migration.ResumeLineage
import Pbl4.Sql.Incremental

namespace Pbl4.Migration

open Sql

theorem keyed_initialSchema : initialSchema.Keyed := by
  rw [initialSchema_eq]
  constructor <;> decide +kernel

/-! ### The checks of one statement -/

/-- What is checked of one statement, in a state that satisfies the constraints. -/
def RowChecks (database : Database) : Statement → Prop
  | .insert name row => ∃ table, (name, table) ∈ initialSchema.tables ∧
      initialSchema.Fits table name (database name) row ∧
        ∀ key ∈ table.foreignKeys,
          key.Holds ((Statement.insert name row).write database key.target) row
  | .update name position row => ∃ table, (name, table) ∈ initialSchema.tables ∧
      ∀ old ∈ (database name)[position]?,
        initialSchema.Fits table name ((database name).eraseIdx position) row ∧
          (∀ key ∈ table.foreignKeys,
            key.Holds ((Statement.update name position row).write database key.target) row) ∧
          ((∃ source, initialSchema.Links database source (name, old)) →
            keyOf table.primaryKey.columns row = keyOf table.primaryKey.columns old)
  | .delete name position => ∃ table, (name, table) ∈ initialSchema.tables ∧
      ∀ row ∈ (database name)[position]?, ∀ source,
        ¬ initialSchema.Links database source (name, row)

/-- A statement at a position past the rows changes nothing. -/
theorem write_of_none {database : Database} {name : String} {position : Nat}
    (none : (database name)[position]? = none) (row : Row) :
    (Statement.update name position row).write database = database ∧
      (Statement.delete name position).write database = database := by
  refine ⟨?_, Statement.write_delete_of_none none⟩
  unfold Statement.write
  rw [Function.update_eq_self_iff]
  exact List.set_eq_of_length_le (List.getElem?_eq_none_iff.mp none)

section Accepted

variable {database : Database} (accepted : initialSchema.Accepts database) {name : String}
  {table : Table} (declared : (name, table) ∈ initialSchema.tables) (position : Nat)

include accepted declared

theorem accepts_update_iff (row : Row) :
    initialSchema.Accepts ((Statement.update name position row).write database) ↔
      ∀ old ∈ (database name)[position]?,
        initialSchema.Fits table name ((database name).eraseIdx position) row ∧
          (∀ key ∈ table.foreignKeys,
            key.Holds ((Statement.update name position row).write database key.target) row) ∧
          ((∃ source, initialSchema.Links database source (name, old)) →
            keyOf table.primaryKey.columns row = keyOf table.primaryKey.columns old) := by
  cases found : (database name)[position]? with
  | none =>
    rw [(write_of_none found row).1]
    exact ⟨fun _ _ absent => absurd absent (by simp), fun _ => accepted⟩
  | some old =>
    rw [accepted.update_iff keyed_initialSchema declared found]
    exact ⟨fun checks _ same => Option.some.inj same ▸ checks, fun checks => checks old rfl⟩

theorem accepts_delete_iff :
    initialSchema.Accepts ((Statement.delete name position).write database) ↔
      ∀ row ∈ (database name)[position]?, ∀ source,
        ¬ initialSchema.Links database source (name, row) := by
  cases found : (database name)[position]? with
  | none =>
    rw [Statement.write_delete_of_none found]
    exact ⟨fun _ _ absent => absurd absent (by simp), fun _ => accepted⟩
  | some row =>
    rw [accepted.delete_iff keyed_initialSchema
      (List.mem_map.mpr ⟨(name, table), declared, rfl⟩) found]
    exact ⟨fun checks _ same => Option.some.inj same ▸ checks, fun checks => checks row rfl⟩

end Accepted

/-- In every state a run reaches, a statement is accepted exactly when its row passes the
checks. -/
theorem execute_iff {database : Database}
    (reachable : Reachable initialSchema anyStatement database) (statement : Statement) :
    initialSchema.execute database statement = some (statement.write database) ↔
      RowChecks database statement := by
  have split : initialSchema.execute database statement = some (statement.write database) ↔
      ∃ table, (statement.table, table) ∈ initialSchema.tables ∧
        initialSchema.Accepts (statement.write database) := by
    rw [Schema.execute_eq_some]
    constructor
    · rintro ⟨declared, valid, _⟩
      obtain ⟨table, member⟩ := declared.exists_table
      exact ⟨table, member, valid⟩
    · rintro ⟨table, member, valid⟩
      exact ⟨List.mem_map.mpr ⟨_, member, rfl⟩, valid, rfl⟩
  rw [split]
  cases statement with
  | insert name row =>
    exact exists_congr fun table => and_congr_right fun declared =>
      reachable.accepted.insert_iff keyed_initialSchema declared
  | update name position row =>
    exact exists_congr fun table => and_congr_right fun declared =>
      accepts_update_iff reachable.accepted declared position row
  | delete name position =>
    exact exists_congr fun table => and_congr_right fun declared =>
      accepts_delete_iff reachable.accepted declared position

/-- The attempt of `resumedRows` that resumes from the checkpoint. -/
def resumingAttempt : Row := attemptRow "second" "RESUME" "CREATED" (.text "checkpoint")

/-- The attempt that resumes may be deleted, the checkpoint it resumes from may not. -/
theorem execute_iff_resumedRows :
    (∀ source, ¬ initialSchema.Links (emptyDatabase.inserting resumedRows) source
      ("attempts", resumingAttempt)) ∧
    initialSchema.execute (emptyDatabase.inserting resumedRows) (.delete "checkpoints" 0) ≠
      some ((Statement.delete "checkpoints" 0).write (emptyDatabase.inserting resumedRows)) := by
  have reachable : Reachable initialSchema anyStatement (emptyDatabase.inserting resumedRows) :=
    reachable_resumedRows.mono fun _ _ _ => trivial
  have attempt : (emptyDatabase.inserting resumedRows "attempts")[1]? = some resumingAttempt :=
    rfl
  have checkpoint : (emptyDatabase.inserting resumedRows "checkpoints")[0]? =
      some (resumedRows[2]).2 := rfl
  constructor
  · obtain ⟨_, _, unlinked⟩ := (execute_iff reachable (.delete "attempts" 1)).mp (by
      rw [initialSchema_eq]
      exact Schema.execute_eq_some.mpr ⟨by decide, by decide +kernel, rfl⟩)
    exact unlinked _ attempt
  · intro executed
    obtain ⟨_, _, unlinked⟩ := (execute_iff reachable (.delete "checkpoints" 0)).mp executed
    refine unlinked _ checkpoint ("attempts", resumingAttempt) ⟨List.mem_of_getElem? attempt,
      List.mem_of_getElem? checkpoint, ?_, ?_⟩
    · exact fun same => absurd (Prod.mk.inj same).1 (by decide)
    · rw [initialSchema_eq]
      decide +kernel

end Pbl4.Migration
