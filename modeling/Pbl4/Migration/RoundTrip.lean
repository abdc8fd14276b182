/-
This file proves that `downgrade()` undoes `upgrade()`. On every catalog that holds
none of the names `upgrade()` creates, all its statements succeed in order; whatever
rows the tables then hold and wherever the sequences stand, all statements of
`downgrade()` succeed in order, and the catalog is the one `upgrade()` started from.

The kernel evaluates one run on the relations the migration itself creates. The frame
rule carries that run to an arbitrary surrounding catalog, and the independence of
drops from the data carries it to arbitrary rows.
-/

import Pbl4.Migration.InitialSchema
import Pbl4.Sql.Frame

namespace Pbl4.Migration

open Sql

/-- The relation names `upgrade()` creates: tables, primary-key indexes, sequences of serial
columns, and secondary indexes. -/
def createdNames : List String := upgrade.flatMap Ddl.creates

/-! ### The run on the migration's own relations -/

theorem run_downgrade_initialEntries : initialEntries.run downgrade = some [] := by
  have emptied : (initialEntries.run downgrade).map List.isEmpty = some true := by
    decide +kernel
  cases run : initialEntries.run downgrade with
  | none => rw [run] at emptied; exact absurd emptied (by decide)
  | some entries =>
    rw [run, Option.map_some, Option.some_inj, List.isEmpty_iff] at emptied
    rw [emptied]

theorem names_initialEntries_subset : initialEntries.names ⊆ createdNames := by
  decide +kernel

/-! ### The run beside a surrounding catalog -/

theorem mentions_upgrade_subset : ∀ statement ∈ upgrade, statement.mentions ⊆ createdNames := by
  decide +kernel

theorem mentions_downgrade_subset :
    ∀ statement ∈ downgrade, statement.mentions ⊆ createdNames := by
  decide +kernel

theorem downgrade_drops : ∀ statement ∈ downgrade, statement.Drops := by
  decide

section Beside

variable {base : Entries}

/-- Beside a closed catalog without its names, `upgrade()` adds its own relations. -/
theorem run_upgrade (closed : base.Closed) (free : Avoids createdNames base) :
    base.run upgrade = some (base ++ initialEntries) := by
  have frame : Entries.run (base ++ []) upgrade = (Entries.run [] upgrade).map (base ++ ·) :=
    Entries.run_append closed upgrade (fun _ member => absurd member List.not_mem_nil)
      fun statement member name mentioned =>
        free name (mentions_upgrade_subset statement member mentioned)
  rwa [List.append_nil, run_upgrade_empty] at frame

/-- Beside a closed catalog without its names, `downgrade()` removes what `upgrade()` added,
whatever the data. -/
theorem run_downgrade (closed : base.Closed) (free : Avoids createdNames base)
    (contents : String → List Row) (positions : String → Int) :
    (base ++ initialEntries.store createdNames contents positions).run downgrade =
      some base := by
  have apart : Avoids (initialEntries.store createdNames contents positions).names base := by
    intro name member
    rw [Entries.names_store] at member
    exact free name (names_initialEntries_subset member)
  rw [Entries.run_append closed downgrade apart fun statement member name mentioned =>
      free name (mentions_downgrade_subset statement member mentioned),
    Entries.run_store _ _ _ downgrade downgrade_drops, run_downgrade_initialEntries]
  exact congrArg some (List.append_nil base)

end Beside

/-! ### The round trip -/

/-- On every catalog without the names `upgrade()` creates, `upgrade()` succeeds, and for any
data in its tables `downgrade()` then succeeds and gives the catalog back. -/
theorem downgrade_upgrade (catalog : Catalog) (free : Avoids createdNames catalog.entries) :
    ∃ upgraded, catalog.run upgrade = some upgraded ∧
      ∀ (contents : String → List Row) (positions : String → Int),
        (upgraded.store createdNames contents positions).run downgrade = some catalog := by
  have ran := catalog.entries_run upgrade
  rw [run_upgrade catalog.closed free] at ran
  obtain ⟨upgraded, run, entries⟩ := Option.map_eq_some_iff.mp ran
  refine ⟨upgraded, run, fun contents positions => ?_⟩
  have back := (upgraded.store createdNames contents positions).entries_run downgrade
  have stored : (upgraded.store createdNames contents positions).entries =
      catalog.entries ++ initialEntries.store createdNames contents positions := by
    show upgraded.entries.store createdNames contents positions = _
    rw [entries, Entries.store_append _ _ _ _ free]
  rw [stored, run_downgrade catalog.closed free contents positions] at back
  obtain ⟨final, finalRun, finalEntries⟩ := Option.map_eq_some_iff.mp back
  rw [finalRun, Catalog.ext finalEntries]

/-- The catalog of a database in which only the migration tool has a table. -/
def versionedCatalog : Catalog where
  entries := [
    ("alembic_version", .table
      { columns := [required "version_num" .text]
        primaryKey := ⟨["version_num"], "alembic_version_pkc"⟩ } []),
    ("alembic_version_pkc", .primaryIndex "alembic_version")]
  distinct := by decide
  closed := by
    unfold Entries.Closed
    decide

theorem downgrade_upgrade_versionedCatalog :
    ∃ upgraded, versionedCatalog.run upgrade = some upgraded ∧
      ∀ (contents : String → List Row) (positions : String → Int),
        (upgraded.store createdNames contents positions).run downgrade =
          some versionedCatalog := by
  have free : Avoids createdNames versionedCatalog.entries := by
    unfold Avoids
    decide +kernel
  exact downgrade_upgrade versionedCatalog free

end Pbl4.Migration
