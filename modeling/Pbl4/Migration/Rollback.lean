/-
This file is about running the migration where other things live. `upgrade()` succeeds
exactly where the names it creates are free, and so never twice. `downgrade()` succeeds,
whatever data the tables hold and whatever was created beside them, exactly when nothing
that stays depends on what goes: then the tables go with all that hangs on them, and
everything else is left as it was.
-/

import Pbl4.Migration.RoundTrip
import Pbl4.Sql.Server

namespace Pbl4.Migration

open Sql

/-! ### The migration's relations -/

theorem upgrade_creates : ∀ statement ∈ upgrade, ¬ statement.Drops := by decide

/-- The migration's relations make a catalog. -/
theorem exists_initialCatalog : ∃ catalog : Catalog, catalog.entries = initialEntries := by
  let empty : Catalog :=
    ⟨[], List.nodup_nil, fun _ member => absurd member List.not_mem_nil⟩
  have ran : (empty.run upgrade).map Catalog.entries = some initialEntries :=
    (empty.entries_run upgrade).trans run_upgrade_empty
  obtain ⟨catalog, _, entries⟩ := Option.map_eq_some_iff.mp ran
  exact ⟨catalog, entries⟩

theorem nodup_initialEntries : initialEntries.names.Nodup := by
  obtain ⟨catalog, entries⟩ := exists_initialCatalog
  exact entries ▸ catalog.distinct

theorem closed_initialEntries : initialEntries.Closed := by
  obtain ⟨catalog, entries⟩ := exists_initialCatalog
  exact entries ▸ catalog.closed

theorem names_initialEntries : initialEntries.names = createdNames :=
  Entries.names_of_run upgrade_creates run_upgrade_empty

theorem datasets_created : "datasets" ∈ createdNames :=
  List.mem_flatMap.mpr ⟨.createTable "datasets" datasets, List.mem_cons_self, List.mem_cons_self⟩

/-! ### Upgrading -/

theorem downgrade_dropsIn : ∀ statement ∈ downgrade, statement.DropsIn createdNames :=
  fun statement member => Ddl.dropsIn_of_mentions (downgrade_drops statement member)
    (mentions_downgrade_subset statement member)

/-- Data leaves the migration's relations closed. -/
theorem closed_store (contents : String → List Row) (positions : String → Int) :
    (initialEntries.store createdNames contents positions).Closed := by
  unfold Entries.Closed
  rw [Entries.forall_mem_store]
  intro entry member needed depends
  rw [storeEntry_dependsOn] at depends
  rw [Entries.names_store]
  exact closed_initialEntries entry member needed depends

theorem findTable_initialEntries :
    ∀ name ∈ droppedTables downgrade, (initialEntries.findTable name).isSome = true := by
  have declared : ∀ name ∈ droppedTables downgrade, initialSchema.Declares name := by
    rw [initialSchema_eq]
    decide
  exact fun name member => (Entries.declares_iff nodup_initialEntries).mp (declared name member)

section Installed

variable {catalog : Catalog} {contents : String → List Row} {positions : String → Int}
  (installed : catalog.entries.within createdNames =
    initialEntries.store createdNames contents positions)

include installed

theorem run_downgrade_within : (catalog.entries.within createdNames).run downgrade = some [] := by
  rw [installed, Entries.run_store _ _ _ downgrade downgrade_drops, run_downgrade_initialEntries]
  rfl

/-- Where the migration is installed, its relations can be removed when the rest is
detachable. -/
theorem removable_of_detachable
    (detachable : catalog.entries.Detachable createdNames (droppedTables downgrade)) :
    catalog.entries.Removable createdNames (droppedTables downgrade) := by
  refine ⟨catalog.distinct, ?_, detachable, fun _ _ _ holder isTable _ => ?_⟩
  · exact installed ▸ closed_store contents positions
  · have found : ((catalog.entries.within createdNames).findTable holder).isSome = true := by
      rw [installed, Entries.findTable_store]
      exact findTable_initialEntries holder isTable
    obtain ⟨definition, rows, member⟩ := Entries.exists_table found
    exact ⟨definition, rows, (Entries.mem_within.mp member).1⟩

/-- Where the migration is installed, with any data in its tables and anything else beside them,
`downgrade()` succeeds exactly when every other relation hangs on one of its tables or depends
neither on its relations nor on what hangs on its tables. It then leaves the others exactly as
they were. -/
theorem downgrade_succeeds_iff :
    ((∃ result, catalog.run downgrade = some result) ↔
      catalog.entries.Detachable createdNames (droppedTables downgrade)) ∧
    ∀ result, catalog.run downgrade = some result →
      result.entries = (catalog.entries.beyond createdNames).filter fun entry =>
        ∀ holder ∈ droppedTables downgrade, entry.2.owner ≠ some holder := by
  have alone := run_downgrade_within installed
  have emptied := (Entries.eq_effects alone).symm
  refine ⟨⟨fun ⟨_, ran⟩ => Catalog.detachable_of_run downgrade_dropsIn emptied ran,
    fun detachable => ?_⟩, fun result ran => ?_⟩
  · have ran := (removable_of_detachable installed detachable).run downgrade_dropsIn
      (List.Subset.refl _) alone
    rw [← catalog.entries_run] at ran
    obtain ⟨result, run, _⟩ := Option.map_eq_some_iff.mp ran
    exact ⟨result, run⟩
  · exact Catalog.entries_of_run downgrade_dropsIn emptied ran

end Installed

/-- The migration's relations with empty tables, and a view on the jobs. -/
def reportedCatalog : Catalog where
  entries := initialEntries.store createdNames (fun _ => []) (fun _ => 0) ++
    [("job_report", .other ["jobs"] "a view on the jobs")]
  distinct := by
    rw [Entries.names_append, Entries.names_store, names_initialEntries]
    decide +kernel
  closed := by
    have own := closed_store (fun _ => []) (fun _ => 0)
    have jobs : "jobs" ∈ initialEntries.names := by
      rw [names_initialEntries]
      decide +kernel
    intro entry member needed depends
    rw [Entries.names_append]
    refine List.mem_append_left _ ?_
    rcases List.mem_append.mp member with stored | view
    · exact own entry stored needed depends
    · rw [List.mem_singleton.mp view] at depends
      rw [List.mem_singleton.mp depends, Entries.names_store]
      exact jobs

/-- The view depends on a table that has to go. -/
theorem downgrade_succeeds_iff_reportedCatalog :
    ¬ ∃ result, reportedCatalog.run downgrade = some result := by
  have fresh : "job_report" ∉ createdNames ∧ "jobs" ∈ createdNames := by decide +kernel
  have installed : reportedCatalog.entries.within createdNames =
      initialEntries.store createdNames (fun _ => []) (fun _ => 0) := by
    show List.filter _ (_ ++ [_]) = _
    rw [List.filter_append, List.filter_eq_self.mpr,
      List.filter_cons_of_neg (by simpa using fresh.1)]
    · exact List.append_nil _
    · intro entry member
      refine decide_eq_true (names_initialEntries_subset ?_)
      rw [← Entries.names_store createdNames (fun _ => []) (fun _ => 0)]
      exact List.mem_map.mpr ⟨entry, member, rfl⟩
  rw [(downgrade_succeeds_iff installed).1]
  intro detachable
  rcases detachable ("job_report", .other ["jobs"] "a view on the jobs")
    (List.mem_append_right _ (List.mem_singleton.mpr rfl)) fresh.1 with ⟨_, _, owned⟩ | free
  · cases owned
  · exact (free "jobs" (List.mem_singleton.mpr rfl)).1 fresh.2

end Pbl4.Migration
