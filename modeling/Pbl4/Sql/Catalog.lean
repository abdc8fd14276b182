/-
This file gives DDL statements their meaning on a PostgreSQL catalog. A catalog
is the list of relations of one namespace, in creation order: tables with their
rows, primary-key and secondary indexes, owned sequences, and any other relation
(a view, say) with the relations it depends on. A statement either fails, leaving
the catalog alone, or returns the new catalog.

A catalog carries two facts as fields: names are distinct, and whatever a relation
depends on is in the catalog. Every statement keeps both, so a foreign key never
dangles and an index never outlives its table.
-/

import Mathlib.Data.List.Basic
import Mathlib.Data.List.Nodup
import Pbl4.Sql.Schema

namespace Sql

/-! ### Relations -/

/-- The relations of a catalog. A table keeps its constraints and rows; an index, a
primary-key index and a serial column's sequence name the table that owns them. -/
inductive Relation where
  | table (definition : Table) (rows : List Row)
  | primaryIndex (holder : String)
  | index (definition : Index)
  | sequence (holder : String) (lastValue : Int)
  | other (dependencies : List String) (description : String)

/-- The relations of a catalog under their names. -/
abbrev Entries := List (String × Relation)

/-- The table that owns a relation: dropping the table drops the relation. -/
def Relation.owner : Relation → Option String
  | .primaryIndex holder => some holder
  | .index definition => some definition.table
  | .sequence holder _ => some holder
  | .table _ _ | .other _ _ => none

/-- The relations a relation depends on: its owner, or the targets of its foreign keys. -/
def Relation.dependsOn : Relation → List String
  | .table definition _ => definition.foreignKeys.map ForeignKey.target
  | .primaryIndex holder => [holder]
  | .index definition => [definition.table]
  | .sequence holder _ => [holder]
  | .other dependencies _ => dependencies

theorem Relation.owner_mem_dependsOn {relation : Relation} {name : String}
    (owned : relation.owner = some name) : name ∈ relation.dependsOn := by
  cases relation with
  | table definition rows => exact absurd owned (by simp [owner])
  | other dependencies description => exact absurd owned (by simp [owner])
  | primaryIndex holder => exact List.mem_singleton.mpr (Option.some.inj owned).symm
  | index definition => exact List.mem_singleton.mpr (Option.some.inj owned).symm
  | sequence holder lastValue => exact List.mem_singleton.mpr (Option.some.inj owned).symm

namespace Entries

/-- The names in use. -/
def names (entries : Entries) : List String := entries.map Prod.fst

/-- The definition of a table. -/
def findTable (entries : Entries) (name : String) : Option Table :=
  match entries.lookup name with
  | some (.table definition _) => some definition
  | _ => none

/-- The rows of a table. -/
def rows (entries : Entries) (name : String) : List Row :=
  match entries.lookup name with
  | some (.table _ rows) => rows
  | _ => []

/-- A name stands for a secondary index. -/
def hasIndex (entries : Entries) (name : String) : Bool :=
  match entries.lookup name with
  | some (.index _) => true
  | _ => false

/-- The tables and secondary indexes of a catalog, as the schema its rows are held to. -/
def schema (entries : Entries) : Schema where
  tables := entries.filterMap fun entry =>
    match entry.2 with
    | .table definition _ => some (entry.1, definition)
    | _ => none
  indexes := entries.filterMap fun entry =>
    match entry.2 with
    | .index definition => some definition
    | _ => none

end Entries

/-! ### What a table declaration creates -/

/-- The names of the constraints of a table. -/
def Table.constraintNames (table : Table) : List String :=
  table.primaryKey.name ::
    (table.foreignKeys.map ForeignKey.name ++ table.checks.map Check.name)

/-- Every name a declaration uses is declared once. -/
def Table.WellFormed (table : Table) : Prop :=
  (table.columns.map Column.name).Nodup ∧
  table.constraintNames.Nodup ∧
  table.primaryKey.columns ⊆ table.columns.map Column.name ∧
  (∀ key ∈ table.foreignKeys, key.columns ⊆ table.columns.map Column.name ∧
    key.columns.length = key.referenced.length) ∧
  ∀ check ∈ table.checks, check.condition.columns ⊆ table.columns.map Column.name

instance (table : Table) : Decidable table.WellFormed := inferInstanceAs (Decidable (_ ∧ _))

/-- The column type is an integer type, which a serial column needs. -/
def ColumnType.isInteger : ColumnType → Bool
  | .integer | .bigInteger => true
  | _ => false

/-- The serial columns of a table: an integer column of the primary key that is declared
`autoincrement`, or that is the whole primary key and no part of a foreign key. -/
def Table.serialColumns (table : Table) : List Column :=
  table.columns.filter fun column =>
    column.name ∈ table.primaryKey.columns ∧ column.type.isInteger = true ∧
      (column.autoincrement = true ∨ table.primaryKey.columns = [column.name] ∧
        ∀ key ∈ table.foreignKeys, column.name ∉ key.columns)

/-- The sequence PostgreSQL creates behind a serial column. -/
def sequenceName (table column : String) : String := table ++ "_" ++ column ++ "_seq"

/-- The relations a table declaration adds to the catalog. -/
def Table.relations (table : Table) (name : String) : Entries :=
  (name, .table table []) :: (table.primaryKey.name, .primaryIndex name) ::
    table.serialColumns.map fun column => (sequenceName name column.name, .sequence name 0)

/-- The columns an index reads. -/
def Index.columns (index : Index) : List String :=
  (index.keys.filterMap fun key =>
    match key with
    | .column name => some name
    | .constant _ => none) ++
  (index.predicate.map Condition.columns).getD []

/-! ### Statements -/

/-- The DDL statements of a migration. -/
inductive Ddl where
  | createTable (name : String) (table : Table)
  | createIndex (index : Index)
  | createForeignKey (source : String) (key : ForeignKey)
  | dropConstraint (name table : String)
  | dropIndex (name table : String)
  | dropTable (name : String)

/-- A foreign key may be declared: its target, which may be the declaring table itself, has
a primary key on exactly the referenced columns. -/
def Entries.Referable (entries : Entries) (key : ForeignKey) : Prop :=
  (entries.findTable key.target).map (fun target => target.primaryKey.columns) =
    some key.referenced

instance (entries : Entries) (key : ForeignKey) : Decidable (entries.Referable key) :=
  inferInstanceAs (Decidable (_ = _))

/-- Dropping a table drops the table and what it owns. -/
def Goes (table : String) (entry : String × Relation) : Prop :=
  entry.1 = table ∨ entry.2.owner = some table

instance (table : String) : DecidablePred (Goes table) := fun _ =>
  inferInstanceAs (Decidable (_ ∨ _))

/-- The names that dropping a table removes. -/
def Entries.dropped (entries : Entries) (table : String) : List String :=
  names (entries.filter fun entry => Goes table entry)

/-- Change the definition of one table. -/
def Relation.alter (change : Table → Table) : Relation → Relation
  | .table definition rows => .table (change definition) rows
  | relation => relation

/-- Change the definition of the table of the given name. -/
def Entries.alterTable (entries : Entries) (name : String) (change : Table → Table) : Entries :=
  entries.map fun entry => if entry.1 = name then (entry.1, entry.2.alter change) else entry

/-- Add a foreign key to a table. -/
def Table.addForeignKey (key : ForeignKey) (table : Table) : Table :=
  { table with foreignKeys := table.foreignKeys ++ [key] }

/-- Remove the foreign key of the given name from a table. -/
def Table.removeForeignKey (name : String) (table : Table) : Table :=
  { table with foreignKeys := table.foreignKeys.filter fun key => key.name ≠ name }

/-- The condition under which a statement succeeds. Nothing is dropped that a relation which
stays depends on: no statement uses `CASCADE`. -/
def Ddl.Succeeds (entries : Entries) : Ddl → Prop
  | .createTable name table =>
      table.WellFormed ∧ (table.relations name).names.Nodup ∧
      (∀ created ∈ (table.relations name).names, created ∉ entries.names) ∧
      ∀ key ∈ table.foreignKeys, (entries ++ table.relations name).Referable key
  | .createIndex index =>
      index.name ∉ entries.names ∧
      (∃ table ∈ entries.findTable index.table,
        index.columns ⊆ table.columns.map Column.name) ∧
      index.Separates (entries.rows index.table)
  | .createForeignKey source key =>
      (∃ table ∈ entries.findTable source, key.name ∉ table.constraintNames ∧
        key.columns ⊆ table.columns.map Column.name ∧
        key.columns.length = key.referenced.length) ∧
      entries.Referable key ∧
      ∀ row ∈ entries.rows source, key.Holds (entries.rows key.target) row
  | .dropConstraint name table =>
      ∃ definition ∈ entries.findTable table,
        name ∈ definition.foreignKeys.map ForeignKey.name
  | .dropIndex name _ =>
      entries.hasIndex name = true ∧ ∀ entry ∈ entries, name ∉ entry.2.dependsOn
  | .dropTable name =>
      (entries.findTable name).isSome = true ∧
      ∀ entry ∈ entries, ¬ Goes name entry →
        ∀ needed ∈ entry.2.dependsOn, needed ∉ entries.dropped name

/-- The catalog after a statement that succeeds. -/
def Ddl.effect (entries : Entries) : Ddl → Entries
  | .createTable name table => entries ++ table.relations name
  | .createIndex index => entries ++ [(index.name, .index index)]
  | .createForeignKey source key => entries.alterTable source (Table.addForeignKey key)
  | .dropConstraint name table => entries.alterTable table (Table.removeForeignKey name)
  | .dropIndex name _ => entries.filter fun entry => entry.1 ≠ name
  | .dropTable name => entries.filter fun entry => ¬ Goes name entry

instance (entries : Entries) : (statement : Ddl) → Decidable (statement.Succeeds entries)
  | .createTable _ _ => inferInstanceAs (Decidable (_ ∧ _))
  | .createIndex _ => inferInstanceAs (Decidable (_ ∧ _))
  | .createForeignKey _ _ => inferInstanceAs (Decidable (_ ∧ _))
  | .dropConstraint _ table =>
      inferInstanceAs (Decidable (∃ definition ∈ entries.findTable table, _))
  | .dropIndex _ _ => inferInstanceAs (Decidable (_ ∧ _))
  | .dropTable _ => inferInstanceAs (Decidable (_ ∧ _))

/-- Run one statement on a catalog; `none` is a failure. -/
def Ddl.apply (statement : Ddl) (entries : Entries) : Option Entries :=
  if statement.Succeeds entries then some (statement.effect entries) else none

/-- Run statements in order, stopping at the first failure. -/
def Entries.run (entries : Entries) : List Ddl → Option Entries
  | [] => some entries
  | statement :: rest => (statement.apply entries).bind fun next => run next rest

/-! ### Well-formed catalogs -/

/-- Whatever a relation depends on is in the catalog. -/
def Entries.Closed (entries : Entries) : Prop :=
  ∀ entry ∈ entries, ∀ needed ∈ entry.2.dependsOn, needed ∈ entries.names

/-- A catalog: relations under distinct names, with nothing dangling. -/
structure Catalog where
  entries : Entries
  distinct : entries.names.Nodup
  closed : entries.Closed

theorem Entries.mem_names_of_findTable {entries : Entries} {name : String} {table : Table}
    (found : table ∈ entries.findTable name) : name ∈ entries.names := by
  unfold findTable at found
  split at found
  · rename_i definition rows located
    obtain ⟨before, after, split, _⟩ := List.lookup_eq_some_iff.mp located
    rw [split]
    exact List.mem_map.mpr ⟨_, List.mem_append_right _ List.mem_cons_self, rfl⟩
  · exact absurd found (by simp)

theorem Entries.Referable.mem_names {entries : Entries} {key : ForeignKey}
    (referable : entries.Referable key) : key.target ∈ entries.names := by
  unfold Referable at referable
  cases found : entries.findTable key.target with
  | none => rw [found] at referable; exact absurd referable (by simp)
  | some table => exact mem_names_of_findTable found

theorem Entries.names_append (first second : Entries) :
    names (first ++ second) = first.names ++ second.names := List.map_append

theorem Entries.names_alterTable (entries : Entries) (name : String) (change : Table → Table) :
    (entries.alterTable name change).names = entries.names := by
  unfold names alterTable
  rw [List.map_map]
  refine List.map_congr_left fun entry _ => ?_
  show (if entry.1 = name then (entry.1, entry.2.alter change) else entry).1 = entry.1
  split <;> rfl

theorem Entries.names_filter_subset (entries : Entries) (keep : String × Relation → Bool) :
    names (entries.filter keep) ⊆ entries.names :=
  List.map_subset _ (List.filter_subset_self _)

/-- The names of a declared table's relations depend on the table or on its targets. -/
theorem Table.dependsOn_relations {table : Table} {name : String} {entry : String × Relation}
    (member : entry ∈ table.relations name) {needed : String}
    (depends : needed ∈ entry.2.dependsOn) :
    needed = name ∨ ∃ key ∈ table.foreignKeys, key.target = needed := by
  unfold relations at member
  rcases List.mem_cons.mp member with own | member
  · rw [own] at depends
    exact Or.inr (List.mem_map.mp depends)
  rcases List.mem_cons.mp member with primary | member
  · rw [primary] at depends
    exact Or.inl (List.mem_singleton.mp depends)
  · obtain ⟨column, _, rfl⟩ := List.mem_map.mp member
    exact Or.inl (List.mem_singleton.mp depends)

/-- Altering a table keeps a catalog closed when the altered table depends on nothing
outside the catalog. -/
theorem Entries.closed_alterTable {entries : Entries} (closed : entries.Closed) {name : String}
    {change : Table → Table} (targets : ∀ table : Table, ∀ key ∈ (change table).foreignKeys,
      key ∈ table.foreignKeys ∨ key.target ∈ entries.names) :
    (entries.alterTable name change).Closed := by
  intro entry member needed depends
  rw [names_alterTable]
  obtain ⟨old, oldMember, rfl⟩ := List.mem_map.mp member
  have unchanged := closed old oldMember needed
  split at depends
  · obtain ⟨label, relation⟩ := old
    cases relation with
    | table definition rows =>
      obtain ⟨key, keyMember, rfl⟩ := List.mem_map.mp depends
      rcases targets definition key keyMember with kept | inside
      · exact unchanged (List.mem_map.mpr ⟨key, kept, rfl⟩)
      · exact inside
    | primaryIndex holder => exact unchanged depends
    | index definition => exact unchanged depends
    | sequence holder lastValue => exact unchanged depends
    | other dependencies description => exact unchanged depends
  · exact unchanged depends

/-- A statement that succeeds keeps names distinct. -/
theorem Ddl.effect_distinct {statement : Ddl} {entries : Entries}
    (succeeds : statement.Succeeds entries) (distinct : entries.names.Nodup) :
    (statement.effect entries).names.Nodup := by
  cases statement with
  | createTable name table =>
    obtain ⟨_, ownDistinct, fresh, _⟩ := succeeds
    rw [effect, Entries.names_append]
    exact List.nodup_append'.mpr ⟨distinct, ownDistinct, fun old new member =>
      fresh old member new⟩
  | createIndex index =>
    rw [effect, Entries.names_append]
    refine List.nodup_append'.mpr ⟨distinct, List.nodup_singleton _, fun old new member => ?_⟩
    rw [List.mem_singleton.mp member] at new
    exact succeeds.1 new
  | createForeignKey source key => rwa [effect, Entries.names_alterTable]
  | dropConstraint name table => rwa [effect, Entries.names_alterTable]
  | dropIndex name table => exact distinct.sublist (List.filter_sublist.map _)
  | dropTable name => exact distinct.sublist (List.filter_sublist.map _)

/-- A statement that succeeds leaves nothing dangling. -/
theorem Ddl.effect_closed {statement : Ddl} {entries : Entries}
    (succeeds : statement.Succeeds entries) (closed : entries.Closed) :
    (statement.effect entries).Closed := by
  cases statement with
  | createTable name table =>
    obtain ⟨_, _, _, referable⟩ := succeeds
    intro entry member needed depends
    rcases List.mem_append.mp member with old | new
    · rw [effect, Entries.names_append]
      exact List.mem_append_left _ (closed entry old needed depends)
    · rcases table.dependsOn_relations new depends with own | ⟨key, keyMember, rfl⟩
      · rw [effect, Entries.names_append, own]
        exact List.mem_append_right _ List.mem_cons_self
      · exact (referable key keyMember).mem_names
  | createIndex index =>
    obtain ⟨_, ⟨table, found, _⟩, _⟩ := succeeds
    intro entry member needed depends
    rw [effect, Entries.names_append]
    refine List.mem_append_left _ ?_
    rcases List.mem_append.mp member with old | new
    · exact closed entry old needed depends
    · rw [List.mem_singleton.mp new] at depends
      rw [List.mem_singleton.mp depends]
      exact Entries.mem_names_of_findTable found
  | createForeignKey source key =>
    refine Entries.closed_alterTable closed fun table other member => ?_
    rcases List.mem_append.mp member with old | new
    · exact Or.inl old
    · rw [List.mem_singleton.mp new]
      exact Or.inr succeeds.2.1.mem_names
  | dropConstraint name table =>
    exact Entries.closed_alterTable closed fun _ _ member =>
      Or.inl (List.mem_of_mem_filter member)
  | dropIndex name table =>
    intro entry member needed depends
    have old := List.mem_of_mem_filter member
    obtain ⟨target, targetMember, rfl⟩ := List.mem_map.mp (closed entry old needed depends)
    refine List.mem_map.mpr ⟨target, List.mem_filter.mpr ⟨targetMember, ?_⟩, rfl⟩
    refine decide_eq_true fun same => succeeds.2 entry old ?_
    rwa [← same]
  | dropTable name =>
    intro entry member needed depends
    obtain ⟨old, stays⟩ := List.mem_filter.mp member
    obtain ⟨target, targetMember, rfl⟩ := List.mem_map.mp (closed entry old needed depends)
    have kept := succeeds.2 entry old (of_decide_eq_true stays) target.1 depends
    refine List.mem_map.mpr ⟨target, List.mem_filter.mpr ⟨targetMember, ?_⟩, rfl⟩
    refine decide_eq_true fun goes => kept ?_
    exact List.mem_map.mpr ⟨target, List.mem_filter.mpr ⟨targetMember, decide_eq_true goes⟩, rfl⟩

/-- Run one statement on a well-formed catalog. -/
def Catalog.apply (catalog : Catalog) (statement : Ddl) : Option Catalog :=
  if succeeds : statement.Succeeds catalog.entries then
    some {
      entries := statement.effect catalog.entries
      distinct := statement.effect_distinct succeeds catalog.distinct
      closed := statement.effect_closed succeeds catalog.closed }
  else none

/-- Run statements on a well-formed catalog in order, stopping at the first failure. -/
def Catalog.run (catalog : Catalog) : List Ddl → Option Catalog
  | [] => some catalog
  | statement :: rest => (catalog.apply statement).bind fun next => run next rest

@[ext]
theorem Catalog.ext {first second : Catalog} (same : first.entries = second.entries) :
    first = second := by
  cases first
  cases second
  congr

/-- Running statements on a well-formed catalog is running them on its relations. -/
theorem Catalog.entries_run (catalog : Catalog) (statements : List Ddl) :
    (catalog.run statements).map Catalog.entries = catalog.entries.run statements := by
  induction statements generalizing catalog with
  | nil => rfl
  | cons statement rest inductionHypothesis =>
    unfold run Entries.run Catalog.apply Ddl.apply
    split
    · exact inductionHypothesis _
    · rfl

end Sql
