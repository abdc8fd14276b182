/-
This file shows that the constraints need not be checked from scratch. In a database
that satisfies a schema, an `INSERT` or `UPDATE` is accepted exactly when the stored row
fits beside the other rows of its table, its foreign keys find their targets, and, for
an update, rows that refer to the replaced row still find its primary key: what an
engine checks row by row is what the whole database has to satisfy.
-/

import Pbl4.Sql.Reference

namespace Sql

/-! ### The checks of one row -/

/-- A row fits beside other rows of its table: types and `CHECK`, a fresh primary key, and no
collision in a unique index. -/
structure Schema.Fits (schema : Schema) (table : Table) (name : String) (others : List Row)
    (row : Row) : Prop where
  admitted : table.Admits row
  fresh : keyOf table.primaryKey.columns row ∉ others.map (keyOf table.primaryKey.columns)
  separated : ∀ index ∈ schema.indexes, index.table = name → index.unique = true →
    index.Covers row → ∀ other ∈ others, index.Covers other → ¬ index.Collide row other

theorem ForeignKey.Holds.mono {key : ForeignKey} {target larger : List Row} {row : Row}
    (part : target ⊆ larger) (holds : key.Holds target row) : key.Holds larger row :=
  holds.imp_right fun ⟨other, member, agrees⟩ => ⟨other, part member, agrees⟩

/-- A table is declared once. -/
theorem Schema.Keyed.table_unique {schema : Schema} (keyed : schema.Keyed) {name : String}
    {table : Table} (declared : (name, table) ∈ schema.tables) {entry : String × Table}
    (member : entry ∈ schema.tables) (home : entry.1 = name) : entry = (name, table) :=
  List.inj_on_of_nodup_map keyed.distinct member declared home

/-- What a foreign key to a table refers to is the primary key of the table. -/
theorem Schema.Keyed.referenced_eq {schema : Schema} (keyed : schema.Keyed) {name : String}
    {table : Table} (declared : (name, table) ∈ schema.tables) {entry : String × Table}
    (member : entry ∈ schema.tables) {key : ForeignKey} (keyMember : key ∈ entry.2.foreignKeys)
    (aims : key.target = name) : key.referenced = table.primaryKey.columns := by
  obtain ⟨target, targetMember, home, primary⟩ := keyed.primary entry member key keyMember
  obtain rfl := keyed.table_unique declared targetMember (home.trans aims)
  exact primary.symm

section Row

variable {schema : Schema} {database : Database} {name : String} {table : Table} {row : Row}
  (keyed : schema.Keyed) (accepted : schema.Accepts database)
  (declared : (name, table) ∈ schema.tables)

include keyed accepted declared

/-- A database that differs from an accepted one in one row is accepted when the row fits beside
the others and every foreign key holds. -/
theorem Schema.Accepts.cons_iff {others : List Row} (part : others.Sublist (database name))
    {after : Database} (stores : (after name).Perm (row :: others))
    (frame : ∀ label, label ≠ name → after label = database label) :
    schema.Accepts after ↔ schema.Fits table name others row ∧
      ∀ entry ∈ schema.tables, ∀ key ∈ entry.2.foreignKeys, ∀ stored ∈ after entry.1,
        key.Holds (after key.target) stored := by
  have symmetric : ∀ {index : Index} {first second : Row}, ¬ index.Collide first second →
      ¬ index.Collide second first := fun apart collide =>
    apart ⟨collide.1.symm, collide.1 ▸ collide.2⟩
  constructor
  · intro valid
    refine ⟨⟨valid.admitted _ declared row (stores.mem_iff.mpr List.mem_cons_self), ?_, ?_⟩,
      valid.referenced⟩
    · have distinct := (stores.map (keyOf table.primaryKey.columns)).nodup_iff.mp
        (valid.distinct _ declared)
      exact (List.nodup_cons.mp distinct).1
    · rintro index member rfl unique covered other otherMember otherCovered
      have apart := ((stores.filter _).pairwise_iff symmetric).mp
        (valid.separated index member unique)
      rw [List.filter_cons_of_pos (by simpa using covered)] at apart
      exact (List.pairwise_cons.mp apart).1 other
        (List.mem_filter.mpr ⟨otherMember, decide_eq_true otherCovered⟩)
  · rintro ⟨fits, referenced⟩
    refine ⟨fun entry member stored storedMember => ?_, fun entry member => ?_, referenced,
      fun index member unique => ?_⟩
    · by_cases home : entry.1 = name
      · obtain rfl := keyed.table_unique declared member home
        rcases List.mem_cons.mp (stores.mem_iff.mp storedMember) with rfl | old
        · exact fits.admitted
        · exact accepted.admitted _ member stored (part.subset old)
      · exact accepted.admitted entry member stored (frame _ home ▸ storedMember)
    · by_cases home : entry.1 = name
      · obtain rfl := keyed.table_unique declared member home
        refine (stores.map _).nodup_iff.mpr (List.nodup_cons.mpr ⟨fits.fresh, ?_⟩)
        exact (accepted.distinct _ member).sublist (part.map _)
      · rw [frame _ home]
        exact accepted.distinct entry member
    · by_cases home : index.table = name
      · subst home
        refine ((stores.filter _).pairwise_iff symmetric).mpr ?_
        have rest := (accepted.separated index member unique).sublist (part.filter _)
        by_cases covered : index.Covers row
        · rw [List.filter_cons_of_pos (by simpa using covered)]
          refine List.pairwise_cons.mpr ⟨fun other otherMember => ?_, rest⟩
          obtain ⟨listed, otherCovered⟩ := List.mem_filter.mp otherMember
          exact fits.separated index member rfl unique covered other listed
            (of_decide_eq_true otherCovered)
        · rwa [List.filter_cons_of_neg (by simpa using covered)]
      · rw [frame _ home]
        exact accepted.separated index member unique

/-- An `INSERT` is accepted exactly when the row fits beside the rows of its table and its foreign
keys hold, the row itself included among their targets. -/
theorem Schema.Accepts.insert_iff :
    schema.Accepts ((Statement.insert name row).write database) ↔
      schema.Fits table name (database name) row ∧ ∀ key ∈ table.foreignKeys,
        key.Holds ((Statement.insert name row).write database key.target) row := by
  have written : (Statement.insert name row).write database name = database name ++ [row] :=
    Statement.write_table _ database
  have frame : ∀ label, label ≠ name →
      (Statement.insert name row).write database label = database label := fun _ other =>
    Statement.write_of_ne _ _ other
  have grows : ∀ label, database label ⊆ (Statement.insert name row).write database label := by
    intro label
    by_cases home : label = name
    · subst home
      exact written ▸ List.subset_append_left _ _
    · rw [frame label home]
      exact List.Subset.refl _
  rw [accepted.cons_iff keyed declared (List.Sublist.refl _)
    (written ▸ List.perm_append_singleton _ _) frame]
  refine and_congr_right fun _ => ⟨fun referenced key member => ?_, fun holds => ?_⟩
  · exact referenced _ declared key member row
      (written ▸ List.mem_append_right _ (List.mem_singleton.mpr rfl))
  · intro entry member key keyMember stored storedMember
    rcases Statement.mem_write storedMember with old | new
    · exact (accepted.referenced entry member key keyMember stored old).mono (grows _)
    · obtain ⟨home, rfl⟩ := Prod.mk.inj (Option.some.inj new)
      obtain rfl := keyed.table_unique declared member home.symm
      exact holds key keyMember

end Row

/-! ### The rows after an update -/

section Update

variable {schema : Schema} {database : Database} {name : String} {table : Table} {row old : Row}
  {position : Nat} (keyed : schema.Keyed) (accepted : schema.Accepts database)
  (declared : (name, table) ∈ schema.tables) (found : (database name)[position]? = some old)

include found

theorem Database.perm_of_found :
    (old :: (database name).eraseIdx position).Perm (database name) := by
  obtain ⟨bound, rfl⟩ := List.getElem?_eq_some_iff.mp found
  exact List.getElem_cons_eraseIdx_perm bound

theorem Statement.update_perm : ((Statement.update name position row).write database name).Perm
    (row :: (database name).eraseIdx position) := by
  obtain ⟨bound, -⟩ := List.getElem?_eq_some_iff.mp found
  rw [show (Statement.update name position row).write database name =
    (database name).set position row from Statement.write_table _ database]
  exact List.set_perm_cons_eraseIdx bound row

/-- Every row but the replaced one is still stored. -/
theorem Statement.mem_update_of_ne {label : String} {other : Row} (member : other ∈ database label)
    (different : (label, other) ≠ (name, old)) :
    other ∈ (Statement.update name position row).write database label := by
  by_cases home : label = name
  · subst home
    rcases List.mem_cons.mp ((Database.perm_of_found found).mem_iff.mpr member) with rfl | rest
    · exact absurd rfl different
    · exact (Statement.update_perm found).mem_iff.mpr (List.mem_cons_of_mem _ rest)
  · rwa [Statement.write_of_ne _ _ home]

include accepted declared in
/-- The primary key of the replaced row is the key of no other. -/
theorem Schema.Accepts.key_ne_of_found {other : Row}
    (member : other ∈ (database name).eraseIdx position) :
    keyOf table.primaryKey.columns other ≠ keyOf table.primaryKey.columns old := fun agree =>
  have distinct := ((Database.perm_of_found found).map _).nodup_iff.mpr
    (accepted.distinct _ declared)
  (List.nodup_cons.mp distinct).1 (List.mem_map.mpr ⟨other, member, agree⟩)

include accepted declared in
/-- A row stored after an update is the new one, or it was stored before and is not the replaced
one. -/
theorem Schema.Accepts.mem_of_update {label : String} {stored : Row}
    (member : stored ∈ (Statement.update name position row).write database label)
    (different : (label, stored) ≠ (name, row)) :
    stored ∈ database label ∧ (label, stored) ≠ (name, old) := by
  by_cases home : label = name
  · subst home
    rcases List.mem_cons.mp ((Statement.update_perm found).mem_iff.mp member) with rfl | other
    · exact absurd rfl different
    · refine ⟨(Database.perm_of_found found).mem_iff.mp (List.mem_cons_of_mem _ other),
        fun pair => ?_⟩
      exact accepted.key_ne_of_found declared found other (congrArg _ (Prod.mk.inj pair).2)
  · rw [Statement.write_of_ne _ _ home] at member
    exact ⟨member, fun pair => home (Prod.mk.inj pair).1⟩

include keyed accepted declared

/-- When every foreign key holds after an update and some other row referred to the replaced row,
the primary key is kept. -/
theorem Schema.Accepts.key_of_referenced
    (referenced : ∀ entry ∈ schema.tables, ∀ key ∈ entry.2.foreignKeys,
      ∀ stored ∈ (Statement.update name position row).write database entry.1,
        key.Holds ((Statement.update name position row).write database key.target) stored)
    (linked : ∃ source, schema.Links database source (name, old)) :
    keyOf table.primaryKey.columns row = keyOf table.primaryKey.columns old := by
  obtain ⟨source, stored, _, distinct, entry, member, label, key, keyMember, aims, present,
    agrees⟩ := linked
  have still : source.2 ∈ (Statement.update name position row).write database source.1 :=
    Statement.mem_update_of_ne found stored distinct
  rcases referenced entry member key keyMember source.2 (label ▸ still) with
    ⟨column, columnMember, null⟩ | ⟨target, targetMember, finds⟩
  · exact absurd null (present column columnMember)
  · rw [aims] at targetMember
    rw [keyed.referenced_eq declared member keyMember aims] at agrees finds
    rcases List.mem_cons.mp ((Statement.update_perm found).mem_iff.mp targetMember) with rfl | other
    · exact finds.symm.trans agrees
    · exact absurd (finds.symm.trans agrees) (accepted.key_ne_of_found declared found other)

/-- A foreign key of a row that an update does not store holds after it, if the update keeps the
primary key of a row that others refer to. -/
theorem Schema.Accepts.holds_of_update
    (keeps : (∃ source, schema.Links database source (name, old)) →
      keyOf table.primaryKey.columns row = keyOf table.primaryKey.columns old)
    {entry : String × Table} (member : entry ∈ schema.tables) {key : ForeignKey}
    (keyMember : key ∈ entry.2.foreignKeys) {stored : Row}
    (storedMember : stored ∈ database entry.1)
    (different : (entry.1, stored) ≠ (name, old)) :
    key.Holds ((Statement.update name position row).write database key.target) stored := by
  rcases accepted.referenced entry member key keyMember stored storedMember with
    null | ⟨target, targetMember, agrees⟩
  · exact Or.inl null
  · by_cases replaced : (key.target, target) = (name, old)
    · obtain ⟨aims, rfl⟩ := Prod.mk.inj replaced
      by_cases present : ∀ column ∈ key.columns, stored column ≠ .null
      · have sameKey := keeps ⟨(entry.1, stored), storedMember, aims ▸ targetMember, different,
          entry, member, rfl, key, keyMember, aims, present, agrees⟩
        refine Or.inr ⟨row, ?_, ?_⟩
        · rw [aims]
          exact (Statement.update_perm found).mem_iff.mpr List.mem_cons_self
        · rw [agrees, keyed.referenced_eq declared member keyMember aims, sameKey]
      · obtain ⟨column, columnMember, null⟩ : ∃ column ∈ key.columns, stored column = .null := by
          simpa using present
        exact Or.inl ⟨column, columnMember, null⟩
    · exact Or.inr ⟨target, Statement.mem_update_of_ne found targetMember replaced, agrees⟩

/-- An `UPDATE` is accepted exactly when the new row fits beside the other rows of its table, its
foreign keys hold, and it keeps the primary key if some other row refers to the old one. -/
theorem Schema.Accepts.update_iff :
    schema.Accepts ((Statement.update name position row).write database) ↔
      schema.Fits table name ((database name).eraseIdx position) row ∧
        (∀ key ∈ table.foreignKeys,
          key.Holds ((Statement.update name position row).write database key.target) row) ∧
        ((∃ source, schema.Links database source (name, old)) →
          keyOf table.primaryKey.columns row = keyOf table.primaryKey.columns old) := by
  rw [accepted.cons_iff keyed declared (List.eraseIdx_sublist _ _) (Statement.update_perm found)
    fun _ other => Statement.write_of_ne _ _ other]
  refine and_congr_right fun _ => ⟨fun referenced => ⟨fun key member => ?_, ?_⟩, ?_⟩
  · exact referenced _ declared key member row
      ((Statement.update_perm found).mem_iff.mpr List.mem_cons_self)
  · exact accepted.key_of_referenced keyed declared found referenced
  · rintro ⟨holds, keeps⟩ entry member key keyMember stored storedMember
    by_cases new : (entry.1, stored) = (name, row)
    · obtain ⟨home, rfl⟩ := Prod.mk.inj new
      obtain rfl := keyed.table_unique declared member home
      exact holds key keyMember
    · obtain ⟨before, different⟩ := accepted.mem_of_update declared found storedMember new
      exact accepted.holds_of_update keyed declared found keeps member keyMember before different

end Update

end Sql
