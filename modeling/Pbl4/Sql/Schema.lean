/-
This file defines a relational schema and what it means for the contents of a
database to satisfy it: column types and `NOT NULL`, `CHECK`, `PRIMARY KEY`,
unique (partial) indexes and `FOREIGN KEY`. Foreign keys follow `MATCH SIMPLE`:
a reference with a null column is not checked. Every constraint is decidable, so
a concrete database can be evaluated against a concrete schema.
-/

import Mathlib.Data.List.Nodup
import Pbl4.Sql.Expression

namespace Sql

/-! ### Declarations -/

/-- A column declaration. -/
structure Column where
  name : String
  type : ColumnType
  nullable : Bool
  autoincrement : Bool := false
  deriving DecidableEq, Repr

/-- A primary key over some columns of its table. -/
structure PrimaryKey where
  columns : List String
  name : String
  deriving DecidableEq, Repr

/-- A foreign key: `columns` of the declaring table refer to `referenced` of `target`. -/
structure ForeignKey where
  columns : List String
  target : String
  referenced : List String
  name : String
  deriving DecidableEq, Repr

/-- A `CHECK` constraint. -/
structure Check where
  condition : Condition
  name : String
  deriving DecidableEq, Repr

/-- A table declaration. -/
structure Table where
  columns : List Column
  primaryKey : PrimaryKey
  foreignKeys : List ForeignKey := []
  checks : List Check := []
  deriving DecidableEq, Repr

/-- One key of an index: a column, or a constant expression. -/
inductive IndexKey where
  | column (name : String)
  | constant (value : Int)
  deriving DecidableEq, Repr

/-- A secondary index; a predicate makes it partial. -/
structure Index where
  name : String
  table : String
  keys : List IndexKey
  unique : Bool := false
  predicate : Option Condition := none
  deriving DecidableEq, Repr

/-- The tables of a schema under their names, and its secondary indexes. -/
structure Schema where
  tables : List (String × Table)
  indexes : List Index
  deriving DecidableEq, Repr

/-- The contents of a database: the rows of every table. -/
abbrev Database := String → List Row

/-! ### Constraints -/

/-- A row meets the declarations that concern it alone: types, `NOT NULL` and `CHECK`. -/
def Table.Admits (table : Table) (row : Row) : Prop :=
  (∀ column ∈ table.columns, (row column.name).conforms column.type = true ∧
    (row column.name = .null → column.nullable = true)) ∧
  ∀ check ∈ table.checks, check.condition.Passes row

/-- The values of a row at some columns. -/
def keyOf (columns : List String) (row : Row) : List Value :=
  columns.map row

/-- A foreign key holds of a row: some referring column is null, or the referenced columns
of a row of the target carry the same values. -/
def ForeignKey.Holds (key : ForeignKey) (target : List Row) (row : Row) : Prop :=
  (∃ column ∈ key.columns, row column = .null) ∨
    ∃ other ∈ target, keyOf key.columns row = keyOf key.referenced other

/-- The value of an index key on a row. -/
def IndexKey.eval (row : Row) : IndexKey → Value
  | .column name => row name
  | .constant value => .integer value

/-- The rows an index covers. -/
def Index.Covers (index : Index) (row : Row) : Prop :=
  ∀ condition ∈ index.predicate, condition.Selects row

instance (index : Index) : DecidablePred index.Covers := fun _ =>
  inferInstanceAs (Decidable (∀ condition ∈ index.predicate, _))

/-- Two rows collide in an index when their keys agree and hold no null. -/
def Index.Collide (index : Index) (first second : Row) : Prop :=
  index.keys.map (IndexKey.eval first) = index.keys.map (IndexKey.eval second) ∧
    Value.null ∉ index.keys.map (IndexKey.eval first)

/-- A unique index separates the rows it covers. -/
def Index.Separates (index : Index) (rows : List Row) : Prop :=
  index.unique = true →
    (rows.filter fun row => index.Covers row).Pairwise fun first second =>
      ¬ index.Collide first second

/-- The contents of a database satisfy every constraint of the schema. -/
structure Schema.Accepts (schema : Schema) (database : Database) : Prop where
  admitted : ∀ entry ∈ schema.tables, ∀ row ∈ database entry.1, entry.2.Admits row
  distinct : ∀ entry ∈ schema.tables,
    ((database entry.1).map (keyOf entry.2.primaryKey.columns)).Nodup
  referenced : ∀ entry ∈ schema.tables, ∀ key ∈ entry.2.foreignKeys,
    ∀ row ∈ database entry.1, key.Holds (database key.target) row
  separated : ∀ index ∈ schema.indexes, index.Separates (database index.table)

instance (table : Table) (row : Row) : Decidable (table.Admits row) :=
  inferInstanceAs (Decidable (_ ∧ _))

instance (key : ForeignKey) (target : List Row) (row : Row) :
    Decidable (key.Holds target row) :=
  inferInstanceAs (Decidable (_ ∨ _))

instance (index : Index) (first second : Row) : Decidable (index.Collide first second) :=
  inferInstanceAs (Decidable (_ ∧ _))

instance (index : Index) (rows : List Row) : Decidable (index.Separates rows) :=
  inferInstanceAs (Decidable (_ → _))

theorem Schema.accepts_iff (schema : Schema) (database : Database) :
    schema.Accepts database ↔
      (∀ entry ∈ schema.tables, ∀ row ∈ database entry.1, entry.2.Admits row) ∧
      (∀ entry ∈ schema.tables,
        ((database entry.1).map (keyOf entry.2.primaryKey.columns)).Nodup) ∧
      (∀ entry ∈ schema.tables, ∀ key ∈ entry.2.foreignKeys,
        ∀ row ∈ database entry.1, key.Holds (database key.target) row) ∧
      ∀ index ∈ schema.indexes, index.Separates (database index.table) :=
  ⟨fun ⟨admitted, distinct, referenced, separated⟩ =>
    ⟨admitted, distinct, referenced, separated⟩,
   fun ⟨admitted, distinct, referenced, separated⟩ =>
    ⟨admitted, distinct, referenced, separated⟩⟩

instance (schema : Schema) (database : Database) : Decidable (schema.Accepts database) :=
  decidable_of_iff' _ (schema.accepts_iff database)

/-! ### Reading constraints back -/

section Accepted

variable {schema : Schema} {database : Database} {name : String} {table : Table}

/-- Two rows of a table that agree on its primary key are the same row. -/
theorem Schema.Accepts.eq_of_key (accepted : schema.Accepts database)
    (declared : (name, table) ∈ schema.tables) {first second : Row}
    (firstMember : first ∈ database name) (secondMember : second ∈ database name)
    (agree : keyOf table.primaryKey.columns first = keyOf table.primaryKey.columns second) :
    first = second :=
  List.inj_on_of_nodup_map (accepted.distinct _ declared) firstMember secondMember agree

/-- A `NOT NULL` column holds no null. -/
theorem Schema.Accepts.ne_null (accepted : schema.Accepts database)
    (declared : (name, table) ∈ schema.tables) {column : Column}
    (member : column ∈ table.columns) (required : column.nullable = false) {row : Row}
    (rowMember : row ∈ database name) : row column.name ≠ .null := by
  intro null
  have nullable := ((accepted.admitted _ declared row rowMember).1 column member).2 null
  rw [required] at nullable
  exact absurd nullable (by decide)

/-- A foreign key without a null column finds its target row. -/
theorem Schema.Accepts.exists_target (accepted : schema.Accepts database)
    (declared : (name, table) ∈ schema.tables) (key : ForeignKey)
    (member : key ∈ table.foreignKeys) {row : Row} (rowMember : row ∈ database name)
    (present : ∀ column ∈ key.columns, row column ≠ .null) :
    ∃ target ∈ database key.target, keyOf key.columns row = keyOf key.referenced target := by
  rcases accepted.referenced _ declared key member row rowMember with null | found
  · obtain ⟨column, columnMember, columnNull⟩ := null
    exact absurd columnNull (present column columnMember)
  · exact found

end Accepted

/-- The empty tables satisfy every schema. -/
theorem Schema.accepts_empty (schema : Schema) : schema.Accepts fun _ => [] where
  admitted _ _ _ member := absurd member List.not_mem_nil
  distinct _ _ := List.nodup_nil
  referenced _ _ _ _ _ member := absurd member List.not_mem_nil
  separated _ _ _ := List.Pairwise.nil

end Sql
