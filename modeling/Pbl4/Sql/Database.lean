/-
This file runs single-row `INSERT`, `UPDATE` and `DELETE` statements against a
schema. A statement is accepted when the database it would leave satisfies every
constraint: primary keys, `CHECK` and unique indexes are immediate, and a
non-deferrable `NO ACTION` foreign key is compared with the tables as they stand
at the end of the statement, so a row may refer to itself. A rejected statement
changes nothing.

The induction over a run is packaged once, as `Reachable.invariant`. What one
statement does to the part of a table that a run may not update is said once as
well, in `Statement.project_cases`: it appends the key of an inserted row or drops
keys, and nothing else. For references between keyed rows this gives `edge_kept`: a
row that was there keeps its reference. The ancestry results of the migration are
read off those facts.
-/

import Mathlib.Data.List.Chain
import Mathlib.Logic.Function.Basic
import Pbl4.Sql.Schema

namespace Sql

/-! ### Statements -/

/-- A statement that writes at most one row. A row to update or delete is named by its
position in the table. -/
inductive Statement where
  | insert (table : String) (row : Row)
  | update (table : String) (position : Nat) (row : Row)
  | delete (table : String) (position : Nat)

/-- The table a statement writes. -/
def Statement.table : Statement → String
  | .insert table _ | .update table _ _ | .delete table _ => table

/-- The row a statement stores, with its table. -/
def Statement.stored : Statement → Option (String × Row)
  | .insert table row | .update table _ row => some (table, row)
  | .delete _ _ => none

/-- The rows of the written table after a statement. -/
def Statement.rewrite (rows : List Row) : Statement → List Row
  | .insert _ row => rows ++ [row]
  | .update _ position row => rows.set position row
  | .delete _ position => rows.eraseIdx position

/-- The database a statement would leave, constraints aside. -/
def Statement.write (statement : Statement) (database : Database) : Database :=
  Function.update database statement.table (statement.rewrite (database statement.table))

/-- A table is declared by the schema. -/
def Schema.Declares (schema : Schema) (name : String) : Prop :=
  name ∈ schema.tables.map Prod.fst

instance (schema : Schema) (name : String) : Decidable (schema.Declares name) :=
  inferInstanceAs (Decidable (_ ∈ _))

/-- Run one statement: `none` is a rejection. -/
def Schema.execute (schema : Schema) (database : Database) (statement : Statement) :
    Option Database :=
  if schema.Declares statement.table ∧ schema.Accepts (statement.write database) then
    some (statement.write database)
  else none

theorem Schema.execute_eq_some {schema : Schema} {database next : Database}
    {statement : Statement} :
    schema.execute database statement = some next ↔
      schema.Declares statement.table ∧ schema.Accepts (statement.write database) ∧
        statement.write database = next := by
  unfold execute
  split
  · rename_i valid
    rw [Option.some_inj]
    exact ⟨fun same => ⟨valid.1, valid.2, same⟩, fun whole => whole.2.2⟩
  · rename_i invalid
    constructor
    · intro accepted
      exact absurd accepted (by simp)
    · rintro ⟨declared, accepted, _⟩
      exact absurd ⟨declared, accepted⟩ invalid

/-! ### Runs -/

/-- The database with no rows. -/
def emptyDatabase : Database := fun _ => []

/-- The databases that runs of accepted statements reach from the empty tables, when every
statement is one that `permitted` lets through in the state it runs in. -/
inductive Reachable (schema : Schema) (permitted : Database → Statement → Prop) :
    Database → Prop
  | empty : Reachable schema permitted emptyDatabase
  | step {database next : Database} {statement : Statement}
      (before : Reachable schema permitted database) (allowed : permitted database statement)
      (accepted : schema.execute database statement = some next) :
      Reachable schema permitted next

/-- One accepted statement that `permitted` lets through. -/
def Schema.Step (schema : Schema) (permitted : Database → Statement → Prop)
    (before after : Database) : Prop :=
  ∃ statement, permitted before statement ∧ schema.execute before statement = some after

/-- A run as the list of its states, from the empty tables. -/
structure Schema.IsRun (schema : Schema) (permitted : Database → Statement → Prop)
    (states : List Database) : Prop where
  starts : states.head? = some emptyDatabase
  steps : states.IsChain (schema.Step permitted)

/-- Every statement may be submitted. -/
def anyStatement : Database → Statement → Prop := fun _ _ => True

section Runs

variable {schema : Schema} {permitted : Database → Statement → Prop} {database : Database}

/-- Reachable databases satisfy the schema. -/
theorem Reachable.accepted (reachable : Reachable schema permitted database) :
    schema.Accepts database := by
  cases reachable with
  | empty => exact schema.accepts_empty
  | step _ _ accepted =>
    obtain ⟨_, valid, same⟩ := Schema.execute_eq_some.mp accepted
    exact same ▸ valid

/-- What the empty tables satisfy and every permitted accepted statement preserves holds of
every reachable database. The step may use that both databases satisfy the schema. -/
theorem Reachable.invariant (property : Database → Prop) (initial : property emptyDatabase)
    (preserved : ∀ {before : Database} {statement : Statement}, schema.Accepts before →
      permitted before statement → schema.Accepts (statement.write before) →
      property before → property (statement.write before))
    (reachable : Reachable schema permitted database) : property database := by
  induction reachable with
  | empty => exact initial
  | step before allowed accepted inductionHypothesis =>
    obtain ⟨_, valid, same⟩ := Schema.execute_eq_some.mp accepted
    rw [← same]
    exact preserved before.accepted allowed valid inductionHypothesis

/-- The states of a run are reachable. -/
theorem Schema.IsRun.reachable {states : List Database} (run : schema.IsRun permitted states) :
    ∀ state ∈ states, Reachable schema permitted state := by
  have from_head : ∀ {states : List Database}, states.IsChain (schema.Step permitted) →
      (∀ state ∈ states.head?, Reachable schema permitted state) →
        ∀ state ∈ states, Reachable schema permitted state := by
    intro states steps
    induction steps with
    | nil => exact fun _ _ member => absurd member List.not_mem_nil
    | singleton first =>
      exact fun reachable state member => reachable state (List.mem_singleton.mp member ▸ rfl)
    | cons_cons step rest inductionHypothesis =>
      intro reachable state member
      obtain ⟨statement, allowed, executed⟩ := step
      have before := reachable _ rfl
      rcases List.mem_cons.mp member with rfl | later
      · exact before
      · exact inductionHypothesis (fun _ same => Option.some.inj same ▸
          .step before allowed executed) state later
  refine from_head run.steps fun state first => ?_
  rw [run.starts] at first
  exact Option.some.inj first ▸ .empty

/-- A permitted statement that leaves the schema satisfied extends a run. -/
theorem Reachable.write {statement : Statement}
    (before : Reachable schema permitted database) (allowed : permitted database statement)
    (declared : schema.Declares statement.table)
    (accepted : schema.Accepts (statement.write database)) :
    Reachable schema permitted (statement.write database) :=
  .step before allowed (Schema.execute_eq_some.mpr ⟨declared, accepted, rfl⟩)

/-- A run under a stronger restriction is a run under a weaker one. -/
theorem Reachable.mono {weaker : Database → Statement → Prop}
    (weakens : ∀ before statement, permitted before statement → weaker before statement)
    (reachable : Reachable schema permitted database) : Reachable schema weaker database := by
  induction reachable with
  | empty => exact .empty
  | step _ allowed accepted inductionHypothesis =>
    exact .step inductionHypothesis (weakens _ _ allowed) accepted

/-- The database after inserting rows in order, constraints aside. -/
def Database.inserting (database : Database) : List (String × Row) → Database
  | [] => database
  | (table, row) :: rest => ((Statement.insert table row).write database).inserting rest

/-- Every insert of the list is accepted where it runs. -/
def Schema.AcceptsInserts (schema : Schema) (database : Database) :
    List (String × Row) → Prop
  | [] => True
  | (table, row) :: rest =>
      schema.Declares table ∧ schema.Accepts ((Statement.insert table row).write database) ∧
        schema.AcceptsInserts ((Statement.insert table row).write database) rest

instance Schema.decidableAcceptsInserts (schema : Schema) (database : Database)
    (rows : List (String × Row)) : Decidable (schema.AcceptsInserts database rows) :=
  match rows with
  | [] => .isTrue trivial
  | (table, row) :: rest =>
      have := schema.decidableAcceptsInserts ((Statement.insert table row).write database) rest
      inferInstanceAs (Decidable (_ ∧ _ ∧ _))

/-- Accepted inserts extend a run. -/
theorem Reachable.inserting {rows : List (String × Row)}
    (before : Reachable schema permitted database)
    (allowed : ∀ state, ∀ entry ∈ rows, permitted state (.insert entry.1 entry.2))
    (accepted : schema.AcceptsInserts database rows) :
    Reachable schema permitted (database.inserting rows) := by
  induction rows generalizing database with
  | nil => exact before
  | cons entry rest inductionHypothesis =>
    obtain ⟨declared, valid, others⟩ := accepted
    refine inductionHypothesis
      (before.write (allowed _ entry List.mem_cons_self) declared valid) ?_ others
    exact fun state other member => allowed state other (List.mem_cons_of_mem _ member)

/-- The states that statements pass through, constraints aside. -/
def Database.trace (database : Database) : List Statement → List Database
  | [] => [database]
  | statement :: rest => database :: (statement.write database).trace rest

/-- Every statement of the list is permitted where it runs. -/
def Database.Permits (permitted : Database → Statement → Prop) (database : Database) :
    List Statement → Prop
  | [] => True
  | statement :: rest =>
      permitted database statement ∧ (statement.write database).Permits permitted rest

/-- Every statement of the list is accepted where it runs. -/
def Schema.AcceptsAll (schema : Schema) (database : Database) : List Statement → Prop
  | [] => True
  | statement :: rest =>
      schema.Declares statement.table ∧ schema.Accepts (statement.write database) ∧
        schema.AcceptsAll (statement.write database) rest

instance Schema.decidableAcceptsAll (schema : Schema) (database : Database)
    (statements : List Statement) : Decidable (schema.AcceptsAll database statements) :=
  match statements with
  | [] => .isTrue trivial
  | statement :: rest =>
      have := schema.decidableAcceptsAll (statement.write database) rest
      inferInstanceAs (Decidable (_ ∧ _ ∧ _))

/-- Permitted statements that are all accepted make a run. -/
theorem isRun_trace {statements : List Statement}
    (allowed : emptyDatabase.Permits permitted statements)
    (accepted : schema.AcceptsAll emptyDatabase statements) :
    schema.IsRun permitted (emptyDatabase.trace statements) := by
  have chain : ∀ {start : Database}, start.Permits permitted statements →
      schema.AcceptsAll start statements →
        (start.trace statements).head? = some start ∧
          (start.trace statements).IsChain (schema.Step permitted) := by
    clear allowed accepted
    induction statements with
    | nil => exact fun _ _ => ⟨rfl, .singleton _⟩
    | cons statement rest inductionHypothesis =>
      rintro start ⟨first, others⟩ ⟨declared, valid, later⟩
      obtain ⟨head, steps⟩ := inductionHypothesis others later
      obtain ⟨tail, whole⟩ := List.head?_eq_some_iff.mp head
      refine ⟨rfl, ?_⟩
      rw [Database.trace, whole]
      rw [whole] at steps
      exact .cons_cons ⟨statement, first, Schema.execute_eq_some.mpr ⟨declared, valid, rfl⟩⟩ steps
  exact ⟨(chain allowed accepted).1, (chain allowed accepted).2⟩

end Runs

/-! ### What a statement leaves alone -/

theorem Statement.write_of_ne (statement : Statement) (database : Database) {name : String}
    (other : name ≠ statement.table) : statement.write database name = database name :=
  Function.update_of_ne other _ _

theorem Statement.write_table (statement : Statement) (database : Database) :
    statement.write database statement.table =
      statement.rewrite (database statement.table) :=
  Function.update_self _ _ _

/-- A row of the new database is an old row of the same table or the row just stored. -/
theorem Statement.mem_write {statement : Statement} {database : Database} {name : String}
    {row : Row} (member : row ∈ statement.write database name) :
    row ∈ database name ∨ statement.stored = some (name, row) := by
  by_cases same : name = statement.table
  · subst same
    rw [write_table] at member
    cases statement with
    | insert table inserted =>
      rcases List.mem_append.mp member with old | new
      · exact Or.inl old
      · exact Or.inr (by rw [List.mem_singleton.mp new]; rfl)
    | update table position updated =>
      rcases List.mem_or_eq_of_mem_set member with old | new
      · exact Or.inl old
      · exact Or.inr (by rw [new]; rfl)
    | delete table position => exact Or.inl (List.mem_of_mem_eraseIdx member)
  · exact Or.inl (by rwa [write_of_ne _ _ same] at member)

/-- An update keeps the frozen columns of its table; inserts and deletes are free. -/
def Statement.Keeps (frozen : String → List String) (database : Database) : Statement → Prop
  | .update table position row =>
      ∀ old, (database table)[position]? = some old →
        ∀ column ∈ frozen table, row column = old column
  | _ => True

theorem Statement.keeps_insert (frozen : String → List String) (database : Database)
    (table : String) (row : Row) : (Statement.insert table row).Keeps frozen database := trivial

/-- The keys of a table's rows at some columns. -/
def Database.project (database : Database) (name : String) (columns : List String) :
    List (List Value) :=
  (database name).map (keyOf columns)

theorem Database.mem_project {database : Database} {name : String} {columns : List String}
    {key : List Value} :
    key ∈ database.project name columns ↔ ∃ row ∈ database name, keyOf columns row = key :=
  List.mem_map

/-- Setting one entry of a list to a row with the same image leaves the images unchanged. -/
theorem map_set_of_agree {Entry Image : Type} (image : Entry → Image) (entries : List Entry)
    (position : Nat) (entry : Entry)
    (agree : ∀ old, entries[position]? = some old → image entry = image old) :
    (entries.set position entry).map image = entries.map image := by
  rw [List.map_set]
  by_cases bound : position < entries.length
  · have old := agree entries[position] (List.getElem?_eq_getElem bound)
    have shorter : position < (entries.map image).length := by rwa [List.length_map]
    rw [old, ← List.getElem_map image (h := shorter), List.set_getElem_self]
  · refine List.set_eq_of_length_le ?_
    rw [List.length_map]
    exact Nat.le_of_not_lt bound

/-- The entries after a replacement: the new one, and the old ones under other keys. -/
theorem mem_set_iff_of_nodup {Entry Key : Type} (key : Entry → Key) {entries : List Entry}
    {position : Nat} {old : Entry} (found : entries[position]? = some old)
    (distinct : (entries.map key).Nodup) (new entry : Entry) :
    entry ∈ entries.set position new ↔ entry = new ∨ entry ∈ entries ∧ key entry ≠ key old := by
  obtain ⟨bound, rfl⟩ := List.getElem?_eq_some_iff.mp found
  have split : entries =
      entries.take position ++ entries[position] :: entries.drop (position + 1) := by
    rw [List.getElem_cons_drop, List.take_append_drop]
  have others : ∀ other ∈ entries.take position ++ entries.drop (position + 1),
      key other ≠ key entries[position] := by
    rw [split, List.map_append, List.map_cons] at distinct
    have apart := (List.nodup_middle.mp distinct).notMem
    intro other member same
    exact apart (by rw [← List.map_append]; exact List.mem_map.mpr ⟨other, member, same⟩)
  rw [List.set_eq_take_append_cons_drop, if_pos bound]
  constructor
  · intro member
    rcases List.mem_cons.mp (List.perm_middle.mem_iff.mp member) with same | kept
    · exact Or.inl same
    · refine Or.inr ⟨?_, others entry kept⟩
      rw [split]
      exact List.perm_middle.mem_iff.mpr (List.mem_cons_of_mem _ kept)
  · rintro (same | ⟨member, different⟩)
    · exact List.perm_middle.mem_iff.mpr (same ▸ List.mem_cons_self)
    · rw [split] at member
      rcases List.mem_cons.mp (List.perm_middle.mem_iff.mp member) with same | kept
      · exact absurd (congrArg key same) different
      · exact List.perm_middle.mem_iff.mpr (List.mem_cons_of_mem _ kept)

/-- On columns that updates may not change, one statement appends the key of a row it inserts
into the table, or only drops keys. -/
theorem Statement.project_cases {frozen : String → List String} {database : Database}
    {statement : Statement} (name : String) (columns : List String)
    (keeps : statement.Keeps frozen database) (frozenColumns : columns ⊆ frozen name) :
    (∃ row, statement = .insert name row ∧
      (statement.write database).project name columns =
        database.project name columns ++ [keyOf columns row]) ∨
      ((statement.write database).project name columns).Sublist
        (database.project name columns) := by
  unfold Database.project
  by_cases same : name = statement.table
  · subst same
    rw [write_table]
    cases statement with
    | insert table row => exact Or.inl ⟨row, rfl, by rw [rewrite, List.map_append]; rfl⟩
    | update table position row =>
      have unchanged := map_set_of_agree (keyOf columns) (database table) position row
        fun old found => List.map_congr_left fun column member =>
          keeps old found column (frozenColumns member)
      exact Or.inr (unchanged ▸ List.Sublist.refl _)
    | delete table position => exact Or.inr ((List.eraseIdx_sublist _ _).map _)
  · exact Or.inr (by rw [write_of_ne _ _ same])

/-- The primary key of an inserted row is not the key of an older row. -/
theorem Schema.Accepts.insert_fresh {schema : Schema} {database : Database} {name : String}
    {table : Table} {row : Row}
    (accepted : schema.Accepts ((Statement.insert name row).write database))
    (declared : (name, table) ∈ schema.tables) :
    keyOf table.primaryKey.columns row ∉ database.project name table.primaryKey.columns := by
  have written : (Statement.insert name row).write database name = database name ++ [row] :=
    (Statement.insert name row).write_table database
  have distinct := accepted.distinct _ declared
  rw [written, List.map_append] at distinct
  intro old
  exact (List.disjoint_of_nodup_append distinct) old (List.mem_singleton.mpr rfl)

/-! ### References of keyed rows -/

section Edges

variable {schema : Schema} {frozen : String → List String} {before : Database}
  {statement : Statement} {name key column : String} {table : Table}
  (declared : (name, table) ∈ schema.tables) (keyed : table.primaryKey.columns = [key])
  (keeps : statement.Keeps frozen before) (frozenColumns : [key, column] ⊆ frozen name)
  (accepted : schema.Accepts (statement.write before))

include declared keyed keeps frozenColumns accepted

/-- What an accepted statement can do to the references of a table keyed by one column: insert
a row under a fresh key, or nothing new. -/
theorem edges_cases :
    (∃ row, statement = .insert name row ∧ (∀ old ∈ before name, old key ≠ row key) ∧
      (statement.write before).project name [key, column] =
        before.project name [key, column] ++ [[row key, row column]]) ∨
      (statement.write before).project name [key, column] ⊆
        before.project name [key, column] := by
  rcases Statement.project_cases name [key, column] keeps frozenColumns with
    ⟨row, rfl, appended⟩ | dropped
  · refine Or.inl ⟨row, rfl, fun old member same => ?_, appended⟩
    have fresh := accepted.insert_fresh declared
    rw [keyed] at fresh
    exact fresh (Database.mem_project.mpr ⟨old, member, congrArg (fun value => [value]) same⟩)
  · exact Or.inr dropped.subset

/-- A row that was there keeps its reference. -/
theorem edge_kept {identity reference : Value}
    (known : ∃ old ∈ before name, old key = identity)
    (edge : [identity, reference] ∈ (statement.write before).project name [key, column]) :
    [identity, reference] ∈ before.project name [key, column] := by
  rcases edges_cases declared keyed keeps frozenColumns accepted with
    ⟨row, _, fresh, appended⟩ | dropped
  · rw [appended] at edge
    rcases List.mem_append.mp edge with stored | new
    · exact stored
    · obtain ⟨old, member, same⟩ := known
      have sameKey := (List.cons.inj (List.mem_singleton.mp new)).1
      exact absurd (same.trans sameKey) (fresh old member)
  · exact dropped edge

end Edges

end Sql
