/-
This file reads a unique partial index as a set of exclusive resources: a key of the
index is a resource, and the row it covers under that key, named by its primary key, is
the owner. The index keeps owners unique in every accepted database, and as long as
updates leave primary keys alone no accepted statement passes a key from one row to
another directly. So runs of statements refine the machine of exclusive resources.
-/

import Pbl4.Handover
import Pbl4.Sql.Database

namespace Sql

/-! ### Owners of index keys -/

/-- The key of a row in an index. -/
def Index.keyOf (index : Index) (row : Row) : List Value := index.keys.map (IndexKey.eval row)

/-- The index covers the row under the key. -/
def Index.CoversUnder (index : Index) (key : List Value) (row : Row) : Prop :=
  index.Covers row ∧ index.keyOf row = key

instance (index : Index) (key : List Value) : DecidablePred (index.CoversUnder key) := fun _ =>
  inferInstanceAs (Decidable (_ ∧ _))

/-- A partial index covers the rows its predicate selects. -/
theorem Index.covers_iff {index : Index} {condition : Condition}
    (partially : index.predicate = some condition) (row : Row) :
    index.Covers row ↔ condition.Selects row := by
  unfold Covers
  rw [partially]
  exact ⟨fun covers => covers condition rfl, fun selects _ same => Option.some.inj same ▸ selects⟩

/-- The primary key of the row an index covers under a key. -/
def Database.owners (database : Database) (index : Index) (table : Table) :
    Handover.Owners (List Value) (List Value) := fun key =>
  ((database index.table).find? fun row => index.CoversUnder key row).map
    (Sql.keyOf table.primaryKey.columns)

/-- The owners of the keys without nulls: a unique index does not compare nulls. -/
def Database.presentOwners (database : Database) (index : Index) (table : Table) :
    Handover.Owners (List Value) (List Value) := fun key =>
  if Value.null ∈ key then none else database.owners index table key

theorem Database.exists_owner {database : Database} {index : Index} {table : Table}
    {key owner : List Value} (owns : owner ∈ database.owners index table key) :
    ∃ row ∈ database index.table, index.CoversUnder key row ∧
      Sql.keyOf table.primaryKey.columns row = owner := by
  obtain ⟨row, found, same⟩ := Option.map_eq_some_iff.mp owns
  have covered := List.find?_some found
  rw [decide_eq_true_eq] at covered
  exact ⟨row, List.mem_of_find?_eq_some found, covered, same⟩

theorem Database.owners_eq_none {database : Database} {index : Index} {table : Table}
    {key : List Value} :
    database.owners index table key = none ↔
      ∀ row ∈ database index.table, ¬ index.CoversUnder key row := by
  simp [Database.owners]

section Accepted

variable {schema : Schema} {database : Database} {index : Index} {table : Table}
  (declared : (index.table, table) ∈ schema.tables) (member : index ∈ schema.indexes)
  (unique : index.unique = true) {key : List Value} (present : Value.null ∉ key)

include member unique present

/-- A unique index covers one row under a key without nulls. -/
theorem Schema.Accepts.covered_unique (accepted : schema.Accepts database) {first second : Row}
    (firstMember : first ∈ database index.table) (secondMember : second ∈ database index.table)
    (firstCovered : index.CoversUnder key first) (secondCovered : index.CoversUnder key second) :
    first = second := by
  have apart := accepted.separated index member unique
  have symmetric : Std.Symm fun first second => ¬ index.Collide first second :=
    ⟨fun _ _ apart collide => apart ⟨collide.1.symm, collide.1 ▸ collide.2⟩⟩
  refine Classical.byContradiction fun different => ?_
  refine List.Pairwise.forall apart
    (List.mem_filter.mpr ⟨firstMember, decide_eq_true firstCovered.1⟩)
    (List.mem_filter.mpr ⟨secondMember, decide_eq_true secondCovered.1⟩) different ?_
  refine ⟨firstCovered.2.trans secondCovered.2.symm, fun null => present ?_⟩
  rw [← firstCovered.2]
  exact null

/-- The covered row is the owner. -/
theorem Schema.Accepts.mem_owners (accepted : schema.Accepts database) {row : Row}
    (stored : row ∈ database index.table) (covered : index.CoversUnder key row) :
    Sql.keyOf table.primaryKey.columns row ∈ database.owners index table key := by
  cases owner : database.owners index table key with
  | none => exact absurd covered (Database.owners_eq_none.mp owner row stored)
  | some found =>
    obtain ⟨other, otherStored, otherCovered, rfl⟩ := Database.exists_owner owner
    rw [accepted.covered_unique member unique present otherStored stored otherCovered covered]
    rfl

include declared

/-- A row covered after a statement has the primary key of the row covered under the same key
before it. -/
theorem covered_kept {frozen : String → List String} {statement : Statement}
    (frozenKey : table.primaryKey.columns ⊆ frozen index.table)
    (keeps : statement.Keeps frozen database) (acceptedBefore : schema.Accepts database)
    (accepted : schema.Accepts (statement.write database)) {holder next : Row}
    (stored : holder ∈ database index.table) (covered : index.CoversUnder key holder)
    (nextStored : next ∈ statement.write database index.table)
    (nextCovered : index.CoversUnder key next) :
    Sql.keyOf table.primaryKey.columns next = Sql.keyOf table.primaryKey.columns holder := by
  have same_after (kept : holder ∈ statement.write database index.table) : next = holder :=
    accepted.covered_unique member unique present nextStored kept nextCovered covered
  rcases Statement.mem_write nextStored with old | new
  · exact congrArg _ (acceptedBefore.covered_unique member unique present old stored nextCovered
      covered)
  cases statement with
  | insert name row =>
    obtain ⟨rfl, rfl⟩ := Prod.mk.inj (Option.some.inj new)
    refine congrArg _ (same_after ?_)
    rw [show (Statement.insert index.table row).write database index.table =
      database index.table ++ [row] from Statement.write_table _ database]
    exact List.mem_append_left _ stored
  | delete name position => exact absurd new (by simp [Statement.stored])
  | update name position row =>
    obtain ⟨rfl, rfl⟩ := Prod.mk.inj (Option.some.inj new)
    have written : (Statement.update index.table position row).write database index.table =
        (database index.table).set position row := Statement.write_table _ database
    cases found : (database index.table)[position]? with
    | none =>
      refine congrArg _ (same_after ?_)
      rwa [written, List.set_eq_of_length_le (List.getElem?_eq_none_iff.mp found)]
    | some old =>
      have sameKey : Sql.keyOf table.primaryKey.columns row =
          Sql.keyOf table.primaryKey.columns old :=
        List.map_congr_left fun column listed => keeps old found column (frozenKey listed)
      by_cases replaced :
          Sql.keyOf table.primaryKey.columns holder = Sql.keyOf table.primaryKey.columns old
      · exact sameKey.trans replaced.symm
      · refine congrArg _ (same_after ?_)
        rw [written, mem_set_iff_of_nodup (Sql.keyOf table.primaryKey.columns) found
          (acceptedBefore.distinct _ declared)]
        exact Or.inr ⟨stored, replaced⟩

/-! ### Runs refine the machine of exclusive resources -/

variable {frozen : String → List String}
  (frozenKey : table.primaryKey.columns ⊆ frozen index.table)

include frozenKey

omit present in
/-- An accepted statement is a step of the machine, over the keys without nulls. -/
theorem step_owners {before after : Database} (accepted : schema.Accepts before)
    (step : schema.Step (fun database statement => statement.Keeps frozen database) before after) :
    Handover.Step (before.presentOwners index table) (after.presentOwners index table) := by
  obtain ⟨statement, keeps, executed⟩ := step
  obtain ⟨_, valid, rfl⟩ := Schema.execute_eq_some.mp executed
  intro key owner owns next takes
  unfold Database.presentOwners at owns takes
  split at owns
  · exact absurd owns (by simp)
  · rename_i present
    rw [if_neg present] at takes
    obtain ⟨holder, stored, covered, rfl⟩ := Database.exists_owner owns
    obtain ⟨row, rowStored, rowCovered, rfl⟩ := Database.exists_owner takes
    exact covered_kept declared member unique present frozenKey keeps accepted valid stored
      covered rowStored rowCovered

omit present in
/-- A run of statements is a run of the machine. -/
theorem isChain_owners {states : List Database}
    (run : schema.IsRun (fun database statement => statement.Keeps frozen database) states) :
    (states.map fun state => state.presentOwners index table).IsChain Handover.Step := by
  rw [List.isChain_map]
  refine run.steps.imp_of_mem_imp fun before after stored _ step => ?_
  exact step_owners declared member unique frozenKey (run.reachable before stored).accepted step

/-- Along a run the index covers different rows under one key only through a state in which it
covers none under that key. -/
theorem exists_uncovered {states : List Database}
    (run : schema.IsRun (fun database statement => statement.Keeps frozen database) states)
    {start stop : Nat} (order : start ≤ stop) {before after : Database}
    (starts : states[start]? = some before) (stops : states[stop]? = some after)
    {holder next : Row} (stored : holder ∈ before index.table)
    (covered : index.CoversUnder key holder) (nextStored : next ∈ after index.table)
    (nextCovered : index.CoversUnder key next)
    (different : Sql.keyOf table.primaryKey.columns next ≠
      Sql.keyOf table.primaryKey.columns holder) :
    ∃ between, start < between ∧ between < stop ∧ ∃ middle, states[between]? = some middle ∧
      ∀ row ∈ middle index.table, ¬ index.CoversUnder key row := by
  have owns : ∀ {position : Nat} {state : Database} {row : Row},
      states[position]? = some state → row ∈ state index.table → index.CoversUnder key row →
        Sql.keyOf table.primaryKey.columns row ∈ state.presentOwners index table key := by
    intro position state row found rowStored rowCovered
    rw [Database.presentOwners, if_neg present]
    exact (run.reachable state (List.mem_of_getElem? found)).accepted.mem_owners member unique
      present rowStored rowCovered
  have mapped : ∀ {position : Nat} {state : Database}, states[position]? = some state →
      (states.map fun state => state.presentOwners index table)[position]? =
        some (state.presentOwners index table) := by
    intro position state found
    rw [List.getElem?_map, found, Option.map_some]
  obtain ⟨between, later, earlier, middle, found, idle⟩ := Handover.exists_idle
    (isChain_owners declared member unique frozenKey run) order (mapped starts) (mapped stops)
    (owns starts stored covered) (owns stops nextStored nextCovered) different
  rw [List.getElem?_map] at found
  obtain ⟨state, stateFound, rfl⟩ := Option.map_eq_some_iff.mp found
  rw [Database.presentOwners, if_neg present, Database.owners_eq_none] at idle
  exact ⟨between, later, earlier, state, stateFound, idle⟩

end Accepted

end Sql
