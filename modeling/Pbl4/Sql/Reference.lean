/-
This file is about the references between the rows of a database, and what they say
about taking it down and putting it back row by row. A row may be deleted exactly
when no other row refers to it, so single-row `DELETE` statements can empty a
database exactly when following references between different rows never comes back.
Read backwards, such a run of deletes is a run of inserts: the databases that can be
emptied are, up to the order of rows, the ones that inserts alone can build.

A row that refers to itself stands in the way of neither: the key is compared with
the table as it stands at the end of the statement.
-/

import Mathlib.Data.List.Perm.Basic
import Mathlib.Data.Set.Card
import Mathlib.Data.Set.Finite.List
import Mathlib.Logic.Relation
import Mathlib.Order.WellFoundedSet
import Pbl4.Sql.Database

namespace Sql

/-! ### References -/

/-- A row under the name of its table. -/
abbrev Record := String × Row

/-- The record is a row of the database. -/
def Database.Stores (database : Database) (record : Record) : Prop :=
  record.2 ∈ database record.1

/-- A key of the first row's table, none of whose columns is null there, finds the second. -/
def Schema.Refers (schema : Schema) (source target : Record) : Prop :=
  ∃ entry ∈ schema.tables, entry.1 = source.1 ∧ ∃ key ∈ entry.2.foreignKeys,
    key.target = target.1 ∧ (∀ column ∈ key.columns, source.2 column ≠ .null) ∧
      keyOf key.columns source.2 = keyOf key.referenced target.2

instance (schema : Schema) (source target : Record) : Decidable (schema.Refers source target) :=
  inferInstanceAs (Decidable (∃ entry ∈ schema.tables, _ ∧ ∃ key ∈ entry.2.foreignKeys, _ ∧ _ ∧ _))

/-- A stored row refers to another stored row. -/
structure Schema.Links (schema : Schema) (database : Database) (source target : Record) :
    Prop where
  source_stored : database.Stores source
  target_stored : database.Stores target
  distinct : source ≠ target
  refers : schema.Refers source target

/-- Following references from row to other row never comes back. -/
def Schema.Acyclic (schema : Schema) (database : Database) : Prop :=
  ∀ record, ¬ Relation.TransGen (schema.Links database) record record

/-- Every table is declared once, and every key refers to the primary key of a declared
table. -/
structure Schema.Keyed (schema : Schema) : Prop where
  distinct : (schema.tables.map Prod.fst).Nodup
  primary : ∀ entry ∈ schema.tables, ∀ key ∈ entry.2.foreignKeys,
    ∃ target ∈ schema.tables, target.1 = key.target ∧
      target.2.primaryKey.columns = key.referenced

/-- The rows of a database are rows of declared tables. -/
def Schema.Confines (schema : Schema) (database : Database) : Prop :=
  ∀ name, ¬ schema.Declares name → database name = []

theorem Schema.Declares.exists_table {schema : Schema} {name : String}
    (declares : schema.Declares name) : ∃ table, (name, table) ∈ schema.tables := by
  obtain ⟨⟨label, table⟩, member, rfl⟩ := List.mem_map.mp declares
  exact ⟨table, member⟩

theorem Reachable.confines {schema : Schema} {permitted : Database → Statement → Prop}
    {database : Database} (reachable : Reachable schema permitted database) :
    schema.Confines database := by
  induction reachable with
  | empty => exact fun _ _ => rfl
  | step _ _ accepted inductionHypothesis =>
    obtain ⟨declared, _, rfl⟩ := Schema.execute_eq_some.mp accepted
    intro name undeclared
    rw [Statement.write_of_ne]
    · exact inductionHypothesis name undeclared
    · rintro rfl
      exact undeclared declared

/-- A stored row is a row of a declared table. -/
theorem Schema.Confines.declares {schema : Schema} {database : Database}
    (confines : schema.Confines database) {name : String} {row : Row}
    (stored : row ∈ database name) : schema.Declares name :=
  Classical.byContradiction fun undeclared =>
    absurd (confines name undeclared ▸ stored : row ∈ []) List.not_mem_nil

/-- The stored rows are finitely many. -/
theorem Schema.Confines.finite {schema : Schema} {database : Database}
    (confines : schema.Confines database) : {record | database.Stores record}.Finite := by
  refine (List.finite_toSet (schema.tables.flatMap fun entry =>
    (database entry.1).map fun row => (entry.1, row))).subset ?_
  rintro ⟨name, row⟩ stored
  obtain ⟨table, member⟩ := (confines.declares stored).exists_table
  exact List.mem_flatMap.mpr ⟨_, member, List.mem_map.mpr ⟨row, stored, rfl⟩⟩

/-! ### Deleting a row -/

section Delete

variable {schema : Schema} {database : Database} {name : String} {position : Nat} {row : Row}

/-- Rows of a declared table are distinct: their keys are. -/
theorem Schema.Accepts.nodup (accepted : schema.Accepts database)
    (declared : schema.Declares name) : (database name).Nodup := by
  obtain ⟨table, member⟩ := declared.exists_table
  exact (accepted.distinct _ member).of_map _

/-- Deleting a row removes that row and no other. -/
theorem Statement.stores_delete (nodup : (database name).Nodup)
    (found : (database name)[position]? = some row) (record : Record) :
    ((Statement.delete name position).write database).Stores record ↔
      database.Stores record ∧ record ≠ (name, row) := by
  obtain ⟨label, stored⟩ := record
  unfold Database.Stores
  by_cases same : label = name
  · subst same
    have written : (Statement.delete label position).write database label =
        (database label).eraseIdx position := Statement.write_table _ database
    obtain ⟨bound, rfl⟩ := List.getElem?_eq_some_iff.mp found
    have perm := List.getElem_cons_eraseIdx_perm bound
    have absent := (List.nodup_cons.mp (perm.nodup_iff.mpr nodup)).1
    simp only [written, ← perm.mem_iff, List.mem_cons, ne_eq, Prod.mk.injEq, true_and]
    constructor
    · exact fun member => ⟨Or.inr member, fun removed => absent (removed ▸ member)⟩
    · rintro ⟨removed | member, other⟩
      · exact absurd removed other
      · exact member
  · rw [Statement.write_of_ne _ _ (show label ≠ (Statement.delete name position).table from same)]
    exact ⟨fun member => ⟨member, fun pair => same (Prod.mk.inj pair).1⟩, And.left⟩

/-- Deleting at a position past the rows changes nothing. -/
theorem Statement.write_delete_of_none (none : (database name)[position]? = none) :
    (Statement.delete name position).write database = database := by
  unfold Statement.write
  rw [Function.update_eq_self_iff]
  exact List.eraseIdx_of_length_le (List.getElem?_eq_none_iff.mp none)

theorem Statement.delete_sublist (label : String) :
    ((Statement.delete name position).write database label).Sublist (database label) := by
  by_cases same : label = name
  · subst same
    rw [show (Statement.delete label position).write database label =
      (database label).eraseIdx position from Statement.write_table _ database]
    exact List.eraseIdx_sublist _ _
  · rw [Statement.write_of_ne _ _
      (show label ≠ (Statement.delete name position).table from same)]

/-- In an accepted database a `DELETE` of a row is accepted exactly when no other row refers to
it. -/
theorem Schema.Accepts.delete_iff (keyed : schema.Keyed) (accepted : schema.Accepts database)
    (declared : schema.Declares name) (found : (database name)[position]? = some row) :
    schema.Accepts ((Statement.delete name position).write database) ↔
      ∀ source, ¬ schema.Links database source (name, row) := by
  have remains := Statement.stores_delete (accepted.nodup declared) found
  constructor
  · -- The key would have to find another row with the primary key of the deleted one.
    rintro after source ⟨stored, removed, distinct, entry, member, label, key, keyMember, target,
      present, same⟩
    have kept : source.2 ∈ (Statement.delete name position).write database entry.1 := by
      rw [label]
      exact (remains source).mpr ⟨stored, distinct⟩
    rcases after.referenced entry member key keyMember source.2 kept with
      ⟨column, columnMember, null⟩ | ⟨other, otherMember, agrees⟩
    · exact present column columnMember null
    · obtain ⟨otherStored, different⟩ := (remains (key.target, other)).mp otherMember
      obtain ⟨⟨home, table⟩, tableMember, rfl, primary⟩ :=
        keyed.primary entry member key keyMember
      rw [target] at otherStored different tableMember
      refine different (congrArg (name, ·) (accepted.eq_of_key tableMember otherStored removed ?_))
      rw [primary, ← agrees, same]
  · intro unlinked
    constructor
    · exact fun entry member other stored =>
        accepted.admitted entry member other ((Statement.delete_sublist _).subset stored)
    · exact fun entry member =>
        (accepted.distinct entry member).sublist ((Statement.delete_sublist _).map _)
    · intro entry member key keyMember other stored
      obtain ⟨otherStored, different⟩ := (remains (entry.1, other)).mp stored
      rcases accepted.referenced entry member key keyMember other otherStored with
        null | ⟨target, targetMember, agrees⟩
      · exact Or.inl null
      · by_cases present : ∀ column ∈ key.columns, other column ≠ .null
        · refine Or.inr ⟨target, (remains (key.target, target)).mpr ⟨targetMember, ?_⟩, agrees⟩
          intro removed
          obtain ⟨home, rfl⟩ := Prod.mk.inj removed
          refine unlinked (entry.1, other) ⟨otherStored, home ▸ targetMember, different, entry,
            member, rfl, key, keyMember, home, present, agrees⟩
        · obtain ⟨column, columnMember, null⟩ : ∃ column ∈ key.columns, other column = .null := by
            simpa using present
          exact Or.inl ⟨column, columnMember, null⟩
    · exact fun index member unique =>
        (accepted.separated index member unique).sublist ((Statement.delete_sublist _).filter _)

end Delete

/-! ### Taking a database down -/

/-- Only `DELETE` statements may be submitted. -/
def onlyDeletes : Database → Statement → Prop := fun _ statement =>
  ∃ name position, statement = .delete name position

/-- Only `INSERT` statements may be submitted. -/
def onlyInserts : Database → Statement → Prop := fun _ statement =>
  ∃ name row, statement = .insert name row

/-- Accepted single-row deletes can empty the database. -/
def Schema.Drains (schema : Schema) (database : Database) : Prop :=
  Relation.ReflTransGen (schema.Step onlyDeletes) database emptyDatabase

/-- Accepted single-row inserts can build the database, up to the order of rows. -/
def Schema.Restores (schema : Schema) (database : Database) : Prop :=
  ∃ restored, Reachable schema onlyInserts restored ∧
    ∀ name, (restored name).Perm (database name)

section Drain

variable {schema : Schema} {database : Database}

theorem Database.eq_empty (none : ∀ record, ¬ database.Stores record) :
    database = emptyDatabase := by
  funext name
  exact List.eq_nil_iff_forall_not_mem.mpr fun row => none (name, row)

/-- A database with rows but no cycle has a row no other row refers to. -/
theorem Schema.Acyclic.exists_unlinked (acyclic : schema.Acyclic database)
    (confines : schema.Confines database) {record : Record} (stored : database.Stores record) :
    ∃ last, database.Stores last ∧ ∀ source, ¬ schema.Links database source last := by
  let leads := Relation.TransGen (schema.Links database)
  have order : IsStrictOrder Record leads :=
    { irrefl := acyclic, trans := fun _ _ _ => Relation.TransGen.trans }
  have wellFounded : {record | database.Stores record}.WellFoundedOn leads :=
    confines.finite.wellFoundedOn
  obtain ⟨⟨last, lastStored⟩, _, least⟩ :=
    WellFounded.has_min wellFounded Set.univ ⟨⟨record, stored⟩, trivial⟩
  refine ⟨last, lastStored, fun source link => ?_⟩
  exact least ⟨source, link.source_stored⟩ trivial (.single link)

/-- Without the row that nothing refers to, no cycle is gone. -/
theorem Schema.Acyclic.of_unlinked {smaller : Database} {last : Record}
    (unlinked : ∀ source, ¬ schema.Links database source last)
    (stores : ∀ record, smaller.Stores record ↔ database.Stores record ∧ record ≠ last)
    (acyclic : schema.Acyclic smaller) : schema.Acyclic database := by
  have target_ne : ∀ {source target}, schema.Links database source target → target ≠ last :=
    fun link same => unlinked _ (same ▸ link)
  have kept : ∀ {source target}, source ≠ last →
      Relation.TransGen (schema.Links database) source target →
        Relation.TransGen (schema.Links smaller) source target := by
    intro source target different leads
    induction leads with
    | single link =>
      exact .single ⟨(stores _).mpr ⟨link.source_stored, different⟩,
        (stores _).mpr ⟨link.target_stored, target_ne link⟩, link.distinct, link.refers⟩
    | tail before link inductionHypothesis =>
      obtain ⟨middle, _, arrives⟩ := Relation.TransGen.tail'_iff.mp before
      exact inductionHypothesis.tail
        ⟨(stores _).mpr ⟨link.source_stored, target_ne arrives⟩,
          (stores _).mpr ⟨link.target_stored, target_ne link⟩, link.distinct, link.refers⟩
  intro record cycle
  obtain ⟨middle, _, arrives⟩ := Relation.TransGen.tail'_iff.mp cycle
  exact acyclic record (kept (target_ne arrives) cycle)

theorem Schema.Acyclic.mono {smaller : Database} (acyclic : schema.Acyclic database)
    (stores : ∀ record, smaller.Stores record → database.Stores record) :
    schema.Acyclic smaller := by
  have part : schema.Links smaller ≤ schema.Links database := fun _ _ link =>
    ⟨stores _ link.source_stored, stores _ link.target_stored, link.distinct, link.refers⟩
  exact fun record cycle => acyclic record (Relation.TransGen.mono part _ _ cycle)

/-- Deletes keep rows inside the declared tables. -/
theorem Schema.Confines.write {statement : Statement} (confines : schema.Confines database)
    (declared : schema.Declares statement.table) :
    schema.Confines (statement.write database) := by
  intro name undeclared
  rw [Statement.write_of_ne]
  · exact confines name undeclared
  · rintro rfl
    exact undeclared declared

/-- Without a cycle there is always a row to delete. -/
theorem Schema.Acyclic.drains (keyed : schema.Keyed) (accepted : schema.Accepts database)
    (confines : schema.Confines database) (acyclic : schema.Acyclic database) :
    schema.Drains database := by
  -- The induction is on the number of stored rows.
  generalize size : {record | database.Stores record}.ncard = total
  induction total using Nat.strong_induction_on generalizing database with
  | _ total inductionHypothesis =>
    by_cases none : ∀ record, ¬ database.Stores record
    · rw [Database.eq_empty none]
      exact .refl
    · obtain ⟨record, stored⟩ : ∃ record, database.Stores record := by simpa using none
      obtain ⟨⟨name, row⟩, lastStored, unlinked⟩ := acyclic.exists_unlinked confines stored
      obtain ⟨position, bound, found⟩ := List.getElem_of_mem lastStored
      have located : (database name)[position]? = some row :=
        List.getElem?_eq_some_iff.mpr ⟨bound, found⟩
      have declared := confines.declares lastStored
      have stores := Statement.stores_delete (accepted.nodup declared) located
      have smaller := (accepted.delete_iff keyed declared located).mpr unlinked
      have fewer : {record | ((Statement.delete name position).write database).Stores
          record}.ncard < total := by
        rw [← size]
        refine Set.ncard_lt_ncard (Set.ssubset_iff_of_subset ?_ |>.mpr ?_) confines.finite
        · exact fun other member => ((stores other).mp member).1
        · exact ⟨(name, row), lastStored, fun member => ((stores _).mp member).2 rfl⟩
      refine .head ⟨_, ⟨name, position, rfl⟩, Schema.execute_eq_some.mpr
        ⟨declared, smaller, rfl⟩⟩ ?_
      exact inductionHypothesis _ fewer smaller (confines.write declared)
        (acyclic.mono fun other member => ((stores other).mp member).1) rfl

/-- What deletes can empty has no cycle: the first row of a cycle to go would be referred
to. -/
theorem Schema.Drains.acyclic (keyed : schema.Keyed) (accepted : schema.Accepts database)
    (drains : schema.Drains database) : schema.Acyclic database := by
  induction drains using Relation.ReflTransGen.head_induction_on with
  | refl =>
    intro record cycle
    obtain ⟨middle, _, arrives⟩ := Relation.TransGen.tail'_iff.mp cycle
    exact absurd arrives.target_stored List.not_mem_nil
  | @head before after step rest inductionHypothesis =>
    obtain ⟨_, ⟨name, position, rfl⟩, executed⟩ := step
    obtain ⟨declared, smaller, rfl⟩ := Schema.execute_eq_some.mp executed
    have acyclic := inductionHypothesis smaller
    cases found : (before name)[position]? with
    | none => exact Statement.write_delete_of_none found ▸ acyclic
    | some row =>
      exact acyclic.of_unlinked ((accepted.delete_iff keyed declared found).mp smaller)
        (Statement.stores_delete (accepted.nodup declared) found)

/-- Deletes can empty a database exactly when its references have no cycle. -/
theorem Schema.drains_iff (keyed : schema.Keyed) (accepted : schema.Accepts database)
    (confines : schema.Confines database) :
    schema.Drains database ↔ schema.Acyclic database :=
  ⟨fun drains => drains.acyclic keyed accepted,
    fun acyclic => acyclic.drains keyed accepted confines⟩

/-! ### Putting a database back -/

/-- Constraints do not depend on the order of rows. -/
theorem Schema.Accepts.perm {other : Database} (accepted : schema.Accepts database)
    (perm : ∀ name, (database name).Perm (other name)) : schema.Accepts other where
  admitted entry member row stored :=
    accepted.admitted entry member row ((perm _).mem_iff.mpr stored)
  distinct entry member := ((perm _).map _).nodup_iff.mp (accepted.distinct entry member)
  referenced entry member key keyMember row stored := by
    rcases accepted.referenced entry member key keyMember row ((perm _).mem_iff.mpr stored) with
      null | ⟨target, targetMember, agrees⟩
    · exact Or.inl null
    · exact Or.inr ⟨target, (perm _).mem_iff.mp targetMember, agrees⟩
  separated index member unique := by
    have symmetric : ∀ {first second : Row}, ¬ index.Collide first second →
        ¬ index.Collide second first := fun apart collide =>
      apart ⟨collide.1.symm, collide.1 ▸ collide.2⟩
    exact (((perm _).filter _).pairwise_iff symmetric).mp
      (accepted.separated index member unique)

/-- The last insert of a run can be taken back by a delete. -/
theorem drains_of_reachable (reachable : Reachable schema onlyInserts database) :
    schema.Drains database := by
  induction reachable with
  | empty => exact .refl
  | @step before after statement earlier allowed executed inductionHypothesis =>
    obtain ⟨name, row, rfl⟩ := allowed
    obtain ⟨declared, _, rfl⟩ := Schema.execute_eq_some.mp executed
    refine .head ⟨.delete name (before name).length, ⟨name, _, rfl⟩, ?_⟩ inductionHypothesis
    have back : (Statement.delete name (before name).length).write
        ((Statement.insert name row).write before) = before := by
      unfold Statement.write Statement.table Statement.rewrite
      simp only [Function.update_self, Function.update_idem,
        List.eraseIdx_append_of_length_le (Nat.le_refl _), Nat.sub_self, List.eraseIdx_cons_zero,
        List.append_nil, Function.update_eq_self]
    exact Schema.execute_eq_some.mpr ⟨declared, back.symm ▸ earlier.accepted, back⟩

/-- A run of deletes that empties a database, read backwards, builds it. -/
theorem Schema.Drains.restores (accepted : schema.Accepts database)
    (drains : schema.Drains database) : schema.Restores database := by
  induction drains using Relation.ReflTransGen.head_induction_on with
  | refl => exact ⟨emptyDatabase, .empty, fun _ => .refl _⟩
  | @head before after step rest inductionHypothesis =>
    obtain ⟨_, ⟨name, position, rfl⟩, executed⟩ := step
    obtain ⟨declared, smaller, rfl⟩ := Schema.execute_eq_some.mp executed
    obtain ⟨restored, reachable, perm⟩ := inductionHypothesis smaller
    by_cases bound : position < (before name).length
    · have order : ∀ label, ((Statement.insert name (before name)[position]).write restored
          label).Perm (before label) := by
        intro label
        by_cases same : label = name
        · subst same
          have removed := perm label
          rw [show (Statement.delete label position).write before label =
            (before label).eraseIdx position from Statement.write_table _ before] at removed
          rw [show (Statement.insert label (before label)[position]).write restored label =
            restored label ++ [(before label)[position]] from Statement.write_table _ restored]
          exact (List.perm_append_singleton _ _).trans
            ((removed.cons _).trans (List.getElem_cons_eraseIdx_perm bound))
        · have removed := perm label
          rw [Statement.write_of_ne _ _
            (show label ≠ (Statement.delete name position).table from same)] at removed
          rwa [Statement.write_of_ne _ _
            (show label ≠ (Statement.insert name _).table from same)]
      have valid := accepted.perm fun label => (order label).symm
      exact ⟨_, reachable.write ⟨name, _, rfl⟩ declared valid, order⟩
    · have none := List.getElem?_eq_none_iff.mpr (Nat.le_of_not_lt bound)
      exact ⟨restored, reachable, Statement.write_delete_of_none none ▸ perm⟩

/-- Inserts can build a database exactly when its references have no cycle. -/
theorem Schema.restores_iff (keyed : schema.Keyed) (accepted : schema.Accepts database)
    (confines : schema.Confines database) :
    schema.Restores database ↔ schema.Acyclic database := by
  constructor
  · rintro ⟨restored, reachable, perm⟩
    have acyclic := (drains_of_reachable reachable).acyclic keyed reachable.accepted
    exact acyclic.mono fun record stored => (perm record.1).mem_iff.mpr stored
  · exact fun acyclic => (acyclic.drains keyed accepted confines).restores accepted

end Drain

end Sql
