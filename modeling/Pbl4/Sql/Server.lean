/-
This file is about a catalog in use. A server runs whole migrations, each in one
transaction, and single statements on rows; a statement is held to the tables and
secondary indexes the catalog has when it runs. Writing rows never changes what a
catalog declares, and a statement is accepted beside a frame exactly when the part of
the catalog that declares its table accepts it, as long as the frame is sound.
-/

import Pbl4.Sql.Reference
import Pbl4.Sql.Removal

namespace Sql

/-! ### Transactions -/

/-- What a client submits: the statements of a migration, run in one transaction, or one
statement on rows. -/
inductive Transaction where
  | migrate (statements : List Ddl)
  | execute (statement : Statement)

/-- The server answers whether a request was carried out. A migration that fails is undone. A
statement may move the sequences of its table, also when it is rejected. -/
inductive Catalog.Serves (catalog : Catalog) : Transaction → Bool → Catalog → Prop
  | migrated {statements : List Ddl} {after : Catalog}
      (ran : catalog.run statements = some after) :
      catalog.Serves (.migrate statements) true after
  | undone {statements : List Ddl} (failed : catalog.run statements = none) :
      catalog.Serves (.migrate statements) false catalog
  | accepted {statement : Statement} {database : Database} (positions : String → Int)
      (executed :
        catalog.entries.schema.execute catalog.entries.rows statement = some database) :
      catalog.Serves (.execute statement) true
        (catalog.store (catalog.entries.dropped statement.table) database positions)
  | rejected {statement : Statement} (positions : String → Int)
      (refused : catalog.entries.schema.execute catalog.entries.rows statement = none) :
      catalog.Serves (.execute statement) false
        (catalog.store (catalog.entries.dropped statement.table) catalog.entries.rows positions)

/-- A catalog whose rows satisfy what it declares. -/
def Catalog.Sound (catalog : Catalog) : Prop :=
  catalog.entries.schema.Accepts catalog.entries.rows

/-! ### What a catalog declares -/

theorem Entries.schema_append (first second : Entries) :
    (first ++ second).schema = {
      tables := first.schema.tables ++ second.schema.tables
      indexes := first.schema.indexes ++ second.schema.indexes } := by
  unfold schema
  rw [List.filterMap_append, List.filterMap_append]

theorem Entries.mem_schema_tables {entries : Entries} {name : String} {table : Table} :
    (name, table) ∈ entries.schema.tables ↔ ∃ rows, (name, .table table rows) ∈ entries := by
  unfold schema
  rw [List.mem_filterMap]
  constructor
  · rintro ⟨⟨label, relation⟩, member, found⟩
    cases relation with
    | table definition rows =>
      obtain ⟨rfl, rfl⟩ := Prod.mk.inj (Option.some.inj found)
      exact ⟨rows, member⟩
    | primaryIndex holder => cases found
    | index definition => cases found
    | sequence holder lastValue => cases found
    | other dependencies description => cases found
  · rintro ⟨rows, member⟩
    exact ⟨_, member, rfl⟩

theorem Entries.mem_schema_indexes {entries : Entries} {index : Index} :
    index ∈ entries.schema.indexes ↔ ∃ name, (name, .index index) ∈ entries := by
  unfold schema
  rw [List.mem_filterMap]
  constructor
  · rintro ⟨⟨label, relation⟩, member, found⟩
    cases relation with
    | index definition =>
      obtain rfl := Option.some.inj found
      exact ⟨label, member⟩
    | table definition rows => cases found
    | primaryIndex holder => cases found
    | sequence holder lastValue => cases found
    | other dependencies description => cases found
  · rintro ⟨name, member⟩
    exact ⟨_, member, rfl⟩

theorem Entries.mem_names {entries : Entries} {name : String} {relation : Relation}
    (member : (name, relation) ∈ entries) : name ∈ entries.names :=
  List.mem_map.mpr ⟨_, member, rfl⟩

/-- Under distinct names, a relation is what its name stands for. -/
theorem Entries.lookup_of_mem {entries : Entries} (distinct : entries.names.Nodup)
    {name : String} {relation : Relation} (member : (name, relation) ∈ entries) :
    entries.lookup name = some relation := by
  cases found : entries.lookup name with
  | none =>
    have differs := List.lookup_eq_none_iff.mp found _ member
    exact absurd rfl (bne_iff_ne.mp differs)
  | some other =>
    obtain ⟨before, after, split, _⟩ := List.lookup_eq_some_iff.mp found
    have otherMember : (name, other) ∈ entries :=
      split ▸ List.mem_append_right _ List.mem_cons_self
    exact congrArg some (Prod.mk.inj (eq_of_name distinct otherMember member rfl)).2

/-- A schema declares the names that stand for tables. -/
theorem Entries.declares_iff {entries : Entries} (distinct : entries.names.Nodup)
    {name : String} :
    entries.schema.Declares name ↔ (entries.findTable name).isSome = true := by
  constructor
  · intro declares
    obtain ⟨table, declared⟩ := declares.exists_table
    obtain ⟨rows, member⟩ := mem_schema_tables.mp declared
    unfold findTable
    rw [lookup_of_mem distinct member]
    rfl
  · intro found
    obtain ⟨definition, rows, member⟩ := exists_table found
    exact List.mem_map.mpr ⟨_, mem_schema_tables.mpr ⟨rows, member⟩, rfl⟩

theorem Entries.Closed.accepts_congr {entries : Entries} (closed : entries.Closed)
    {first second : Database} (agree : ∀ name ∈ entries.names, first name = second name)
    (accepted : entries.schema.Accepts first) : entries.schema.Accepts second where
  admitted := by
    rintro ⟨name, table⟩ declared
    obtain ⟨_, member⟩ := mem_schema_tables.mp declared
    rw [← agree name (mem_names member)]
    exact accepted.admitted _ declared
  distinct := by
    rintro ⟨name, table⟩ declared
    obtain ⟨_, member⟩ := mem_schema_tables.mp declared
    rw [← agree name (mem_names member)]
    exact accepted.distinct _ declared
  referenced := by
    rintro ⟨name, table⟩ declared key keyMember
    obtain ⟨_, member⟩ := mem_schema_tables.mp declared
    have target := closed _ member key.target (List.mem_map.mpr ⟨key, keyMember, rfl⟩)
    rw [← agree name (mem_names member), ← agree key.target target]
    exact accepted.referenced _ declared key keyMember
  separated := by
    intro index indexMember
    obtain ⟨_, member⟩ := mem_schema_indexes.mp indexMember
    rw [← agree index.table (closed _ member index.table (List.mem_singleton.mpr rfl))]
    exact accepted.separated index indexMember

theorem Entries.accepts_append {first second : Entries} {database : Database} :
    (first ++ second).schema.Accepts database ↔
      first.schema.Accepts database ∧ second.schema.Accepts database := by
  rw [schema_append, Schema.accepts_iff, Schema.accepts_iff, Schema.accepts_iff]
  simp only [List.forall_mem_append]
  tauto

/-! ### Writing rows -/

/-- Only tables have rows. -/
theorem Entries.rows_of_none {entries : Entries} {name : String}
    (none : entries.findTable name = none) : entries.rows name = [] := by
  unfold findTable at none
  unfold rows
  split at none
  · cases none
  · rfl

/-- Where the sequences stand. -/
def Entries.positions (entries : Entries) (name : String) : Int :=
  match entries.lookup name with
  | some (.sequence _ lastValue) => lastValue
  | _ => 0

section Written

variable (written : List String) (contents : Database) (positions : String → Int)

theorem storeEntry_snd (entry : String × Relation) :
    (storeEntry written contents positions entry).2 =
      if entry.1 ∈ written then entry.2.store (contents entry.1) (positions entry.1)
      else entry.2 := by
  unfold storeEntry
  split <;> rfl

/-- Storing rows leaves what a catalog declares alone. -/
@[simp]
theorem Entries.schema_store (entries : Entries) :
    (entries.store written contents positions).schema = entries.schema := by
  unfold schema store
  rw [List.filterMap_map, List.filterMap_map]
  congr 1
  · refine List.filterMap_congr fun entry _ => ?_
    rw [Function.comp_apply, storeEntry_fst, storeEntry_snd]
    by_cases listed : entry.1 ∈ written
    · rw [if_pos listed]
      cases entry.2 <;> rfl
    · rw [if_neg listed]
  · refine List.filterMap_congr fun entry _ => ?_
    rw [Function.comp_apply, storeEntry_snd]
    by_cases listed : entry.1 ∈ written
    · rw [if_pos listed]
      cases entry.2 <;> rfl
    · rw [if_neg listed]

theorem Entries.rows_store (entries : Entries) (name : String) :
    (entries.store written contents positions).rows name =
      if (entries.findTable name).isSome = true ∧ name ∈ written then contents name
      else entries.rows name := by
  unfold rows findTable
  rw [lookup_store]
  unfold storeEntry
  cases entries.lookup name with
  | none => simp
  | some relation =>
    by_cases listed : name ∈ written
    · cases relation <;> simp [listed, Relation.store]
    · simp [listed]

/-- The relations with other rows in every table and every sequence moved. -/
def Entries.fill (entries : Entries) : Entries :=
  entries.store entries.names contents positions

variable {written} {contents} {positions}

/-- The part of a store that concerns a list of relations is determined by their names. -/
theorem Entries.store_eq_fill {entries : Entries} (listed : entries.names ⊆ written) :
    entries.store written contents positions = entries.fill contents positions := by
  refine List.map_congr_left fun entry member => ?_
  have own : entry.1 ∈ entries.names := List.mem_map.mpr ⟨entry, member, rfl⟩
  unfold storeEntry
  rw [if_pos own, if_pos (listed own)]

/-- Only the rows of tables matter. -/
theorem Entries.fill_congr {entries : Entries} {other : Database}
    (agree : ∀ name, entries.schema.Declares name → contents name = other name) :
    entries.fill contents positions = entries.fill other positions := by
  refine List.map_congr_left fun entry member => ?_
  obtain ⟨name, relation⟩ := entry
  unfold storeEntry
  rw [if_pos (mem_names member), if_pos (mem_names member)]
  cases relation with
  | table definition rows =>
    have declares : entries.schema.Declares name :=
      List.mem_map.mpr ⟨_, mem_schema_tables.mpr ⟨rows, member⟩, rfl⟩
    rw [agree name declares]
  | primaryIndex holder => rfl
  | index definition => rfl
  | sequence holder lastValue => rfl
  | other dependencies description => rfl

/-- A catalog is filled with its own rows. -/
theorem Entries.fill_self {entries : Entries} (distinct : entries.names.Nodup) :
    entries.fill entries.rows entries.positions = entries := by
  refine (List.map_congr_left fun entry member => ?_).trans (List.map_id entries)
  obtain ⟨name, relation⟩ := entry
  have located := lookup_of_mem distinct member
  unfold storeEntry rows Entries.positions
  rw [if_pos (mem_names member)]
  cases relation <;> simp only [located, Relation.store, id_eq]

/-- Storing rows again replaces some of the rows stored before. -/
theorem Entries.store_fill (entries : Entries) (first : Database) (start : String → Int) :
    (entries.fill first start).store written contents positions =
      entries.fill (fun name => if name ∈ written then contents name else first name)
        (fun name => if name ∈ written then positions name else start name) := by
  unfold fill store
  rw [List.map_map]
  refine List.map_congr_left fun entry member => ?_
  have own : entry.1 ∈ entries.names := List.mem_map.mpr ⟨entry, member, rfl⟩
  obtain ⟨name, relation⟩ := entry
  simp only [Function.comp_apply, storeEntry, if_pos own]
  by_cases listed : name ∈ written
  · simp only [if_pos listed]
    cases relation <;> rfl
  · simp only [if_neg listed]

@[simp]
theorem Entries.names_fill (entries : Entries) :
    (entries.fill contents positions).names = entries.names :=
  names_store _ _ _ entries

@[simp]
theorem Entries.schema_fill (entries : Entries) :
    (entries.fill contents positions).schema = entries.schema :=
  schema_store _ _ _ entries

theorem Entries.Closed.fill {entries : Entries} (closed : entries.Closed) :
    (entries.fill contents positions).Closed := by
  unfold Closed Entries.fill
  rw [forall_mem_store]
  intro entry member needed depends
  rw [storeEntry_dependsOn] at depends
  rw [names_store]
  exact closed entry member needed depends

theorem Entries.rows_fill {entries : Entries} (distinct : entries.names.Nodup) {name : String}
    (declares : entries.schema.Declares name) :
    (entries.fill contents positions).rows name = contents name := by
  have found := (declares_iff distinct).mp declares
  obtain ⟨definition, rows, member⟩ := exists_table found
  unfold fill
  rw [rows_store, if_pos ⟨found, mem_names member⟩]

end Written

/-- A relation without data: a table without rows, or a sequence at its start. -/
def Relation.Blank : Relation → Prop
  | .table _ rows => rows = []
  | .sequence _ lastValue => lastValue = 0
  | .primaryIndex _ | .index _ | .other _ _ => True

theorem Relation.Blank.alter {relation : Relation} (blank : relation.Blank)
    (change : Table → Table) : (relation.alter change).Blank := by
  cases relation <;> exact blank

theorem Entries.fill_of_blank {entries : Entries} (blank : ∀ entry ∈ entries, entry.2.Blank) :
    entries.fill emptyDatabase (fun _ => 0) = entries := by
  refine (List.map_congr_left fun entry member => ?_).trans (List.map_id entries)
  have start := blank entry member
  obtain ⟨name, relation⟩ := entry
  unfold storeEntry
  rw [if_pos (mem_names member)]
  cases relation with
  | table definition rows =>
    obtain rfl : rows = [] := start
    rfl
  | sequence holder lastValue =>
    obtain rfl : lastValue = 0 := start
    rfl
  | primaryIndex holder => rfl
  | index definition => rfl
  | other dependencies description => rfl

/-- A statement of a migration stores no data. -/
theorem Ddl.blank_effect (statement : Ddl) {entries : Entries}
    (blank : ∀ entry ∈ entries, entry.2.Blank) :
    ∀ entry ∈ statement.effect entries, entry.2.Blank := by
  have altered : ∀ (name : String) (change : Table → Table),
      ∀ entry ∈ entries.alterTable name change, entry.2.Blank := by
    intro name change entry member
    obtain ⟨old, oldMember, rfl⟩ := List.mem_map.mp member
    split
    · exact (blank old oldMember).alter change
    · exact blank old oldMember
  intro entry member
  cases statement with
  | createTable name table =>
    rcases List.mem_append.mp member with old | new
    · exact blank entry old
    · rcases List.mem_cons.mp new with rfl | new
      · exact rfl
      rcases List.mem_cons.mp new with rfl | new
      · exact trivial
      · obtain ⟨column, _, rfl⟩ := List.mem_map.mp new
        exact rfl
  | createIndex index =>
    rcases List.mem_append.mp member with old | new
    · exact blank entry old
    · rw [List.mem_singleton.mp new]
      exact trivial
  | createForeignKey source key => exact altered _ _ entry member
  | dropConstraint name table => exact altered _ _ entry member
  | dropIndex name table => exact blank entry (List.mem_of_mem_filter member)
  | dropTable name => exact blank entry (List.mem_of_mem_filter member)

theorem Entries.blank_of_run {statements : List Ddl} {entries result : Entries}
    (blank : ∀ entry ∈ entries, entry.2.Blank) (ran : entries.run statements = some result) :
    ∀ entry ∈ result, entry.2.Blank := by
  induction statements generalizing entries with
  | nil =>
    obtain rfl := Option.some.inj ran
    exact blank
  | cons statement rest inductionHypothesis =>
    unfold run Ddl.apply at ran
    split at ran
    · exact inductionHypothesis (statement.blank_effect blank) ran
    · cases ran

/-- Storing the rows that are there changes no row. -/
theorem Entries.rows_store_self (entries : Entries) (written : List String)
    (positions : String → Int) :
    (entries.store written entries.rows positions).rows = entries.rows := by
  funext name
  rw [rows_store]
  exact ite_self _

/-- A statement on a table that is there leaves exactly the rows it writes. -/
theorem Entries.rows_write {entries : Entries} (distinct : entries.names.Nodup)
    {statement : Statement} (declares : entries.schema.Declares statement.table)
    (positions : String → Int) :
    (entries.store (entries.dropped statement.table) (statement.write entries.rows)
      positions).rows = statement.write entries.rows := by
  have found := (declares_iff distinct).mp declares
  obtain ⟨definition, rows, member⟩ := exists_table found
  have own : statement.table ∈ entries.dropped statement.table :=
    mem_names (List.mem_filter.mpr ⟨member, decide_eq_true (Or.inl rfl)⟩)
  funext name
  rw [rows_store]
  by_cases same : name = statement.table
  · rw [same, if_pos ⟨found, own⟩]
  · rw [Statement.write_of_ne _ _ same]
    exact ite_self _

/-! ### One transaction -/

section Serves

variable {catalog after : Catalog} {answer : Bool}

/-- Every transaction is answered. -/
theorem Catalog.exists_serves (catalog : Catalog) (transaction : Transaction) :
    ∃ answer after, catalog.Serves transaction answer after := by
  cases transaction with
  | migrate statements =>
    cases ran : catalog.run statements with
    | none => exact ⟨false, catalog, .undone ran⟩
    | some after => exact ⟨true, after, .migrated ran⟩
  | execute statement =>
    cases executed : catalog.entries.schema.execute catalog.entries.rows statement with
    | none => exact ⟨false, _, .rejected catalog.entries.positions executed⟩
    | some database => exact ⟨true, _, .accepted catalog.entries.positions executed⟩

/-- A migration succeeds or changes nothing. -/
theorem Catalog.Serves.migrate_cases {statements : List Ddl}
    (served : catalog.Serves (.migrate statements) answer after) :
    (answer = true ∧ catalog.entries.run statements = some after.entries) ∨
      (answer = false ∧ after = catalog ∧ catalog.entries.run statements = none) := by
  have entries := catalog.entries_run statements
  cases served with
  | migrated ran =>
    rw [ran] at entries
    exact Or.inl ⟨rfl, entries.symm⟩
  | undone failed =>
    rw [failed] at entries
    exact Or.inr ⟨rfl, rfl, entries.symm⟩

/-- A statement on rows changes rows of its table at most. A catalog that was satisfied still
is. -/
theorem Catalog.Serves.execute_cases {statement : Statement}
    (served : catalog.Serves (.execute statement) answer after) (sound : catalog.Sound) :
    answer = (catalog.entries.schema.execute catalog.entries.rows statement).isSome ∧
      after.entries.rows =
        (if answer then statement.write catalog.entries.rows else catalog.entries.rows) ∧
      after.Sound ∧
      ∃ written positions,
        after.entries = catalog.entries.store written after.entries.rows positions := by
  cases served with
  | accepted positions executed =>
    obtain ⟨declares, valid, rfl⟩ := Schema.execute_eq_some.mp executed
    have rows := Entries.rows_write catalog.distinct declares positions
    refine ⟨by rw [executed]; rfl, rows, ?_, catalog.entries.dropped statement.table, positions, ?_⟩
    · unfold Sound store
      rw [Entries.schema_store, rows]
      exact valid
    · unfold store
      rw [rows]
  | rejected positions refused =>
    have rows := Entries.rows_store_self catalog.entries
      (catalog.entries.dropped statement.table) positions
    refine ⟨by rw [refused]; rfl, rows, ?_, catalog.entries.dropped statement.table, positions, ?_⟩
    · unfold Sound store
      rw [Entries.schema_store, rows]
      exact sound
    · unfold store
      rw [rows]

end Serves

/-! ### A statement beside a frame -/

theorem Statement.write_congr {first second : Database} {name : String} (statement : Statement)
    (agree : first name = second name) :
    statement.write first name = statement.write second name := by
  by_cases same : name = statement.table
  · subst same
    rw [write_table, write_table, agree]
  · rw [write_of_ne _ _ same, write_of_ne _ _ same, agree]

section Beside

variable {base own : Entries} {statement : Statement} {current database : Database}

theorem Entries.declares_append {name : String} :
    (base ++ own).schema.Declares name ↔
      base.schema.Declares name ∨ own.schema.Declares name := by
  unfold Schema.Declares
  rw [schema_append, List.map_append, List.mem_append]

theorem Entries.mem_names_of_declares {entries : Entries} {name : String}
    (declares : entries.schema.Declares name) : name ∈ entries.names := by
  obtain ⟨table, declared⟩ := declares.exists_table
  obtain ⟨rows, member⟩ := mem_schema_tables.mp declared
  exact Entries.mem_names member

/-- Beside a closed frame that is satisfied, a statement on a table outside it is held to the
other relations alone. -/
theorem Entries.execute_append (closed : base.Closed) (ownClosed : own.Closed)
    (sound : base.schema.Accepts current) (agree : ∀ name ∈ own.names, current name = database name)
    (outside : statement.table ∉ base.names) :
    ((base ++ own).schema.execute current statement).isSome =
      (own.schema.execute database statement).isSome := by
  have declares : (base ++ own).schema.Declares statement.table ↔
      own.schema.Declares statement.table := by
    rw [declares_append, or_iff_right fun inside => outside (mem_names_of_declares inside)]
  have kept : base.schema.Accepts (statement.write current) := by
    refine closed.accepts_congr (fun name member => ?_) sound
    exact (statement.write_of_ne current fun same => outside (same ▸ member)).symm
  have accepts : (base ++ own).schema.Accepts (statement.write current) ↔
      own.schema.Accepts (statement.write database) := by
    rw [accepts_append, and_iff_right kept]
    have alike : ∀ name ∈ own.names, statement.write current name = statement.write database name :=
      fun name member => statement.write_congr (agree name member)
    exact ⟨ownClosed.accepts_congr alike,
      ownClosed.accepts_congr fun name member => (alike name member).symm⟩
  unfold Schema.execute
  simp only [declares, accepts]
  split <;> rfl

/-- The rows of a frame beside other relations. -/
theorem Entries.rows_append_of_mem {name : String} (member : name ∈ base.names) :
    (base ++ own).rows name = base.rows name := by
  obtain ⟨⟨label, relation⟩, inside, rfl⟩ := List.mem_map.mp member
  unfold rows
  rw [List.lookup_append]
  cases found : base.lookup label with
  | none =>
    have differs := List.lookup_eq_none_iff.mp found _ inside
    exact absurd rfl (bne_iff_ne.mp differs)
  | some other => rfl

end Beside

end Sql
