/-
This file proves two facts about runs of DDL statements. The frame rule: a run on
one part of a catalog is blind to the rest, when the rest is closed and none of the
names the statements mention occur in it. And independence from the data: statements
that only drop things do the same whatever rows the tables hold and wherever the
sequences stand. Together they reduce a round trip over an arbitrary catalog with
arbitrary rows to one run on the relations the migration itself creates.
-/

import Pbl4.Sql.Catalog

namespace Sql

/-! ### Lookups under a frame -/

section Lookup

variable {base own : Entries} {name : String}

theorem Entries.lookup_append (fresh : name ∉ base.names) :
    (base ++ own).lookup name = own.lookup name := by
  have absent : base.lookup name = none :=
    List.lookup_eq_none_iff.mpr fun entry member =>
      bne_iff_ne.mpr fun same => fresh (List.mem_map.mpr ⟨entry, member, same.symm⟩)
  rw [List.lookup_append, absent, Option.none_or]

theorem Entries.findTable_append (fresh : name ∉ base.names) :
    findTable (base ++ own) name = own.findTable name := by
  unfold findTable
  rw [lookup_append fresh]

theorem Entries.rows_append (fresh : name ∉ base.names) :
    rows (base ++ own) name = own.rows name := by
  unfold rows
  rw [lookup_append fresh]

theorem Entries.hasIndex_append (fresh : name ∉ base.names) :
    hasIndex (base ++ own) name = own.hasIndex name := by
  unfold hasIndex
  rw [lookup_append fresh]

theorem Entries.referable_append {key : ForeignKey} (fresh : key.target ∉ base.names) :
    Referable (base ++ own) key ↔ own.Referable key := by
  unfold Referable
  rw [findTable_append fresh]

theorem Entries.notMem_names_append (fresh : name ∉ base.names) :
    name ∉ names (base ++ own) ↔ name ∉ own.names := by
  rw [names_append, List.mem_append, not_or]
  exact ⟨fun absent => absent.2, fun absent => ⟨fresh, absent⟩⟩

theorem Entries.alterTable_append (fresh : name ∉ base.names) (change : Table → Table) :
    alterTable (base ++ own) name change = base ++ own.alterTable name change := by
  have unchanged : base.alterTable name change = base := by
    refine (List.map_congr_left fun entry member => ?_).trans (List.map_id base)
    exact if_neg fun same => fresh (List.mem_map.mpr ⟨entry, member, same⟩)
  unfold alterTable at unchanged ⊢
  rw [List.map_append, unchanged]

/-- Nothing of a closed frame goes with a table that is not in it. -/
theorem Entries.Closed.stays (closed : base.Closed) (fresh : name ∉ base.names)
    {entry : String × Relation} (member : entry ∈ base) : ¬ Goes name entry := by
  rintro (same | owned)
  · exact fresh (List.mem_map.mpr ⟨entry, member, same⟩)
  · exact fresh (closed entry member name (Relation.owner_mem_dependsOn owned))

theorem Entries.dropped_append (closed : base.Closed) (fresh : name ∉ base.names) :
    dropped (base ++ own) name = own.dropped name := by
  have none : base.filter (fun entry => Goes name entry) = [] :=
    List.filter_eq_nil_iff.mpr fun entry member goes =>
      closed.stays fresh member (of_decide_eq_true goes)
  unfold dropped
  rw [List.filter_append, none, List.nil_append]

end Lookup

/-! ### The frame rule -/

/-- The relation names a statement creates. -/
def Ddl.creates : Ddl → List String
  | .createTable name table => (table.relations name).names
  | .createIndex index => [index.name]
  | _ => []

/-- The relation names a statement mentions. -/
def Ddl.mentions : Ddl → List String
  | .createTable name table =>
      (table.relations name).names ++ table.foreignKeys.map ForeignKey.target
  | .createIndex index => [index.name, index.table]
  | .createForeignKey source key => [source, key.target]
  | .dropConstraint _ table => [table]
  | .dropIndex name _ => [name]
  | .dropTable name => [name]

/-- None of the names occurs in the frame. -/
def Avoids (names : List String) (base : Entries) : Prop := ∀ name ∈ names, name ∉ base.names

section Frame

variable {base own : Entries} {statement : Ddl}

/-- A statement succeeds beside a frame when it succeeds on its own. -/
theorem Ddl.succeeds_append (closed : base.Closed) (apart : Avoids own.names base)
    (avoids : Avoids statement.mentions base) :
    statement.Succeeds (base ++ own) ↔ statement.Succeeds own := by
  cases statement with
  | createTable name table =>
    have fresh : ∀ created ∈ (table.relations name).names, created ∉ base.names :=
      fun created member => avoids created (List.mem_append_left _ member)
    have targets : ∀ key ∈ table.foreignKeys, key.target ∉ base.names := fun key member =>
      avoids key.target (List.mem_append_right _ (List.mem_map.mpr ⟨key, member, rfl⟩))
    simp only [Succeeds]
    refine and_congr_right fun _ => and_congr_right fun _ => and_congr ?_ ?_
    · exact forall₂_congr fun created member => Entries.notMem_names_append (fresh created member)
    · refine forall₂_congr fun key member => ?_
      rw [List.append_assoc]
      exact Entries.referable_append (targets key member)
  | createIndex index =>
    have name : index.name ∉ base.names := avoids _ List.mem_cons_self
    have table : index.table ∉ base.names := avoids _ (List.mem_cons_of_mem _ List.mem_cons_self)
    simp only [Succeeds]
    rw [Entries.notMem_names_append name, Entries.findTable_append table,
      Entries.rows_append table]
  | createForeignKey source key =>
    have from_ : source ∉ base.names := avoids _ List.mem_cons_self
    have target : key.target ∉ base.names :=
      avoids _ (List.mem_cons_of_mem _ List.mem_cons_self)
    simp only [Succeeds]
    rw [Entries.findTable_append from_, Entries.rows_append from_, Entries.rows_append target,
      Entries.referable_append target]
  | dropConstraint name table =>
    simp only [Succeeds]
    rw [Entries.findTable_append (avoids _ List.mem_cons_self)]
  | dropIndex name table =>
    have fresh : name ∉ base.names := avoids _ List.mem_cons_self
    simp only [Succeeds]
    rw [Entries.hasIndex_append fresh, List.forall_mem_append]
    refine and_congr_right fun _ => ⟨fun whole => whole.2, fun rest => ⟨?_, rest⟩⟩
    exact fun entry member depends => fresh (closed entry member name depends)
  | dropTable name =>
    have fresh : name ∉ base.names := avoids _ List.mem_cons_self
    simp only [Succeeds]
    rw [Entries.findTable_append fresh, Entries.dropped_append closed fresh,
      List.forall_mem_append]
    refine and_congr_right fun _ => ⟨fun whole => whole.2, fun rest => ⟨?_, rest⟩⟩
    intro entry member _ needed depends gone
    exact apart needed (Entries.names_filter_subset own _ gone)
      (closed entry member needed depends)

/-- A statement leaves a frame as it is. -/
theorem Ddl.effect_append (closed : base.Closed) (avoids : Avoids statement.mentions base) :
    statement.effect (base ++ own) = base ++ statement.effect own := by
  cases statement with
  | createTable name table => exact List.append_assoc _ _ _
  | createIndex index => exact List.append_assoc _ _ _
  | createForeignKey source key =>
    exact Entries.alterTable_append (avoids _ List.mem_cons_self) _
  | dropConstraint name table =>
    exact Entries.alterTable_append (avoids _ List.mem_cons_self) _
  | dropIndex name table =>
    have fresh : name ∉ base.names := avoids _ List.mem_cons_self
    simp only [effect]
    rw [List.filter_append, List.filter_eq_self.mpr]
    intro entry member
    exact decide_eq_true fun same => fresh (List.mem_map.mpr ⟨entry, member, same⟩)
  | dropTable name =>
    have fresh : name ∉ base.names := avoids _ List.mem_cons_self
    simp only [effect]
    rw [List.filter_append, List.filter_eq_self.mpr]
    exact fun entry member => decide_eq_true (closed.stays fresh member)

/-- A statement creates only names it mentions. -/
theorem Ddl.names_effect_subset (statement : Ddl) (own : Entries) :
    (statement.effect own).names ⊆ own.names ++ statement.mentions := by
  cases statement with
  | createTable name table =>
    rw [effect, Entries.names_append]
    exact List.append_subset.mpr ⟨List.subset_append_left _ _,
      List.Subset.trans (List.subset_append_left _ _) (List.subset_append_right _ _)⟩
  | createIndex index =>
    rw [effect, Entries.names_append]
    refine List.append_subset.mpr ⟨List.subset_append_left _ _, fun created member => ?_⟩
    rw [List.mem_singleton.mp member]
    exact List.mem_append_right _ List.mem_cons_self
  | createForeignKey source key =>
    rw [effect, Entries.names_alterTable]
    exact List.subset_append_left _ _
  | dropConstraint name table =>
    rw [effect, Entries.names_alterTable]
    exact List.subset_append_left _ _
  | dropIndex name table =>
    exact List.Subset.trans (Entries.names_filter_subset own _) (List.subset_append_left _ _)
  | dropTable name =>
    exact List.Subset.trans (Entries.names_filter_subset own _) (List.subset_append_left _ _)

/-- The frame rule: a run beside a closed frame whose names it never mentions is the run on
its own relations. -/
theorem Entries.run_append (closed : base.Closed) (statements : List Ddl)
    (apart : Avoids own.names base)
    (avoids : ∀ statement ∈ statements, Avoids statement.mentions base) :
    run (base ++ own) statements = (own.run statements).map (base ++ ·) := by
  induction statements generalizing own with
  | nil => rfl
  | cons statement rest inductionHypothesis =>
    have first : Avoids statement.mentions base := avoids statement List.mem_cons_self
    unfold run Ddl.apply
    simp only [statement.succeeds_append closed apart first,
      statement.effect_append closed first]
    split
    · refine inductionHypothesis (fun name member => ?_) fun later member =>
        avoids later (List.mem_cons_of_mem _ member)
      rcases List.mem_append.mp (statement.names_effect_subset own member) with old | new
      · exact apart name old
      · exact first name new
    · rfl

end Frame

/-! ### Independence from the data -/

/-- Put other rows into a table, or move a sequence. -/
def Relation.store (rows : List Row) (lastValue : Int) : Relation → Relation
  | .table definition _ => .table definition rows
  | .sequence holder _ => .sequence holder lastValue
  | relation => relation

@[simp]
theorem Relation.owner_store (rows : List Row) (lastValue : Int) (relation : Relation) :
    (relation.store rows lastValue).owner = relation.owner := by
  cases relation <;> rfl

@[simp]
theorem Relation.dependsOn_store (rows : List Row) (lastValue : Int) (relation : Relation) :
    (relation.store rows lastValue).dependsOn = relation.dependsOn := by
  cases relation <;> rfl

theorem Relation.alter_store (rows : List Row) (lastValue : Int) (change : Table → Table)
    (relation : Relation) :
    (relation.store rows lastValue).alter change =
      (relation.alter change).store rows lastValue := by
  cases relation <;> rfl

section Store

variable (written : List String) (contents : String → List Row) (positions : String → Int)

/-- Store data into a relation of one of the given names. -/
def storeEntry (entry : String × Relation) : String × Relation :=
  if entry.1 ∈ written then (entry.1, entry.2.store (contents entry.1) (positions entry.1))
  else entry

/-- Put other rows into the tables of the given names, and move their sequences: what any
run of `INSERT`, `UPDATE` and `DELETE` on them does to the catalog. -/
def Entries.store (entries : Entries) : Entries :=
  entries.map (storeEntry written contents positions)

@[simp]
theorem storeEntry_fst (entry : String × Relation) :
    (storeEntry written contents positions entry).1 = entry.1 := by
  unfold storeEntry
  split <;> rfl

@[simp]
theorem storeEntry_owner (entry : String × Relation) :
    (storeEntry written contents positions entry).2.owner = entry.2.owner := by
  unfold storeEntry
  split
  · exact Relation.owner_store _ _ _
  · rfl

@[simp]
theorem storeEntry_dependsOn (entry : String × Relation) :
    (storeEntry written contents positions entry).2.dependsOn = entry.2.dependsOn := by
  unfold storeEntry
  split
  · exact Relation.dependsOn_store _ _ _
  · rfl

@[simp]
theorem goes_storeEntry (name : String) (entry : String × Relation) :
    Goes name (storeEntry written contents positions entry) ↔ Goes name entry := by
  unfold Goes
  rw [storeEntry_fst, storeEntry_owner]

@[simp]
theorem Entries.names_store (entries : Entries) :
    (entries.store written contents positions).names = entries.names := by
  unfold names store
  rw [List.map_map]
  exact List.map_congr_left fun entry _ => storeEntry_fst _ _ _ entry

theorem Entries.lookup_store (entries : Entries) (name : String) :
    (entries.store written contents positions).lookup name =
      (entries.lookup name).map fun relation =>
        (storeEntry written contents positions (name, relation)).2 := by
  induction entries with
  | nil => rfl
  | cons entry rest inductionHypothesis =>
    obtain ⟨label, relation⟩ := entry
    unfold store at inductionHypothesis ⊢
    rw [List.map_cons]
    have head : storeEntry written contents positions (label, relation) =
        (label, (storeEntry written contents positions (label, relation)).2) :=
      Prod.ext (storeEntry_fst _ _ _ _) rfl
    rw [head, List.lookup_cons, List.lookup_cons, inductionHypothesis]
    by_cases same : name = label
    · subst same
      simp
    · rw [beq_false_of_ne same]

@[simp]
theorem Entries.findTable_store (entries : Entries) (name : String) :
    (entries.store written contents positions).findTable name = entries.findTable name := by
  unfold findTable
  rw [lookup_store]
  unfold storeEntry
  cases entries.lookup name with
  | none => rfl
  | some relation =>
    by_cases listed : name ∈ written
    · cases relation <;> simp only [if_pos listed, Relation.store, Option.map_some]
    · simp only [if_neg listed, Option.map_some]

@[simp]
theorem Entries.hasIndex_store (entries : Entries) (name : String) :
    (entries.store written contents positions).hasIndex name = entries.hasIndex name := by
  unfold hasIndex
  rw [lookup_store]
  unfold storeEntry
  cases entries.lookup name with
  | none => rfl
  | some relation =>
    by_cases listed : name ∈ written
    · cases relation <;> simp only [if_pos listed, Relation.store, Option.map_some]
    · simp only [if_neg listed, Option.map_some]

theorem Entries.filter_store (entries : Entries) (keep : String × Relation → Bool)
    (blind : ∀ entry, keep (storeEntry written contents positions entry) = keep entry) :
    (entries.store written contents positions).filter keep =
      store written contents positions (entries.filter keep) := by
  unfold store
  rw [List.filter_map]
  exact congrArg _ (List.filter_congr fun entry _ => blind entry)

theorem Entries.alterTable_store (entries : Entries) (name : String) (change : Table → Table) :
    (entries.store written contents positions).alterTable name change =
      (entries.alterTable name change).store written contents positions := by
  unfold alterTable store
  rw [List.map_map, List.map_map]
  refine List.map_congr_left fun entry _ => ?_
  by_cases same : entry.1 = name
  · simp only [Function.comp_apply, storeEntry_fst, if_pos same]
    unfold storeEntry
    by_cases listed : entry.1 ∈ written
    · simp only [if_pos listed, Relation.alter_store]
    · simp only [if_neg listed]
  · simp only [Function.comp_apply, storeEntry_fst, if_neg same]

@[simp]
theorem Entries.dropped_store (entries : Entries) (name : String) :
    (entries.store written contents positions).dropped name = entries.dropped name := by
  unfold dropped
  rw [filter_store, names_store]
  intro entry
  simp only [goes_storeEntry]

theorem Entries.forall_mem_store {entries : Entries} {property : String × Relation → Prop} :
    (∀ entry ∈ entries.store written contents positions, property entry) ↔
      ∀ entry ∈ entries, property (storeEntry written contents positions entry) :=
  List.forall_mem_map

/-- A statement that drops something. -/
def Ddl.Drops : Ddl → Prop
  | .dropConstraint _ _ | .dropIndex _ _ | .dropTable _ => True
  | _ => False

instance : DecidablePred Ddl.Drops
  | .dropConstraint _ _ | .dropIndex _ _ | .dropTable _ => isTrue trivial
  | .createTable _ _ | .createIndex _ | .createForeignKey _ _ => isFalse id

/-- A statement that drops something does not look at the data. -/
theorem Ddl.apply_store {statement : Ddl} (drops : statement.Drops) (entries : Entries) :
    statement.apply (entries.store written contents positions) =
      (statement.apply entries).map (Entries.store written contents positions) := by
  have succeeds : statement.Succeeds (entries.store written contents positions) ↔
      statement.Succeeds entries := by
    cases statement with
    | createTable name table => exact drops.elim
    | createIndex index => exact drops.elim
    | createForeignKey source key => exact drops.elim
    | dropConstraint name table =>
      simp only [Succeeds, Entries.findTable_store]
    | dropIndex name table =>
      simp only [Succeeds, Entries.hasIndex_store, Entries.forall_mem_store,
        storeEntry_dependsOn]
    | dropTable name =>
      simp only [Succeeds, Entries.findTable_store, Entries.forall_mem_store,
        storeEntry_dependsOn, goes_storeEntry, Entries.dropped_store]
  have effect : statement.effect (entries.store written contents positions) =
      (statement.effect entries).store written contents positions := by
    cases statement with
    | createTable name table => exact drops.elim
    | createIndex index => exact drops.elim
    | createForeignKey source key => exact drops.elim
    | dropConstraint name table => exact Entries.alterTable_store _ _ _ _ _ _
    | dropIndex name table =>
      exact Entries.filter_store _ _ _ _ _ fun entry => by simp only [storeEntry_fst]
    | dropTable name =>
      exact Entries.filter_store _ _ _ _ _ fun entry => by simp only [goes_storeEntry]
  unfold apply
  simp only [succeeds, effect]
  split <;> rfl

/-- A run of drops does not look at the data. -/
theorem Entries.run_store (statements : List Ddl)
    (drops : ∀ statement ∈ statements, statement.Drops) (entries : Entries) :
    (entries.store written contents positions).run statements =
      (entries.run statements).map (Entries.store written contents positions) := by
  induction statements generalizing entries with
  | nil => rfl
  | cons statement rest inductionHypothesis =>
    unfold run
    rw [Ddl.apply_store _ _ _ (drops statement List.mem_cons_self)]
    cases statement.apply entries with
    | none => rfl
    | some next =>
      exact inductionHypothesis (fun later member =>
        drops later (List.mem_cons_of_mem _ member)) next

/-- Storing data into relations outside a frame leaves the frame alone. -/
theorem Entries.store_append {base : Entries} (own : Entries) (apart : Avoids written base) :
    store written contents positions (base ++ own) =
      base ++ own.store written contents positions := by
  have unchanged : base.store written contents positions = base := by
    refine (List.map_congr_left fun entry member => ?_).trans (List.map_id base)
    exact if_neg fun listed => apart entry.1 listed (List.mem_map.mpr ⟨entry, member, rfl⟩)
  unfold store at unchanged ⊢
  rw [List.map_append, unchanged]

/-- Put other rows into some tables of a well-formed catalog. -/
def Catalog.store (catalog : Catalog) : Catalog where
  entries := catalog.entries.store written contents positions
  distinct := by
    rw [Entries.names_store]
    exact catalog.distinct
  closed := by
    unfold Entries.Closed
    rw [Entries.forall_mem_store]
    intro entry member needed depends
    rw [storeEntry_dependsOn] at depends
    rw [Entries.names_store]
    exact catalog.closed entry member needed depends

end Store

end Sql
