/-
This file is about drops in a catalog that holds more than what they were written for.
A family of names splits a catalog: the relations of the family, and the rest. Drops
aimed at the family do to the family what they do to it alone, and take from the rest
only what the dropped tables own. They succeed when they succeed on the family alone and
nothing that stays depends on what goes. Creations are simpler: they succeed only where
their names are free.
-/

import Pbl4.Sql.Frame

namespace Sql

/-! ### Runs of creations -/

/-- A statement that drops nothing keeps all names and adds those it creates. -/
theorem Ddl.names_effect {statement : Ddl} (creates : ¬ statement.Drops) (entries : Entries) :
    (statement.effect entries).names = entries.names ++ statement.creates := by
  cases statement with
  | createTable name table => exact Entries.names_append _ _
  | createIndex index => exact Entries.names_append _ _
  | createForeignKey source key =>
    show (entries.alterTable _ _).names = entries.names ++ []
    rw [Entries.names_alterTable, List.append_nil]
  | dropConstraint name table => exact absurd trivial creates
  | dropIndex name table => exact absurd trivial creates
  | dropTable name => exact absurd trivial creates

theorem Ddl.creates_fresh {statement : Ddl} {entries : Entries}
    (succeeds : statement.Succeeds entries) : ∀ name ∈ statement.creates, name ∉ entries.names := by
  cases statement with
  | createTable name table => exact succeeds.2.2.1
  | createIndex index =>
    intro name member
    rw [List.mem_singleton.mp member]
    exact succeeds.1
  | createForeignKey source key => exact fun _ member => absurd member List.not_mem_nil
  | dropConstraint name table => exact fun _ member => absurd member List.not_mem_nil
  | dropIndex name table => exact fun _ member => absurd member List.not_mem_nil
  | dropTable name => exact fun _ member => absurd member List.not_mem_nil

/-- A run without drops succeeds only where the names it creates are free. -/
theorem Entries.avoids_of_run {statements : List Ddl}
    (creates : ∀ statement ∈ statements, ¬ statement.Drops) {entries result : Entries}
    (ran : entries.run statements = some result) :
    Avoids (statements.flatMap Ddl.creates) entries := by
  induction statements generalizing entries with
  | nil => exact fun _ member => absurd member List.not_mem_nil
  | cons statement rest inductionHypothesis =>
    unfold run Ddl.apply at ran
    split at ran
    · rename_i succeeds
      intro name member
      rcases List.mem_append.mp member with first | later
      · exact Ddl.creates_fresh succeeds name first
      · refine fun used => inductionHypothesis (fun other otherMember =>
          creates other (List.mem_cons_of_mem _ otherMember)) ran name later ?_
        rw [Ddl.names_effect (creates statement List.mem_cons_self)]
        exact List.mem_append_left _ used
    · cases ran

/-- A run without drops adds exactly the names it creates. -/
theorem Entries.names_of_run {statements : List Ddl}
    (creates : ∀ statement ∈ statements, ¬ statement.Drops) {entries result : Entries}
    (ran : entries.run statements = some result) :
    result.names = entries.names ++ statements.flatMap Ddl.creates := by
  induction statements generalizing entries with
  | nil =>
    obtain rfl := Option.some.inj ran
    exact (List.append_nil _).symm
  | cons statement rest inductionHypothesis =>
    unfold run Ddl.apply at ran
    split at ran
    · rw [inductionHypothesis (fun other member => creates other (List.mem_cons_of_mem _ member))
        ran, Ddl.names_effect (creates statement List.mem_cons_self), List.append_assoc,
        List.flatMap_cons]
    · cases ran

/-! ### A family of names -/

section Family

variable (family : List String)

/-- The relations of the family. -/
def Entries.within (entries : Entries) : Entries := entries.filter fun entry => entry.1 ∈ family

/-- The other relations. -/
def Entries.beyond (entries : Entries) : Entries := entries.filter fun entry => entry.1 ∉ family

/-- A drop aimed at the family. -/
def Ddl.DropsIn : Ddl → Prop
  | .dropConstraint _ table => table ∈ family
  | .dropIndex name _ => name ∈ family
  | .dropTable name => name ∈ family
  | .createTable _ _ | .createIndex _ | .createForeignKey _ _ => False

instance (statement : Ddl) : Decidable (statement.DropsIn family) :=
  match statement with
  | .dropConstraint _ table => inferInstanceAs (Decidable (table ∈ family))
  | .dropIndex name _ => inferInstanceAs (Decidable (name ∈ family))
  | .dropTable name => inferInstanceAs (Decidable (name ∈ family))
  | .createTable _ _ | .createIndex _ | .createForeignKey _ _ => isFalse id

/-- The table a statement drops. -/
def Ddl.droppedTable : Ddl → Option String
  | .dropTable name => some name
  | _ => none

/-- What the statements make of a catalog, whether they succeed or not. -/
def Entries.effects (entries : Entries) (statements : List Ddl) : Entries :=
  statements.foldl (fun current statement => statement.effect current) entries

theorem Entries.eq_effects {statements : List Ddl} {entries result : Entries}
    (ran : entries.run statements = some result) : result = entries.effects statements := by
  induction statements generalizing entries with
  | nil => exact (Option.some.inj ran).symm
  | cons statement rest inductionHypothesis =>
    unfold run Ddl.apply at ran
    split at ran
    · exact inductionHypothesis ran
    · cases ran

variable {family}

/-- A drop that mentions names of the family only is aimed at it. -/
theorem Ddl.dropsIn_of_mentions {statement : Ddl} (drops : statement.Drops)
    (mentions : statement.mentions ⊆ family) : statement.DropsIn family := by
  cases statement with
  | createTable name table => exact drops.elim
  | createIndex index => exact drops.elim
  | createForeignKey source key => exact drops.elim
  | dropConstraint name table => exact mentions List.mem_cons_self
  | dropIndex name table => exact mentions List.mem_cons_self
  | dropTable name => exact mentions List.mem_cons_self

theorem Entries.mem_within {entries : Entries} {entry : String × Relation} :
    entry ∈ entries.within family ↔ entry ∈ entries ∧ entry.1 ∈ family := by
  simp [within]

theorem Entries.mem_beyond {entries : Entries} {entry : String × Relation} :
    entry ∈ entries.beyond family ↔ entry ∈ entries ∧ entry.1 ∉ family := by
  simp [beyond]

/-- The family is looked up in the family. -/
theorem Entries.lookup_within (entries : Entries) {name : String} (member : name ∈ family) :
    (entries.within family).lookup name = entries.lookup name := by
  induction entries with
  | nil => rfl
  | cons entry rest inductionHypothesis =>
    obtain ⟨label, relation⟩ := entry
    unfold within at inductionHypothesis ⊢
    by_cases inside : label ∈ family
    · rw [List.filter_cons_of_pos (by simpa using inside), List.lookup_cons, List.lookup_cons,
        inductionHypothesis]
    · have other : name ≠ label := fun same => inside (same ▸ member)
      rw [List.filter_cons_of_neg (by simpa using inside), List.lookup_cons,
        beq_false_of_ne other, inductionHypothesis]

theorem Entries.findTable_within (entries : Entries) {name : String} (member : name ∈ family) :
    (entries.within family).findTable name = entries.findTable name := by
  unfold findTable
  rw [lookup_within entries member]

theorem Entries.hasIndex_within (entries : Entries) {name : String} (member : name ∈ family) :
    (entries.within family).hasIndex name = entries.hasIndex name := by
  unfold hasIndex
  rw [lookup_within entries member]

/-- Altering a table leaves the split of the catalog alone. -/
theorem Entries.filter_alterTable (entries : Entries) (name : String) (change : Table → Table)
    (keep : String → Bool) :
    (entries.alterTable name change).filter (fun entry => keep entry.1) =
      alterTable (entries.filter fun entry => keep entry.1) name change := by
  unfold alterTable
  rw [List.filter_map]
  refine congrArg _ (List.filter_congr fun entry _ => ?_)
  simp only [Function.comp_apply]
  split <;> rfl

/-- A drop aimed at the family does to it what it does to it alone. -/
theorem Ddl.within_effect {statement : Ddl} (drops : statement.DropsIn family)
    (entries : Entries) :
    (statement.effect entries).within family = statement.effect (entries.within family) := by
  cases statement with
  | dropConstraint name table => exact Entries.filter_alterTable _ _ _ fun label => label ∈ family
  | dropIndex name table => exact List.filter_comm _ _ _
  | dropTable name => exact List.filter_comm _ _ _
  | createTable name table => exact drops.elim
  | createIndex index => exact drops.elim
  | createForeignKey source key => exact drops.elim

/-- It takes from the rest what the dropped table owns. -/
theorem Ddl.beyond_effect {statement : Ddl} (drops : statement.DropsIn family)
    (entries : Entries) :
    (statement.effect entries).beyond family = (entries.beyond family).filter fun entry =>
      ∀ holder ∈ statement.droppedTable, entry.2.owner ≠ some holder := by
  cases statement with
  | dropConstraint name table =>
    have whole : ∀ entry ∈ entries.beyond family, (decide (∀ holder ∈ (Ddl.dropConstraint name
        table).droppedTable, entry.2.owner ≠ some holder)) = true := by simp [droppedTable]
    rw [List.filter_eq_self.mpr whole]
    refine (Entries.filter_alterTable _ _ _ fun label => label ∉ family).trans ?_
    refine (List.map_congr_left fun entry member => ?_).trans (List.map_id _)
    exact if_neg fun same : entry.1 = table => (Entries.mem_beyond.mp member).2 (same ▸ drops)
  | dropIndex name table =>
    have whole : ∀ entry ∈ entries.beyond family, (decide (∀ holder ∈ (Ddl.dropIndex name
        table).droppedTable, entry.2.owner ≠ some holder)) = true := by simp [droppedTable]
    rw [List.filter_eq_self.mpr whole]
    refine (List.filter_comm _ _ _).trans (List.filter_eq_self.mpr fun entry member => ?_)
    refine decide_eq_true fun same : entry.1 = name => (Entries.mem_beyond.mp member).2 ?_
    exact same ▸ drops
  | dropTable name =>
    refine (List.filter_comm _ _ _).trans (List.filter_congr fun entry member => ?_)
    have other : entry.1 ≠ name := fun same => (Entries.mem_beyond.mp member).2 (same ▸ drops)
    simp [Goes, other, droppedTable]
  | createTable name table => exact drops.elim
  | createIndex index => exact drops.elim
  | createForeignKey source key => exact drops.elim

/-- The tables a list of statements drops. -/
def droppedTables (statements : List Ddl) : List String := statements.filterMap Ddl.droppedTable

section Run

variable {statements : List Ddl} (drops : ∀ statement ∈ statements, statement.DropsIn family)

include drops

theorem Entries.within_effects (entries : Entries) :
    (entries.effects statements).within family = (entries.within family).effects statements := by
  induction statements generalizing entries with
  | nil => rfl
  | cons statement rest inductionHypothesis =>
    rw [effects, List.foldl_cons, ← effects, inductionHypothesis
      (fun other member => drops other (List.mem_cons_of_mem _ member)),
      Ddl.within_effect (drops statement List.mem_cons_self)]
    rfl

theorem Entries.beyond_effects (entries : Entries) :
    (entries.effects statements).beyond family = (entries.beyond family).filter fun entry =>
      ∀ holder ∈ droppedTables statements, entry.2.owner ≠ some holder := by
  induction statements generalizing entries with
  | nil => simp [effects, droppedTables]
  | cons statement rest inductionHypothesis =>
    rw [effects, List.foldl_cons, ← effects, inductionHypothesis
      (fun other member => drops other (List.mem_cons_of_mem _ member)),
      Ddl.beyond_effect (drops statement List.mem_cons_self), List.filter_filter]
    refine List.filter_congr fun entry _ => ?_
    rw [Bool.eq_iff_iff]
    cases known : statement.droppedTable with
    | none =>
      have same : droppedTables (statement :: rest) = droppedTables rest :=
        List.filterMap_cons_none known
      simp [same]
    | some holder =>
      have same : droppedTables (statement :: rest) = holder :: droppedTables rest :=
        List.filterMap_cons_some known
      simp [same, and_comm]

end Run

/-! ### What may stay behind -/

/-- Nothing that stays behind depends on what goes: a relation outside the family is owned by one
of the tables to be dropped, or depends neither on the family nor on what those tables own. -/
def Entries.Detachable (entries : Entries) (family tables : List String) : Prop :=
  ∀ entry ∈ entries, entry.1 ∉ family →
    (∃ holder ∈ tables, entry.2.owner = some holder) ∨
      ∀ needed ∈ entry.2.dependsOn, needed ∉ family ∧
        ∀ other ∈ entries, other.1 = needed → ∀ holder ∈ tables, other.2.owner ≠ some holder

/-- What drops of the tables keep: the family is closed, the rest is detachable, and what is owned
by a table is owned by one that is still there. -/
structure Entries.Removable (entries : Entries) (family tables : List String) : Prop where
  distinct : entries.names.Nodup
  closed : (entries.within family).Closed
  detachable : entries.Detachable family tables
  owned : ∀ entry ∈ entries, entry.1 ∉ family → ∀ holder ∈ tables, entry.2.owner = some holder →
    ∃ definition rows, (holder, Relation.table definition rows) ∈ entries

theorem Relation.dependsOn_of_owner {relation : Relation} {name : String}
    (owned : relation.owner = some name) : relation.dependsOn = [name] := by
  cases relation with
  | table definition rows => cases owned
  | other dependencies description => cases owned
  | primaryIndex holder => rw [dependsOn, Option.some.inj owned]
  | index definition => rw [dependsOn, Option.some.inj owned]
  | sequence holder lastValue => rw [dependsOn, Option.some.inj owned]

/-- A name stands for one relation. -/
theorem Entries.eq_of_name {entries : Entries} (distinct : entries.names.Nodup)
    {first second : String × Relation} (firstMember : first ∈ entries)
    (secondMember : second ∈ entries) (same : first.1 = second.1) : first = second :=
  List.inj_on_of_nodup_map distinct firstMember secondMember same

theorem Entries.exists_index {entries : Entries} {name : String}
    (found : entries.hasIndex name = true) : ∃ index, (name, Relation.index index) ∈ entries := by
  unfold hasIndex at found
  split at found
  · rename_i index located
    obtain ⟨before, after, split, _⟩ := List.lookup_eq_some_iff.mp located
    exact ⟨index, split ▸ List.mem_append_right _ List.mem_cons_self⟩
  · cases found

theorem Entries.exists_table {entries : Entries} {name : String}
    (found : (entries.findTable name).isSome = true) :
    ∃ definition rows, (name, Relation.table definition rows) ∈ entries := by
  unfold findTable at found
  split at found
  · rename_i definition rows located
    obtain ⟨before, after, split, _⟩ := List.lookup_eq_some_iff.mp located
    exact ⟨definition, rows, split ▸ List.mem_append_right _ List.mem_cons_self⟩
  · cases found

/-- What a drop leaves was there before, under the same name and owner. -/
theorem Ddl.exists_origin {statement : Ddl} (drops : statement.DropsIn family) {entries : Entries}
    {entry : String × Relation} (member : entry ∈ statement.effect entries) :
    ∃ old ∈ entries, old.1 = entry.1 ∧ old.2.owner = entry.2.owner := by
  cases statement with
  | dropConstraint name table =>
    obtain ⟨old, oldMember, rfl⟩ := List.mem_map.mp member
    refine ⟨old, oldMember, ?_⟩
    split
    · refine ⟨rfl, ?_⟩
      cases old.2 <;> rfl
    · exact ⟨rfl, rfl⟩
  | dropIndex name table => exact ⟨entry, List.mem_of_mem_filter member, rfl, rfl⟩
  | dropTable name => exact ⟨entry, List.mem_of_mem_filter member, rfl, rfl⟩
  | createTable name table => exact drops.elim
  | createIndex index => exact drops.elim
  | createForeignKey source key => exact drops.elim

section Removable

variable {entries : Entries} {tables : List String} {statement : Ddl}
  (removable : entries.Removable family tables) (drops : statement.DropsIn family)
  (listed : ∀ holder ∈ statement.droppedTable, holder ∈ tables)

include removable drops listed

/-- A drop that succeeds on the family alone succeeds. -/
theorem Entries.Removable.succeeds (alone : statement.Succeeds (entries.within family)) :
    statement.Succeeds entries := by
  cases statement with
  | dropConstraint name table =>
    simp only [Ddl.Succeeds] at alone ⊢
    rwa [findTable_within entries drops] at alone
  | dropIndex name table =>
    obtain ⟨found, unneeded⟩ := alone
    rw [hasIndex_within entries drops] at found
    refine ⟨found, fun entry member depends => ?_⟩
    by_cases inside : entry.1 ∈ family
    · exact unneeded entry (mem_within.mpr ⟨member, inside⟩) depends
    rcases removable.detachable entry member inside with ⟨holder, isTable, owned⟩ | free
    · -- The owner is a table, and an index has another name.
      obtain ⟨definition, rows, holds⟩ := removable.owned entry member inside holder isTable owned
      obtain ⟨index, located⟩ := exists_index found
      rw [Relation.dependsOn_of_owner owned, List.mem_singleton] at depends
      subst depends
      exact absurd (congrArg Prod.snd (eq_of_name removable.distinct located holds rfl)) (by simp)
    · exact (free name depends).1 drops
  | dropTable name =>
    obtain ⟨found, unneeded⟩ := alone
    rw [findTable_within entries drops] at found
    refine ⟨found, fun entry member stays needed depends gone => ?_⟩
    obtain ⟨other, otherMember, rfl⟩ := List.mem_map.mp gone
    obtain ⟨otherListed, goes⟩ := List.mem_filter.mp otherMember
    rw [decide_eq_true_eq] at goes
    have isTable : name ∈ tables := listed name rfl
    by_cases inside : entry.1 ∈ family
    · have entryWithin := mem_within.mpr ⟨member, inside⟩
      obtain ⟨target, targetMember, same⟩ :=
        List.mem_map.mp (removable.closed entry entryWithin other.1 depends)
      obtain ⟨targetListed, targetInside⟩ := mem_within.mp targetMember
      obtain rfl := eq_of_name removable.distinct targetListed otherListed same
      refine unneeded entry entryWithin stays target.1 depends (List.mem_map.mpr
        ⟨target, List.mem_filter.mpr ⟨targetMember, decide_eq_true goes⟩, rfl⟩)
    rcases removable.detachable entry member inside with ⟨holder, holderListed, owned⟩ | free
    · obtain ⟨definition, rows, holds⟩ :=
        removable.owned entry member inside holder holderListed owned
      rw [Relation.dependsOn_of_owner owned, List.mem_singleton] at depends
      obtain rfl := eq_of_name removable.distinct otherListed holds depends
      rcases goes with same | owner
      · exact stays (Or.inr (owned.trans (congrArg some same)))
      · cases owner
    · obtain ⟨outside, unowned⟩ := free other.1 depends
      rcases goes with same | owner
      · exact outside (same ▸ drops)
      · exact unowned other otherListed rfl name isTable owner
  | createTable name table => exact drops.elim
  | createIndex index => exact drops.elim
  | createForeignKey source key => exact drops.elim

/-- What a drop that succeeds leaves can still be removed. -/
theorem Entries.Removable.effect (alone : statement.Succeeds (entries.within family)) :
    (statement.effect entries).Removable family tables := by
  have succeeds := removable.succeeds drops listed alone
  have outside {entry : String × Relation} (member : entry ∈ statement.effect entries)
      (out : entry.1 ∉ family) : entry ∈ entries ∧
        ∀ holder ∈ statement.droppedTable, entry.2.owner ≠ some holder := by
    have kept : entry ∈ (statement.effect entries).beyond family := mem_beyond.mpr ⟨member, out⟩
    rw [Ddl.beyond_effect drops, List.mem_filter, decide_eq_true_eq] at kept
    exact ⟨(mem_beyond.mp kept.1).1, kept.2⟩
  refine ⟨Ddl.effect_distinct succeeds removable.distinct, ?_, fun entry member out => ?_,
    fun entry member out holder isTable owned => ?_⟩
  · rw [Ddl.within_effect drops]
    exact Ddl.effect_closed alone removable.closed
  · obtain ⟨old, _⟩ := outside member out
    refine (removable.detachable entry old out).imp_right fun free needed depends => ?_
    refine ⟨(free needed depends).1, fun other otherMember same holder isTable owned => ?_⟩
    obtain ⟨origin, originMember, sameName, sameOwner⟩ := Ddl.exists_origin drops otherMember
    exact (free needed depends).2 origin originMember (sameName.trans same) holder isTable
      (sameOwner.trans owned)
  · obtain ⟨old, undropped⟩ := outside member out
    obtain ⟨definition, rows, holds⟩ := removable.owned entry old out holder isTable owned
    cases statement with
    | dropConstraint name table =>
      by_cases altered : holder = table
      · exact ⟨_, rows, List.mem_map.mpr ⟨_, holds, by rw [if_pos altered]; rfl⟩⟩
      · exact ⟨definition, rows, List.mem_map.mpr ⟨_, holds, if_neg altered⟩⟩
    | dropIndex name table =>
      refine ⟨definition, rows, List.mem_filter.mpr ⟨holds, decide_eq_true fun same => ?_⟩⟩
      obtain ⟨index, located⟩ := exists_index succeeds.1
      exact absurd (congrArg Prod.snd (eq_of_name removable.distinct located holds same.symm))
        (by simp)
    | dropTable name =>
      refine ⟨definition, rows, List.mem_filter.mpr ⟨holds, decide_eq_true ?_⟩⟩
      rintro (same | owner)
      · exact undropped name rfl (owned.trans (congrArg some same))
      · cases owner
    | createTable name table => exact drops.elim
    | createIndex index => exact drops.elim
    | createForeignKey source key => exact drops.elim

end Removable

/-- A run of drops that succeeds on the family alone succeeds, when nothing that stays depends on
what goes. -/
theorem Entries.Removable.run {tables : List String} {statements : List Ddl}
    {entries final : Entries} (removable : entries.Removable family tables)
    (drops : ∀ statement ∈ statements, statement.DropsIn family)
    (listed : droppedTables statements ⊆ tables)
    (alone : (entries.within family).run statements = some final) :
    entries.run statements = some (entries.effects statements) := by
  induction statements generalizing entries with
  | nil => rfl
  | cons statement rest inductionHypothesis =>
    have aimed := drops statement List.mem_cons_self
    have first : ∀ holder ∈ statement.droppedTable, holder ∈ tables := fun holder dropped =>
      listed (List.mem_filterMap.mpr ⟨statement, List.mem_cons_self, dropped⟩)
    have others : droppedTables rest ⊆ tables := fun holder dropped =>
      listed ((List.sublist_cons_self statement rest).filterMap _ |>.subset dropped)
    unfold Entries.run Ddl.apply at alone ⊢
    split at alone
    · rename_i succeeds
      rw [if_pos (removable.succeeds aimed first succeeds)]
      refine inductionHypothesis (removable.effect aimed first succeeds)
        (fun other member => drops other (List.mem_cons_of_mem _ member)) others ?_
      rwa [Ddl.within_effect aimed]
    · cases alone

section Emptied

variable {statements : List Ddl} {catalog result : Catalog}
  (drops : ∀ statement ∈ statements, statement.DropsIn family)
  (emptied : (catalog.entries.within family).effects statements = [])
  (ran : catalog.run statements = some result)

include drops emptied ran

/-- A run of drops that takes the whole family leaves the others, but for what the dropped tables
own. -/
theorem Catalog.entries_of_run :
    result.entries = (catalog.entries.beyond family).filter fun entry =>
      ∀ holder ∈ droppedTables statements, entry.2.owner ≠ some holder := by
  have final : result.entries = catalog.entries.effects statements := by
    refine Entries.eq_effects ?_
    rw [← catalog.entries_run, ran, Option.map_some]
  rw [← Entries.beyond_effects drops, ← final]
  refine (List.filter_eq_self.mpr fun entry member => ?_).symm
  rw [decide_eq_true_eq]
  intro inside
  have within := Entries.mem_within.mpr ⟨member, inside⟩
  rw [final, Entries.within_effects drops, emptied] at within
  exact absurd within List.not_mem_nil

/-- It succeeds only when nothing that stays depends on what goes: a catalog leaves nothing
dangling. -/
theorem Catalog.detachable_of_run :
    catalog.entries.Detachable family (droppedTables statements) := by
  have rest := Catalog.entries_of_run drops emptied ran
  intro entry member outside
  by_cases owned : ∃ holder ∈ droppedTables statements, entry.2.owner = some holder
  · exact Or.inl owned
  refine Or.inr fun needed depends => ?_
  have stays : entry ∈ result.entries := by
    rw [rest, List.mem_filter, decide_eq_true_eq]
    exact ⟨Entries.mem_beyond.mpr ⟨member, outside⟩, fun holder dropped owner =>
      owned ⟨holder, dropped, owner⟩⟩
  obtain ⟨target, targetMember, rfl⟩ := List.mem_map.mp (result.closed entry stays needed depends)
  rw [rest, List.mem_filter, decide_eq_true_eq] at targetMember
  obtain ⟨targetListed, targetOutside⟩ := Entries.mem_beyond.mp targetMember.1
  refine ⟨targetOutside, fun other otherMember same holder dropped => ?_⟩
  rw [Entries.eq_of_name catalog.distinct otherMember targetListed same]
  exact targetMember.2 holder dropped

end Emptied

end Family

end Sql
