/-
This file is about taking the migration's tables down row by row. Their keys layer the
tables: a row refers to rows of lower layers, except that jobs refer to jobs, and
attempts and checkpoints to each other. Inside those layers the ancestry of jobs and
the lineage of attempts keep every walk finite, so as long as updates leave the columns
they are made of alone, no cycle of references is reachable: single-row deletes can
empty the database, and single-row inserts can build it again.

An update that closes a cycle is accepted. The rows on the cycle can then neither be
deleted nor restored one at a time.
-/

import Pbl4.Migration.JobAncestry
import Pbl4.Migration.Statements

namespace Pbl4.Migration

open Sql Lineage

/-! ### Layers of tables -/

/-- The layer of a table. -/
def layer (table : String) : Nat :=
  if table ∈ ["datasets", "jobs"] then 0
  else if table = "dataset_builds" then 1
  else if table ∈ ["attempts", "checkpoints"] then 2
  else if table = "worker_steps" then 4
  else 3

/-- A reference between two rows through a key on one column. -/
structure RefersBy (table column target referenced : String) (source sink : Record) : Prop where
  source_table : source.1 = table
  sink_table : sink.1 = target
  present : source.2 column ≠ .null
  agrees : source.2 column = sink.2 referenced

/-- Every key leads down a layer, except those of the two ancestries. -/
theorem layer_target : ∀ entry ∈ initialSchema.tables, ∀ key ∈ entry.2.foreignKeys,
    layer key.target < layer entry.1 ∨
      layer key.target = layer entry.1 ∧
        (entry.1, key.columns, key.target, key.referenced) ∈ [
          ("jobs", ["cloned_from_job_id"], "jobs", ["job_id"]),
          ("attempts", ["resume_from_checkpoint_id"], "checkpoints", ["checkpoint_id"]),
          ("checkpoints", ["created_by_attempt_id"], "attempts", ["attempt_id"])] := by
  rw [initialSchema_eq]
  decide +kernel

/-! ### No cycle of references -/

section Run

variable {database : Database}

theorem links_cases {source sink : Record} (link : initialSchema.Links database source sink) :
    layer sink.1 < layer source.1 ∨
      layer sink.1 = layer source.1 ∧
        (RefersBy "jobs" "cloned_from_job_id" "jobs" "job_id" source sink ∨
          RefersBy "attempts" "resume_from_checkpoint_id" "checkpoints" "checkpoint_id"
            source sink ∨
          RefersBy "checkpoints" "created_by_attempt_id" "attempts" "attempt_id"
            source sink) := by
  obtain ⟨entry, member, home, key, keyMember, leads, present, agrees⟩ := link.refers
  rw [← home, ← leads]
  refine (layer_target entry member key keyMember).imp_right (And.imp_right fun listed => ?_)
  simp only [List.mem_cons, List.mem_nil_iff, or_false, Prod.mk.injEq] at listed
  have by_column : ∀ {table column target referenced : String}, entry.1 = table →
      key.columns = [column] → key.target = target → key.referenced = [referenced] →
        RefersBy table column target referenced source sink := by
    intro table column target referenced isTable isColumn isTarget isReferenced
    rw [isColumn, isReferenced] at agrees
    exact ⟨home.symm.trans isTable, leads.symm.trans isTarget,
      present column (isColumn ▸ List.mem_singleton.mpr rfl), (List.cons.inj agrees).1⟩
  rcases listed with ⟨table, columns, target, referenced⟩ | ⟨table, columns, target, referenced⟩ |
    ⟨table, columns, target, referenced⟩
  · exact Or.inl (by_column table columns target referenced)
  · exact Or.inr (Or.inl (by_column table columns target referenced))
  · exact Or.inr (Or.inr (by_column table columns target referenced))

/-- A reference inside a layer. -/
def LevelLinks (database : Database) (source sink : Record) : Prop :=
  initialSchema.Links database source sink ∧ layer sink.1 = layer source.1

/-- References among jobs end where the ancestry of jobs does. -/
theorem grounded_jobs (accepted : initialSchema.Accepts database)
    (ancestry : ∀ jobId ∈ jobIds database, Grounded (ClonedFromOther database) jobId)
    {record : Record} (home : record.1 = "jobs") (stored : database.Stores record) :
    Grounded (LevelLinks database) record := by
  have grounded := ancestry (record.2 "job_id") ⟨record.2, home ▸ stored, rfl⟩
  generalize identity : record.2 "job_id" = jobId at grounded
  induction grounded generalizing record with
  | intro jobId _ inductionHypothesis =>
    refine .of_parents fun next ⟨link, same⟩ => ?_
    rcases links_cases link with below | ⟨_, jobs | attempts | checkpoints⟩
    · exact absurd same (Nat.ne_of_lt below)
    · obtain ⟨label, row⟩ := record
      obtain ⟨nextLabel, nextRow⟩ := next
      obtain ⟨rfl, rfl, present, agrees⟩ := jobs
      refine inductionHypothesis _ ⟨⟨row, stored, identity, agrees, agrees ▸ present⟩, ?_⟩ rfl
        link.target_stored rfl
      rintro rfl
      refine link.distinct (congrArg _ (accepted.eq_of_key declared_jobs stored
        link.target_stored (congrArg (fun value => [value]) identity)))
    · exact absurd (home.symm.trans attempts.source_table) (by decide)
    · exact absurd (home.symm.trans checkpoints.source_table) (by decide)

/-- References between attempts and checkpoints end where the lineage of attempts does. -/
theorem grounded_attempts
    (lineage : ∀ attemptId ∈ attemptIds database, Grounded (ResumesFrom database) attemptId)
    {record : Record} (home : record.1 = "attempts") (stored : database.Stores record) :
    Grounded (LevelLinks database) record := by
  have grounded := lineage (record.2 "attempt_id") ⟨record.2, home ▸ stored, rfl⟩
  generalize identity : record.2 "attempt_id" = attemptId at grounded
  induction grounded generalizing record with
  | intro attemptId _ inductionHypothesis =>
    refine .of_parents fun checkpoint ⟨resumes, sameResumes⟩ => ?_
    rcases links_cases resumes with below | ⟨_, jobs | attempts | checkpoints⟩
    · exact absurd sameResumes (Nat.ne_of_lt below)
    · exact absurd (home.symm.trans jobs.source_table) (by decide)
    · refine .of_parents fun creator ⟨created, sameCreated⟩ => ?_
      rcases links_cases created with below | ⟨_, jobs | other | checkpoints⟩
      · exact absurd sameCreated (Nat.ne_of_lt below)
      · exact absurd (attempts.sink_table.symm.trans jobs.source_table) (by decide)
      · exact absurd (attempts.sink_table.symm.trans other.source_table) (by decide)
      · refine inductionHypothesis (creator.2 "attempt_id") ?_ checkpoints.sink_table
          created.target_stored rfl
        exact ⟨record.2, home ▸ stored, checkpoint.2,
          attempts.sink_table ▸ resumes.target_stored, identity, attempts.agrees,
          checkpoints.agrees⟩
    · exact absurd (home.symm.trans checkpoints.source_table) (by decide)

/-- References inside any layer end. -/
theorem grounded_levelLinks (accepted : initialSchema.Accepts database)
    (ancestry : ∀ jobId ∈ jobIds database, Grounded (ClonedFromOther database) jobId)
    (lineage : ∀ attemptId ∈ attemptIds database, Grounded (ResumesFrom database) attemptId)
    (record : Record) : Grounded (LevelLinks database) record := by
  refine .of_parents fun next ⟨link, same⟩ => ?_
  rcases links_cases link with below | ⟨_, jobs | attempts | checkpoints⟩
  · exact absurd same (Nat.ne_of_lt below)
  · exact grounded_jobs accepted ancestry jobs.sink_table link.target_stored
  · -- A checkpoint refers, inside its layer, to an attempt only.
    refine .of_parents fun creator ⟨created, sameCreated⟩ => ?_
    rcases links_cases created with below | ⟨_, jobs | other | creation⟩
    · exact absurd sameCreated (Nat.ne_of_lt below)
    · exact grounded_jobs accepted ancestry jobs.sink_table created.target_stored
    · exact absurd (attempts.sink_table.symm.trans other.source_table) (by decide)
    · exact grounded_attempts lineage creation.sink_table created.target_stored
  · exact grounded_attempts lineage checkpoints.sink_table link.target_stored

/-- An update changes neither the keys of jobs, attempts and checkpoints nor the references
among them. -/
def KeepsAncestry (database : Database) (statement : Statement) : Prop :=
  KeepsCloneColumns database statement ∧ KeepsLineageColumns database statement

/-- In every state such a run reaches, references have no cycle. -/
theorem acyclic_of_reachable (reachable : Reachable initialSchema KeepsAncestry database) :
    initialSchema.Acyclic database := by
  have ancestry := grounded_clonedFromOther (reachable.mono fun _ _ keeps => keeps.1)
  have lineage := grounded_resumesFrom (reachable.mono fun _ _ keeps => keeps.2)
  intro record
  refine (Grounded.of_layers (fun record : Record => layer record.1) (fun link => ?_)
    (grounded_levelLinks reachable.accepted ancestry lineage) record).acyclic
  exact (links_cases link).elim Nat.le_of_lt fun level => Nat.le_of_eq level.1

end Run

/-! ### Teardown and restore -/

/-- A reachable database can be emptied by single-row deletes, and built from nothing by
single-row inserts, exactly when following references from row to row never comes back. -/
theorem teardown_iff {database : Database}
    (reachable : Reachable initialSchema anyStatement database) :
    (initialSchema.Drains database ↔ initialSchema.Acyclic database) ∧
      (initialSchema.Restores database ↔ initialSchema.Acyclic database) :=
  ⟨Schema.drains_iff keyed_initialSchema reachable.accepted reachable.confines,
    Schema.restores_iff keyed_initialSchema reachable.accepted reachable.confines⟩

/-- The database after an attempt is made to resume from its own checkpoint. -/
def lockedDatabase : Database :=
  (Statement.update "attempts" 0
    (attemptRow "first" "RESUME" "COMPLETED" (.text "checkpoint"))).write
      (emptyDatabase.inserting (resumedRows.take 3))

theorem reachable_lockedDatabase : Reachable initialSchema anyStatement lockedDatabase := by
  have before : Reachable initialSchema anyStatement
      (emptyDatabase.inserting (resumedRows.take 3)) := by
    refine Reachable.empty.inserting (fun _ _ _ => trivial) ?_
    rw [initialSchema_eq]
    decide +kernel
  refine before.write trivial ?_ ?_ <;> rw [initialSchema_eq]
  · decide
  · decide +kernel

/-- The attempt and its checkpoint refer to each other, and neither can go first. -/
theorem teardown_lockedDatabase :
    ¬ initialSchema.Drains lockedDatabase ∧ ¬ initialSchema.Restores lockedDatabase := by
  have cyclic : ¬ initialSchema.Acyclic lockedDatabase := by
    let attempt : Record :=
      ("attempts", attemptRow "first" "RESUME" "COMPLETED" (.text "checkpoint"))
    let checkpoint : Record := ("checkpoints", (resumedRows[2]).2)
    have resumes : initialSchema.Refers attempt checkpoint := by
      rw [initialSchema_eq]
      decide +kernel
    have created : initialSchema.Refers checkpoint attempt := by
      rw [initialSchema_eq]
      decide +kernel
    have different : attempt ≠ checkpoint := fun same =>
      absurd (congrArg Prod.fst same) (show "attempts" ≠ "checkpoints" by decide)
    have stored : lockedDatabase.Stores attempt ∧ lockedDatabase.Stores checkpoint :=
      ⟨List.mem_of_getElem? (i := 0) rfl, List.mem_of_getElem? (i := 0) rfl⟩
    exact fun acyclic => acyclic attempt
      (.tail (.single ⟨stored.1, stored.2, different, resumes⟩)
        ⟨stored.2, stored.1, different.symm, created⟩)
  have both := teardown_iff reachable_lockedDatabase
  exact ⟨mt both.1.mp cyclic, mt both.2.mp cyclic⟩

end Pbl4.Migration
