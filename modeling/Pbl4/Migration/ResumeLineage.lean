/-
This file is about the lineage of attempts: an attempt resumes from a checkpoint,
which another attempt created. `attempts` and `checkpoints` refer to each other, so
no single constraint rules out a cycle. What does is the order in which statements
are accepted: a row's key is fresh when the row is inserted, hence nothing refers to
it yet, and what it refers to is there already. The `CHECK` that ties the execution
mode to the reference then says where the walk stops.
-/

import Pbl4.Lineage
import Pbl4.Migration.InitialSchema
import Pbl4.Sql.Database

namespace Pbl4.Migration

open Sql Lineage

/-! ### The resume graph -/

/-- The columns of an attempt that say who it is and where it resumes from. -/
def attemptColumns : List String := ["attempt_id", "resume_from_checkpoint_id"]

/-- The columns of a checkpoint that say which it is and who created it. -/
def checkpointColumns : List String := ["checkpoint_id", "created_by_attempt_id"]

/-- The columns updates leave alone. -/
def frozenLineageColumns (table : String) : List String :=
  if table = "attempts" then attemptColumns
  else if table = "checkpoints" then checkpointColumns
  else []

/-- An update changes neither the keys of attempts and checkpoints nor their references to
each other. -/
def KeepsLineageColumns (database : Database) (statement : Statement) : Prop :=
  statement.Keeps frozenLineageColumns database

/-- The ids of the stored attempts. -/
def attemptIds (database : Database) : Set Value :=
  {attemptId | ∃ attempt ∈ database "attempts", attempt "attempt_id" = attemptId}

/-- The attempt `attemptId` resumes from a checkpoint that the attempt `creator` created. -/
def ResumesFrom (database : Database) (attemptId creator : Value) : Prop :=
  ∃ attempt ∈ database "attempts", ∃ checkpoint ∈ database "checkpoints",
    attempt "attempt_id" = attemptId ∧
      attempt "resume_from_checkpoint_id" = checkpoint "checkpoint_id" ∧
      checkpoint "created_by_attempt_id" = creator

theorem mem_attemptIds_iff {database : Database} {attemptId : Value} :
    attemptId ∈ attemptIds database ↔
      ∃ checkpointId, [attemptId, checkpointId] ∈ database.project "attempts" attemptColumns := by
  constructor
  · rintro ⟨attempt, member, rfl⟩
    exact ⟨_, Database.mem_project.mpr ⟨attempt, member, rfl⟩⟩
  · rintro ⟨checkpointId, member⟩
    obtain ⟨attempt, attemptMember, same⟩ := Database.mem_project.mp member
    exact ⟨attempt, attemptMember, (List.cons.inj same).1⟩

theorem resumesFrom_iff {database : Database} {attemptId creator : Value} :
    ResumesFrom database attemptId creator ↔
      ∃ checkpointId, [attemptId, checkpointId] ∈ database.project "attempts" attemptColumns ∧
        [checkpointId, creator] ∈ database.project "checkpoints" checkpointColumns := by
  constructor
  · rintro ⟨attempt, member, checkpoint, checkpointMember, rfl, resumes, rfl⟩
    refine ⟨_, Database.mem_project.mpr ⟨attempt, member, rfl⟩,
      Database.mem_project.mpr ⟨checkpoint, checkpointMember, ?_⟩⟩
    show [checkpoint "checkpoint_id", _] = [attempt "resume_from_checkpoint_id", _]
    rw [resumes]
  · rintro ⟨checkpointId, attemptEdge, checkpointEdge⟩
    obtain ⟨attempt, member, sameAttempt⟩ := Database.mem_project.mp attemptEdge
    obtain ⟨checkpoint, checkpointMember, sameCheckpoint⟩ :=
      Database.mem_project.mp checkpointEdge
    obtain ⟨sameId, sameRest⟩ := List.cons.inj sameAttempt
    obtain ⟨sameKey, sameCreator⟩ := List.cons.inj sameCheckpoint
    exact ⟨attempt, member, checkpoint, checkpointMember, sameId,
      (List.cons.inj sameRest).1.trans sameKey.symm, (List.cons.inj sameCreator).1⟩

/-! ### What the constraints say -/

section Accepted

variable {database : Database}

/-- The keys between the two tables: a resuming attempt names a stored checkpoint. -/
theorem exists_checkpoint (accepted : initialSchema.Accepts database) {attempt : Row}
    (member : attempt ∈ database "attempts")
    (present : attempt "resume_from_checkpoint_id" ≠ .null) :
    ∃ checkpoint ∈ database "checkpoints",
      attempt "resume_from_checkpoint_id" = checkpoint "checkpoint_id" := by
  obtain ⟨checkpoint, checkpointMember, same⟩ := accepted.exists_target declared_attempts
    fkAttemptsResumeFromCheckpointId (by decide) member
    (fun column columnMember => by rwa [List.mem_singleton.mp columnMember])
  exact ⟨checkpoint, checkpointMember, (List.cons.inj same).1⟩

/-- A checkpoint names a stored attempt. -/
theorem creator_mem_attemptIds (accepted : initialSchema.Accepts database) {checkpoint : Row}
    (member : checkpoint ∈ database "checkpoints") :
    checkpoint "created_by_attempt_id" ∈ attemptIds database := by
  have present : checkpoint "created_by_attempt_id" ≠ .null :=
    accepted.ne_null declared_checkpoints
      (show required "created_by_attempt_id" .text ∈ checkpoints.columns by decide) rfl member
  obtain ⟨attempt, attemptMember, same⟩ := accepted.exists_target declared_checkpoints
    ⟨["created_by_attempt_id"], "attempts", ["attempt_id"],
      "fk_checkpoints__created_by_attempt_id__attempts"⟩
    (by decide) member
    (fun column columnMember => by rwa [List.mem_singleton.mp columnMember])
  exact ⟨attempt, attemptMember, (List.cons.inj same).1.symm⟩

theorem creator_mem_of_resumesFrom (accepted : initialSchema.Accepts database)
    {attemptId creator : Value} (resumes : ResumesFrom database attemptId creator) :
    creator ∈ attemptIds database := by
  obtain ⟨_, _, checkpoint, member, _, _, rfl⟩ := resumes
  exact creator_mem_attemptIds accepted member

theorem checkpointId_ne_null (accepted : initialSchema.Accepts database) {checkpoint : Row}
    (member : checkpoint ∈ database "checkpoints") : checkpoint "checkpoint_id" ≠ .null :=
  accepted.ne_null declared_checkpoints
    (show required "checkpoint_id" .text ∈ checkpoints.columns by decide) rfl member

/-- The primary keys: an attempt resumes from one attempt. -/
theorem resumesFrom_functional (accepted : initialSchema.Accepts database)
    (attemptId first second : Value) (firstResumes : ResumesFrom database attemptId first)
    (secondResumes : ResumesFrom database attemptId second) : first = second := by
  obtain ⟨attempt, member, checkpoint, checkpointMember, sameId, resumes, rfl⟩ := firstResumes
  obtain ⟨other, otherMember, otherCheckpoint, otherCheckpointMember, otherId, otherResumes,
    rfl⟩ := secondResumes
  have sameAttempt := accepted.eq_of_key declared_attempts member otherMember
    (show [attempt "attempt_id"] = [other "attempt_id"] by rw [sameId, otherId])
  have sameCheckpoint := accepted.eq_of_key declared_checkpoints checkpointMember
    otherCheckpointMember
    (show [checkpoint "checkpoint_id"] = [otherCheckpoint "checkpoint_id"] by
      rw [← resumes, ← otherResumes, sameAttempt])
  rw [sameCheckpoint]

/-- `ck_attempts__resume_checkpoint` on rows with a mode: `RESUME` attempts name a checkpoint
and the others do not. -/
theorem executionMode_cases (accepted : initialSchema.Accepts database) {attempt : Row}
    (member : attempt ∈ database "attempts") :
    (attempt "execution_mode" = .text "RESUME" ∧
      attempt "resume_from_checkpoint_id" ≠ .null) ∨
    ((attempt "execution_mode" = .text "FRESH" ∨
        attempt "execution_mode" = .text "RETRY_FROM_START") ∧
      attempt "resume_from_checkpoint_id" = .null) := by
  have present : attempt "execution_mode" ≠ .null := accepted.ne_null declared_attempts
    (show required "execution_mode" .text ∈ attemptsWithResume.columns by decide) rfl member
  have checks := (accepted.admitted _ declared_attempts attempt member).2
  have modes := checks ⟨.isIn "execution_mode" ["FRESH", "RETRY_FROM_START", "RESUME"],
    "ck_attempts__execution_mode"⟩ (by decide)
  have tied := checks ⟨.or
      (.and (.equals "execution_mode" "RESUME") (.isNotNull "resume_from_checkpoint_id"))
      (.and (.isIn "execution_mode" ["FRESH", "RETRY_FROM_START"])
        (.isNull "resume_from_checkpoint_id")),
    "ck_attempts__resume_checkpoint"⟩ (by decide)
  obtain ⟨mode, listed, same⟩ := Condition.isIn_of_passes present modes
  simp only [Condition.Passes, Condition.eval, same, unlessNull_text, kleeneAnd_some,
    kleeneOr_some] at tied
  simp only [List.mem_cons, List.mem_nil_iff, or_false] at listed
  rcases listed with rfl | rfl | rfl
  · refine Or.inr ⟨Or.inl same, Classical.byContradiction fun named => tied ?_⟩
    simp [named]
  · refine Or.inr ⟨Or.inr same, Classical.byContradiction fun named => tied ?_⟩
    simp [named]
  · refine Or.inl ⟨same, fun null => tied ?_⟩
    simp [null]

end Accepted

/-! ### One statement -/

section Step

variable {before : Database} {statement : Statement}

/-- Attempts that were there keep their predecessors, and these were there. -/
theorem resumesFrom_kept (keeps : KeepsLineageColumns before statement)
    (acceptedBefore : initialSchema.Accepts before)
    (accepted : initialSchema.Accepts (statement.write before)) :
    ∀ attemptId ∈ attemptIds before, ∀ creator,
      ResumesFrom (statement.write before) attemptId creator →
        ResumesFrom before attemptId creator ∧ creator ∈ attemptIds before := by
  intro attemptId known creator resumes
  obtain ⟨checkpointId, attemptEdge, checkpointEdge⟩ := resumesFrom_iff.mp resumes
  have oldAttemptEdge : [attemptId, checkpointId] ∈ before.project "attempts" attemptColumns :=
    edge_kept declared_attempts rfl keeps (List.Subset.refl attemptColumns) accepted known
      attemptEdge
  -- The checkpoint is one the old attempt already referred to.
  have knownCheckpoint :
      ∃ checkpoint ∈ before "checkpoints", checkpoint "checkpoint_id" = checkpointId := by
    obtain ⟨attempt, member, sameAttempt⟩ := Database.mem_project.mp oldAttemptEdge
    obtain ⟨checkpoint, checkpointMember, sameCheckpoint⟩ :=
      Database.mem_project.mp checkpointEdge
    have reference : attempt "resume_from_checkpoint_id" = checkpointId :=
      (List.cons.inj (List.cons.inj sameAttempt).2).1
    have present : attempt "resume_from_checkpoint_id" ≠ .null := by
      rw [reference, ← (List.cons.inj sameCheckpoint).1]
      exact checkpointId_ne_null accepted checkpointMember
    obtain ⟨old, oldMember, same⟩ := exists_checkpoint acceptedBefore member present
    exact ⟨old, oldMember, same.symm.trans reference⟩
  have old := resumesFrom_iff.mpr
    ⟨checkpointId, oldAttemptEdge, edge_kept declared_checkpoints rfl keeps
      (List.Subset.refl checkpointColumns) accepted knownCheckpoint checkpointEdge⟩
  exact ⟨old, creator_mem_of_resumesFrom acceptedBefore old⟩

/-- An attempt that was not there resumes from one that was. -/
theorem resumesFrom_added (keeps : KeepsLineageColumns before statement)
    (acceptedBefore : initialSchema.Accepts before)
    (accepted : initialSchema.Accepts (statement.write before)) :
    ∀ attemptId ∈ attemptIds (statement.write before), attemptId ∉ attemptIds before →
      ∀ creator, ResumesFrom (statement.write before) attemptId creator →
        creator ∈ attemptIds before := by
  intro attemptId _ unknown creator resumes
  rcases edges_cases declared_attempts rfl keeps (List.Subset.refl attemptColumns) accepted with
    ⟨attempt, rfl, _, _⟩ | dropped
  · -- An insert into `attempts` leaves the checkpoints as they were.
    obtain ⟨_, _, checkpoint, member, _, _, rfl⟩ := resumes
    rw [Statement.write_of_ne _ _ (show "checkpoints" ≠ "attempts" by decide)] at member
    exact creator_mem_attemptIds acceptedBefore member
  · obtain ⟨checkpointId, attemptEdge, _⟩ := resumesFrom_iff.mp resumes
    exact absurd (mem_attemptIds_iff.mpr ⟨checkpointId, dropped attemptEdge⟩) unknown

end Step

/-! ### Runs -/

/-- In every state a run reaches, every walk along predecessors ends. -/
theorem grounded_resumesFrom {database : Database}
    (reachable : Reachable initialSchema KeepsLineageColumns database) :
    ∀ attemptId ∈ attemptIds database, Grounded (ResumesFrom database) attemptId := by
  refine reachable.invariant (fun state =>
    ∀ attemptId ∈ attemptIds state, Grounded (ResumesFrom state) attemptId) ?_ ?_
  · rintro attemptId ⟨attempt, member, _⟩
    exact absurd member List.not_mem_nil
  · intro before statement acceptedBefore keeps accepted grounded
    exact grounded_grow (resumesFrom_kept keeps acceptedBefore accepted)
      (resumesFrom_added keeps acceptedBefore accepted) grounded

/-- In every state a run reaches, a reference to a checkpoint leads to a stored attempt, a
`RESUME` attempt has a predecessor, and the walk along predecessors from an attempt is unique,
visits stored attempts only and none twice, and ends at a `FRESH` or `RETRY_FROM_START`
attempt. -/
theorem resume_lineage {database : Database}
    (reachable : Reachable initialSchema KeepsLineageColumns database) {attempt : Row}
    (member : attempt ∈ database "attempts") :
    (attempt "resume_from_checkpoint_id" ≠ .null →
      ∃ creator ∈ attemptIds database,
        ResumesFrom database (attempt "attempt_id") creator) ∧
    (attempt "execution_mode" = .text "RESUME" →
      ∃ creator ∈ attemptIds database,
        ResumesFrom database (attempt "attempt_id") creator) ∧
    ∃ trail, IsLineage (ResumesFrom database) (attempt "attempt_id") trail ∧
      (∀ other, IsLineage (ResumesFrom database) (attempt "attempt_id") other →
        other = trail) ∧
      (∀ attemptId ∈ trail, attemptId ∈ attemptIds database) ∧
      ∀ last ∈ trail.getLast?, ∃ root ∈ database "attempts", root "attempt_id" = last ∧
        (root "execution_mode" = .text "FRESH" ∨
          root "execution_mode" = .text "RETRY_FROM_START") := by
  have accepted := reachable.accepted
  have resumes : ∀ row ∈ database "attempts", row "resume_from_checkpoint_id" ≠ .null →
      ∃ creator ∈ attemptIds database, ResumesFrom database (row "attempt_id") creator := by
    intro row rowMember present
    obtain ⟨checkpoint, checkpointMember, same⟩ := exists_checkpoint accepted rowMember present
    exact ⟨_, creator_mem_attemptIds accepted checkpointMember,
      row, rowMember, checkpoint, checkpointMember, rfl, same, rfl⟩
  have start : attempt "attempt_id" ∈ attemptIds database := ⟨attempt, member, rfl⟩
  obtain ⟨trail, lineage, _⟩ := (grounded_resumesFrom reachable _ start).exists_lineage
  have inside := lineage.subset (fun _ _ _ => creator_mem_of_resumesFrom accepted) start
  refine ⟨resumes attempt member, fun resumeMode => ?_, trail, lineage,
    fun other otherLineage => ?_, inside, fun last lastMember => ?_⟩
  · rcases executionMode_cases accepted member with ⟨_, present⟩ | ⟨fresh | retry, _⟩
    · exact resumes attempt member present
    · exact absurd (resumeMode.symm.trans fresh) (by decide)
    · exact absurd (resumeMode.symm.trans retry) (by decide)
  · exact otherLineage.unique (resumesFrom_functional accepted) lineage
  · obtain ⟨root, rootMember, rfl⟩ := inside last (List.mem_of_getLast? lastMember)
    refine ⟨root, rootMember, rfl, ?_⟩
    rcases executionMode_cases accepted rootMember with ⟨_, present⟩ | ⟨mode, _⟩
    · obtain ⟨creator, _, step⟩ := resumes root rootMember present
      exact absurd step (lineage.ends _ lastMember creator)
    · exact mode

/-- A checkpoint of the attempt `first`, and the attempt `second` that resumes from it. -/
def resumedRows : List (String × Row) := [
  ("jobs", draftJob "job" .null),
  ("attempts", attemptRow "first" "FRESH" "COMPLETED" .null),
  ("checkpoints", .of [
    ("checkpoint_id", .text "checkpoint"),
    ("created_by_attempt_id", .text "first"),
    ("source_operation_id", .integer 1),
    ("state", .text "WRITING"),
    ("model_version", .integer 1),
    ("recovery_cursor_jsonb", .document "{}"),
    ("checkpoint_policy", .text "every_epoch"),
    ("checkpoint_policy_version", .integer 1),
    ("created_at", .timestamp 2)]),
  ("attempts", attemptRow "second" "RESUME" "CREATED" (.text "checkpoint"))]

theorem reachable_resumedRows :
    Reachable initialSchema KeepsLineageColumns (emptyDatabase.inserting resumedRows) := by
  refine Reachable.empty.inserting (fun _ _ _ => Statement.keeps_insert _ _ _ _) ?_
  rw [initialSchema_eq]
  decide +kernel

theorem resume_lineage_resumedRows :
    ∃ creator ∈ attemptIds (emptyDatabase.inserting resumedRows),
      ResumesFrom (emptyDatabase.inserting resumedRows) (.text "second") creator := by
  have member : attemptRow "second" "RESUME" "CREATED" (.text "checkpoint") ∈
      emptyDatabase.inserting resumedRows "attempts" := by
    simp [resumedRows, Database.inserting, Statement.write, Statement.table, Statement.rewrite]
  exact (resume_lineage reachable_resumedRows member).2.1 rfl

end Pbl4.Migration
