/-
This file is the migration `0001_initial_schema`: the twelve business tables, their
constraints and secondary indexes, and the statements of `upgrade` and `downgrade`
in the order they are written. `attempts` and `checkpoints` refer to each other, so
one of the two keys is declared after both tables and dropped before either.
-/

import Pbl4.Sql.Catalog

namespace Pbl4.Migration

open Sql

/-! ### Column shorthands -/

/-- `sa.Column(name, type, nullable=False)` -/
def required (name : String) (type : ColumnType) : Column :=
  { name, type, nullable := false }

/-- `sa.Column(name, type, nullable=True)` -/
def nullable (name : String) (type : ColumnType) : Column :=
  { name, type, nullable := true }

/-- `sa.Column(name, type, autoincrement=True, nullable=False)` -/
def serial (name : String) (type : ColumnType) : Column :=
  { name, type, nullable := false, autoincrement := true }

/-- `first IS NOT NULL AND …`, over all the columns. -/
def allPresent (first : String) (rest : List String) : Condition :=
  rest.foldl (fun condition column => .and condition (.isNotNull column)) (.isNotNull first)

/-! ### Tables and indexes -/

/-- A dataset, the root of the build catalogue. -/
def datasets : Table where
  columns := [
    required "dataset_id" .text,
    required "name" .text,
    required "task_type" .text,
    required "source_type" .text,
    required "source_reference" .text,
    required "created_at" .timestamp]
  primaryKey := ⟨["dataset_id"], "pk_datasets"⟩

/-- A build of a dataset, with its lifecycle state and manifest. -/
def datasetBuilds : Table where
  columns := [
    required "dataset_build_id" .text,
    required "dataset_id" .text,
    required "state" .text,
    required "profile" .text,
    required "input_shape_json" .jsonb,
    required "dtype" .text,
    required "num_classes" .integer,
    required "preprocessing_json" .jsonb,
    required "batch_size" .integer,
    required "shard_count" .integer,
    required "partition_seed" .bigInteger,
    required "sample_count" .bigInteger,
    nullable "batch_count_per_shard" .integer,
    required "manifest_uri" .text,
    required "dataset_manifest_hash" (.char 64),
    required "manifest_snapshot_jsonb" .jsonb,
    required "artifact_base_url" .text,
    nullable "registration_id" .text,
    nullable "registration_acknowledged_at" .timestamp,
    required "created_at" .timestamp,
    nullable "ready_at" .timestamp,
    nullable "deprecated_at" .timestamp]
  primaryKey := ⟨["dataset_build_id"], "pk_dataset_builds"⟩
  foreignKeys := [
    ⟨["dataset_id"], "datasets", ["dataset_id"],
      "fk_dataset_builds__dataset_id__datasets"⟩]
  checks := [
    ⟨.isIn "state" [
        "CREATED", "QUEUED", "IMPORTING", "VALIDATING", "PREPROCESSING", "MATERIALIZING",
        "VERIFYING", "REGISTERING", "READY", "FAILED", "DEPRECATED", "DELETING", "DELETED"],
      "ck_dataset_builds__state"⟩]

def ixDatasetBuildsDatasetIdState : Index where
  name := "ix_dataset_builds__dataset_id_state"
  table := "dataset_builds"
  keys := [.column "dataset_id", .column "state"]

/-- A job; `cloned_from_job_id` names the job it was cloned from. A job that is `READY`
has a frozen contract. -/
def jobs : Table where
  columns := [
    required "job_id" .text,
    required "display_name" .text,
    required "description" .text,
    required "state" .text,
    required "requested_contract" .jsonb,
    nullable "resolved_contract" .jsonb,
    nullable "contract_hash" (.char 64),
    nullable "cloned_from_job_id" .text,
    required "created_at" .timestamp,
    nullable "frozen_at" .timestamp,
    nullable "archived_at" .timestamp]
  primaryKey := ⟨["job_id"], "pk_jobs"⟩
  foreignKeys := [
    ⟨["cloned_from_job_id"], "jobs", ["job_id"],
      "fk_jobs__cloned_from_job_id__jobs"⟩]
  checks := [
    ⟨.isIn "state" ["DRAFT", "READY", "ARCHIVED"],
      "ck_jobs__state"⟩,
    ⟨.or (.differs "state" "READY") (allPresent "resolved_contract" [
        "contract_hash", "frozen_at"]),
      "ck_jobs__ready_frozen_contract"⟩]

def ixJobsStateCreatedAt : Index where
  name := "ix_jobs__state_created_at"
  table := "jobs"
  keys := [.column "state", .column "created_at"]

/-- An attempt at a job. `RESUME` attempts, and only those, name the checkpoint they resume
from; the key on that column is added once `checkpoints` exists. -/
def attempts : Table where
  columns := [
    required "attempt_id" .text,
    required "job_id" .text,
    required "contract_hash" (.char 64),
    required "execution_mode" .text,
    required "state" .text,
    nullable "resume_from_checkpoint_id" .text,
    required "created_at" .timestamp,
    nullable "started_at" .timestamp,
    nullable "ended_at" .timestamp,
    nullable "failure_code" .text,
    nullable "failure_message" .text,
    nullable "runtime_metadata" .jsonb]
  primaryKey := ⟨["attempt_id"], "pk_attempts"⟩
  foreignKeys := [
    ⟨["job_id"], "jobs", ["job_id"],
      "fk_attempts__job_id__jobs"⟩]
  checks := [
    ⟨.isIn "execution_mode" ["FRESH", "RETRY_FROM_START", "RESUME"],
      "ck_attempts__execution_mode"⟩,
    ⟨.isIn "state" [
        "CREATED", "WAITING_WORKERS", "PROVISIONING", "INITIALIZING", "RUNNING", "COMPLETING",
        "COMPLETED", "FAILED", "ABORTED"],
      "ck_attempts__state"⟩,
    ⟨.or
        (.and (.equals "execution_mode" "RESUME") (.isNotNull "resume_from_checkpoint_id"))
        (.and (.isIn "execution_mode" ["FRESH", "RETRY_FROM_START"])
          (.isNull "resume_from_checkpoint_id")),
      "ck_attempts__resume_checkpoint"⟩]

/-- At most one attempt is active across the system. -/
def uqAttemptsOneActive : Index where
  name := "uq_attempts__one_active"
  table := "attempts"
  keys := [.constant 1]
  unique := true
  predicate := some (.isIn "state" [
      "CREATED", "WAITING_WORKERS", "PROVISIONING", "INITIALIZING", "RUNNING", "COMPLETING"])

def ixAttemptsJobIdCreatedAt : Index where
  name := "ix_attempts__job_id_created_at"
  table := "attempts"
  keys := [.column "job_id", .column "created_at"]

/-- A session of a worker in an attempt. -/
def workerSessions : Table where
  columns := [
    required "session_id" .bigInteger,
    required "attempt_id" .text,
    required "worker_id" .integer,
    required "node_label" .text,
    required "protocol_version" .integer,
    required "state" .text,
    required "connected_at" .timestamp,
    nullable "last_heartbeat_at" .timestamp,
    nullable "disconnected_at" .timestamp,
    nullable "failure_code" .text]
  primaryKey := ⟨["session_id"], "pk_worker_sessions"⟩
  foreignKeys := [
    ⟨["attempt_id"], "attempts", ["attempt_id"],
      "fk_worker_sessions__attempt_id__attempts"⟩]
  checks := [
    ⟨.exceeds "session_id" 0,
      "ck_worker_sessions__session_id_positive"⟩,
    ⟨.isIn "state" [
        "CONNECTING", "REGISTERING", "PROVISIONING", "SHARD_READY", "MODEL_SYNCING", "READY",
        "DISCONNECTED", "FAILED"],
      "ck_worker_sessions__state"⟩]

/-- At most one session is active for a rank of an attempt. -/
def uqWorkerSessionsActiveRank : Index where
  name := "uq_worker_sessions__active_rank"
  table := "worker_sessions"
  keys := [.column "attempt_id", .column "worker_id"]
  unique := true
  predicate := some (.isNotIn "state" ["DISCONNECTED", "FAILED"])

/-- The provisioning of one rank of an attempt with a shard. -/
def workerProvisioning : Table where
  columns := [
    required "attempt_id" .text,
    required "worker_id" .integer,
    required "dataset_build_id" .text,
    required "shard_id" .integer,
    required "state" .text,
    required "cache_reused" .boolean,
    required "bytes_downloaded" .bigInteger,
    nullable "download_ms" .double,
    nullable "verify_ms" .double,
    nullable "started_at" .timestamp,
    nullable "completed_at" .timestamp]
  primaryKey := ⟨["attempt_id", "worker_id"], "pk_worker_provisioning"⟩
  foreignKeys := [
    ⟨["attempt_id"], "attempts", ["attempt_id"],
      "fk_worker_provisioning__attempt_id__attempts"⟩,
    ⟨["dataset_build_id"], "dataset_builds", ["dataset_build_id"],
      "fk_worker_provisioning__dataset_build_id__dataset_builds"⟩]
  checks := [
    ⟨.isIn "state" ["PENDING", "DOWNLOADING", "VERIFYING", "READY", "FAILED"],
      "ck_worker_provisioning__state"⟩]

/-- A training step of an attempt. -/
def steps : Table where
  columns := [
    required "attempt_id" .text,
    required "step_id" .bigInteger,
    required "operation_id" .bigInteger,
    required "training_strategy" .text,
    required "epoch" .integer,
    required "batch_ordinal" .bigInteger,
    required "input_model_version" .bigInteger,
    nullable "output_model_version" .bigInteger,
    required "state" .text,
    nullable "total_sample_count" .bigInteger,
    required "started_at" .timestamp,
    nullable "synchronization_completed_at" .timestamp,
    nullable "update_completed_at" .timestamp,
    nullable "committed_at" .timestamp,
    nullable "aggregate_ms" .double,
    nullable "optimizer_ms" .double,
    nullable "broadcast_ms" .double,
    nullable "checkpoint_ms" .double]
  primaryKey := ⟨["attempt_id", "step_id"], "pk_steps"⟩
  foreignKeys := [
    ⟨["attempt_id"], "attempts", ["attempt_id"],
      "fk_steps__attempt_id__attempts"⟩]
  checks := [
    ⟨.isIn "state" [
        "CREATED", "DISPATCHED", "COLLECTING_GRADIENTS", "AGGREGATING", "UPDATING",
        "BROADCASTING", "WAITING_PARAMETER_APPLIED", "CHECKPOINTING", "COMMITTED"],
      "ck_steps__state"⟩]

/-- The contribution of one rank to a step, made through a session. -/
def workerSteps : Table where
  columns := [
    required "attempt_id" .text,
    required "step_id" .bigInteger,
    required "worker_id" .integer,
    required "session_id" .bigInteger,
    required "shard_id" .integer,
    required "batch_id" .bigInteger,
    required "sample_count" .integer,
    nullable "loss" .double,
    nullable "accuracy" .double,
    required "compute_ms" .double,
    required "upload_ms" .double,
    required "parameter_apply_ms" .double,
    required "bytes_sent" .bigInteger,
    required "bytes_received" .bigInteger]
  primaryKey := ⟨["attempt_id", "step_id", "worker_id"], "pk_worker_steps"⟩
  foreignKeys := [
    ⟨["attempt_id"], "attempts", ["attempt_id"],
      "fk_worker_steps__attempt_id__attempts"⟩,
    ⟨["attempt_id", "step_id"], "steps", ["attempt_id", "step_id"],
      "fk_worker_steps__attempt_step__steps"⟩,
    ⟨["session_id"], "worker_sessions", ["session_id"],
      "fk_worker_steps__session_id__worker_sessions"⟩]

/-- A checkpoint, created by an attempt. A `COMPLETE` checkpoint has all its artifacts. -/
def checkpoints : Table where
  columns := [
    required "checkpoint_id" .text,
    required "created_by_attempt_id" .text,
    required "source_operation_id" .bigInteger,
    nullable "source_step_id" .bigInteger,
    required "state" .text,
    required "model_version" .bigInteger,
    required "recovery_cursor_jsonb" .jsonb,
    nullable "epoch" .integer,
    nullable "next_batch_ordinal" .bigInteger,
    nullable "contract_hash" (.char 64),
    nullable "dataset_build_id" .text,
    nullable "dataset_manifest_hash" (.char 64),
    nullable "parameter_manifest_hash" (.char 64),
    required "checkpoint_policy" .text,
    required "checkpoint_policy_version" .integer,
    nullable "model_path" .text,
    nullable "metadata_path" .text,
    nullable "model_sha256" (.char 64),
    nullable "metadata_sha256" (.char 64),
    required "created_at" .timestamp,
    nullable "completed_at" .timestamp]
  primaryKey := ⟨["checkpoint_id"], "pk_checkpoints"⟩
  foreignKeys := [
    ⟨["created_by_attempt_id"], "attempts", ["attempt_id"],
      "fk_checkpoints__created_by_attempt_id__attempts"⟩,
    ⟨["dataset_build_id"], "dataset_builds", ["dataset_build_id"],
      "fk_checkpoints__dataset_build_id__dataset_builds"⟩]
  checks := [
    ⟨.isIn "state" ["WRITING", "COMPLETE", "FAILED"],
      "ck_checkpoints__state"⟩,
    ⟨.or (.differs "state" "COMPLETE") (allPresent "contract_hash" [
        "dataset_build_id", "dataset_manifest_hash", "parameter_manifest_hash", "model_path",
        "metadata_path", "model_sha256", "metadata_sha256", "completed_at"]),
      "ck_checkpoints__complete_requirements"⟩]

/-- An event, deduplicated by its sequence number within the attempt. -/
def events : Table where
  columns := [
    serial "event_id" .bigInteger,
    nullable "attempt_id" .text,
    nullable "runtime_event_seq" .bigInteger,
    required "event_type" .text,
    required "source_component" .text,
    required "scope_type" .text,
    nullable "scope_id" .text,
    required "severity" .text,
    required "payload_jsonb" .jsonb,
    required "occurred_at" .timestamp,
    required "persisted_at" .timestamp]
  primaryKey := ⟨["event_id"], "pk_events"⟩
  foreignKeys := [
    ⟨["attempt_id"], "attempts", ["attempt_id"],
      "fk_events__attempt_id__attempts"⟩]
  checks := [
    ⟨.isIn "severity" ["INFO", "WARNING", "ERROR", "CRITICAL"],
      "ck_events__severity"⟩]

/-- An attempt has each runtime sequence number once. -/
def uqEventsAttemptRuntimeSeq : Index where
  name := "uq_events__attempt_runtime_seq"
  table := "events"
  keys := [.column "attempt_id", .column "runtime_event_seq"]
  unique := true
  predicate := some (allPresent "attempt_id" ["runtime_event_seq"])

def ixEventsAttemptOccurredAt : Index where
  name := "ix_events__attempt_occurred_at"
  table := "events"
  keys := [.column "attempt_id", .column "occurred_at"]

/-- A control command and its outcome. -/
def controlCommands : Table where
  columns := [
    required "command_id" .uuid,
    required "command_type" .text,
    required "target_type" .text,
    nullable "target_id" .text,
    required "state" .text,
    required "request_jsonb" .jsonb,
    nullable "requester_context_jsonb" .jsonb,
    nullable "result_jsonb" .jsonb,
    required "requested_at" .timestamp,
    nullable "dispatched_at" .timestamp,
    nullable "completed_at" .timestamp]
  primaryKey := ⟨["command_id"], "pk_control_commands"⟩
  checks := [
    ⟨.isIn "command_type" [
        "CREATE_DATASET_BUILD", "REBUILD_DATASET_BUILD", "DELETE_DATASET_BUILD",
        "START_ATTEMPT", "ABORT_ATTEMPT", "REQUEST_CHECKPOINT"],
      "ck_control_commands__command_type"⟩,
    ⟨.isIn "target_type" ["DATASET_BUILD", "ATTEMPT"],
      "ck_control_commands__target_type"⟩,
    ⟨.isIn "state" ["PENDING", "ACCEPTED", "DEFERRED", "SUCCEEDED", "REJECTED", "FAILED"],
      "ck_control_commands__state"⟩]

def ixControlCommandsStateRequestedAt : Index where
  name := "ix_control_commands__state_requested_at"
  table := "control_commands"
  keys := [.column "state", .column "requested_at"]

/-- A metric observed during an attempt. -/
def metrics : Table where
  columns := [
    serial "metric_id" .bigInteger,
    required "attempt_id" .text,
    nullable "worker_id" .integer,
    nullable "operation_id" .bigInteger,
    nullable "step_id" .bigInteger,
    nullable "strategy" .text,
    required "name" .text,
    required "value" .double,
    nullable "unit" .text,
    nullable "labels_jsonb" .jsonb,
    required "observed_at" .timestamp]
  primaryKey := ⟨["metric_id"], "pk_metrics"⟩
  foreignKeys := [
    ⟨["attempt_id"], "attempts", ["attempt_id"],
      "fk_metrics__attempt_id__attempts"⟩]

def ixMetricsAttemptIdObservedAt : Index where
  name := "ix_metrics__attempt_id_observed_at"
  table := "metrics"
  keys := [.column "attempt_id", .column "observed_at"]

/-! ### The two directions of the migration -/

/-- The key that closes the cycle between `attempts` and `checkpoints`. -/
def fkAttemptsResumeFromCheckpointId : ForeignKey :=
  ⟨["resume_from_checkpoint_id"], "checkpoints", ["checkpoint_id"],
    "fk_attempts__resume_from_checkpoint_id__checkpoints"⟩

/-- `upgrade()`, statement by statement. -/
def upgrade : List Ddl := [
  .createTable "datasets" datasets,
  .createTable "dataset_builds" datasetBuilds,
  .createIndex ixDatasetBuildsDatasetIdState,
  .createTable "jobs" jobs,
  .createIndex ixJobsStateCreatedAt,
  .createTable "attempts" attempts,
  .createIndex uqAttemptsOneActive,
  .createIndex ixAttemptsJobIdCreatedAt,
  .createTable "worker_sessions" workerSessions,
  .createIndex uqWorkerSessionsActiveRank,
  .createTable "worker_provisioning" workerProvisioning,
  .createTable "steps" steps,
  .createTable "worker_steps" workerSteps,
  .createTable "checkpoints" checkpoints,
  .createForeignKey "attempts" fkAttemptsResumeFromCheckpointId,
  .createTable "events" events,
  .createIndex uqEventsAttemptRuntimeSeq,
  .createIndex ixEventsAttemptOccurredAt,
  .createTable "control_commands" controlCommands,
  .createIndex ixControlCommandsStateRequestedAt,
  .createTable "metrics" metrics,
  .createIndex ixMetricsAttemptIdObservedAt]

/-- `downgrade()`, statement by statement. -/
def downgrade : List Ddl := [
  .dropConstraint "fk_attempts__resume_from_checkpoint_id__checkpoints" "attempts",
  .dropIndex "ix_metrics__attempt_id_observed_at" "metrics",
  .dropIndex "ix_control_commands__state_requested_at" "control_commands",
  .dropIndex "ix_events__attempt_occurred_at" "events",
  .dropIndex "uq_events__attempt_runtime_seq" "events",
  .dropIndex "uq_worker_sessions__active_rank" "worker_sessions",
  .dropIndex "ix_attempts__job_id_created_at" "attempts",
  .dropIndex "uq_attempts__one_active" "attempts",
  .dropIndex "ix_jobs__state_created_at" "jobs",
  .dropIndex "ix_dataset_builds__dataset_id_state" "dataset_builds",
  .dropTable "metrics",
  .dropTable "control_commands",
  .dropTable "events",
  .dropTable "checkpoints",
  .dropTable "worker_steps",
  .dropTable "steps",
  .dropTable "worker_provisioning",
  .dropTable "worker_sessions",
  .dropTable "attempts",
  .dropTable "jobs",
  .dropTable "dataset_builds",
  .dropTable "datasets"]

/-! ### The schema the migration leaves -/

/-- The relations `upgrade()` leaves in an empty catalog. -/
def initialEntries : Entries := (Entries.run [] upgrade).getD []

/-- The schema `upgrade()` leaves. -/
def initialSchema : Schema := initialEntries.schema

/-- `attempts` as `upgrade()` leaves it, with the key that closes the cycle. -/
def attemptsWithResume : Table := attempts.addForeignKey fkAttemptsResumeFromCheckpointId

theorem run_upgrade_empty : Entries.run [] upgrade = some initialEntries := by
  have succeeds : (Entries.run [] upgrade).isSome = true := by decide +kernel
  unfold initialEntries
  cases run : Entries.run [] upgrade with
  | none => rw [run] at succeeds; exact absurd succeeds (by decide)
  | some entries => rfl

/-- The tables and secondary indexes after `upgrade()`, in the order of their creation. -/
theorem initialSchema_eq :
    initialSchema = {
      tables := [
        ("datasets", datasets), ("dataset_builds", datasetBuilds), ("jobs", jobs),
        ("attempts", attemptsWithResume), ("worker_sessions", workerSessions),
        ("worker_provisioning", workerProvisioning), ("steps", steps),
        ("worker_steps", workerSteps), ("checkpoints", checkpoints), ("events", events),
        ("control_commands", controlCommands), ("metrics", metrics)]
      indexes := [
        ixDatasetBuildsDatasetIdState, ixJobsStateCreatedAt, uqAttemptsOneActive,
        ixAttemptsJobIdCreatedAt, uqWorkerSessionsActiveRank, uqEventsAttemptRuntimeSeq,
        ixEventsAttemptOccurredAt, ixControlCommandsStateRequestedAt,
        ixMetricsAttemptIdObservedAt] } := by
  decide +kernel

theorem declared_jobs : ("jobs", jobs) ∈ initialSchema.tables := by
  rw [initialSchema_eq]
  decide

theorem declared_attempts : ("attempts", attemptsWithResume) ∈ initialSchema.tables := by
  rw [initialSchema_eq]
  decide

theorem declared_checkpoints : ("checkpoints", checkpoints) ∈ initialSchema.tables := by
  rw [initialSchema_eq]
  decide

theorem declared_workerSessions : ("worker_sessions", workerSessions) ∈ initialSchema.tables := by
  rw [initialSchema_eq]
  decide

theorem declared_workerSteps : ("worker_steps", workerSteps) ∈ initialSchema.tables := by
  rw [initialSchema_eq]
  decide

/-! ### Sample rows -/

/-- A job as an `INSERT` may store it, with the given source. -/
def draftJob (jobId : String) (source : Value) : Row := .of [
  ("job_id", .text jobId),
  ("display_name", .text "resnet baseline"),
  ("description", .text ""),
  ("state", .text "DRAFT"),
  ("requested_contract", .document "{}"),
  ("cloned_from_job_id", source),
  ("created_at", .timestamp 0)]

/-- An attempt at the job `job`. -/
def attemptRow (attemptId mode state : String) (checkpoint : Value) : Row := .of [
  ("attempt_id", .text attemptId),
  ("job_id", .text "job"),
  ("contract_hash", .text "contract"),
  ("execution_mode", .text mode),
  ("state", .text state),
  ("resume_from_checkpoint_id", checkpoint),
  ("created_at", .timestamp 1)]

end Pbl4.Migration
