/-
This file is about whom a worker step is attributed to. `worker_steps` repeats the
attempt, the rank and the session of a step and is tied to its parents by three keys.
The composite key to `steps` and the key to `attempts` agree on the attempt in every
reachable state. The key to `worker_sessions` is on `session_id` alone: it finds the
session, and says nothing about the session's attempt or rank. These agree exactly as
long as every statement that writes a worker step, or updates a session some worker
step refers to, writes agreeing columns.
-/

import Pbl4.Migration.InitialSchema
import Pbl4.Sql.Database

namespace Pbl4.Migration

open Sql

/-! ### Attribution -/

/-- The session is the one the worker step names, and it belongs to the attempt and the rank
the worker step names. -/
def Attributed (workerStep session : Row) : Prop :=
  session "session_id" = workerStep "session_id" ∧
    session "attempt_id" = workerStep "attempt_id" ∧
    session "worker_id" = workerStep "worker_id"

/-- Some stored session is the worker step's own. -/
def HasOwnSession (database : Database) (workerStep : Row) : Prop :=
  ∃ session ∈ database "worker_sessions", Attributed workerStep session

/-- Every worker step has its own session. -/
def SessionScoped (database : Database) : Prop :=
  ∀ workerStep ∈ database "worker_steps", HasOwnSession database workerStep

/-- The step a worker step refers to exists, under the same attempt. -/
def HasStep (database : Database) (workerStep : Row) : Prop :=
  ∃ step ∈ database "steps", step "attempt_id" = workerStep "attempt_id" ∧
    step "step_id" = workerStep "step_id"

/-- What the statement writes agrees with the sessions: a stored worker step has its own
session, and an updated session stays the own session of the worker steps that refer to it. -/
def RespectsScope (database : Database) : Statement → Prop
  | .insert table row => table = "worker_steps" → HasOwnSession database row
  | .update table position row => ∀ old, (database table)[position]? = some old →
      (table = "worker_steps" → HasOwnSession database row) ∧
      (table = "worker_sessions" → ∀ workerStep ∈ database "worker_steps",
        workerStep "session_id" = old "session_id" → Attributed workerStep row)
  | .delete _ _ => True

instance (workerStep session : Row) : Decidable (Attributed workerStep session) :=
  inferInstanceAs (Decidable (_ ∧ _))

instance (database : Database) (workerStep : Row) :
    Decidable (HasOwnSession database workerStep) :=
  inferInstanceAs (Decidable (∃ session ∈ database "worker_sessions", _))

instance (database : Database) : Decidable (SessionScoped database) :=
  inferInstanceAs (Decidable (∀ workerStep ∈ database "worker_steps", _))

/-! ### What the constraints say -/

section Accepted

variable {database : Database}

/-- The composite key: the step of a worker step exists under its attempt. -/
theorem hasStep_of_accepts (accepted : initialSchema.Accepts database) {workerStep : Row}
    (member : workerStep ∈ database "worker_steps") : HasStep database workerStep := by
  have attemptPresent : workerStep "attempt_id" ≠ .null := accepted.ne_null declared_workerSteps
    (show required "attempt_id" .text ∈ workerSteps.columns by decide) rfl member
  have stepPresent : workerStep "step_id" ≠ .null := accepted.ne_null declared_workerSteps
    (show required "step_id" .bigInteger ∈ workerSteps.columns by decide) rfl member
  obtain ⟨step, stepMember, same⟩ := accepted.exists_target declared_workerSteps
    ⟨["attempt_id", "step_id"], "steps", ["attempt_id", "step_id"],
      "fk_worker_steps__attempt_step__steps"⟩ (by decide) member (by
    intro column columnMember
    simp only [List.mem_cons, List.mem_nil_iff, or_false] at columnMember
    rcases columnMember with rfl | rfl
    · exact attemptPresent
    · exact stepPresent)
  obtain ⟨sameAttempt, rest⟩ := List.cons.inj same
  exact ⟨step, stepMember, sameAttempt.symm, (List.cons.inj rest).1.symm⟩

/-- The key to `worker_sessions`: the session of a worker step exists. -/
theorem exists_session (accepted : initialSchema.Accepts database) {workerStep : Row}
    (member : workerStep ∈ database "worker_steps") :
    ∃ session ∈ database "worker_sessions",
      session "session_id" = workerStep "session_id" := by
  have present : workerStep "session_id" ≠ .null := accepted.ne_null declared_workerSteps
    (show required "session_id" .bigInteger ∈ workerSteps.columns by decide) rfl member
  obtain ⟨session, sessionMember, same⟩ := accepted.exists_target declared_workerSteps
    ⟨["session_id"], "worker_sessions", ["session_id"],
      "fk_worker_steps__session_id__worker_sessions"⟩ (by decide) member
    (fun column columnMember => by rwa [List.mem_singleton.mp columnMember])
  exact ⟨session, sessionMember, (List.cons.inj same).1.symm⟩

/-- The primary key: a session id stands for one session. -/
theorem session_eq (accepted : initialSchema.Accepts database) {first second : Row}
    (firstMember : first ∈ database "worker_sessions")
    (secondMember : second ∈ database "worker_sessions")
    (same : first "session_id" = second "session_id") : first = second :=
  accepted.eq_of_key declared_workerSessions firstMember secondMember
    (congrArg (fun value => [value]) same)

theorem sessionIds_nodup (accepted : initialSchema.Accepts database) :
    ((database "worker_sessions").map (keyOf ["session_id"])).Nodup :=
  accepted.distinct _ declared_workerSessions

end Accepted

/-! ### One statement -/

section Step

variable {before : Database}

/-- An insert keeps every worker step attributed exactly when a new worker step is. -/
theorem sessionScoped_insert (agreed : SessionScoped before) (table : String) (row : Row) :
    SessionScoped ((Statement.insert table row).write before) ↔
      (table = "worker_steps" → HasOwnSession before row) := by
  have written : (Statement.insert table row).write before table = before table ++ [row] :=
    (Statement.insert table row).write_table before
  by_cases steps : table = "worker_steps"
  · subst steps
    have sessions : (Statement.insert "worker_steps" row).write before "worker_sessions" =
        before "worker_sessions" :=
      Statement.write_of_ne _ _ (show "worker_sessions" ≠ "worker_steps" by decide)
    unfold SessionScoped HasOwnSession
    rw [written, sessions, List.forall_mem_append, List.forall_mem_singleton]
    exact ⟨fun whole _ => whole.2, fun own => ⟨agreed, own rfl⟩⟩
  · refine ⟨fun _ same => absurd same steps, fun _ => ?_⟩
    intro workerStep member
    rw [Statement.write_of_ne _ _ (show "worker_steps" ≠ table from Ne.symm steps)] at member
    obtain ⟨session, sessionMember, attributed⟩ := agreed workerStep member
    refine ⟨session, ?_, attributed⟩
    by_cases sessions : "worker_sessions" = table
    · subst sessions
      rw [written]
      exact List.mem_append_left _ sessionMember
    · rwa [Statement.write_of_ne _ _ sessions]

/-- Replacing a session keeps every worker step attributed exactly when the worker steps that
refer to it are attributed to the new row. -/
theorem sessionScoped_update_session (agreed : SessionScoped before)
    (acceptedBefore : initialSchema.Accepts before) {position : Nat} {row old : Row}
    (found : (before "worker_sessions")[position]? = some old) :
    SessionScoped ((Statement.update "worker_sessions" position row).write before) ↔
      ∀ workerStep ∈ before "worker_steps",
        workerStep "session_id" = old "session_id" → Attributed workerStep row := by
  have steps : (Statement.update "worker_sessions" position row).write before "worker_steps" =
      before "worker_steps" :=
    Statement.write_of_ne _ _ (show "worker_steps" ≠ "worker_sessions" by decide)
  have sessions (session : Row) :
      session ∈ (Statement.update "worker_sessions" position row).write before
          "worker_sessions" ↔
        session = row ∨ session ∈ before "worker_sessions" ∧
          keyOf ["session_id"] session ≠ keyOf ["session_id"] old := by
    rw [← mem_set_iff_of_nodup (keyOf ["session_id"]) found (sessionIds_nodup acceptedBefore)
      row session]
    exact Iff.of_eq (congrArg (session ∈ ·) (Statement.write_table _ before))
  constructor
  · intro after workerStep member refers
    obtain ⟨session, sessionMember, attributed⟩ := after workerStep (by rwa [steps])
    rcases (sessions session).mp sessionMember with same | ⟨_, different⟩
    · exact same ▸ attributed
    · exact absurd (congrArg (fun value => [value]) (attributed.1.trans refers)) different
  · intro respects workerStep member
    rw [steps] at member
    obtain ⟨session, sessionMember, attributed⟩ := agreed workerStep member
    by_cases refers : workerStep "session_id" = old "session_id"
    · exact ⟨row, (sessions row).mpr (Or.inl rfl), respects workerStep member refers⟩
    · refine ⟨session, (sessions session).mpr (Or.inr ⟨sessionMember, fun same => ?_⟩),
        attributed⟩
      exact refers (attributed.1.symm.trans (List.cons.inj same).1)

/-- Replacing a worker step keeps every worker step attributed exactly when the new row is. -/
theorem sessionScoped_update_step (agreed : SessionScoped before) {position : Nat}
    {row old : Row} (found : (before "worker_steps")[position]? = some old) :
    SessionScoped ((Statement.update "worker_steps" position row).write before) ↔
      HasOwnSession before row := by
  have sessions : (Statement.update "worker_steps" position row).write before
      "worker_sessions" = before "worker_sessions" :=
    Statement.write_of_ne _ _ (show "worker_sessions" ≠ "worker_steps" by decide)
  have written : (Statement.update "worker_steps" position row).write before "worker_steps" =
      (before "worker_steps").set position row :=
    (Statement.update "worker_steps" position row).write_table before
  unfold SessionScoped HasOwnSession
  rw [written, sessions]
  constructor
  · intro after
    exact after row (List.mem_set (List.getElem?_eq_some_iff.mp found).1 row)
  · intro own workerStep member
    rcases List.mem_or_eq_of_mem_set member with stored | same
    · exact agreed workerStep stored
    · exact same ▸ own

/-- A statement that leaves both tables as they are keeps every worker step attributed. -/
theorem sessionScoped_congr {after : Database} (agreed : SessionScoped before)
    (steps : after "worker_steps" = before "worker_steps")
    (sessions : after "worker_sessions" = before "worker_sessions") : SessionScoped after := by
  unfold SessionScoped HasOwnSession
  rw [steps, sessions]
  exact agreed

/-- A delete keeps every worker step attributed: the key keeps the sessions in use. -/
theorem sessionScoped_delete (agreed : SessionScoped before)
    (acceptedBefore : initialSchema.Accepts before) {table : String} {position : Nat}
    (accepted : initialSchema.Accepts ((Statement.delete table position).write before)) :
    SessionScoped ((Statement.delete table position).write before) := by
  have smaller {name : String} {row : Row}
      (member : row ∈ (Statement.delete table position).write before name) :
      row ∈ before name := by
    rcases Statement.mem_write member with old | stored
    · exact old
    · exact absurd stored (by simp [Statement.stored])
  intro workerStep member
  obtain ⟨session, sessionMember, sameId⟩ := exists_session accepted member
  obtain ⟨own, ownMember, attributed⟩ := agreed workerStep (smaller member)
  have same := session_eq acceptedBefore (smaller sessionMember) ownMember
    (sameId.trans attributed.1.symm)
  exact ⟨session, sessionMember, same ▸ attributed⟩

/-- In a state in which every worker step is attributed, an accepted statement keeps it so
exactly when it respects the scope. -/
theorem sessionScoped_write_iff (agreed : SessionScoped before)
    (acceptedBefore : initialSchema.Accepts before) {statement : Statement}
    (accepted : initialSchema.Accepts (statement.write before)) :
    SessionScoped (statement.write before) ↔ RespectsScope before statement := by
  cases statement with
  | insert table row => exact sessionScoped_insert agreed table row
  | delete table position =>
    exact ⟨fun _ => trivial, fun _ => sessionScoped_delete agreed acceptedBefore accepted⟩
  | update table position row =>
    unfold RespectsScope
    cases found : (before table)[position]? with
    | none =>
      refine ⟨fun _ old present => absurd (found.symm.trans present) (by simp), fun _ => ?_⟩
      have unchanged : (Statement.update table position row).write before = before := by
        unfold Statement.write
        rw [Function.update_eq_self_iff]
        exact List.set_eq_of_length_le (List.getElem?_eq_none_iff.mp found)
      rwa [unchanged]
    | some old =>
      by_cases steps : table = "worker_steps"
      · subst steps
        rw [sessionScoped_update_step agreed found]
        exact ⟨fun own _ _ => ⟨fun _ => own, fun impossible => absurd impossible (by decide)⟩,
          fun respects => (respects old found).1 rfl⟩
      by_cases sessions : table = "worker_sessions"
      · subst sessions
        rw [sessionScoped_update_session agreed acceptedBefore found]
        constructor
        · intro agree stored present
          obtain rfl := Option.some.inj (found.symm.trans present)
          exact ⟨fun same => absurd same steps, fun _ => agree⟩
        · exact fun respects => (respects old found).2 rfl
      · refine ⟨fun _ _ _ => ⟨fun same => absurd same steps, fun same => absurd same sessions⟩,
          fun _ => sessionScoped_congr agreed ?_ ?_⟩
        · exact Statement.write_of_ne _ _ (Ne.symm steps)
        · exact Statement.write_of_ne _ _ (Ne.symm sessions)

end Step

/-! ### Runs -/

/-- A run of statements that respect the scope keeps every worker step attributed. -/
theorem sessionScoped_of_reachable {database : Database}
    (reachable : Reachable initialSchema RespectsScope database) : SessionScoped database := by
  refine reachable.invariant SessionScoped ?_ ?_
  · intro workerStep member
    exact absurd member List.not_mem_nil
  · intro before statement acceptedBefore respects accepted agreed
    exact (sessionScoped_write_iff agreed acceptedBefore accepted).mpr respects

/-- In every state a run reaches, a worker step has its step, under the same attempt, and one
session of its session id; the session is of the same attempt and rank in every run whose
statements respect the scope, and a statement that does not respect it ends the agreement. -/
theorem worker_step_scoping {database : Database}
    (reachable : Reachable initialSchema anyStatement database) :
    (∀ workerStep ∈ database "worker_steps", HasStep database workerStep ∧
      ∃! session, session ∈ database "worker_sessions" ∧
        session "session_id" = workerStep "session_id") ∧
    (Reachable initialSchema RespectsScope database → SessionScoped database) ∧
    (SessionScoped database → ∀ statement next,
      initialSchema.execute database statement = some next →
        (SessionScoped next ↔ RespectsScope database statement)) := by
  have accepted := reachable.accepted
  refine ⟨fun workerStep member => ⟨hasStep_of_accepts accepted member, ?_⟩,
    sessionScoped_of_reachable, fun agreed statement next executed => ?_⟩
  · obtain ⟨session, sessionMember, same⟩ := exists_session accepted member
    refine ⟨session, ⟨sessionMember, same⟩, fun other otherSession => ?_⟩
    exact session_eq accepted otherSession.1 sessionMember
      (otherSession.2.trans same.symm)
  · obtain ⟨_, acceptedNext, rfl⟩ := Schema.execute_eq_some.mp executed
    exact sessionScoped_write_iff agreed accepted acceptedNext

/-- A session of the given rank of an attempt. -/
def sessionRow (sessionId : Int) (attemptId : String) (workerId : Int) : Row := .of [
  ("session_id", .integer sessionId),
  ("attempt_id", .text attemptId),
  ("worker_id", .integer workerId),
  ("node_label", .text "node"),
  ("protocol_version", .integer 1),
  ("state", .text "READY"),
  ("connected_at", .timestamp 1)]

/-- Two attempts with a session of rank 0 each, and a step of the attempt `second`. -/
def sessionRows : List (String × Row) := [
  ("jobs", draftJob "job" .null),
  ("attempts", attemptRow "first" "FRESH" "FAILED" .null),
  ("worker_sessions", sessionRow 1 "first" 0),
  ("attempts", attemptRow "second" "RETRY_FROM_START" "RUNNING" .null),
  ("worker_sessions", sessionRow 2 "second" 0),
  ("steps", .of [
    ("attempt_id", .text "second"),
    ("step_id", .integer 1),
    ("operation_id", .integer 1),
    ("training_strategy", .text "sync"),
    ("epoch", .integer 0),
    ("batch_ordinal", .integer 0),
    ("input_model_version", .integer 0),
    ("state", .text "CREATED"),
    ("started_at", .timestamp 2)])]

/-- The contribution of a rank of `second` to the step, through the given session. -/
def contribution (workerId sessionId : Int) : Row := .of [
  ("attempt_id", .text "second"),
  ("step_id", .integer 1),
  ("worker_id", .integer workerId),
  ("session_id", .integer sessionId),
  ("shard_id", .integer 0),
  ("batch_id", .integer 0),
  ("sample_count", .integer 32),
  ("compute_ms", .double 0),
  ("upload_ms", .double 0),
  ("parameter_apply_ms", .double 0),
  ("bytes_sent", .integer 0),
  ("bytes_received", .integer 0)]

/-- The database after inserting the contribution. -/
def contributed (workerId sessionId : Int) : Database :=
  (Statement.insert "worker_steps" (contribution workerId sessionId)).write
    (emptyDatabase.inserting sessionRows)

theorem reachable_sessionRows :
    Reachable initialSchema RespectsScope (emptyDatabase.inserting sessionRows) := by
  have others : ∀ entry ∈ sessionRows, entry.1 ≠ "worker_steps" := by decide
  refine Reachable.empty.inserting
    (fun _ entry member same => absurd same (others entry member)) ?_
  rw [initialSchema_eq]
  decide +kernel

theorem worker_step_scoping_ownSession : SessionScoped (contributed 0 2) := by
  have reachable : Reachable initialSchema RespectsScope (contributed 0 2) := by
    refine reachable_sessionRows.write (fun _ => ?_) ?_ ?_
    · decide +kernel
    · rw [initialSchema_eq]
      decide
    · rw [initialSchema_eq]
      decide +kernel
  exact (worker_step_scoping (reachable.mono fun _ _ _ => trivial)).2.1 reachable

/-- A contribution of rank 1 of `second` through the session of rank 0 of `first` is
accepted. -/
theorem foreignSession_not_scoped :
    Reachable initialSchema anyStatement (contributed 1 1) ∧
      ¬ SessionScoped (contributed 1 1) := by
  constructor
  · refine (reachable_sessionRows.mono fun _ _ _ => trivial).write trivial ?_ ?_
    · rw [initialSchema_eq]
      decide
    · rw [initialSchema_eq]
      decide +kernel
  · decide +kernel

end Pbl4.Migration
