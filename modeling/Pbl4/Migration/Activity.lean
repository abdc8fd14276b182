/-
This file is about the three unique partial indexes of the migration. One attempt is
active across the system, one session is open for a rank of an attempt, and an attempt
has each runtime event once: in every state of every run, and as long as updates leave
primary keys alone, the place is passed on only through a state in which nobody has it.
-/

import Pbl4.Migration.InitialSchema
import Pbl4.Sql.Exclusion

namespace Pbl4.Migration

open Sql

/-! ### Places and who has them -/

/-- In every state of a run at most one row of a table claims a place, and a place passes from
one row to another only through a state in which no row claims it. -/
structure Exclusive (states : List Database) (table identity : String)
    (claims : Row → Prop) (place : Row → List Value) : Prop where
  once : ∀ state ∈ states, ∀ first ∈ state table, ∀ second ∈ state table,
    claims first → claims second → place first = place second → first = second
  handover : ∀ {start stop : Nat} {before after : Database}, start ≤ stop →
    states[start]? = some before → states[stop]? = some after →
      ∀ holder ∈ before table, ∀ next ∈ after table, claims holder → claims next →
        place next = place holder → next identity ≠ holder identity →
          ∃ between, start < between ∧ between < stop ∧
            ∃ middle, states[between]? = some middle ∧
              ∀ row ∈ middle table, claims row → place row ≠ place holder

/-- The columns updates leave alone. -/
def identityColumns (table : String) : List String :=
  if table = "attempts" then ["attempt_id"]
  else if table = "worker_sessions" then ["session_id"]
  else if table = "events" then ["event_id"]
  else []

/-- An update changes the primary key of no attempt, session or event. -/
def KeepsIdentity (database : Database) (statement : Statement) : Prop :=
  statement.Keeps identityColumns database

/-- A unique index over a table keyed by one column makes its places exclusive, when the rows it
covers are the claims. -/
theorem exclusive_of_index {index : Index} {table : Table} {identity : String}
    {claims : Row → Prop} {states : List Database}
    (declared : (index.table, table) ∈ initialSchema.tables)
    (member : index ∈ initialSchema.indexes) (unique : index.unique = true)
    (keyed : table.primaryKey.columns = [identity])
    (frozen : [identity] ⊆ identityColumns index.table)
    (covers : ∀ {state : Database}, initialSchema.Accepts state → ∀ row ∈ state index.table,
      (claims row ↔ index.Covers row) ∧ (claims row → Value.null ∉ index.keyOf row))
    (run : initialSchema.IsRun KeepsIdentity states) :
    Exclusive states index.table identity claims index.keyOf := by
  have accepted : ∀ state ∈ states, initialSchema.Accepts state := fun state stored =>
    (run.reachable state stored).accepted
  constructor
  · intro state stored first firstMember second secondMember firstClaims secondClaims same
    have valid := accepted state stored
    exact valid.covered_unique member unique ((covers valid first firstMember).2 firstClaims)
      firstMember secondMember ⟨(covers valid first firstMember).1.mp firstClaims, rfl⟩
      ⟨(covers valid second secondMember).1.mp secondClaims, same.symm⟩
  · intro start stop before after order starts stops holder holderMember next nextMember
      holderClaims nextClaims same different
    have validBefore := accepted before (List.mem_of_getElem? starts)
    have validAfter := accepted after (List.mem_of_getElem? stops)
    obtain ⟨between, later, earlier, middle, found, idle⟩ :=
      exists_uncovered declared member unique
        ((covers validBefore holder holderMember).2 holderClaims) (keyed ▸ frozen) run order
        starts stops holderMember ⟨(covers validBefore holder holderMember).1.mp holderClaims, rfl⟩
        nextMember ⟨(covers validAfter next nextMember).1.mp nextClaims, same⟩ (by
          rw [keyed]
          exact fun agree => different (List.cons.inj agree).1)
    refine ⟨between, later, earlier, middle, found, fun row rowMember rowClaims sameRow => ?_⟩
    have valid := accepted middle (List.mem_of_getElem? found)
    exact idle row rowMember ⟨(covers valid row rowMember).1.mp rowClaims, sameRow⟩

/-! ### Attempts -/

/-- The attempt is active: it has not reached a final state. -/
def Active (attempt : Row) : Prop :=
  ∃ state ∈ ["CREATED", "WAITING_WORKERS", "PROVISIONING", "INITIALIZING", "RUNNING",
    "COMPLETING"], attempt "state" = .text state

/-- There is one place for an active attempt in the whole system. -/
theorem one_active_attempt {states : List Database}
    (run : initialSchema.IsRun KeepsIdentity states) :
    Exclusive states "attempts" "attempt_id" Active fun _ => [.integer 1] := by
  refine exclusive_of_index (show (uqAttemptsOneActive.table, attemptsWithResume) ∈ _ from
    declared_attempts) ?_ rfl rfl (List.Subset.refl _) (fun _ row _ => ⟨?_, fun _ => ?_⟩) run
  · rw [initialSchema_eq]
    decide
  · rw [Index.covers_iff rfl, Condition.isIn_selects]
    exact Iff.rfl
  · exact show Value.null ∉ [Value.integer 1] by decide

/-! ### Sessions -/

/-- The session has not ended. -/
def IsOpen (session : Row) : Prop :=
  session "state" ≠ .text "DISCONNECTED" ∧ session "state" ≠ .text "FAILED"

/-- The rank of a session, within its attempt. -/
def rankOf (session : Row) : List Value := [session "attempt_id", session "worker_id"]

/-- Every rank of an attempt has one place for an open session. -/
theorem one_open_session {states : List Database}
    (run : initialSchema.IsRun KeepsIdentity states) :
    Exclusive states "worker_sessions" "session_id" IsOpen rankOf := by
  refine exclusive_of_index (show (uqWorkerSessionsActiveRank.table, workerSessions) ∈ _ from
    declared_workerSessions) ?_ rfl rfl (List.Subset.refl _)
    (fun accepted row member => ⟨?_, fun _ => ?_⟩) run
  · rw [initialSchema_eq]
    decide
  · have present : row "state" ≠ .null := accepted.ne_null declared_workerSessions
      (show required "state" .text ∈ workerSessions.columns by decide) rfl member
    rw [Index.covers_iff rfl, Condition.isNotIn_selects]
    simp [IsOpen, present]
  · have attempt : row "attempt_id" ≠ .null := accepted.ne_null declared_workerSessions
      (show required "attempt_id" .text ∈ workerSessions.columns by decide) rfl member
    have rank : row "worker_id" ≠ .null := accepted.ne_null declared_workerSessions
      (show required "worker_id" .integer ∈ workerSessions.columns by decide) rfl member
    show Value.null ∉ [row "attempt_id", row "worker_id"]
    simp [attempt.symm, rank.symm]

/-- In every run that leaves primary keys alone, one attempt is active across the system and one
session is open for a rank of an attempt, and the next one takes over only after a state without
one. -/
theorem exclusive_activity {states : List Database}
    (run : initialSchema.IsRun KeepsIdentity states) :
    (Exclusive states "attempts" "attempt_id" Active fun _ => [.integer 1]) ∧
      Exclusive states "worker_sessions" "session_id" IsOpen rankOf :=
  ⟨one_active_attempt run, one_open_session run⟩

/-- A run in which one attempt completes and the next is made. -/
def succession : List Statement := [
  .insert "jobs" (draftJob "job" .null),
  .insert "attempts" (attemptRow "first" "FRESH" "RUNNING" .null),
  .update "attempts" 0 (attemptRow "first" "FRESH" "COMPLETED" .null),
  .insert "attempts" (attemptRow "second" "RETRY_FROM_START" "CREATED" .null)]

theorem isRun_succession :
    initialSchema.IsRun KeepsIdentity (emptyDatabase.trace succession) := by
  refine isRun_trace ?_ ?_
  · refine ⟨trivial, trivial, fun old found column frozen => ?_, trivial, trivial⟩
    obtain rfl := Option.some.inj found
    rw [List.mem_singleton.mp frozen]
    rfl
  · rw [initialSchema_eq]
    decide +kernel

theorem exclusive_activity_succession :
    ∃ between, 2 < between ∧ between < 4 ∧
      ∃ middle, (emptyDatabase.trace succession)[between]? = some middle ∧
        ∀ row ∈ middle "attempts", Active row → [Value.integer 1] ≠ [.integer 1] := by
  refine (exclusive_activity isRun_succession).1.handover (show 2 ≤ 4 by decide) rfl rfl
    (attemptRow "first" "FRESH" "RUNNING" .null) (List.mem_of_getElem? (i := 0) rfl)
    (attemptRow "second" "RETRY_FROM_START" "CREATED" .null) (List.mem_of_getElem? (i := 1) rfl)
    ⟨"RUNNING", by decide, rfl⟩ ⟨"CREATED", by decide, rfl⟩ rfl (by decide)

/-! ### Events -/

/-- The event is numbered within an attempt. -/
def IsNumbered (event : Row) : Prop :=
  event "attempt_id" ≠ .null ∧ event "runtime_event_seq" ≠ .null

/-- The number of an event, within its attempt. -/
def numberOf (event : Row) : List Value := [event "attempt_id", event "runtime_event_seq"]

theorem declared_events : ("events", events) ∈ initialSchema.tables := by
  rw [initialSchema_eq]
  decide

theorem mem_uqEventsAttemptRuntimeSeq :
    uqEventsAttemptRuntimeSeq ∈ initialSchema.indexes := by
  rw [initialSchema_eq]
  decide

/-- The index covers the numbered events. -/
theorem isNumbered_iff (row : Row) : IsNumbered row ↔ uqEventsAttemptRuntimeSeq.Covers row := by
  rw [Index.covers_iff rfl]
  simp [IsNumbered, allPresent, Condition.Selects, Condition.eval]

theorem IsNumbered.null_notMem {row : Row} (numbered : IsNumbered row) :
    Value.null ∉ uqEventsAttemptRuntimeSeq.keyOf row := by
  show Value.null ∉ [row "attempt_id", row "runtime_event_seq"]
  simp [numbered.1.symm, numbered.2.symm]

/-- Every number of an attempt has one place for an event. -/
theorem one_numbered_event {states : List Database}
    (run : initialSchema.IsRun KeepsIdentity states) :
    Exclusive states "events" "event_id" IsNumbered numberOf :=
  exclusive_of_index (show (uqEventsAttemptRuntimeSeq.table, events) ∈ _ from declared_events)
    mem_uqEventsAttemptRuntimeSeq rfl rfl (List.Subset.refl _)
    (fun _ row _ => ⟨isNumbered_iff row, IsNumbered.null_notMem⟩) run

/-- An event of the attempt `first`, under the number 1. -/
def startedEvent (eventId : Int) : Row := .of [
  ("event_id", .integer eventId),
  ("attempt_id", .text "first"),
  ("runtime_event_seq", .integer 1),
  ("event_type", .text "ATTEMPT_STARTED"),
  ("source_component", .text "runtime"),
  ("scope_type", .text "ATTEMPT"),
  ("severity", .text "INFO"),
  ("payload_jsonb", .document "{}"),
  ("occurred_at", .timestamp 2),
  ("persisted_at", .timestamp 3)]

/-- An attempt and its first event. -/
def recording : List Statement :=
  succession.take 2 ++ [.insert "events" (startedEvent 1)]

theorem isRun_recording :
    initialSchema.IsRun KeepsIdentity (emptyDatabase.trace recording) := by
  refine isRun_trace ⟨trivial, trivial, trivial, trivial⟩ ?_
  rw [initialSchema_eq]
  decide +kernel

end Pbl4.Migration
