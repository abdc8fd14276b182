/-
This file models the one identifier of `pbl4.common.ids` that validates its value and
compares it with the column it is stored in. A `SessionId` is an integer that fits a
positive `BIGINT`; `worker_sessions.session_id` is a `BIGINT` with a `CHECK` on its sign.
The two agree: what the constructor takes is what a run of the database can store.
-/

import Pbl4.Migration.Checks
import Pbl4.Migration.Statements
import Pbl4.Migration.StepScoping

namespace Pbl4.Common

open Sql Migration

/-! ### The identifier -/

/-- A Python value, as far as `isinstance(value, int)` and `isinstance(value, bool)` tell: a
`bool` is an `int`. -/
inductive PyValue where
  | int (value : Int)
  | bool (value : Bool)
  | other (description : String)

/-- `isinstance(value, int)` -/
def PyValue.isInt : PyValue → Bool
  | .int _ | .bool _ => true
  | .other _ => false

/-- `isinstance(value, bool)` -/
def PyValue.isBool : PyValue → Bool
  | .bool _ => true
  | .int _ | .other _ => false

/-- The number an `int` is compared as. -/
def PyValue.number : PyValue → Int
  | .int value => value
  | .bool value => if value then 1 else 0
  | .other _ => 0

/-- The exceptions of the constructor. -/
inductive PyError where
  | typeError (message : String)
  | valueError (message : String)

/-- `SessionId`: a positive integer safe for PostgreSQL `BIGINT`. -/
structure SessionId where
  value : Int
  positive : 0 < value
  bounded : value ≤ 9223372036854775807

/-- The second check of `__post_init__`: the range. -/
def SessionId.inRange (value : Int) : Except PyError SessionId :=
  if out : value ≤ 0 ∨ value > 9223372036854775807 then
    .error (.valueError s!"SessionId must be in 1 .. 2^63 - 1 (safe BIGINT), got {value}")
  else .ok ⟨value, Int.not_le.mp (not_or.mp out).1, Int.not_lt.mp (not_or.mp out).2⟩

/-- `SessionId(value)`, by its `__post_init__`. -/
def SessionId.postInit (value : PyValue) : Except PyError SessionId :=
  if value.isInt = false ∨ value.isBool = true then
    .error (.typeError "SessionId value must be an integer")
  else SessionId.inRange value.number

theorem SessionId.inRange_eq_ok {number : Int} {sessionId : SessionId} :
    SessionId.inRange number = .ok sessionId ↔ number = sessionId.value := by
  unfold inRange
  split
  · rename_i out
    refine ⟨fun impossible => absurd impossible (by simp), ?_⟩
    rintro rfl
    rcases out with low | high
    · exact absurd sessionId.positive (Int.not_lt.mpr low)
    · exact absurd sessionId.bounded (Int.not_le.mpr high)
  · constructor
    · intro made
      rw [← Except.ok.inj made]
    · rintro rfl
      rfl

/-- The constructor takes the integers in the range, and nothing else. -/
theorem SessionId.postInit_eq_ok {value : PyValue} {sessionId : SessionId} :
    SessionId.postInit value = .ok sessionId ↔ value = .int sessionId.value := by
  cases value with
  | int number =>
    rw [postInit, if_neg (by simp [PyValue.isInt, PyValue.isBool]), inRange_eq_ok]
    simp [PyValue.number]
  | bool flag => simp [postInit, PyValue.isBool]
  | other description => simp [postInit, PyValue.isInt]

/-! ### The column -/

/-- A stored session id is one the constructor takes. -/
theorem exists_sessionId {database : Database}
    (reachable : Reachable initialSchema anyStatement database) {session : Row}
    (member : session ∈ database "worker_sessions") :
    ∃ sessionId : SessionId, session "session_id" = .integer sessionId.value := by
  have accepted := reachable.accepted
  have listed : required "session_id" .bigInteger ∈ workerSessions.columns := by decide
  have conforms := ((accepted.admitted _ declared_workerSessions session member).1 _ listed).1
  have present := accepted.ne_null declared_workerSessions listed rfl member
  have positive := check_eval accepted declared_workerSessions member
    (show ⟨.exceeds "session_id" 0, "ck_worker_sessions__session_id_positive"⟩ ∈ _ by decide)
  simp only [required] at conforms present
  rw [Condition.eval, unlessNull, if_neg present] at positive
  cases stored : session "session_id" with
  | integer number =>
    simp only [stored, Value.conforms, decide_eq_true_eq] at conforms
    simp only [stored, Option.some_inj, decide_eq_true_eq] at positive
    exact ⟨⟨number, positive, conforms.2⟩, rfl⟩
  | _ => simp [stored, Value.conforms] at conforms present

/-- An attempt without sessions. -/
def attemptRows : List (String × Row) := sessionRows.take 2

theorem reachable_attemptRows :
    Reachable initialSchema anyStatement (emptyDatabase.inserting attemptRows) := by
  refine Reachable.empty.inserting (fun _ _ _ => trivial) ?_
  rw [initialSchema_eq]
  decide +kernel

/-- The row of a session fits its table under any id the constructor takes. -/
theorem admits_sessionRow (sessionId : SessionId) :
    workerSessions.Admits (sessionRow sessionId.value "first" 0) := by
  have identity : sessionRow sessionId.value "first" 0 "session_id" =
      .integer sessionId.value := rfl
  have state : sessionRow sessionId.value "first" 0 "state" = .text "READY" := rfl
  have sample : workerSessions.Admits (sessionRow 1 "first" 0) := by decide +kernel
  have others : ∀ name ∈ ["attempt_id", "worker_id", "node_label", "protocol_version", "state",
      "connected_at", "last_heartbeat_at", "disconnected_at", "failure_code"],
      sessionRow sessionId.value "first" 0 name = sessionRow 1 "first" 0 name := by
    simp only [List.forall_mem_cons, List.not_mem_nil, false_imp_iff, implies_true, and_true]
    exact ⟨rfl, rfl, rfl, rfl, rfl, rfl, rfl, rfl, rfl⟩
  have listed : ∀ column ∈ workerSessions.columns, column = required "session_id" .bigInteger ∨
      column.name ∈ ["attempt_id", "worker_id", "node_label", "protocol_version", "state",
        "connected_at", "last_heartbeat_at", "disconnected_at", "failure_code"] := by decide
  constructor
  · intro column member
    rcases listed column member with rfl | other
    · refine ⟨?_, fun null => absurd (identity.symm.trans null) (by simp)⟩
      have positive := sessionId.positive
      have bounded := sessionId.bounded
      show (sessionRow sessionId.value "first" 0 "session_id").conforms .bigInteger = true
      rw [identity, Value.conforms, decide_eq_true_eq]
      omega
    · rw [others column.name other]
      exact sample.1 column member
  · intro check member
    simp only [workerSessions, List.mem_cons, List.mem_nil_iff, or_false] at member
    rcases member with rfl | rfl
    · simp [Condition.Passes, Condition.eval, identity, unlessNull, sessionId.positive]
    · simp [Condition.Passes, Condition.eval, state]

/-- A session under any id the constructor takes may be stored. -/
theorem reachable_session (sessionId : SessionId) :
    Reachable initialSchema anyStatement
      ((Statement.insert "worker_sessions" (sessionRow sessionId.value "first" 0)).write
        (emptyDatabase.inserting attemptRows)) := by
  have none : emptyDatabase.inserting attemptRows "worker_sessions" = [] := rfl
  have declared : initialSchema.Declares "worker_sessions" :=
    List.mem_map.mpr ⟨_, declared_workerSessions, rfl⟩
  refine reachable_attemptRows.write trivial declared
    ((reachable_attemptRows.accepted.insert_iff keyed_initialSchema
      declared_workerSessions).mpr ⟨⟨admits_sessionRow sessionId, ?_, ?_⟩, ?_⟩)
  · rw [none]
    exact List.not_mem_nil
  · intro index _ _ _ _ other member
    rw [none] at member
    exact absurd member List.not_mem_nil
  · intro key member
    rw [List.mem_singleton.mp (show key ∈ [_] from member)]
    exact Or.inr ⟨attemptRow "first" "FRESH" "FAILED" .null, List.mem_singleton.mpr rfl, rfl⟩

/-- The constructor takes a value exactly when some run of the database stores it as the id of a
session; it then keeps the value, and every stored id is one it takes. -/
theorem sessionId_storable_iff (value : PyValue) :
    ((∃ sessionId, SessionId.postInit value = .ok sessionId) ↔
      ∃ number, value = .int number ∧ ∃ database,
        Reachable initialSchema anyStatement database ∧
          ∃ session ∈ database "worker_sessions", session "session_id" = .integer number) ∧
    ∀ sessionId, SessionId.postInit value = .ok sessionId → value = .int sessionId.value := by
  refine ⟨⟨?_, ?_⟩, fun sessionId => SessionId.postInit_eq_ok.mp⟩
  · rintro ⟨sessionId, made⟩
    refine ⟨sessionId.value, SessionId.postInit_eq_ok.mp made, _, reachable_session sessionId,
      sessionRow sessionId.value "first" 0, ?_, rfl⟩
    rw [show (Statement.insert "worker_sessions" (sessionRow sessionId.value "first" 0)).write
      (emptyDatabase.inserting attemptRows) "worker_sessions" = _ from Statement.write_table _ _]
    exact List.mem_append_right _ (List.mem_singleton.mpr rfl)
  · rintro ⟨number, rfl, database, reachable, session, member, stored⟩
    obtain ⟨sessionId, same⟩ := exists_sessionId reachable member
    obtain rfl := Value.integer.inj (stored.symm.trans same)
    exact ⟨sessionId, SessionId.postInit_eq_ok.mpr rfl⟩

end Pbl4.Common
