/-
This file says when one server refines another. The server that runs is a relation
between its state, a request, the answer it gives and its next state; the server that
says what clients may rely on is a function of its own, simpler state. When every single
request is served alike from related states, every log of the first server is one the
second would have written, and their states stay related. Clients watch some requests
only: the others may be answered in any way, as long as the states stay related.
-/

import Mathlib.Data.List.Basic

namespace Service

variable {Concrete Abstract Request Answer : Type}

/-- The requests that a server answers one after the other, with its answers. -/
inductive Log (serves : Concrete → Request → Answer → Concrete → Prop) :
    Concrete → List (Request × Answer) → Concrete → Prop
  | nil (state : Concrete) : Log serves state [] state
  | cons {before between after : Concrete} {request : Request} {answer : Answer}
      {rest : List (Request × Answer)} (served : serves before request answer between)
      (later : Log serves between rest after) :
      Log serves before ((request, answer) :: rest) after

/-- A server that answers every request has a log of every list of requests. -/
theorem exists_log {serves : Concrete → Request → Answer → Concrete → Prop}
    (answers : ∀ state request, ∃ answer next, serves state request answer next)
    (state : Concrete) (requests : List Request) :
    ∃ log after, log.map Prod.fst = requests ∧ Log serves state log after := by
  induction requests generalizing state with
  | nil => exact ⟨[], state, rfl, .nil state⟩
  | cons request rest inductionHypothesis =>
    obtain ⟨answer, next, served⟩ := answers state request
    obtain ⟨log, after, same, later⟩ := inductionHypothesis next
    exact ⟨(request, answer) :: log, after, congrArg (request :: ·) same, .cons served later⟩

section Specification

variable (serve : Abstract → Request → Answer × Abstract) (watched : Request → Prop)

/-- The state the specification is in after some requests. -/
def final (state : Abstract) (requests : List Request) : Abstract :=
  requests.foldl (fun current request => (serve current request).2) state

/-- The watched requests of a log are answered as specified. -/
def Answers (state : Abstract) : List (Request × Answer) → Prop
  | [] => True
  | (request, answer) :: rest =>
      (watched request → answer = (serve state request).1) ∧
        Answers (serve state request).2 rest

end Specification

/-- From related states a request is answered alike, when it is watched, and the states stay
related. -/
def Refines (serves : Concrete → Request → Answer → Concrete → Prop)
    (serve : Abstract → Request → Answer × Abstract) (watched : Request → Prop)
    (related : Concrete → Abstract → Prop) : Prop :=
  ∀ before after request answer state, related before state → serves before request answer after →
    (watched request → answer = (serve state request).1) ∧ related after (serve state request).2

/-- Refinement of single requests is refinement of logs. -/
theorem Refines.log {serves : Concrete → Request → Answer → Concrete → Prop}
    {serve : Abstract → Request → Answer × Abstract} {watched : Request → Prop}
    {related : Concrete → Abstract → Prop} (refines : Refines serves serve watched related)
    {before after : Concrete} {state : Abstract} (start : related before state)
    {log : List (Request × Answer)} (served : Log serves before log after) :
    Answers serve watched state log ∧
      related after (final serve state (log.map Prod.fst)) := by
  induction served generalizing state with
  | nil current => exact ⟨trivial, start⟩
  | cons step later inductionHypothesis =>
    obtain ⟨alike, next⟩ := refines _ _ _ _ state start step
    obtain ⟨others, last⟩ := inductionHypothesis next
    exact ⟨⟨alike, others⟩, last⟩

end Service
