/-
This file is about the ancestry of jobs along `cloned_from_job_id`. The key of that
column refers to `jobs` itself and is compared with the table as it stands at the end
of the statement, so an insert may store a job that names itself as its source. That
is the only way a walk can come back: every other walk visits each job once and ends
after finitely many steps at a job without a source, or at one that is its own.
-/

import Pbl4.Lineage
import Pbl4.Migration.InitialSchema
import Pbl4.Sql.Database

namespace Pbl4.Migration

open Sql Lineage

/-! ### The clone graph -/

/-- The columns of a job that say who it is and what it was cloned from. -/
def cloneColumns : List String := ["job_id", "cloned_from_job_id"]

/-- The columns updates leave alone. -/
def frozenCloneColumns (table : String) : List String :=
  if table = "jobs" then cloneColumns else []

/-- An update of `jobs` changes neither `job_id` nor `cloned_from_job_id`. -/
def KeepsCloneColumns (database : Database) (statement : Statement) : Prop :=
  statement.Keeps frozenCloneColumns database

/-- The ids of the stored jobs. -/
def jobIds (database : Database) : Set Value :=
  {jobId | ∃ job ∈ database "jobs", job "job_id" = jobId}

/-- The job `jobId` was cloned from the job `source`. -/
def ClonedFrom (database : Database) (jobId source : Value) : Prop :=
  ∃ job ∈ database "jobs", job "job_id" = jobId ∧ job "cloned_from_job_id" = source ∧
    source ≠ .null

/-- The job `jobId` was cloned from a job other than itself. -/
def ClonedFromOther (database : Database) (jobId source : Value) : Prop :=
  ClonedFrom database jobId source ∧ jobId ≠ source

/-- A job that names itself as its source. -/
def ClonesItself (job : Row) : Prop := job "cloned_from_job_id" = job "job_id"

/-- The walk along `cloned_from_job_id` never dangles, and from every job it visits no job
twice and stops at a job without a source. -/
structure AncestryWellFounded (database : Database) : Prop where
  sources : ∀ jobId source, ClonedFrom database jobId source → source ∈ jobIds database
  ends : ∀ job ∈ database "jobs", ∃ trail,
    IsLineage (ClonedFrom database) (job "job_id") trail ∧
      ∀ last ∈ trail.getLast?, ∃ root ∈ database "jobs",
        root "job_id" = last ∧ root "cloned_from_job_id" = .null

theorem mem_jobIds_iff {database : Database} {jobId : Value} :
    jobId ∈ jobIds database ↔ ∃ source, [jobId, source] ∈ database.project "jobs" cloneColumns := by
  constructor
  · rintro ⟨job, member, rfl⟩
    exact ⟨_, Database.mem_project.mpr ⟨job, member, rfl⟩⟩
  · rintro ⟨source, member⟩
    obtain ⟨job, jobMember, same⟩ := Database.mem_project.mp member
    exact ⟨job, jobMember, (List.cons.inj same).1⟩

theorem clonedFrom_iff {database : Database} {jobId source : Value} :
    ClonedFrom database jobId source ↔
      [jobId, source] ∈ database.project "jobs" cloneColumns ∧ source ≠ .null := by
  constructor
  · rintro ⟨job, member, rfl, rfl, present⟩
    exact ⟨Database.mem_project.mpr ⟨job, member, rfl⟩, present⟩
  · rintro ⟨member, present⟩
    obtain ⟨job, jobMember, same⟩ := Database.mem_project.mp member
    obtain ⟨sameId, sameRest⟩ := List.cons.inj same
    exact ⟨job, jobMember, sameId, (List.cons.inj sameRest).1, present⟩

section Accepted

variable {database : Database}

/-- The foreign key: a source is a stored job. -/
theorem source_mem_jobIds (accepted : initialSchema.Accepts database) {jobId source : Value}
    (cloned : ClonedFrom database jobId source) : source ∈ jobIds database := by
  obtain ⟨job, member, _, rfl, present⟩ := cloned
  obtain ⟨target, targetMember, same⟩ := accepted.exists_target declared_jobs
    ⟨["cloned_from_job_id"], "jobs", ["job_id"], "fk_jobs__cloned_from_job_id__jobs"⟩
    (by decide) member
    (fun column columnMember => by rwa [List.mem_singleton.mp columnMember])
  exact ⟨target, targetMember, (List.cons.inj same).1.symm⟩

/-- The primary key: a job has one source. -/
theorem clonedFrom_functional (accepted : initialSchema.Accepts database)
    (jobId first second : Value) (firstCloned : ClonedFrom database jobId first)
    (secondCloned : ClonedFrom database jobId second) : first = second := by
  obtain ⟨job, member, sameId, rfl, _⟩ := firstCloned
  obtain ⟨other, otherMember, otherId, rfl, _⟩ := secondCloned
  have same := accepted.eq_of_key declared_jobs member otherMember
    (show [job "job_id"] = [other "job_id"] by rw [sameId, otherId])
  rw [same]

end Accepted

/-! ### One statement -/

section Step

variable {before : Database} {statement : Statement}

/-- Jobs that were there keep their sources, and these were there. -/
theorem clonedFromOther_kept (keeps : KeepsCloneColumns before statement)
    (acceptedBefore : initialSchema.Accepts before)
    (accepted : initialSchema.Accepts (statement.write before)) :
    ∀ jobId ∈ jobIds before, ∀ source, ClonedFromOther (statement.write before) jobId source →
      ClonedFromOther before jobId source ∧ source ∈ jobIds before := by
  rintro jobId known source ⟨cloned, other⟩
  obtain ⟨edge, present⟩ := clonedFrom_iff.mp cloned
  have old : ClonedFrom before jobId source :=
    clonedFrom_iff.mpr ⟨edge_kept declared_jobs rfl keeps (List.Subset.refl cloneColumns)
      accepted known edge, present⟩
  exact ⟨⟨old, other⟩, source_mem_jobIds acceptedBefore old⟩

/-- A job that was not there has a source that was, or itself. -/
theorem clonedFromOther_added (keeps : KeepsCloneColumns before statement)
    (accepted : initialSchema.Accepts (statement.write before)) :
    ∀ jobId ∈ jobIds (statement.write before), jobId ∉ jobIds before →
      ∀ source, ClonedFromOther (statement.write before) jobId source →
        source ∈ jobIds before := by
  rintro jobId _ unknown source ⟨cloned, other⟩
  obtain ⟨edge, _⟩ := clonedFrom_iff.mp cloned
  obtain ⟨grandparent, sourceEdge⟩ := mem_jobIds_iff.mp (source_mem_jobIds accepted cloned)
  rcases edges_cases declared_jobs rfl keeps (List.Subset.refl cloneColumns) accepted with
    ⟨job, _, _, appended⟩ | dropped
  · unfold cloneColumns at edge sourceEdge
    rw [appended] at edge sourceEdge
    have own : [jobId, source] = keyOf cloneColumns job := by
      rcases List.mem_append.mp edge with stored | new
      · exact absurd (mem_jobIds_iff.mpr ⟨source, stored⟩) unknown
      · exact List.mem_singleton.mp new
    rcases List.mem_append.mp sourceEdge with stored | new
    · exact mem_jobIds_iff.mpr ⟨grandparent, stored⟩
    · have sourceId := (List.cons.inj (List.mem_singleton.mp new)).1
      exact absurd ((List.cons.inj own).1.trans sourceId.symm) other
  · exact absurd (mem_jobIds_iff.mpr ⟨source, dropped edge⟩) unknown

/-- Without an insert of a job that clones itself, no job comes to clone itself. -/
theorem noSelfClone_step (keeps : KeepsCloneColumns before statement)
    (distinct : ∀ job, statement = .insert "jobs" job → ¬ ClonesItself job)
    (accepted : initialSchema.Accepts (statement.write before))
    (none : ∀ job ∈ before "jobs", ¬ ClonesItself job) :
    ∀ job ∈ statement.write before "jobs", ¬ ClonesItself job := by
  intro job member itself
  have edge : [job "job_id", job "job_id"] ∈
      (statement.write before).project "jobs" cloneColumns :=
    Database.mem_project.mpr ⟨job, member, congrArg (fun value => [job "job_id", value]) itself⟩
  have looped : ∀ other : Row, [job "job_id", job "job_id"] = keyOf cloneColumns other →
      ClonesItself other := by
    intro other same
    obtain ⟨sameId, sameRest⟩ := List.cons.inj same
    exact ((List.cons.inj sameRest).1.symm).trans sameId
  have stored : [job "job_id", job "job_id"] ∉ before.project "jobs" cloneColumns := by
    intro old
    obtain ⟨other, otherMember, same⟩ := Database.mem_project.mp old
    exact none other otherMember (looped other same.symm)
  rcases edges_cases declared_jobs rfl keeps (List.Subset.refl cloneColumns) accepted with
    ⟨inserted, rfl, _, appended⟩ | dropped
  · unfold cloneColumns at edge
    rw [appended] at edge
    rcases List.mem_append.mp edge with old | new
    · exact stored old
    · exact distinct inserted rfl (looped inserted (List.mem_singleton.mp new))
  · exact stored (dropped edge)

end Step

/-! ### Runs -/

section Run

variable {database : Database}

/-- Leaving jobs that clone themselves aside, every walk ends. -/
theorem grounded_clonedFromOther (reachable : Reachable initialSchema KeepsCloneColumns database) :
    ∀ jobId ∈ jobIds database, Grounded (ClonedFromOther database) jobId := by
  refine reachable.invariant (fun state =>
    ∀ jobId ∈ jobIds state, Grounded (ClonedFromOther state) jobId) ?_ ?_
  · rintro jobId ⟨job, member, _⟩
    exact absurd member List.not_mem_nil
  · intro before statement acceptedBefore keeps accepted grounded
    exact grounded_grow (clonedFromOther_kept keeps acceptedBefore accepted)
      (clonedFromOther_added keeps accepted) grounded

/-- Every walk visits stored jobs only, none twice, and ends at a job without a source or at
one that clones itself. -/
theorem exists_cloneLineage (reachable : Reachable initialSchema KeepsCloneColumns database)
    {job : Row} (member : job ∈ database "jobs") :
    ∃ trail, IsLineage (ClonedFromOther database) (job "job_id") trail ∧
      (∀ jobId ∈ trail, jobId ∈ jobIds database) ∧
      ∀ last ∈ trail.getLast?, ∃ root ∈ database "jobs", root "job_id" = last ∧
        (root "cloned_from_job_id" = .null ∨ ClonesItself root) := by
  have start : job "job_id" ∈ jobIds database := ⟨job, member, rfl⟩
  obtain ⟨trail, lineage, _⟩ :=
    (grounded_clonedFromOther reachable _ start).exists_lineage
  have inside := lineage.subset
    (fun _ _ _ step => source_mem_jobIds reachable.accepted step.1) start
  refine ⟨trail, lineage, inside, fun last lastMember => ?_⟩
  obtain ⟨root, rootMember, rfl⟩ := inside last (List.mem_of_getLast? lastMember)
  refine ⟨root, rootMember, rfl, ?_⟩
  by_cases null : root "cloned_from_job_id" = .null
  · exact Or.inl null
  · refine Or.inr (Classical.byContradiction fun other => ?_)
    exact lineage.ends _ lastMember _
      ⟨⟨root, rootMember, rfl, rfl, null⟩, fun same => other same.symm⟩

/-- Where no job clones itself, the ancestry is well-founded. -/
theorem ancestryWellFounded_of_noSelfClone
    (reachable : Reachable initialSchema KeepsCloneColumns database)
    (none : ∀ job ∈ database "jobs", ¬ ClonesItself job) : AncestryWellFounded database where
  sources _ _ := source_mem_jobIds reachable.accepted
  ends job member := by
    have same : ClonedFromOther database = ClonedFrom database := by
      funext jobId source
      refine propext ⟨And.left, fun cloned => ⟨cloned, ?_⟩⟩
      rintro rfl
      obtain ⟨looped, loopedMember, sameId, sameSource, _⟩ := cloned
      exact none looped loopedMember (sameSource.trans sameId.symm)
    obtain ⟨trail, lineage, _, ends⟩ := exists_cloneLineage reachable member
    refine ⟨trail, same ▸ lineage, fun last lastMember => ?_⟩
    obtain ⟨root, rootMember, sameId, null | itself⟩ := ends last lastMember
    · exact ⟨root, rootMember, sameId, null⟩
    · exact absurd itself (none root rootMember)

/-- Runs without an insert of a job that clones itself store no such job. -/
theorem noSelfClone_of_reachable
    (reachable : Reachable initialSchema (fun before statement =>
      KeepsCloneColumns before statement ∧
        ∀ job, statement = .insert "jobs" job → ¬ ClonesItself job) database) :
    ∀ job ∈ database "jobs", ¬ ClonesItself job := by
  refine reachable.invariant (fun state => ∀ job ∈ state "jobs", ¬ ClonesItself job) ?_ ?_
  · intro job member
    exact absurd member List.not_mem_nil
  · intro before statement _ permitted accepted none
    exact noSelfClone_step permitted.1 permitted.2 accepted none

end Run

/-! ### Ancestry of jobs -/

/-- A run in which, besides, no insert stores a job that clones itself. -/
def KeepsCloneColumnsDistinct (database : Database) (statement : Statement) : Prop :=
  KeepsCloneColumns database statement ∧
    ∀ job, statement = .insert "jobs" job → ¬ ClonesItself job

/-- In every state a run reaches, `cloned_from_job_id` never dangles and the walk from a job
to sources other than itself is unique, visits no job twice, and ends at a job without a
source or at one that clones itself. A run that never inserts a job that clones itself has a
well-founded ancestry. -/
theorem job_ancestry {database : Database}
    (reachable : Reachable initialSchema KeepsCloneColumns database) :
    (∀ jobId source, ClonedFrom database jobId source → source ∈ jobIds database) ∧
      (∀ job ∈ database "jobs",
        ∃ trail, IsLineage (ClonedFromOther database) (job "job_id") trail ∧
          (∀ other, IsLineage (ClonedFromOther database) (job "job_id") other →
            other = trail) ∧
          (∀ jobId ∈ trail, jobId ∈ jobIds database) ∧
          ∀ last ∈ trail.getLast?, ∃ root ∈ database "jobs", root "job_id" = last ∧
            (root "cloned_from_job_id" = .null ∨ ClonesItself root)) ∧
      (Reachable initialSchema KeepsCloneColumnsDistinct database →
        AncestryWellFounded database) := by
  refine ⟨fun _ _ => source_mem_jobIds reachable.accepted, fun job member => ?_, ?_⟩
  · obtain ⟨trail, lineage, inside, ends⟩ := exists_cloneLineage reachable member
    refine ⟨trail, lineage, fun other otherLineage => ?_, inside, ends⟩
    refine otherLineage.unique (fun jobId first second firstStep secondStep => ?_) lineage
    exact clonedFrom_functional reachable.accepted jobId first second firstStep.1 secondStep.1
  · intro distinct
    exact ancestryWellFounded_of_noSelfClone reachable (noSelfClone_of_reachable distinct)

/-- A job and a clone of it. -/
def clonedRows : List (String × Row) :=
  [("jobs", draftJob "original" .null), ("jobs", draftJob "clone" (.text "original"))]

/-- The database after inserting a job and a clone of it. -/
def clonedDatabase : Database := emptyDatabase.inserting clonedRows

theorem reachable_clonedDatabase :
    Reachable initialSchema KeepsCloneColumnsDistinct clonedDatabase := by
  refine Reachable.empty.inserting (fun state entry member => ?_) ?_
  · refine ⟨Statement.keeps_insert _ _ _ _, ?_⟩
    intro job inserted
    obtain ⟨_, rfl⟩ := Statement.insert.inj inserted
    have distinct : ∀ entry ∈ clonedRows,
        entry.2 "cloned_from_job_id" ≠ entry.2 "job_id" := by decide
    exact distinct entry member
  · rw [initialSchema_eq]
    decide +kernel

theorem job_ancestry_clonedDatabase :
    ClonedFrom clonedDatabase (.text "clone") (.text "original") ∧
      AncestryWellFounded clonedDatabase :=
  ⟨⟨draftJob "clone" (.text "original"), by simp [clonedDatabase, clonedRows,
      Database.inserting, Statement.write, Statement.table, Statement.rewrite], rfl, rfl,
      by decide⟩,
    (job_ancestry (reachable_clonedDatabase.mono fun _ _ permitted => permitted.1)).2.2
      reachable_clonedDatabase⟩

/-- The database after inserting a job that names itself as its source. -/
def selfClonedDatabase : Database :=
  (Statement.insert "jobs" (draftJob "loop" (.text "loop"))).write emptyDatabase

/-- The insert is accepted, and the walk from the job comes back to it. -/
theorem selfClonedDatabase_not_wellFounded :
    Reachable initialSchema KeepsCloneColumns selfClonedDatabase ∧
      ¬ AncestryWellFounded selfClonedDatabase := by
  constructor
  · refine Reachable.write .empty (Statement.keeps_insert _ _ _ _) ?_ ?_
    · rw [initialSchema_eq]
      decide
    · rw [initialSchema_eq]
      decide +kernel
  · intro wellFounded
    have member : draftJob "loop" (.text "loop") ∈ selfClonedDatabase "jobs" := by
      simp [selfClonedDatabase, Statement.write, Statement.table, Statement.rewrite]
    obtain ⟨trail, lineage, ends⟩ := wellFounded.ends _ member
    have only : ∀ job ∈ selfClonedDatabase "jobs", job = draftJob "loop" (.text "loop") := by
      intro job stored
      simpa [selfClonedDatabase, Statement.write, Statement.table, Statement.rewrite,
        emptyDatabase] using stored
    cases last : trail.getLast? with
    | none =>
      rw [List.getLast?_eq_none_iff.mp last] at lineage
      exact absurd lineage.starts (by simp)
    | some jobId =>
      obtain ⟨root, rootMember, _, null⟩ := ends jobId last
      rw [only root rootMember] at null
      exact absurd null (by decide)

end Pbl4.Migration
