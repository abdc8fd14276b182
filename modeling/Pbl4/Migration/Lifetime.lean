/-
This file follows a database through its whole life: the migration is applied and
reverted any number of times, and between those transactions statements run on its
tables and on those beside them. A catalog that never had the migration's names goes
through all this like one simple machine, which either has nothing installed or holds a
database. That database is always one that runs of accepted statements reach from the
empty tables, so what is proved of those holds of every installation, the first and the
later ones; and the relations beside it never change, except for their rows.
-/

import Pbl4.Migration.Rollback
import Pbl4.Service
import Pbl4.Sql.Server

namespace Pbl4.Migration

open Sql

/-! ### Requests and what they are promised -/

/-- What is submitted over the life of a database. -/
inductive Request where
  | upgrade
  | downgrade
  | execute (statement : Statement)

/-- The transaction of a request. -/
def Request.transaction : Request → Transaction
  | .upgrade => .migrate Migration.upgrade
  | .downgrade => .migrate Migration.downgrade
  | .execute statement => .execute statement

/-- A request is about the migration or its tables. -/
def Request.Concerns : Request → Prop
  | .upgrade | .downgrade => True
  | .execute statement => initialSchema.Declares statement.table

/-- What a request may count on: without an installation only `upgrade()` succeeds, and leaves
empty tables; with one, only a second `upgrade()` fails, and a statement is held to the schema
alone. -/
def serve : Option Database → Request → Bool × Option Database
  | none, .upgrade => (true, some emptyDatabase)
  | none, .downgrade | none, .execute _ => (false, none)
  | some database, .upgrade => (false, some database)
  | some _, .downgrade => (true, none)
  | some database, .execute statement =>
      let next := initialSchema.execute database statement
      (next.isSome, some (next.getD database))

/-- The relations of an installation: none, or the migration's with a database in the tables. -/
def Carries (own : Entries) : Option Database → Prop
  | none => own = []
  | some database => ∃ positions, own = initialEntries.fill database positions

/-- A catalog with other relations, whatever their rows, beside an installation. -/
structure Holds (others : Entries) (catalog : Catalog) (installed : Option Database) : Prop where
  carries : ∃ contents positions own,
    catalog.entries = others.fill contents positions ++ own ∧ Carries own installed
  sound : catalog.Sound
  reachable : ∀ database ∈ installed, Reachable initialSchema anyStatement database

/-! ### The migration's relations -/

/-- The migration leaves its tables empty and its sequences at their start. -/
theorem fill_initialEntries :
    initialEntries.fill emptyDatabase (fun _ => 0) = initialEntries :=
  Entries.fill_of_blank (Entries.blank_of_run (fun _ member => absurd member List.not_mem_nil)
    run_upgrade_empty)

theorem reachable_serve {installed : Option Database} (request : Request)
    (reachable : ∀ database ∈ installed, Reachable initialSchema anyStatement database) :
    ∀ database ∈ (serve installed request).2, Reachable initialSchema anyStatement database := by
  intro database member
  cases installed with
  | none =>
    cases request with
    | upgrade => exact Option.some.inj member ▸ .empty
    | downgrade => cases member
    | execute statement => cases member
  | some current =>
    have start := reachable current rfl
    cases request with
    | upgrade => exact Option.some.inj member ▸ start
    | downgrade => cases member
    | execute statement =>
      have same : (initialSchema.execute current statement).getD current = database :=
        Option.some.inj member
      rw [← same]
      cases executed : initialSchema.execute current statement with
      | none => exact start
      | some next => exact .step start trivial executed

/-! ### One request -/

section Step

variable {others base : Entries} {catalog after : Catalog} {database : Database}
  {positions : String → Int}

theorem avoids_of_free (free : Avoids createdNames base) :
    Avoids initialEntries.names base :=
  names_initialEntries ▸ free

/-- Outside the frame, the rows of a catalog are those of the installed database. -/
theorem rows_installed (free : Avoids createdNames base)
    (reachable : Reachable initialSchema anyStatement database)
    (entries : catalog.entries = base ++ initialEntries.fill database positions) :
    ∀ name ∈ initialEntries.names, catalog.entries.rows name = database name := by
  intro name member
  rw [entries, Entries.rows_append (avoids_of_free free name member)]
  by_cases declares : initialSchema.Declares name
  · exact Entries.rows_fill nodup_initialEntries declares
  · have none : (initialEntries.fill database positions).findTable name = none := by
      rw [Entries.fill, Entries.findTable_store]
      refine Option.eq_none_iff_forall_ne_some.mpr fun table found => declares ?_
      exact (Entries.declares_iff nodup_initialEntries).mpr (by rw [found]; rfl)
    rw [Entries.rows_of_none none, reachable.confines name declares]

/-- `upgrade()` beside a frame adds the empty installation. -/
theorem sound_upgrade (closed : base.Closed) (free : Avoids createdNames base)
    (sound : base.schema.Accepts base.rows) (entries : after.entries = base ++ initialEntries) :
    after.Sound := by
  unfold Catalog.Sound
  rw [entries, Entries.accepts_append]
  constructor
  · exact closed.accepts_congr (fun name member => (Entries.rows_append_of_mem member).symm) sound
  · refine closed_initialEntries.accepts_congr (fun name member => ?_)
      (Schema.accepts_empty initialSchema)
    have filled : after.entries = base ++ initialEntries.fill emptyDatabase fun _ => 0 := by
      rw [fill_initialEntries, entries]
    rw [← entries]
    exact (rows_installed free .empty filled name member).symm

/-- What `downgrade()` leaves is sound: it is the frame. -/
theorem sound_downgrade {own : Entries} (closed : base.Closed) (sound : catalog.Sound)
    (before : catalog.entries = base ++ own) (entries : after.entries = base) : after.Sound := by
  unfold Catalog.Sound at sound ⊢
  rw [before, Entries.accepts_append] at sound
  rw [entries]
  exact closed.accepts_congr (fun name member => Entries.rows_append_of_mem member) sound.1

/-- Without an installation `downgrade()` fails at its first statement. -/
theorem run_downgrade_free (free : Avoids createdNames base) : base.run downgrade = none := by
  have created : "attempts" ∈ createdNames := List.mem_flatMap.mpr
    ⟨.createTable "attempts" attempts, by simp [Migration.upgrade], List.mem_cons_self⟩
  have fresh := free "attempts" created
  unfold downgrade Entries.run Ddl.apply
  rw [if_neg]
  · rfl
  · rintro ⟨definition, found, _⟩
    exact fresh (Entries.mem_names_of_findTable found)

/-- Beside an installation `upgrade()` fails: its names are taken. -/
theorem run_upgrade_installed :
    (base ++ initialEntries.fill database positions).run upgrade = none := by
  refine Option.eq_none_iff_forall_ne_some.mpr fun again ran => ?_
  refine Entries.avoids_of_run upgrade_creates ran "datasets" datasets_created ?_
  rw [Entries.names_append, Entries.names_fill, names_initialEntries]
  exact List.mem_append_right _ datasets_created

/-- Where a schema does not declare the table, a statement is rejected. -/
theorem execute_of_not_declares {statement : Statement}
    (elsewhere : ¬ initialSchema.Declares statement.table) :
    initialSchema.execute database statement = none := by
  unfold Schema.execute
  rw [if_neg fun valid => elsewhere valid.1]

/-- A statement on a table of the installation is held to its schema and its rows alone. -/
theorem answer_installed {statement : Statement} (closed : base.Closed)
    (free : Avoids createdNames base) (reachable : Reachable initialSchema anyStatement database)
    (entries : catalog.entries = base ++ initialEntries.fill database positions)
    (sound : catalog.Sound) (declares : initialSchema.Declares statement.table) :
    (catalog.entries.schema.execute catalog.entries.rows statement).isSome =
      (initialSchema.execute database statement).isSome := by
  have satisfied : base.schema.Accepts catalog.entries.rows := by
    unfold Catalog.Sound at sound
    rw [entries, Entries.accepts_append, ← entries] at sound
    exact sound.1
  have agree : ∀ name ∈ (initialEntries.fill database positions).names,
      catalog.entries.rows name = database name := by
    rw [Entries.names_fill]
    exact rows_installed free reachable entries
  have outside : statement.table ∉ base.names :=
    avoids_of_free free _ (Entries.mem_names_of_declares declares)
  have framed : ((base ++ initialEntries.fill database positions).schema.execute
      catalog.entries.rows statement).isSome =
        (initialSchema.execute database statement).isSome := by
    rw [Entries.execute_append closed closed_initialEntries.fill satisfied agree outside,
      Entries.schema_fill]
    rfl
  rwa [← entries] at framed

/-- A statement, wherever its table is, does to the rows of the installation what it does to the
installed database. -/
theorem rows_execute {statement : Statement} {answer : Bool} (free : Avoids createdNames base)
    (reachable : Reachable initialSchema anyStatement database)
    (entries : catalog.entries = base ++ initialEntries.fill database positions)
    (answers : initialSchema.Declares statement.table →
      answer = (initialSchema.execute database statement).isSome)
    (rows : after.entries.rows =
      if answer then statement.write catalog.entries.rows else catalog.entries.rows) :
    ∀ name, initialSchema.Declares name → after.entries.rows name =
      ((initialSchema.execute database statement).getD database) name := by
  intro name declares
  have member : name ∈ initialEntries.names := Entries.mem_names_of_declares declares
  have same := rows_installed free reachable entries name member
  rw [rows]
  by_cases concerned : initialSchema.Declares statement.table
  · rw [answers concerned]
    cases executed : initialSchema.execute database statement with
    | none => exact same
    | some next =>
      obtain ⟨_, _, rfl⟩ := Schema.execute_eq_some.mp executed
      exact statement.write_congr same
  · rw [execute_of_not_declares concerned, Option.getD_none]
    split
    · rw [Statement.write_of_ne _ _ fun table => concerned (table ▸ declares), same]
    · exact same

/-- Storing rows in a catalog stores them in the installation. -/
theorem store_installed {written : List String} {moved : String → Int} {next : Database}
    (free : Avoids createdNames base) (reachable : Reachable initialSchema anyStatement database)
    (before : catalog.entries = base ++ initialEntries.fill database positions)
    (entries : after.entries = catalog.entries.store written after.entries.rows moved)
    (rows : ∀ name, initialSchema.Declares name → after.entries.rows name = next name) :
    ∃ later, (initialEntries.fill database positions).store written after.entries.rows moved =
      initialEntries.fill next later := by
  refine ⟨_, (Entries.store_fill initialEntries database positions).trans
    (Entries.fill_congr fun name declares => ?_)⟩
  have member : name ∈ initialEntries.names := Entries.mem_names_of_declares declares
  split
  · exact rows name declares
  · rename_i unwritten
    rw [← rows name declares, entries, Entries.rows_store, if_neg fun listed => unwritten listed.2,
      rows_installed free reachable before name member]

end Step

/-! ### The whole life -/

section Life

variable {others : Entries} (closed : others.Closed) (free : Avoids createdNames others)
  {catalog after : Catalog} {installed : Option Database} {answer : Bool}
  (holds : Holds others catalog installed)

include closed free holds

/-- `upgrade()` is served as promised. -/
theorem Holds.upgrade (served : catalog.Serves (Request.upgrade.transaction) answer after) :
    answer = (serve installed .upgrade).1 ∧ Holds others after (serve installed .upgrade).2 := by
  obtain ⟨contents, positions, own, before, carries⟩ := holds.carries
  have baseFree : Avoids createdNames (others.fill contents positions) := by
    unfold Avoids
    rwa [Entries.names_fill]
  cases installed with
  | none =>
    obtain rfl : own = [] := carries
    rw [List.append_nil] at before
    have ran := run_upgrade closed.fill baseFree
    rw [← before] at ran
    rcases served.migrate_cases with ⟨rfl, succeeded⟩ | ⟨_, _, failed⟩
    · have entries := Option.some.inj (succeeded.symm.trans ran)
      refine ⟨rfl, ⟨contents, positions, initialEntries, before ▸ entries, ?_⟩, ?_, ?_⟩
      · exact ⟨_, fill_initialEntries.symm⟩
      · rw [before] at entries
        refine sound_upgrade closed.fill baseFree ?_ entries
        have sound := holds.sound
        unfold Catalog.Sound at sound
        rwa [before] at sound
      · exact reachable_serve .upgrade holds.reachable
    · rw [ran] at failed
      cases failed
  | some database =>
    obtain ⟨moved, rfl⟩ := carries
    rcases served.migrate_cases with ⟨_, succeeded⟩ | ⟨rfl, rfl, _⟩
    · rw [before, run_upgrade_installed] at succeeded
      cases succeeded
    · exact ⟨rfl, holds⟩

/-- `downgrade()` is served as promised. -/
theorem Holds.downgrade (served : catalog.Serves (Request.downgrade.transaction) answer after) :
    answer = (serve installed .downgrade).1 ∧
      Holds others after (serve installed .downgrade).2 := by
  obtain ⟨contents, positions, own, before, carries⟩ := holds.carries
  have baseFree : Avoids createdNames (others.fill contents positions) := by
    unfold Avoids
    rwa [Entries.names_fill]
  cases installed with
  | none =>
    obtain rfl : own = [] := carries
    rcases served.migrate_cases with ⟨_, succeeded⟩ | ⟨rfl, rfl, _⟩
    · rw [before, List.append_nil, run_downgrade_free baseFree] at succeeded
      cases succeeded
    · exact ⟨rfl, holds⟩
  | some database =>
    obtain ⟨moved, rfl⟩ := carries
    have ran := run_downgrade closed.fill baseFree database moved
    rw [Entries.store_eq_fill names_initialEntries_subset, ← before] at ran
    rcases served.migrate_cases with ⟨rfl, succeeded⟩ | ⟨_, _, failed⟩
    · have entries := Option.some.inj (succeeded.symm.trans ran)
      refine ⟨rfl, ⟨contents, positions, [], ?_, rfl⟩, ?_, ?_⟩
      · rw [entries, List.append_nil]
      · exact sound_downgrade closed.fill holds.sound before entries
      · exact reachable_serve .downgrade holds.reachable
    · rw [ran] at failed
      cases failed

/-- A statement is served as promised. -/
theorem Holds.execute {statement : Statement}
    (served : catalog.Serves (Request.execute statement).transaction answer after) :
    (initialSchema.Declares statement.table →
        answer = (serve installed (.execute statement)).1) ∧
      Holds others after (serve installed (.execute statement)).2 := by
  obtain ⟨contents, positions, own, before, carries⟩ := holds.carries
  obtain ⟨answers, rows, sound, written, moved, entries⟩ := served.execute_cases holds.sound
  have baseFree : Avoids createdNames (others.fill contents positions) := by
    unfold Avoids
    rwa [Entries.names_fill]
  have stored : after.entries =
      (others.fill contents positions).store written after.entries.rows moved ++
        own.store written after.entries.rows moved :=
    entries.trans (by rw [before]; exact List.map_append)
  rw [Entries.store_fill] at stored
  have reachable := reachable_serve (.execute statement) holds.reachable
  cases installed with
  | none =>
    obtain rfl : own = [] := carries
    refine ⟨fun declares => ?_, ⟨_, _, [], stored, rfl⟩, sound, reachable⟩
    rw [answers]
    unfold Schema.execute
    rw [if_neg]
    · rfl
    · rintro ⟨known, _⟩
      rw [before, List.append_nil] at known
      exact avoids_of_free baseFree _ (Entries.mem_names_of_declares declares)
        (Entries.mem_names_of_declares known)
  | some database =>
    obtain ⟨start, rfl⟩ := carries
    have earlier := holds.reachable database rfl
    have alike : initialSchema.Declares statement.table →
        answer = (initialSchema.execute database statement).isSome := fun declares =>
      answers.trans (answer_installed closed.fill baseFree earlier before holds.sound declares)
    obtain ⟨later, filled⟩ := store_installed baseFree earlier before entries
      (rows_execute baseFree earlier before alike rows)
    exact ⟨alike, ⟨_, _, _, stored, later, filled⟩, sound, reachable⟩

end Life

/-- The server of one catalog, request by request. -/
def Served (catalog : Catalog) (request : Request) (answer : Bool) (after : Catalog) : Prop :=
  catalog.Serves request.transaction answer after

/-- Every request is served as promised. -/
theorem served_refines {others : Entries} (closed : others.Closed)
    (free : Avoids createdNames others) :
    Service.Refines Served serve Request.Concerns (Holds others) := by
  intro before after request answer installed holds served
  cases request with
  | upgrade =>
    obtain ⟨alike, kept⟩ := holds.upgrade closed free served
    exact ⟨fun _ => alike, kept⟩
  | downgrade =>
    obtain ⟨alike, kept⟩ := holds.downgrade closed free served
    exact ⟨fun _ => alike, kept⟩
  | execute statement => exact holds.execute closed free served

/-- The tables of an installation hold its database. -/
theorem Holds.rows {others : Entries} (free : Avoids createdNames others) {catalog : Catalog}
    {database : Database} (holds : Holds others catalog (some database)) :
    ∀ name, initialSchema.Declares name → catalog.entries.rows name = database name := by
  obtain ⟨contents, positions, own, entries, moved, rfl⟩ := holds.carries
  have baseFree : Avoids createdNames (others.fill contents positions) := by
    unfold Avoids
    rwa [Entries.names_fill]
  intro name declares
  exact rows_installed baseFree (holds.reachable database rfl) entries name
    (Entries.mem_names_of_declares declares)

/-- Whatever is submitted to a sound catalog without the migration's names, in whatever order:
every `upgrade()`, every `downgrade()` and every statement on the migration's tables is answered as
promised. In the end the catalog holds what it held before, apart from rows, beside the
installation that was promised; its tables hold the promised database, which is reachable from the
empty tables. -/
theorem lifetime (catalog : Catalog) (free : Avoids createdNames catalog.entries)
    (sound : catalog.Sound) {log : List (Request × Bool)} {after : Catalog}
    (served : Service.Log Served catalog log after) :
    Service.Answers serve Request.Concerns none log ∧
      Holds catalog.entries after (Service.final serve none (log.map Prod.fst)) ∧
      ∀ database ∈ Service.final serve none (log.map Prod.fst),
        ∀ name, initialSchema.Declares name → after.entries.rows name = database name := by
  have start : Holds catalog.entries catalog none := by
    refine ⟨⟨catalog.entries.rows, catalog.entries.positions, [], ?_, rfl⟩, sound, ?_⟩
    · rw [Entries.fill_self catalog.distinct, List.append_nil]
    · exact fun _ member => absurd member (by simp)
  obtain ⟨answers, holds⟩ := (served_refines catalog.closed free).log start served
  refine ⟨answers, holds, fun database member => ?_⟩
  rw [Option.mem_def.mp member] at holds
  exact holds.rows free

/-- A data set is registered between two installations. -/
def reinstallation : List Request := [
  .upgrade,
  .upgrade,
  .execute (.insert "datasets" (.of [
    ("dataset_id", .text "images"),
    ("name", .text "images"),
    ("task_type", .text "classification"),
    ("source_type", .text "directory"),
    ("source_reference", .text "images"),
    ("created_at", .timestamp 0)])),
  .downgrade,
  .upgrade]

/-- The data set is gone with the first installation. -/
theorem lifetime_versionedCatalog :
    ∃ log after, log.map Prod.fst = reinstallation ∧
      Service.Log Served versionedCatalog log after ∧
      Service.Answers serve Request.Concerns none log ∧
      Holds versionedCatalog.entries after (some emptyDatabase) := by
  have free : Avoids createdNames versionedCatalog.entries := by
    unfold Avoids
    decide +kernel
  have sound : versionedCatalog.Sound := by
    unfold Catalog.Sound
    decide +kernel
  have total : ∀ (catalog : Catalog) (request : Request),
      ∃ answer after, Served catalog request answer after :=
    fun catalog request => catalog.exists_serves request.transaction
  obtain ⟨log, after, requests, served⟩ :=
    Service.exists_log total versionedCatalog reinstallation
  obtain ⟨answers, holds, _⟩ := lifetime versionedCatalog free sound served
  rw [requests] at holds
  exact ⟨log, after, requests, served, answers, holds⟩

end Pbl4.Migration
