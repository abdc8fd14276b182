/-
This file is about code that may raise: steps that run one after the other, and loops that
append to a list. `collect` runs the body on each item in order, and the first exception
ends the loop.
-/

import Mathlib.Data.List.Basic

namespace Python

/-! ### Steps -/

theorem bind_eq_ok {Failure Value Result : Type} {first : Except Failure Value}
    {next : Value → Except Failure Result} {result : Result} :
    (first >>= next) = .ok result ↔ ∃ value, first = .ok value ∧ next value = .ok result := by
  cases first with
  | error failure => simp [bind, Except.bind]
  | ok value => simp [bind, Except.bind]

theorem map_eq_ok {Failure Value Result : Type} {first : Except Failure Value}
    {change : Value → Result} {result : Result} :
    first.map change = .ok result ↔ ∃ value, first = .ok value ∧ change value = result := by
  cases first with
  | error failure => simp [Except.map]
  | ok value => simp [Except.map]

/-! ### Loops -/

/-- Run a loop that collects findings; the first exception ends it. -/
def collect {Item Finding Failure : Type} (visit : Item → Except Failure (List Finding)) :
    List Item → Except Failure (List Finding)
  | [] => .ok []
  | item :: rest => do
      let found ← visit item
      let others ← collect visit rest
      return found ++ others

section Collect

variable {Item Finding Failure : Type} {visit other : Item → Except Failure (List Finding)}
  {items : List Item} {all : List Finding}

theorem collect_cons_eq_ok {item : Item} {rest : List Item} :
    collect visit (item :: rest) = .ok all ↔
      ∃ found others, visit item = .ok found ∧ collect visit rest = .ok others ∧
        found ++ others = all := by
  rw [collect]
  simp only [bind_eq_ok, pure, Except.pure, Except.ok.injEq]
  constructor
  · rintro ⟨found, first, others, later, same⟩
    exact ⟨found, others, first, later, same⟩
  · rintro ⟨found, others, first, later, same⟩
    exact ⟨found, first, others, later, same⟩

/-- A loop ends without an exception when every turn does. -/
theorem collect_isOk :
    (∃ found, collect visit items = .ok found) ↔
      ∀ item ∈ items, ∃ found, visit item = .ok found := by
  induction items with
  | nil => simp [collect]
  | cons item rest inductionHypothesis =>
    rw [List.forall_mem_cons, ← inductionHypothesis]
    simp only [collect_cons_eq_ok]
    constructor
    · rintro ⟨_, found, others, first, later, _⟩
      exact ⟨⟨found, first⟩, others, later⟩
    · rintro ⟨⟨found, first⟩, others, later⟩
      exact ⟨_, found, others, first, later, rfl⟩

/-- A loop finds nothing when no turn does. -/
theorem collect_eq_nil :
    collect visit items = .ok [] ↔ ∀ item ∈ items, visit item = .ok [] := by
  induction items with
  | nil => simp [collect]
  | cons item rest inductionHypothesis =>
    rw [List.forall_mem_cons, ← inductionHypothesis, collect_cons_eq_ok]
    constructor
    · rintro ⟨found, others, first, later, empty⟩
      obtain ⟨rfl, rfl⟩ := List.append_eq_nil_iff.mp empty
      exact ⟨first, later⟩
    · rintro ⟨first, later⟩
      exact ⟨[], [], first, later, rfl⟩

/-- What a turn finds is among what the loop finds. -/
theorem subset_of_collect (ran : collect visit items = .ok all) {item : Item}
    (member : item ∈ items) : ∃ found, visit item = .ok found ∧ found ⊆ all := by
  induction items generalizing all with
  | nil => exact absurd member List.not_mem_nil
  | cons first rest inductionHypothesis =>
    obtain ⟨found, others, now, later, rfl⟩ := collect_cons_eq_ok.mp ran
    rcases List.mem_cons.mp member with rfl | inRest
    · exact ⟨found, now, List.subset_append_left _ _⟩
    · obtain ⟨inner, visited, inside⟩ := inductionHypothesis later inRest
      exact ⟨inner, visited, List.subset_append_of_subset_right _ inside⟩

theorem exists_of_mem_collect (ran : collect visit items = .ok all) {finding : Finding}
    (member : finding ∈ all) :
    ∃ item ∈ items, ∃ found, visit item = .ok found ∧ finding ∈ found := by
  induction items generalizing all with
  | nil =>
    obtain rfl := Except.ok.inj ran
    exact absurd member List.not_mem_nil
  | cons first rest inductionHypothesis =>
    obtain ⟨found, others, now, later, rfl⟩ := collect_cons_eq_ok.mp ran
    rcases List.mem_append.mp member with inFirst | inRest
    · exact ⟨first, List.mem_cons_self, found, now, inFirst⟩
    · obtain ⟨item, itemMember, inner⟩ := inductionHypothesis later inRest
      exact ⟨item, List.mem_cons_of_mem _ itemMember, inner⟩

theorem mem_collect (ran : collect visit items = .ok all) {finding : Finding} :
    finding ∈ all ↔ ∃ item ∈ items, ∃ found, visit item = .ok found ∧ finding ∈ found := by
  refine ⟨exists_of_mem_collect ran, ?_⟩
  rintro ⟨item, member, found, visited, inside⟩
  obtain ⟨again, same, subset⟩ := subset_of_collect ran member
  obtain rfl := Except.ok.inj (same.symm.trans visited)
  exact subset inside

/-- A loop finds nothing but what conforms when no turn does. -/
theorem collect_conforms {good : Finding → Prop} :
    (∃ found, collect visit items = .ok found ∧ ∀ finding ∈ found, good finding) ↔
      ∀ item ∈ items, ∃ found, visit item = .ok found ∧ ∀ finding ∈ found, good finding := by
  constructor
  · rintro ⟨all, ran, conforms⟩ item member
    obtain ⟨found, visited, inside⟩ := subset_of_collect ran member
    exact ⟨found, visited, fun finding listed => conforms finding (inside listed)⟩
  · intro each
    obtain ⟨all, ran⟩ := collect_isOk.mpr fun item member =>
      let ⟨found, visited, _⟩ := each item member
      ⟨found, visited⟩
    refine ⟨all, ran, fun finding member => ?_⟩
    obtain ⟨item, itemMember, found, visited, inside⟩ := exists_of_mem_collect ran member
    obtain ⟨again, same, conforms⟩ := each item itemMember
    obtain rfl := Except.ok.inj (same.symm.trans visited)
    exact conforms finding inside

/-- A loop finds what its turns find. -/
theorem collect_eq_flatMap (ran : collect visit items = .ok all) {listed : Item → List Finding}
    (each : ∀ item ∈ items, ∀ found, visit item = .ok found → found = listed item) :
    all = items.flatMap listed := by
  induction items generalizing all with
  | nil => exact (Except.ok.inj ran).symm
  | cons first rest inductionHypothesis =>
    obtain ⟨found, others, now, later, rfl⟩ := collect_cons_eq_ok.mp ran
    rw [List.forall_mem_cons] at each
    rw [List.flatMap_cons, ← each.1 found now, ← inductionHypothesis later each.2]

/-- Turns that find nothing can be left out. -/
theorem collect_filter {keep : Item → Bool}
    (others : ∀ item ∈ items, keep item = false → visit item = .ok []) :
    collect visit (items.filter keep) = collect visit items := by
  induction items with
  | nil => rfl
  | cons first rest inductionHypothesis =>
    rw [List.forall_mem_cons] at others
    by_cases kept : keep first = true
    · rw [List.filter_cons_of_pos kept, collect, collect, inductionHypothesis others.2]
    · rw [List.filter_cons_of_neg kept, collect, others.1 (Bool.eq_false_iff.mpr kept),
        inductionHypothesis others.2]
      cases collect visit rest <;> rfl

/-- A loop finds a part of what another finds when each of its turns does. -/
theorem collect_part {keep : Finding → Bool} (ran : collect visit items = .ok all)
    (each : ∀ item ∈ items, ∀ found, visit item = .ok found → found ⊆ all →
      other item = .ok (found.filter keep)) :
    collect other items = .ok (all.filter keep) := by
  induction items generalizing all with
  | nil =>
    obtain rfl := Except.ok.inj ran
    rfl
  | cons first rest inductionHypothesis =>
    obtain ⟨found, others, now, later, rfl⟩ := collect_cons_eq_ok.mp ran
    rw [List.forall_mem_cons] at each
    refine collect_cons_eq_ok.mpr ⟨_, _, each.1 found now (List.subset_append_left _ _),
      inductionHypothesis later fun item member inner visited inside => ?_,
      (List.filter_append _ _).symm⟩
    exact each.2 item member inner visited (List.subset_append_of_subset_right _ inside)

/-- Turns in another order find the same, in another order. -/
theorem collect_perm {reordered : List Item} (same : items.Perm reordered)
    (ran : collect visit items = .ok all) :
    ∃ others, collect visit reordered = .ok others ∧ all.Perm others := by
  induction same generalizing all with
  | nil => exact ⟨all, ran, .refl all⟩
  | cons item _ inductionHypothesis =>
    obtain ⟨found, rest, now, later, rfl⟩ := collect_cons_eq_ok.mp ran
    obtain ⟨others, reached, perm⟩ := inductionHypothesis later
    exact ⟨found ++ others, collect_cons_eq_ok.mpr ⟨found, others, now, reached, rfl⟩,
      perm.append_left found⟩
  | swap item other rest =>
    obtain ⟨found, _, now, more, rfl⟩ := collect_cons_eq_ok.mp ran
    obtain ⟨next, later, after, last, rfl⟩ := collect_cons_eq_ok.mp more
    refine ⟨next ++ (found ++ later), ?_, ?_⟩
    · exact collect_cons_eq_ok.mpr ⟨next, found ++ later, after,
        collect_cons_eq_ok.mpr ⟨found, later, now, last, rfl⟩, rfl⟩
    · rw [← List.append_assoc, ← List.append_assoc]
      exact List.perm_append_comm.append_right later
  | trans _ _ first second =>
    obtain ⟨middle, reached, perm⟩ := first ran
    obtain ⟨others, ended, rest⟩ := second reached
    exact ⟨others, ended, perm.trans rest⟩

theorem collect_congr (ran : collect visit items = .ok all)
    (each : ∀ item ∈ items, ∀ found, visit item = .ok found → found ⊆ all →
      other item = .ok found) :
    collect other items = .ok all := by
  have whole : collect other items = .ok (all.filter fun _ => true) := by
    refine collect_part ran fun item member found visited inside => ?_
    rw [List.filter_true]
    exact each item member found visited inside
  rwa [List.filter_true] at whole

end Collect

end Python
