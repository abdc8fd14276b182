/-
This file is about walks along a `parent` relation: where they end, and that they
go on ending while the graph behind the relation is edited one node at a time. A
node is grounded when every walk from it ends. Grounded nodes have a lineage, the
list of nodes the walk visits, with no repetition; when every node has at most one
parent the lineage is unique.

The growth rule is the one used on runs: an edit that leaves the parents of the old
nodes alone, and gives a new node only old parents, keeps every node grounded.
-/

import Mathlib.Data.List.Chain
import Mathlib.Data.List.Nodup
import Mathlib.Data.Set.Basic
import Mathlib.Logic.Relation

namespace Lineage

variable {Node : Type} {parent parent' : Node → Node → Prop}

/-! ### Grounded nodes -/

/-- Every walk along `parent` from the node ends. -/
def Grounded (parent : Node → Node → Prop) (node : Node) : Prop :=
  Acc (fun next current => parent current next) node

theorem Grounded.of_parents {node : Node}
    (grounded : ∀ next, parent node next → Grounded parent next) : Grounded parent node :=
  Acc.intro node grounded

/-- A grounded node is on no cycle. -/
theorem Grounded.acyclic {node : Node} (grounded : Grounded parent node) :
    ¬ Relation.TransGen parent node node := by
  induction grounded with
  | intro node _ inductionHypothesis =>
    intro cycle
    obtain ⟨next, step, rest⟩ := Relation.TransGen.head'_iff.mp cycle
    exact inductionHypothesis next step (Relation.TransGen.tail' rest step)

/-- Groundedness is kept when the nodes of a set keep their parents, and these are in the
set. -/
theorem Grounded.frame {old : Set Node}
    (kept : ∀ node ∈ old, ∀ next, parent' node next → parent node next ∧ next ∈ old)
    {node : Node} (member : node ∈ old) (grounded : Grounded parent node) :
    Grounded parent' node := by
  induction grounded with
  | intro node _ inductionHypothesis =>
    refine .of_parents fun next step => ?_
    obtain ⟨oldStep, oldMember⟩ := kept node member next step
    exact inductionHypothesis next oldStep oldMember

/-- The growth rule: old nodes keep their parents, new nodes have old parents only. -/
theorem grounded_grow {old new : Set Node}
    (kept : ∀ node ∈ old, ∀ next, parent' node next → parent node next ∧ next ∈ old)
    (added : ∀ node ∈ new, node ∉ old → ∀ next, parent' node next → next ∈ old)
    (grounded : ∀ node ∈ old, Grounded parent node) :
    ∀ node ∈ new, Grounded parent' node := by
  intro node member
  by_cases known : node ∈ old
  · exact (grounded node known).frame kept known
  · exact .of_parents fun next step =>
      have oldMember := added node member known next step
      (grounded next oldMember).frame kept oldMember

/-- Walks end when no edge leads up a layer and the walks inside each layer end. -/
theorem Grounded.of_layers (layer : Node → Nat)
    (descends : ∀ {node next}, parent node next → layer next ≤ layer node)
    (inside : ∀ node, Grounded (fun node next => parent node next ∧ layer next = layer node) node)
    (node : Node) : Grounded parent node := by
  generalize height : layer node = total
  -- The induction is on the layer, and inside a layer along its walks.
  induction total using Nat.strong_induction_on generalizing node with
  | _ total lower =>
    induction inside node with
    | intro node _ level =>
      refine .of_parents fun next step => ?_
      rcases Nat.lt_or_eq_of_le (descends step) with below | same
      · exact lower (layer next) (height ▸ below) next rfl
      · exact level next ⟨step, same⟩ (same.trans height)

/-! ### The walk itself -/

/-- The list of nodes a walk from `start` visits, up to a node without a parent. -/
structure IsLineage (parent : Node → Node → Prop) (start : Node) (trail : List Node) : Prop where
  starts : trail.head? = some start
  linked : trail.IsChain parent
  distinct : trail.Nodup
  ends : ∀ last ∈ trail.getLast?, ∀ next, ¬ parent last next

/-- A grounded node has a lineage, all of it reached from the node. -/
theorem Grounded.exists_lineage {start : Node} (grounded : Grounded parent start) :
    ∃ trail, IsLineage parent start trail ∧
      ∀ node ∈ trail, Relation.ReflTransGen parent start node := by
  induction grounded with
  | intro start below inductionHypothesis =>
    by_cases root : ∃ next, parent start next
    · obtain ⟨next, step⟩ := root
      obtain ⟨trail, lineage, reached⟩ := inductionHypothesis next step
      obtain ⟨rest, rfl⟩ := List.head?_eq_some_iff.mp lineage.starts
      have reachable : ∀ node ∈ next :: rest, Relation.TransGen parent start node :=
        fun node member => Relation.TransGen.head' step (reached node member)
      refine ⟨start :: next :: rest, ⟨rfl, ?_, ?_, ?_⟩, ?_⟩
      · exact List.isChain_cons_cons.mpr ⟨step, lineage.linked⟩
      · have fresh : start ∉ next :: rest := fun member =>
          Grounded.acyclic (.of_parents below) (reachable start member)
        exact List.nodup_cons.mpr ⟨fresh, lineage.distinct⟩
      · intro last member
        exact lineage.ends last (by rwa [List.getLast?_cons_cons] at member)
      · intro node member
        rcases List.mem_cons.mp member with same | later
        · exact same ▸ .refl
        · exact (reachable node later).to_reflTransGen
    · refine ⟨[start], ⟨rfl, .singleton _, List.nodup_singleton _, ?_⟩, ?_⟩
      · rintro last ⟨rfl⟩ next step
        exact root ⟨next, step⟩
      · intro node member
        exact List.mem_singleton.mp member ▸ .refl

/-- With at most one parent per node there is at most one lineage. -/
theorem IsLineage.unique
    (functional : ∀ node first second, parent node first → parent node second → first = second)
    {start : Node} {first second : List Node} (firstLineage : IsLineage parent start first)
    (secondLineage : IsLineage parent start second) : first = second := by
  induction first generalizing start second with
  | nil => exact absurd firstLineage.starts (by simp)
  | cons node rest inductionHypothesis =>
    obtain rfl : node = start := Option.some.inj firstLineage.starts
    obtain ⟨others, rfl⟩ := List.head?_eq_some_iff.mp secondLineage.starts
    cases rest with
    | nil =>
      cases others with
      | nil => rfl
      | cons next later =>
        have step := (List.isChain_cons_cons.mp secondLineage.linked).1
        exact absurd step (firstLineage.ends node rfl next)
    | cons next later =>
      obtain ⟨step, linked⟩ := List.isChain_cons_cons.mp firstLineage.linked
      cases others with
      | nil => exact absurd step (secondLineage.ends node rfl next)
      | cons other more =>
        obtain ⟨otherStep, otherLinked⟩ := List.isChain_cons_cons.mp secondLineage.linked
        obtain rfl := functional node next other step otherStep
        have tails : next :: later = next :: more :=
          inductionHypothesis
            ⟨rfl, linked, firstLineage.distinct.of_cons, fun last member =>
              firstLineage.ends last (by rwa [List.getLast?_cons_cons])⟩
            ⟨rfl, otherLinked, secondLineage.distinct.of_cons, fun last member =>
              secondLineage.ends last (by rwa [List.getLast?_cons_cons])⟩
        rw [tails]

/-- A set that contains the start and the parents of its nodes contains the lineage. -/
theorem IsLineage.subset {inside : Set Node}
    (closed : ∀ node ∈ inside, ∀ next, parent node next → next ∈ inside) {start : Node}
    (member : start ∈ inside) {trail : List Node} (lineage : IsLineage parent start trail) :
    ∀ node ∈ trail, node ∈ inside := by
  induction trail generalizing start with
  | nil => exact fun node absurdMember => absurd absurdMember List.not_mem_nil
  | cons head rest inductionHypothesis =>
    obtain rfl : head = start := Option.some.inj lineage.starts
    intro node nodeMember
    rcases List.mem_cons.mp nodeMember with same | later
    · exact same ▸ member
    · cases rest with
      | nil => exact absurd later List.not_mem_nil
      | cons next more =>
        obtain ⟨step, linked⟩ := List.isChain_cons_cons.mp lineage.linked
        exact inductionHypothesis (closed _ member next step)
          ⟨rfl, linked, lineage.distinct.of_cons, fun last lastMember =>
            lineage.ends last (by rwa [List.getLast?_cons_cons])⟩ node later

end Lineage
