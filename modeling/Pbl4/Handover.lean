/-
This file is an abstract machine of exclusive resources. At any time a resource has an
owner or none, and a step may let it go or let someone take it, but never passes it from
one owner to the next directly. Along a run, then, between two different owners of a
resource there is a moment at which nobody owns it.
-/

import Mathlib.Data.List.Chain

namespace Handover

variable {Resource Owner : Type}

/-- The owner of each resource, if any. -/
abbrev Owners (Resource Owner : Type) := Resource → Option Owner

/-- One step: whoever owns a resource before and after owns it throughout. -/
def Step (before after : Owners Resource Owner) : Prop :=
  ∀ resource, ∀ owner ∈ before resource, ∀ next ∈ after resource, next = owner

/-- Along a run a resource changes owners only through a moment without one. -/
theorem exists_idle {states : List (Owners Resource Owner)} (run : states.IsChain Step)
    {start stop : Nat} (order : start ≤ stop) {first last : Owners Resource Owner}
    (starts : states[start]? = some first) (stops : states[stop]? = some last)
    {resource : Resource} {owner next : Owner} (owns : owner ∈ first resource)
    (takes : next ∈ last resource) (different : next ≠ owner) :
    ∃ between, start < between ∧ between < stop ∧
      ∃ middle, states[between]? = some middle ∧ middle resource = none := by
  induction stop, order using Nat.le_induction generalizing last next with
  | base =>
    obtain rfl := Option.some.inj (starts.symm.trans stops)
    exact absurd (Option.some.inj (takes.symm.trans owns)) different
  | succ stop order inductionHypothesis =>
    obtain ⟨bound, rfl⟩ := List.getElem?_eq_some_iff.mp stops
    have earlier : stop < states.length := Nat.lt_of_succ_lt bound
    have step := List.isChain_iff_getElem.mp run stop bound
    cases holder : states[stop] resource with
    | none =>
      refine ⟨stop, Nat.lt_of_le_of_ne order ?_, Nat.lt_succ_self stop, _,
        List.getElem?_eq_getElem earlier, holder⟩
      rintro rfl
      obtain rfl := Option.some.inj (starts.symm.trans (List.getElem?_eq_getElem earlier))
      exact absurd (holder.symm.trans owns) (by simp)
    | some last =>
      obtain rfl := step resource last holder next takes
      obtain ⟨between, after, before, idle⟩ :=
        inductionHypothesis (List.getElem?_eq_getElem earlier) holder different
      exact ⟨between, after, Nat.lt_succ_of_lt before, idle⟩

end Handover
