import Mathlib.Data.List.Basic
import Mathlib.Data.Nat.Notation
import Mathlib.Logic.Relation
import Mathlib.Order.Basic

-- Steps that go up, in a list of places.
namespace Ascent

open Relation (ReflTransGen)

variable {α β : Type*} [Preorder β] {r : α → α → Prop} {inside : α → Prop} {rank : α → β} {all : List α}

-- Where every place inside has a step that goes up, a path of such steps leads out.
theorem exists_exit (hstep : ∀ a ∈ all, inside a → ∃ b ∈ all, r a b ∧ rank a < rank b) :
    ∀ a ∈ all, ∃ b ∈ all, ReflTransGen r a b ∧ ¬inside b := by
  classical
  intro a ha
  induction hn : (all.filter fun b => rank a < rank b).length using Nat.strongRecOn generalizing a
  case ind n hi =>
    by_cases hinside : inside a
    case neg => exact ⟨a, ha, .refl, hinside⟩
    case pos =>
      obtain ⟨b, hb, hab, hlt⟩ := hstep a ha hinside
      -- There is less above the place that the step leads to.
      have hless : (all.filter fun c => rank b < rank c).length < n := by
        have hfilter : (all.filter fun c => rank b < rank c) =
            (all.filter fun c => rank a < rank c).filter fun c => rank b < rank c := by
          rw [List.filter_filter]
          apply List.filter_congr
          intro c _
          simpa using fun h => lt_trans hlt h
        rw [← hn, hfilter]
        apply List.length_filter_lt_length_iff_exists.mpr
        exact ⟨b, List.mem_filter.mpr ⟨hb, decide_eq_true hlt⟩, by simp⟩
      obtain ⟨c, hc, hbc, hout⟩ := hi _ hless b hb rfl
      exact ⟨c, hc, hbc.head hab, hout⟩

end Ascent
