import Mathlib.Data.List.Nodup
import Mathlib.Data.List.Perm.Subperm
import Mathlib.Data.List.Range
import Mathlib.Logic.Function.Defs

-- The first of the numbered names that is not used yet. Where the names differ, there are more of them than are used.
namespace FreshName

variable {α : Type*} [DecidableEq α]

-- Tries the names from a number on. The fuel bounds the names that are left out.
def search (name : ℕ → α) (used : List α) : ℕ → ℕ → α
  | 0, n        => name n
  | fuel + 1, n => if name n ∈ used then search name used fuel (n + 1) else name n

variable {name : ℕ → α} {used : List α} {fuel n : ℕ}

theorem search_eq (name : ℕ → α) (used : List α) (fuel n : ℕ) : ∃ k, search name used fuel n = name (n + k) := by
  induction fuel generalizing n
  case zero => exact ⟨0, rfl⟩
  case succ fuel hi =>
    unfold search
    split_ifs
    case neg => exact ⟨0, rfl⟩
    case pos =>
      have ⟨k, heq⟩ := hi (n + 1)
      exact ⟨k + 1, by rw [heq, Nat.add_assoc, Nat.add_comm 1]⟩

-- When the search ends with a used name, it has left out used names only.
theorem used_of_search (h : search name used fuel n ∈ used) : ∀ k ≤ fuel, name (n + k) ∈ used := by
  induction fuel generalizing n
  case zero =>
    intro k hk
    rw [Nat.le_zero.mp hk]
    exact h
  case succ fuel hi =>
    unfold search at h
    split_ifs at h with hn
    case neg => exact absurd h hn
    case pos =>
      intro k hk
      cases k
      case zero => exact hn
      case succ k =>
        have hused := hi h k (Nat.le_of_succ_le_succ hk)
        rwa [Nat.add_assoc, Nat.add_comm 1] at hused

theorem search_fresh (hinj : Function.Injective name) (hfuel : used.length ≤ fuel) :
    search name used fuel n ∉ used := by
  intro h
  have hused := used_of_search h
  let names := (List.range (fuel + 1)).map fun k => name (n + k)
  have hnodup : names.Nodup := by
    apply List.nodup_range.map
    intro k k' heq
    exact Nat.add_left_cancel (hinj heq)
  have hsubset : names ⊆ used := by
    intro a ha
    obtain ⟨k, hk, rfl⟩ := List.mem_map.mp ha
    exact hused k (Nat.le_of_lt_succ (List.mem_range.mp hk))
  have hlength := (hnodup.subperm hsubset).length_le
  simp only [names, List.length_map, List.length_range] at hlength
  omega

end FreshName
