import Mathlib.Data.List.Count

-- The elements of a list with the number of their occurrence, which is how often they have been there before
namespace Numbering

variable {β : Type*} [BEq β]

def occurrences (seen : List β) : List β → List (β × ℕ)
  | []      => []
  | b :: bs => (b, seen.count b) :: occurrences (seen ++ [b]) bs

variable [LawfulBEq β] {seen bs : List β} {b c : β} {k : ℕ}

theorem mem_occurrences : (b, k) ∈ occurrences seen bs ↔ seen.count b ≤ k ∧ k < (seen ++ bs).count b := by
  induction bs generalizing seen
  case nil =>
    rw [List.append_nil]
    constructor
    · intro h
      cases h
    · omega
  case cons c bs hi =>
    rw [occurrences, List.mem_cons, hi, List.append_assoc, List.singleton_append, List.count_append, List.count_append,
      List.count_singleton, List.count_cons, Prod.mk.injEq]
    by_cases hc : c = b
    case pos =>
      subst hc
      simp only [beq_self_eq_true, if_true, true_and]
      omega
    case neg => simp [hc, Ne.symm hc]

theorem nodup_occurrences : (occurrences seen bs).Nodup := by
  induction bs generalizing seen
  case nil => exact List.nodup_nil
  case cons c bs hi =>
    apply List.nodup_cons.mpr ⟨?_, hi⟩
    intro hc
    have := (mem_occurrences.mp hc).left
    rw [List.count_append, List.count_singleton_self] at this
    omega

theorem mem_occurrences_nil : (b, k) ∈ occurrences [] bs ↔ k < bs.count b := by
  simp [mem_occurrences]

end Numbering
