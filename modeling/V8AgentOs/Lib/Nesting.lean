import Mathlib.Data.List.Basic
import Mathlib.Data.Nat.Notation

-- Scanners that count how deep brackets nest, and give up beyond a limit.
--
-- A scanner reads symbols one by one. `place d` is its state at depth `d` outside of any literal; a
-- text nests `n` deep when the scanner comes back to the depth where it began, as long as `n`
-- levels more are within the limit.
namespace Nesting

variable {σ β : Type*} (step : σ → β → Option σ) (place : ℕ → σ) (limit : ℕ)

def Nests (n : ℕ) (text : List β) : Prop :=
  ∀ d ≤ limit, text.foldlM step (place d) = if d + n ≤ limit then some (place d) else none

variable {step place limit} {n m : ℕ} {text rest : List β} {b : β}

namespace Nests

theorem nil : Nests step place limit 0 [] := by
  intro d hd
  simp [hd]

theorem append (h₁ : Nests step place limit n text) (h₂ : Nests step place limit m rest) :
    Nests step place limit (max n m) (text ++ rest) := by
  intro d hd
  rw [List.foldlM_append, h₁ d hd]
  by_cases hn : d + n ≤ limit
  case pos =>
    simp only [hn, if_true, Option.bind_eq_bind, Option.bind_some]
    rw [h₂ d hd]
    congr 1
    exact propext (by omega)
  case neg =>
    have : ¬d + max n m ≤ limit := by omega
    simp [hn, this]

theorem congr (h : Nests step place limit n text) (he : n = m) : Nests step place limit m text :=
  he ▸ h

-- Symbols that the scanner passes over.
theorem inert (h : ∀ b ∈ text, ∀ d, step (place d) b = some (place d)) : Nests step place limit 0 text := by
  induction text
  case nil => exact nil
  case cons b text hi =>
    intro d hd
    rw [List.foldlM_cons, h b List.mem_cons_self d]
    exact hi (fun b hb => h b (List.mem_cons_of_mem _ hb)) d hd

-- A pair of brackets around a text.
theorem wrap {opening closing : β}
    (ho : ∀ d, step (place d) opening = if d < limit then some (place (d + 1)) else none)
    (hc : ∀ d, step (place (d + 1)) closing = some (place d)) (h : Nests step place limit n text) :
    Nests step place limit (n + 1) (opening :: text ++ [closing]) := by
  intro d hd
  rw [List.cons_append, List.foldlM_cons, ho]
  by_cases hl : d < limit
  case pos =>
    simp only [hl, if_true, Option.bind_eq_bind, Option.bind_some]
    rw [List.foldlM_append, h (d + 1) hl]
    have : d + 1 + n ≤ limit ↔ d + (n + 1) ≤ limit := by omega
    by_cases hn : d + (n + 1) ≤ limit <;> simp [this, hn, hc]
  case neg =>
    have : ¬d + (n + 1) ≤ limit := by omega
    simp [hl, this]

end Nests
end Nesting
