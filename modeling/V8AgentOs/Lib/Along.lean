import Mathlib.Data.List.DropRight
import Mathlib.Data.List.Induction

-- Lists each of whose members satisfies a condition together with the members before it.
inductive Along {α : Type*} (P : List α → α → Prop) : List α → Prop
  | nil : Along P []
  | snoc {l : List α} {a : α} : Along P l → P l a → Along P (l ++ [a])

namespace Along

variable {α : Type*} {P Q : List α → α → Prop} {l l' : List α} {a : α}

theorem snoc_iff : Along P (l ++ [a]) ↔ Along P l ∧ P l a := by
  constructor
  case mp =>
    intro h
    generalize hk : l ++ [a] = k at h
    cases h
    case nil => simp at hk
    case snoc hl ha =>
      have ⟨hl', ha'⟩ := List.append_inj' hk rfl
      cases hl'
      cases ha'
      exact ⟨hl, ha⟩
  case mpr => exact fun h => .snoc h.1 h.2

theorem of_append (h : Along P (l ++ l')) : Along P l := by
  induction l' using List.reverseRecOn
  case nil => simpa using h
  case append_singleton l' a hi =>
    rw [← List.append_assoc] at h
    exact hi (snoc_iff.mp h).1

theorem start (h : Along P l) (hp : l' <+: l) : Along P l' := by
  have ⟨rest, hr⟩ := hp
  rw [← hr] at h
  exact h.of_append

-- A condition that a property of every start of the list implies.
theorem of_starts {I : List α → Prop} (h : Along P l) (hI : ∀ l' : List α, l' <+: l → I l')
    (step : ∀ l a, Along P l → P l a → I l → I (l ++ [a]) → Q l a) : Along Q l := by
  induction h
  case nil => exact .nil
  case snoc l a hl ha hi =>
    have hs : l <+: l ++ [a] := List.prefix_append l [a]
    apply Along.snoc
    case a => exact hi fun l' hp => hI l' (hp.trans hs)
    case a => exact step l a hl ha (hI l hs) (hI _ (List.prefix_refl _))

end Along
