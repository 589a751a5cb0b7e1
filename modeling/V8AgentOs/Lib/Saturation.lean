import Mathlib.Data.Finset.Card
import Mathlib.Logic.Relation

-- A set that grows by rounds. In each round, every element that was there at its start adds some others. The growth
-- ends with the first round that adds nothing.
namespace Saturation

variable {α : Type*} [DecidableEq α] (order : Finset α → List α) (next : α → List α)

-- The elements of a set are taken in some order.
def Lists : Prop :=
  ∀ s a, a ∈ order s ↔ a ∈ s

def round (s : Finset α) : Finset α :=
  (order s).foldl (fun s a => (next a).foldl (fun s b => insert b s) s) s

-- `none` tells that the fuel was too little.
def saturate : ℕ → Finset α → Option (Finset α)
  | 0, _        => none
  | fuel + 1, s => if round order next s = s then some s else saturate fuel (round order next s)

-- What can be reached from some elements
def Reached (s : Finset α) (b : α) : Prop :=
  ∃ a ∈ s, Relation.ReflTransGen (fun a b => b ∈ next a) a b

variable {order next} {s t bound : Finset α} {a b : α} {n : ℕ}

theorem mem_foldl_insert {l : List α} : b ∈ l.foldl (fun s b => insert b s) s ↔ b ∈ s ∨ b ∈ l := by
  induction l generalizing s
  case nil => simp
  case cons a l hi => simp [hi, or_assoc, or_left_comm]

theorem mem_round (h : Lists order) : b ∈ round order next s ↔ b ∈ s ∨ ∃ a ∈ s, b ∈ next a := by
  have hfold : ∀ (l : List α) (s : Finset α),
      b ∈ l.foldl (fun s a => (next a).foldl (fun s b => insert b s) s) s ↔ b ∈ s ∨ ∃ a ∈ l, b ∈ next a := by
    intro l
    induction l
    case nil => simp
    case cons a l hi =>
      intro s
      simp [hi, mem_foldl_insert, or_assoc]
  simp only [round, hfold, h s]

theorem subset_round (h : Lists order) : s ⊆ round order next s :=
  fun _ hb => (mem_round h).mpr (.inl hb)

-- The elements of a round are reached from those before it, and nothing more is reached from them.
theorem reached_round (h : Lists order) : Reached next (round order next s) b ↔ Reached next s b := by
  constructor
  case mp =>
    intro ⟨a, ha, hab⟩
    cases (mem_round h).mp ha
    case inl ha => exact ⟨a, ha, hab⟩
    case inr ha =>
      obtain ⟨c, hc, hca⟩ := ha
      exact ⟨c, hc, .head hca hab⟩
  case mpr =>
    intro ⟨a, ha, hab⟩
    exact ⟨a, subset_round h ha, hab⟩

-- A set that a round does not change holds all that is reached from it.
theorem reached_of_round_eq (h : Lists order) (hs : round order next s = s) : Reached next s b ↔ b ∈ s := by
  constructor
  case mpr => exact fun hb => ⟨b, hb, .refl⟩
  case mp =>
    intro ⟨a, ha, hab⟩
    induction hab
    case refl => exact ha
    case tail c d _ hcd hc => exact hs ▸ (mem_round h).mpr (.inr ⟨c, hc, hcd⟩)

theorem mem_saturate (h : Lists order) (hs : saturate order next n s = some t) : b ∈ t ↔ Reached next s b := by
  induction n generalizing s
  case zero => cases hs
  case succ n hi =>
    rw [saturate] at hs
    split at hs
    case isTrue heq =>
      cases hs
      exact (reached_of_round_eq h heq).symm
    case isFalse => rw [hi hs, reached_round h]

-- Within a set that nothing leads out of, the growth ends.
theorem saturate_isSome (h : Lists order) (hs : s ⊆ bound) (hu : ∀ a ∈ bound, ∀ b ∈ next a, b ∈ bound)
    (hn : bound.card < n + s.card) : (saturate order next n s).isSome := by
  induction n generalizing s
  case zero =>
    have hcard := Finset.card_le_card hs
    omega
  case succ n hi =>
    rw [saturate]
    split
    case isTrue => rfl
    case isFalse hne =>
      have hround : round order next s ⊆ bound := by
        intro b hb
        cases (mem_round h).mp hb
        case inl hb => exact hs hb
        case inr hb =>
          obtain ⟨a, ha, hab⟩ := hb
          exact hu a (hs ha) b hab
      have hlt : s.card < (round order next s).card :=
        Finset.card_lt_card ((subset_round h).ssubset_of_ne fun heq => hne heq.symm)
      exact hi hround (by omega)

end Saturation
