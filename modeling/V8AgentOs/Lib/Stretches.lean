import Mathlib.Data.List.Basic
import Mathlib.Data.Nat.Notation

-- Stretches of a text, each from a start to an end, of which the leftmost and longest ones are chosen.
namespace Stretches

-- Of some stretches, one is chosen unless it begins inside a chosen one that begins earlier, or a longer one begins
-- with it.
def Chosen (all : ℕ → ℕ → Prop) (start stop : ℕ) : Prop :=
  all start stop ∧ (∀ stop', all start stop' → stop' ≤ stop) ∧
    ∀ start' stop', start' < start → Chosen all start' stop' → stop' ≤ start
  termination_by start

-- A choice of stretches, as it is recognised
structure Choice (all chosen : ℕ → ℕ → Prop) : Prop where
  sound    : ∀ {p e}, chosen p e → all p e
  longest  : ∀ {p e e'}, chosen p e → all p e' → e' ≤ e
  disjoint : ∀ {p e p' e'}, chosen p e → chosen p' e' → p < p' → e ≤ p'
  covers   : ∀ {p e}, all p e → ∃ p' e', chosen p' e' ∧ p' ≤ p ∧ p < e'

-- Takes each stretch that does not begin before the end of the one taken last.
def select {α : Type*} (start stop : α → ℕ) (cursor : ℕ) : List α → List α
  | []      => []
  | m :: ms => if start m < cursor then select start stop cursor ms else m :: select start stop (stop m) ms

variable {all chosen : ℕ → ℕ → Prop} {p e : ℕ}

theorem Chosen.sound (h : Chosen all p e) : all p e := by
  unfold Chosen at h
  exact h.left

theorem Chosen.longest {e' : ℕ} (h : Chosen all p e) (h' : all p e') : e' ≤ e := by
  unfold Chosen at h
  exact h.right.left e' h'

-- There is but one choice.
theorem Choice.iff (h : Choice all chosen) : chosen p e ↔ Chosen all p e := by
  induction p using Nat.strongRecOn generalizing e
  case ind p hi =>
    constructor
    case mp =>
      intro hc
      unfold Chosen
      refine ⟨h.sound hc, fun _ => h.longest hc, ?disjoint⟩
      case disjoint =>
        intro p' e' hlt hc'
        exact h.disjoint ((hi p' hlt).mpr hc') hc hlt
    case mpr =>
      intro hc
      obtain ⟨p', e', hc', hle, hlt⟩ := h.covers hc.sound
      cases Nat.lt_or_eq_of_le hle
      case inl hp =>
        unfold Chosen at hc
        have hend := hc.right.right p' e' hp ((hi p' hp).mp hc')
        omega
      case inr hp =>
        subst hp
        have he : e = e' := Nat.le_antisymm (h.longest hc' hc.sound) (hc.longest (h.sound hc'))
        exact he ▸ hc'

variable {α : Type*} {start stop : α → ℕ} {cursor : ℕ} {m m' : α} {ms : List α}

-- The order in which the stretches are taken: by their starts, and the longer ones first
def Before (start stop : α → ℕ) (m m' : α) : Prop :=
  start m < start m' ∨ (start m = start m' ∧ stop m' ≤ stop m)

theorem select_sublist : (select start stop cursor ms).Sublist ms := by
  induction ms generalizing cursor
  case nil => exact List.Sublist.refl _
  case cons m ms hi =>
    unfold select
    split
    case isTrue  => exact hi.cons m
    case isFalse => exact hi.cons_cons m

theorem cursor_le_of_mem_select (hs : ms.Pairwise (Before start stop)) (hm : m ∈ select start stop cursor ms) :
    cursor ≤ start m := by
  induction ms generalizing cursor
  case nil => cases hm
  case cons m' ms hi =>
    obtain ⟨hfirst, hrest⟩ := List.pairwise_cons.mp hs
    unfold select at hm
    split at hm
    case isTrue => exact hi hrest hm
    case isFalse hle =>
      have hle := Nat.not_lt.mp hle
      cases List.mem_cons.mp hm
      case inl heq => exact heq ▸ hle
      case inr hm =>
        cases hfirst m (select_sublist.subset hm)
        case inl hlt => exact Nat.le_of_lt (Nat.lt_of_le_of_lt hle hlt)
        case inr heq => exact heq.left ▸ hle

theorem select_disjoint (hs : ms.Pairwise (Before start stop)) :
    (select start stop cursor ms).Pairwise fun m m' => stop m ≤ start m' := by
  induction ms generalizing cursor
  case nil => exact .nil
  case cons m ms hi =>
    have hrest := (List.pairwise_cons.mp hs).right
    unfold select
    split
    case isTrue  => exact hi hrest
    case isFalse => exact List.pairwise_cons.mpr ⟨fun _ hm => cursor_le_of_mem_select hrest hm, hi hrest⟩

-- What is not taken begins inside a stretch that was taken before it.
theorem select_covers (hs : ms.Pairwise (Before start stop)) (hlt : ∀ m ∈ ms, start m < stop m) (hm : m ∈ ms)
    (hc : cursor ≤ start m) :
    ∃ m' ∈ select start stop cursor ms, start m' ≤ start m ∧ start m < stop m' ∧ (m' = m ∨ Before start stop m' m) := by
  induction ms generalizing cursor
  case nil => cases hm
  case cons m' ms hi =>
    obtain ⟨hfirst, hrest⟩ := List.pairwise_cons.mp hs
    have hlt' := fun m hm => hlt m (List.mem_cons_of_mem m' hm)
    unfold select
    split
    case isTrue hskip =>
      cases List.mem_cons.mp hm
      case inl heq => exact absurd (heq ▸ hskip) (Nat.not_lt.mpr hc)
      case inr hm  => exact hi hrest hlt' hm hc
    case isFalse =>
      cases List.mem_cons.mp hm
      case inl heq =>
        exact ⟨m', List.mem_cons_self, heq ▸ Nat.le_refl _, heq ▸ hlt m hm, .inl heq.symm⟩
      case inr hm =>
        have hbefore := hfirst m hm
        cases Nat.lt_or_ge (start m) (stop m')
        case inl hinside =>
          have hle : start m' ≤ start m := by
            cases hbefore
            case inl h => exact Nat.le_of_lt h
            case inr h => exact Nat.le_of_eq h.left
          exact ⟨m', List.mem_cons_self, hle, hinside, .inr hbefore⟩
        case inr hbehind =>
          obtain ⟨k, hk, h⟩ := hi hrest hlt' hm hbehind
          exact ⟨k, List.mem_cons_of_mem m' hk, h⟩

-- Two stretches that are taken are the same or apart.
theorem select_apart (hs : ms.Pairwise (Before start stop)) (hm : m ∈ select start stop cursor ms)
    (hm' : m' ∈ select start stop cursor ms) : m = m' ∨ stop m ≤ start m' ∨ stop m' ≤ start m := by
  have hdisjoint := @select_disjoint _ start stop cursor ms hs
  have hpairs : (select start stop cursor ms).Pairwise fun m m' =>
      m = m' ∨ stop m ≤ start m' ∨ stop m' ≤ start m := hdisjoint.imp fun h => .inr (.inl h)
  have hflip : (select start stop cursor ms).Pairwise (flip fun m m' =>
      m = m' ∨ stop m ≤ start m' ∨ stop m' ≤ start m) := hdisjoint.imp fun h => .inr (.inr h)
  exact List.Pairwise.forall_of_forall_of_flip (fun _ _ => .inl rfl) hpairs hflip hm hm'

-- What is taken is the choice.
theorem select_choice (hs : ms.Pairwise (Before start stop)) (hlt : ∀ m ∈ ms, start m < stop m) :
    Choice (fun p e => ∃ m ∈ ms, start m = p ∧ stop m = e)
      (fun p e => ∃ m ∈ select start stop 0 ms, start m = p ∧ stop m = e) where
  sound := fun ⟨m, hm, h⟩ => ⟨m, select_sublist.subset hm, h⟩
  longest := by
    intro p e e' hm hm'
    obtain ⟨m, hm, hp, he⟩ := hm
    obtain ⟨m', hm', hp', he'⟩ := hm'
    obtain ⟨k, hk, hle, hinside, hbefore⟩ := select_covers hs hlt hm' (Nat.zero_le _)
    have hpos := hlt m (select_sublist.subset hm)
    have hapart := select_apart hs hm hk
    unfold Before at hbefore
    grind
  disjoint := by
    intro p e p' e' hm hm' hlt'
    obtain ⟨m, hm, hp, he⟩ := hm
    obtain ⟨m', hm', hp', he'⟩ := hm'
    have hpos := hlt m (select_sublist.subset hm)
    have hpos' := hlt m' (select_sublist.subset hm')
    have hapart := select_apart hs hm hm'
    grind
  covers := by
    intro p e hm
    obtain ⟨m, hm, hp, he⟩ := hm
    obtain ⟨m', hm', hle, hlt', _⟩ := select_covers hs hlt hm (Nat.zero_le _)
    exact ⟨start m', stop m', ⟨m', hm', rfl, rfl⟩, hp ▸ hle, hp ▸ hlt'⟩

end Stretches
