import Mathlib.Data.List.Nodup
import Mathlib.Data.List.Perm.Subperm
import Mathlib.Data.Nat.Notation

-- Elements that need others are taken one by one: an element becomes ready when all that it needs have been taken.
namespace Peeling

variable {α : Type*}

structure Peeled (all : List α) (needs : α → α → Prop) (taken ready : List α) : Prop where
  nodup   : (taken ++ ready).Nodup
  mem     : ∀ a, a ∈ taken ++ ready ↔ a ∈ all ∧ ∀ b, needs a b → b ∈ taken
  ordered : ∀ front a back, taken = front ++ a :: back → ∀ b, needs a b → b ∈ front

variable {all taken ready new : List α} {needs : α → α → Prop} {a b : α}

theorem Peeled.start (hnodup : ready.Nodup) (hready : ∀ a, a ∈ ready ↔ a ∈ all ∧ ∀ b, ¬needs a b) :
    Peeled all needs [] ready where
  nodup := hnodup
  mem a := by simpa using hready a
  ordered front a back h := by simp at h

theorem ordered_concat (h : ∀ front c back, taken = front ++ c :: back → ∀ b, needs c b → b ∈ front)
    (ha : ∀ b, needs a b → b ∈ taken) :
    ∀ front c back, taken ++ [a] = front ++ c :: back → ∀ b, needs c b → b ∈ front := by
  intro front c back hsplit b hb
  cases List.eq_nil_or_concat back
  case inl hnil =>
    subst hnil
    obtain ⟨hfront, hc⟩ := List.append_inj' hsplit rfl
    cases hc
    exact hfront ▸ ha b hb
  case inr hback =>
    obtain ⟨middle, last, hback⟩ := hback
    rw [hback, List.concat_eq_append, ← List.cons_append, ← List.append_assoc] at hsplit
    exact h front c middle (List.append_inj' hsplit rfl).left b hb

-- The first one that is ready is taken, and others become ready with it.
theorem Peeled.step (h : Peeled all needs taken (a :: ready)) (hnodup : new.Nodup)
    (hnew : ∀ b, b ∈ new ↔ b ∈ all ∧ needs b a ∧ ∀ c, needs b c → c ∈ taken ++ [a]) :
    Peeled all needs (taken ++ [a]) (ready ++ new) := by
  have hsame : taken ++ [a] ++ (ready ++ new) = taken ++ a :: ready ++ new := by simp
  have ha : a ∈ all ∧ ∀ b, needs a b → b ∈ taken := (h.mem a).mp (by simp)
  have hfresh : a ∉ taken := by
    intro hmem
    exact (List.nodup_append.mp h.nodup).right.right a hmem a List.mem_cons_self rfl
  refine ⟨?nodup, ?mem, ordered_concat h.ordered ha.right⟩
  case nodup =>
    rw [hsame]
    apply List.nodup_append.mpr ⟨h.nodup, hnodup, ?_⟩
    intro b hb c hc heq
    subst heq
    exact hfresh (((h.mem b).mp hb).right a ((hnew b).mp hc).right.left)
  case mem =>
    intro b
    rw [hsame, List.mem_append, h.mem, hnew]
    constructor
    case mp =>
      intro hb
      cases hb
      case inl hb => exact ⟨hb.left, fun c hc => List.mem_append_left _ (hb.right c hc)⟩
      case inr hb => exact ⟨hb.left, hb.right.right⟩
    case mpr =>
      rintro ⟨hall, hneeds⟩
      by_cases hba : needs b a
      case pos => exact .inr ⟨hall, hba, hneeds⟩
      case neg =>
        refine .inl ⟨hall, fun c hc => ?_⟩
        cases List.mem_append.mp (hneeds c hc)
        case inl hmem => exact hmem
        case inr hmem => exact absurd (List.mem_singleton.mp hmem ▸ hc) hba

theorem Peeled.subset (h : Peeled all needs taken ready) : taken ++ ready ⊆ all :=
  fun a ha => ((h.mem a).mp ha).left

theorem Peeled.length_le (h : Peeled all needs taken ready) : taken.length + ready.length ≤ all.length := by
  rw [← List.length_append]
  exact (List.subperm_of_subset h.nodup h.subset).length_le

-- Where the needs go down, all are taken.
theorem Peeled.complete (h : Peeled all needs taken []) (rank : α → ℕ)
    (hrank : ∀ a ∈ all, ∀ b, needs a b → b ∈ all ∧ rank b < rank a) : ∀ a ∈ all, a ∈ taken := by
  intro a ha
  induction hr : rank a using Nat.strongRecOn generalizing a
  case ind n hi =>
    rw [← List.append_nil taken]
    apply (h.mem a).mpr ⟨ha, ?_⟩
    intro b hb
    obtain ⟨hall, hlt⟩ := hrank a ha b hb
    exact hi (rank b) (hr ▸ hlt) b hall rfl

-- Where all are taken, the needs go down.
theorem Peeled.rank [BEq α] [LawfulBEq α] (h : Peeled all needs taken []) (hlength : taken.length = all.length) :
    ∀ a ∈ all, ∀ b, needs a b → taken.idxOf b < taken.idxOf a := by
  have hnodup : taken.Nodup := by simpa using h.nodup
  have hsubset : taken ⊆ all := by simpa using h.subset
  have hperm : taken.Perm all := (List.subperm_of_subset hnodup hsubset).perm_of_length_le (Nat.le_of_eq hlength.symm)
  intro a ha b hb
  obtain ⟨front, back, hsplit⟩ := List.append_of_mem (hperm.mem_iff.mpr ha)
  have hfront := h.ordered front a back hsplit b hb
  have hfresh : a ∉ front := by
    intro hmem
    rw [hsplit] at hnodup
    exact (List.nodup_append.mp hnodup).right.right a hmem a List.mem_cons_self rfl
  rw [hsplit, List.idxOf_append_of_mem hfront, List.idxOf_append_of_notMem hfresh]
  have := List.idxOf_lt_length_of_mem hfront
  omega

end Peeling
