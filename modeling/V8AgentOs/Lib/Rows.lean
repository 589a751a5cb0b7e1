import Mathlib.Data.List.Forall2
import Mathlib.Data.List.Nodup
import Mathlib.Data.List.Sort

-- Tables to which rows are appended, and whose rows only move along a relation.
--
-- `Kept R l l'` rewrites the rows of a table in place, `Grown R l l'` may also append some.
namespace Rows

open List

variable {α : Type*} {R : α → α → Prop} {l l' l'' : List α} {a : α}

section Paired

variable {β : Type*} {P : α → β → Prop} {xs : List α} {ys : List β} {b : β}

-- The partner of a member
theorem paired_right (h : Forall₂ P xs ys) (ha : a ∈ xs) : ∃ b ∈ ys, P a b := by
  induction h
  case nil => exact absurd ha not_mem_nil
  case cons hab _ hi =>
    cases mem_cons.mp ha
    case inl he => exact ⟨_, mem_cons_self, he ▸ hab⟩
    case inr ha =>
      have ⟨b, hb, hp⟩ := hi ha
      exact ⟨b, mem_cons_of_mem _ hb, hp⟩

theorem paired_left (h : Forall₂ P xs ys) (hb : b ∈ ys) : ∃ a ∈ xs, P a b :=
  paired_right h.flip hb

end Paired

abbrev Kept (R : α → α → Prop) (l l' : List α) : Prop :=
  Forall₂ R l l'

namespace Kept

theorem refl (h : ∀ a, R a a) (l : List α) : Kept R l l :=
  forall₂_same.mpr fun a _ => h a

theorem trans (ht : ∀ a b c, R a b → R b c → R a c) (h₁ : Kept R l l') (h₂ : Kept R l' l'') :
    Kept R l l'' := by
  induction h₁ generalizing l''
  case nil => exact h₂
  case cons hab _ hi =>
    cases h₂
    case cons hbc h₂ => exact .cons (ht _ _ _ hab hbc) (hi h₂)

theorem map {f : α → α} (h : ∀ a ∈ l, R a (f a)) : Kept R l (l.map f) :=
  forall₂_map_right_iff.mpr (forall₂_same.mpr h)

theorem mem_right (h : Kept R l l') (ha : a ∈ l) : ∃ b ∈ l', R a b :=
  paired_right h ha

theorem mem_left (h : Kept R l l') (ha : a ∈ l') : ∃ b ∈ l, R b a :=
  paired_left h ha

-- A column that the moves keep.
theorem column {β : Type*} {f : α → β} (hf : ∀ a b, R a b → f b = f a) (h : Kept R l l') :
    l'.map f = l.map f := by
  induction h
  case nil           => rfl
  case cons hab _ hi => simp [hf _ _ hab, hi]

-- Any two rows keep a relation that the moves keep.
theorem pairwise {S : α → α → Prop} (hs : ∀ a b a' b', S a b → R a a' → R b b' → S a' b')
    (h : Kept R l l') (hp : l.Pairwise S) : l'.Pairwise S := by
  induction h
  case nil => exact .nil
  case cons hr h hi =>
    have ⟨ha, hp⟩ := pairwise_cons.mp hp
    refine pairwise_cons.mpr ⟨fun b hb => ?_, hi hp⟩
    have ⟨c, hc, hcb⟩ := mem_left h hb
    exact hs _ _ _ _ (ha c hc) hr hcb

-- A lookup that the moves do not affect finds the moved row.
theorem find? {p : α → Bool} (hp : ∀ a b, R a b → p b = p a) (h : Kept R l l')
    (ha : l.find? p = some a) : ∃ b, l'.find? p = some b ∧ R a b := by
  induction h
  case nil => simp at ha
  case cons hab _ hi =>
    rw [List.find?_cons] at ha ⊢
    rw [hp _ _ hab]
    split at ha
    case h_1 => exact ⟨_, rfl, Option.some.inj ha ▸ hab⟩
    case h_2 => exact hi ha

end Kept

-- A lookup finds the row that was just inserted.
theorem find?_concat {p : α → Bool} (hn : l.find? p = none) (ha : p a) : (l ++ [a]).find? p = some a := by
  simp [hn, ha]

theorem find?_none_of_any {p : α → Bool} (h : ¬l.any p) : l.find? p = none :=
  find?_eq_none.mpr fun a ha hp => h (any_eq_true.mpr ⟨a, ha, hp⟩)

-- A list without two members in any order.
theorem length_le_one (h : l.Pairwise fun _ _ => False) : l.length ≤ 1 := by
  cases h
  case nil => exact Nat.zero_le _
  case cons l h _ =>
    cases l
    case nil    => exact Nat.le_refl _
    case cons _ => exact (h _ mem_cons_self).elim

theorem length_le_one_of_eq (hn : l.Nodup) (h : ∀ a ∈ l, ∀ b ∈ l, a = b) : l.length ≤ 1 :=
  length_le_one (hn.imp_of_mem fun ha hb hne => hne (h _ ha _ hb))

-- Rewriting rows that a condition does not meet, before and after, does not change which rows meet it.
theorem filter_map_of_untouched {p : α → Bool} {f : α → α}
    (h : ∀ a ∈ l, f a = a ∨ p a = false ∧ p (f a) = false) : (l.map f).filter p = l.filter p := by
  induction l
  case nil => rfl
  case cons a l hi =>
    have hl := hi fun b hb => h b (mem_cons_of_mem _ hb)
    cases h a mem_cons_self
    case inl ha => rw [map_cons, ha, filter_cons, filter_cons, hl]
    case inr ha => simp [ha.left, ha.right, hl]

theorem filter_filter_of_untouched {p q : α → Bool} (h : ∀ a ∈ l, q a = false → p a = false) :
    (l.filter q).filter p = l.filter p := by
  rw [filter_filter]
  apply filter_congr
  intro a ha
  cases hq : q a
  case false => simp [h a ha hq]
  case true  => simp

section Keyed

-- A table with a primary key
variable {β : Type*} [DecidableEq β] {key : α → β} {b : β}

theorem find?_of_nodup (hn : (l.map key).Nodup) (ha : a ∈ l) (hb : key a = b) : l.find? (key · = b) = some a := by
  subst hb
  have hs : (l.find? (key · = key a)).isSome := List.find?_isSome.mpr ⟨a, ha, decide_eq_true rfl⟩
  have ⟨c, hc⟩ := Option.isSome_iff_exists.mp hs
  have he : key c = key a := by simpa using List.find?_some hc
  rw [hc, inj_on_of_nodup_map hn (List.mem_of_find?_eq_some hc) ha he]

-- Rewriting rows in place does not change which row a key finds.
theorem find?_map {f : α → α} (hf : ∀ a, key (f a) = key a) :
    (l.map f).find? (key · = b) = (l.find? (key · = b)).map f := by
  induction l
  case nil => rfl
  case cons a l hi =>
    by_cases hb : key a = b
    case pos => simp [hf, hb]
    case neg => simpa [hf, hb] using hi

theorem length_filter_key (hn : (l.map key).Nodup) : (l.filter (key · = b)).length ≤ 1 := by
  apply length_le_one_of_eq ((Nodup.of_map key hn).filter _)
  intro c hc d hd
  have ⟨hc, hcb⟩ := mem_filter.mp hc
  have ⟨hd, hdb⟩ := mem_filter.mp hd
  exact inj_on_of_nodup_map hn hc hd ((of_decide_eq_true hcb).trans (of_decide_eq_true hdb).symm)

end Keyed

section Oldest

-- `ORDER BY key LIMIT 1`
variable {β : Type*} [LinearOrder β] {key : α → β} {b : α}

def oldest (key : α → β) (l : List α) : Option α :=
  (l.insertionSort (key · ≤ key ·)).head?

theorem mem_oldest (h : oldest key l = some a) : a ∈ l :=
  (mem_insertionSort _).mp (mem_of_mem_head? h)

theorem oldest_le (h : oldest key l = some a) (hb : b ∈ l) : key a ≤ key b := by
  have hsorted := pairwise_insertionSort (key · ≤ key ·) l
  have hb : b ∈ l.insertionSort (key · ≤ key ·) := (mem_insertionSort _).mpr hb
  unfold oldest at h
  cases hl : l.insertionSort (key · ≤ key ·)
  case nil => rw [hl] at hb; exact absurd hb not_mem_nil
  case cons c l =>
    rw [hl] at h hb hsorted
    cases h
    cases mem_cons.mp hb
    case inl hb => rw [hb]
    case inr hb => exact (pairwise_cons.mp hsorted).left b hb

-- If there are rows, one of them is the oldest.
theorem exists_oldest (ha : a ∈ l) : ∃ b, oldest key l = some b ∧ key b ≤ key a := by
  cases h : oldest key l
  case some b => exact ⟨b, rfl, oldest_le h ha⟩
  case none =>
    have hnil : l.insertionSort (key · ≤ key ·) = [] := head?_eq_none_iff.mp h
    have ha : a ∈ l.insertionSort (key · ≤ key ·) := (mem_insertionSort _).mpr ha
    rw [hnil] at ha
    exact absurd ha not_mem_nil

end Oldest

def Grown (R : α → α → Prop) (l l' : List α) : Prop :=
  ∃ kept new, Kept R l kept ∧ l' = kept ++ new

namespace Grown

theorem of_kept (h : Kept R l l') : Grown R l l' :=
  ⟨l', [], h, (append_nil _).symm⟩

theorem refl (h : ∀ a, R a a) (l : List α) : Grown R l l :=
  .of_kept (.refl h l)

theorem trans (ht : ∀ a b c, R a b → R b c → R a c) (h₁ : Grown R l l') (h₂ : Grown R l' l'') :
    Grown R l l'' := by
  obtain ⟨kept, new, hk, rfl⟩ := h₁
  obtain ⟨kept', new', hk', rfl⟩ := h₂
  refine ⟨kept'.take kept.length, kept'.drop kept.length ++ new', hk.trans ht ?_, ?_⟩
  · simpa using forall₂_take kept.length hk'
  · rw [← append_assoc, take_append_drop]

theorem mem (h : Grown R l l') (ha : a ∈ l) : ∃ b ∈ l', R a b := by
  obtain ⟨kept, new, hk, rfl⟩ := h
  have ⟨b, hb, hr⟩ := hk.mem_right ha
  exact ⟨b, mem_append_left _ hb, hr⟩

theorem find? {p : α → Bool} (hp : ∀ a b, R a b → p b = p a) (h : Grown R l l')
    (ha : l.find? p = some a) : ∃ b, l'.find? p = some b ∧ R a b := by
  obtain ⟨kept, new, hk, rfl⟩ := h
  have ⟨b, hb, hr⟩ := hk.find? hp ha
  exact ⟨b, by rw [find?_append, hb]; rfl, hr⟩

end Grown
end Rows
