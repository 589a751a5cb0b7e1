import Mathlib.Data.Set.Insert
import Mathlib.Order.Defs.LinearOrder

-- The views of a log whose last entries can be taken away and put back. An entry has a position, and the entries below
-- it are what it was written after. Entries that are gone never come back.
namespace Timeline

variable {α ι : Type*} [LinearOrder ι] (pos : α → ι)

-- Below an entry that both have, the second view has what the first one has.
def Agrees (gone S T : Set α) : Prop :=
  ∀ z ∈ S, z ∈ T → ∀ x ∈ S, pos x < pos z → x ∉ gone → x ∈ T

-- Any two views of a history
def Coherent (gone : Set α) (H : Set (Set α)) : Prop :=
  ∀ S ∈ H, ∀ T ∈ H, Agrees pos gone S T

variable {pos} {gone gone' S T T' D : Set α} {H : Set (Set α)} {a m : α}

theorem Agrees.refl : Agrees pos gone S S :=
  fun _ _ _ _ hx _ _ => hx

theorem Coherent.mono (h : Coherent pos gone H) (hg : gone ⊆ gone') : Coherent pos gone' H :=
  fun S hS T hT z hz hz' x hx hlt hxg => h S hS T hT z hz hz' x hx hlt fun hxg' => hxg (hg hxg')

-- A new view agrees with the history if it agrees with each of the views before.
theorem Coherent.insert (h : Coherent pos gone H) (h₁ : ∀ S ∈ H, Agrees pos gone S T)
    (h₂ : ∀ S ∈ H, Agrees pos gone T S) : Coherent pos gone (insert T H) := by
  intro A hA B hB
  cases Set.mem_insert_iff.mp hA
  case inl hA =>
    subst hA
    cases Set.mem_insert_iff.mp hB
    case inl hB => exact hB ▸ .refl
    case inr hB => exact h₂ B hB
  case inr hA =>
    cases Set.mem_insert_iff.mp hB
    case inl hB => exact hB ▸ h₁ A hA
    case inr hB => exact h A hA B hB

-- Entries are taken away: those that are gone, and all the ones above some position.
theorem Coherent.shrink (h : Coherent pos gone H) (hT : T ∈ H) (hsub : T' ⊆ T)
    (hlower : ∀ z ∈ T', ∀ x ∈ T, pos x < pos z → x ∉ gone → x ∈ T') : Coherent pos gone (Insert.insert T' H) := by
  apply h.insert
  case h₁ =>
    intro S hS z hz hz' x hx hlt hxg
    exact hlower z hz' x (h S hS T hT z hz (hsub hz') x hx hlt hxg) hlt hxg
  case h₂ =>
    intro S hS z hz hz' x hx hlt hxg
    exact h T hT S hS z (hsub hz) hz' x (hsub hx) hlt hxg

-- A new entry is written after all that the view has.
theorem Coherent.append (h : Coherent pos gone H) (hT : T ∈ H) (hnew : ∀ S ∈ H, m ∉ S)
    (hlast : ∀ x ∈ T, pos x < pos m) : Coherent pos gone (Insert.insert (Insert.insert m T) H) := by
  apply h.insert
  case h₁ =>
    intro S hS z hz hz' x hx hlt hxg
    have hzT : z ∈ T := (Set.mem_insert_iff.mp hz').resolve_left fun he => hnew S hS (he ▸ hz)
    exact Set.mem_insert_of_mem m (h S hS T hT z hz hzT x hx hlt hxg)
  case h₂ =>
    intro S hS z hz hz' x hx hlt hxg
    have hzT : z ∈ T := (Set.mem_insert_iff.mp hz).resolve_left fun he => hnew S hS (he ▸ hz')
    cases Set.mem_insert_iff.mp hx
    case inl he => exact absurd (hlast z hzT) (he ▸ hlt).asymm
    case inr hx => exact h T hT S hS z hzT hz' x hx hlt hxg

-- What was above an entry in an old view is put back above it.
structure Restores (pos : α → ι) (gone D T T' : Set α) (a : α) : Prop where
  anchored : a ∈ D ∧ a ∈ T
  top      : ∀ x ∈ T, pos x ≤ pos a
  alone    : ∀ x ∈ D ∪ T, pos x = pos a → x = a
  kept     : T ⊆ T'
  revived  : ∀ x ∈ T', x ∉ T → x ∈ D ∧ pos a < pos x
  whole    : ∀ x ∈ D, pos a < pos x → x ∉ gone → x ∈ T'
  present  : ∀ x ∈ T', x ∉ gone

namespace Restores

variable {x z : α}

theorem mem_of_le (hr : Restores pos gone D T T' a) (hx : x ∈ T') (hle : pos x ≤ pos a) : x ∈ T := by
  by_contra hn
  exact absurd (hr.revived x hx hn).right (not_lt.mpr hle)

-- The view after a restoration was a part of the old one.
theorem subset (hr : Restores pos gone D T T' a) (h : Coherent pos gone H) (hD : D ∈ H) (hT : T ∈ H) : T' ⊆ D := by
  intro x hx
  rcases lt_trichotomy (pos x) (pos a) with hlt | heq | hgt
  case inl =>
    exact h T hT D hD a hr.anchored.right hr.anchored.left x (hr.mem_of_le hx hlt.le) hlt (hr.present x hx)
  case inr.inl =>
    exact hr.alone x (.inr (hr.mem_of_le hx heq.le)) heq ▸ hr.anchored.left
  case inr.inr =>
    exact (hr.revived x hx fun hxT => absurd (hr.top x hxT) (not_le.mpr hgt)).left

-- And all of the old one, as far as it is not gone.
theorem superset (hr : Restores pos gone D T T' a) (h : Coherent pos gone H) (hD : D ∈ H) (hT : T ∈ H) (hx : x ∈ D)
    (hxg : x ∉ gone) : x ∈ T' := by
  rcases lt_trichotomy (pos x) (pos a) with hlt | heq | hgt
  case inl    => exact hr.kept (h D hD T hT a hr.anchored.left hr.anchored.right x hx hlt hxg)
  case inr.inl => exact hr.kept (hr.alone x (.inl hx) heq ▸ hr.anchored.right)
  case inr.inr => exact hr.whole x hx hgt hxg

end Restores

theorem Coherent.restore (h : Coherent pos gone H) (hD : D ∈ H) (hT : T ∈ H) (hr : Restores pos gone D T T' a) :
    Coherent pos gone (Insert.insert T' H) := by
  apply h.insert
  case h₁ =>
    intro S hS z hz hz' x hx hlt hxg
    exact hr.superset h hD hT (h S hS D hD z hz (hr.subset h hD hT hz') x hx hlt hxg) hxg
  case h₂ =>
    intro S hS z hz hz' x hx hlt hxg
    exact h D hD S hS z (hr.subset h hD hT hz) hz' x (hr.subset h hD hT hx) hlt hxg

end Timeline
