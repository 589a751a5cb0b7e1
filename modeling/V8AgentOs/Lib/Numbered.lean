import Mathlib.Data.Nat.Notation
import Mathlib.Logic.Basic

-- Messages that carry a key and a number, and of which each (key, number) is used for one message.
--
-- `said` is the set of messages said so far, over arbitrary types of messages and keys.
structure Labels (μ κ : Type*) where
  key : μ → κ
  num : μ → ℕ

namespace Labels

variable {μ κ : Type*} {l : Labels μ κ} {said said' : μ → Prop} {m n : μ}

-- No two different messages carry the same key and the same number.
def Agree (l : Labels μ κ) (said : μ → Prop) : Prop :=
  ∀ p q, said p → said q → l.key p = l.key q → l.num p = l.num q → p = q

-- A message may follow another one: its number is higher, or it is that message again.
def Follows (l : Labels μ κ) (m p : μ) : Prop :=
  l.key p = l.key m → l.num p ≤ l.num m ∧ (l.num p = l.num m → p = m)

-- A message may be said next.
def Next (l : Labels μ κ) (said : μ → Prop) (m : μ) : Prop :=
  ∀ p, said p → l.Follows m p

theorem Follows.refl : l.Follows m m :=
  fun _ => ⟨Nat.le_refl _, fun _ => rfl⟩

theorem Agree.mono (h : l.Agree said) (hs : ∀ p, said' p → said p) : l.Agree said' :=
  fun p q hp hq => h p q (hs p hp) (hs q hq)

theorem Agree.say (h : l.Agree said) (hm : l.Next said m) : l.Agree fun p => said p ∨ p = m := by
  rintro p q (hp | rfl) (hq | rfl) hk hn
  · exact h p q hp hq hk hn
  · exact (hm p hp hk).right hn
  · exact ((hm q hq hk.symm).right hn.symm).symm
  · rfl

namespace Next

theorem mono (h : l.Next said m) (hs : ∀ p, said' p → said p) : l.Next said' m :=
  fun p hp => h p (hs p hp)

theorem say (h : l.Next said m) (hn : l.Follows m n) : l.Next (fun p => said p ∨ p = n) m := by
  rintro p (hp | rfl)
  · exact h p hp
  · exact hn

theorem advance (h : l.Next said m) (hk : l.key n = l.key m) (hn : l.num m < l.num n) :
    l.Next said n := by
  intro p hp hkey
  have hle := (h p hp (hkey.trans hk)).left
  exact ⟨Nat.le_of_lt (Nat.lt_of_le_of_lt hle hn), fun heq => absurd heq (by omega)⟩

theorem of_fresh (h : ∀ p, said p → l.key p ≠ l.key m) : l.Next said m :=
  fun p hp hk => absurd hk (h p hp)

end Next
end Labels
