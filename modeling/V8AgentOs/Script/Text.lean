import Mathlib.Data.List.DropRight
import Mathlib.Data.List.Infix
import Mathlib.Data.Nat.Notation

-- The strings of JavaScript, as far as the clients' reducers use them
namespace Script

-- A string is the list of its UTF-16 code units.
abbrev Text := List UInt16

def units (c : Char) : Text :=
  let n := c.toNat
  if n < 0x10000 then [UInt16.ofNat n]
  else [UInt16.ofNat (0xD800 + (n - 0x10000) / 0x400), UInt16.ofNat (0xDC00 + (n - 0x10000) % 0x400)]

-- A string literal of the source
def text (s : String) : Text :=
  s.toList.flatMap units

-- The white space and line terminators that `trim` removes
def isSpace (u : UInt16) : Bool :=
  let n := u.toNat
  (0x09 ≤ n && n ≤ 0x0D) || n == 0x20 || n == 0xA0 || n == 0x1680 || (0x2000 ≤ n && n ≤ 0x200A) ||
  n == 0x2028 || n == 0x2029 || n == 0x202F || n == 0x205F || n == 0x3000 || n == 0xFEFF

-- `value.trim()`
def trim (value : Text) : Text :=
  (value.dropWhile isSpace).rdropWhile isSpace

-- `haystack.indexOf(needle)`
def indexOf (needle : Text) : Text → Option ℕ
  | []       => if needle = [] then some 0 else none
  | u :: rest => if needle <+: u :: rest then some 0 else (indexOf needle rest).map (· + 1)

-- `values.find(Boolean) || ""`, which is what `a || b || …` comes to
def firstTruthy (values : List Text) : Text :=
  (values.find? (· ≠ [])).getD []

def firstNonEmptyString (values : List Text) : Text :=
  trim ((values.find? (trim · ≠ [])).getD [])

@[simp] theorem trim_nil : trim [] = [] := rfl

theorem dropWhile_trim (value : Text) : (trim value).dropWhile isSpace = trim value := by
  unfold trim
  have hd := List.dropWhile_idempotent (p := isSpace) value
  generalize value.dropWhile isSpace = start at hd
  cases start
  case nil => rfl
  case cons u rest =>
    have hu : ¬isSpace u := by simpa using List.dropWhile_eq_self_iff.mp hd (Nat.succ_pos _)
    cases ht : (u :: rest).rdropWhile isSpace
    case nil => rfl
    case cons v rest' =>
      have ⟨_, hsplit⟩ := ht ▸ List.rdropWhile_prefix isSpace (l := u :: rest)
      cases hsplit
      simp [hu]

@[simp] theorem trim_trim (value : Text) : trim (trim value) = trim value := by
  rw [trim, dropWhile_trim]
  exact List.rdropWhile_idempotent isSpace _

theorem indexOf_eq_none_iff {needle value : Text} : indexOf needle value = none ↔ ¬needle <:+: value := by
  induction value
  case nil => simp [indexOf]
  case cons u rest hi =>
    by_cases h : needle <+: u :: rest
    case pos => simp [indexOf, h, h.isInfix]
    case neg => simp [indexOf, h, hi, List.infix_cons_iff]

-- The index is that of the first occurrence.
theorem indexOf_eq_some {needle value : Text} {i : ℕ} (h : indexOf needle value = some i) :
    needle <+: value.drop i ∧ ∀ j < i, ¬needle <+: value.drop j := by
  induction value generalizing i
  case nil =>
    cases hn : needle
    case nil =>
      simp only [indexOf, hn, if_true, Option.some.injEq] at h
      simp [← h]
    case cons u rest => simp [indexOf, hn] at h
  case cons u rest hi =>
    unfold indexOf at h
    split at h
    case isTrue hp =>
      cases h
      exact ⟨hp, fun j hj => absurd hj (Nat.not_lt_zero j)⟩
    case isFalse hp =>
      obtain ⟨k, hk, hik⟩ := Option.map_eq_some_iff.mp h
      obtain ⟨hfirst, hnone⟩ := hi hk
      subst hik
      refine ⟨hfirst, ?earlier⟩
      case earlier =>
        intro j hj
        cases j
        case zero   => exact hp
        case succ j => exact hnone j (Nat.lt_of_succ_lt_succ hj)

end Script
