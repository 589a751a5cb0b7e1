import Mathlib.Data.List.Basic

-- Reading a list at an offset that moves forward, against what is left of the list.
namespace Cursor

variable {α : Type*} {data rest : List α} {offset : ℕ}

-- What is left of `data` at `offset`
structure At (data : List α) (offset : ℕ) (rest : List α) : Prop where
  le   : offset ≤ data.length
  left : data.drop offset = rest

namespace At

theorem length (a : At data offset rest) : offset + rest.length = data.length := by
  have := a.le
  rw [← a.left, List.length_drop]
  omega

theorem getElem? (a : At data offset rest) (i : ℕ) : data[offset + i]? = rest[i]? := by
  rw [← a.left, List.getElem?_drop]

theorem slice (a : At data offset rest) (n m : ℕ) :
    (data.take (offset + m)).drop (offset + n) = (rest.take m).drop n := by
  rw [← a.left, ← List.drop_drop, List.drop_take, Nat.add_sub_cancel_left]

theorem append {read : List α} (a : At data offset (read ++ rest)) :
    At data (offset + read.length) rest where
  le := by
    have := a.length
    rw [List.length_append] at this
    omega
  left := by rw [← List.drop_drop, a.left, List.drop_left]

theorem next {x : α} (a : At data offset (x :: rest)) : At data (offset + 1) rest :=
  have a : At data offset ([x] ++ rest) := a
  a.append

theorem lt_iff (a : At data offset rest) : offset < data.length ↔ rest ≠ [] := by
  rw [← a.length, ← List.length_pos_iff]
  omega

end At

end Cursor
