import Mathlib.Data.List.Basic

-- Regular expressions as Python's `re` reads them, as backtracking matchers: a matcher maps a text
-- to the remainders that its possible matches at the start of the text leave.
namespace Python

abbrev Re := List Char → List (List Char)

namespace Re

def lit (s : List Char) : Re :=
  fun text => if s <+: text then [text.drop s.length] else []

def seq (a b : Re) : Re :=
  fun text => (a text).flatMap b

def alt (a b : Re) : Re :=
  fun text => a text ++ b text

def opt (a : Re) : Re :=
  fun text => a text ++ [text]

-- `[..]{lo,hi}`
def chars (p : Char → Bool) (lo hi : ℕ) : Re :=
  fun text => (List.range (hi + 1)).filterMap fun n =>
    if lo ≤ n ∧ n ≤ text.length ∧ (text.take n).all p then some (text.drop n) else none

-- `[..]+`
def many1 (p : Char → Bool) : Re :=
  fun text => chars p 1 text.length text

-- `(..)*`, for a group that never matches the empty text.
def star (a : Re) : Re :=
  fun text => go text.length text
where
  go : ℕ → Re
    | 0     => fun text => [text]
    | n + 1 => fun text => (a text).flatMap (go n) ++ [text]

-- `re.match`
def isMatch (a : Re) (text : List Char) : Bool :=
  !(a text).isEmpty

-- `re.fullmatch`
def isFullMatch (a : Re) (text : List Char) : Bool :=
  (a text).any (·.isEmpty)

variable {a b : Re} {p : Char → Bool} {lo hi : ℕ} {s text rest : List Char}

@[simp]
theorem mem_lit : rest ∈ lit s text ↔ text = s ++ rest := by
  unfold lit
  split
  case isTrue h =>
    obtain ⟨_, rfl⟩ := h
    simp [eq_comm]
  case isFalse h =>
    simp only [List.not_mem_nil, false_iff]
    rintro rfl
    exact h (List.prefix_append _ _)

@[simp]
theorem mem_seq : rest ∈ seq a b text ↔ ∃ mid ∈ a text, rest ∈ b mid := by
  simp [seq]

@[simp]
theorem mem_alt : rest ∈ alt a b text ↔ rest ∈ a text ∨ rest ∈ b text := by
  simp [alt]

@[simp]
theorem mem_opt : rest ∈ opt a text ↔ rest ∈ a text ∨ rest = text := by
  simp [opt]

@[simp]
theorem mem_chars : rest ∈ chars p lo hi text ↔
    ∃ run, text = run ++ rest ∧ (∀ c ∈ run, p c) ∧ lo ≤ run.length ∧ run.length ≤ hi := by
  simp only [chars, List.mem_filterMap, List.mem_range, Option.ite_none_right_eq_some]
  constructor
  · rintro ⟨n, hn, ⟨hlo, hlen, hp⟩, h⟩
    obtain rfl : text.drop n = rest := by simpa using h
    have : (text.take n).length = n := List.length_take_of_le hlen
    exact ⟨text.take n, (List.take_append_drop n text).symm, by simpa using hp, by omega, by omega⟩
  · rintro ⟨run, rfl, hp, hlo, hhi⟩
    exact ⟨run.length, by omega, ⟨hlo, by simp, by simpa using hp⟩, by simp⟩

theorem isMatch_iff : isMatch a text = true ↔ ∃ rest, rest ∈ a text := by
  simp [isMatch, List.eq_nil_iff_forall_not_mem]

theorem isFullMatch_iff : isFullMatch a text = true ↔ [] ∈ a text := by
  simp [isFullMatch, List.isEmpty_iff]

end Re
end Python
