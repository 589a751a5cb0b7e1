import Mathlib.Data.List.Perm.Basic
import Mathlib.Algebra.BigOperators.Group.List.Basic
import V8AgentOs.Python.Json

-- The size and the nesting of the text that `json.dumps` writes.
namespace Python

theorem length_utf8 (text : List Char) : (utf8 text).length = bytes text := by
  simp [utf8, bytes, List.length_flatMap]

theorem utf8_append (xs ys : List Char) : utf8 (xs ++ ys) = utf8 xs ++ utf8 ys :=
  List.flatMap_append

theorem bytes_append (xs ys : List Char) : bytes (xs ++ ys) = bytes xs + bytes ys := by
  simp [bytes]

theorem bytes_cons (c : Char) (xs : List Char) : bytes (c :: xs) = c.utf8Size + bytes xs := by
  simp [bytes]

-- A text of `n` parts has a comma less than parts.
theorem bytes_commaJoin (parts : List (List Char)) :
    bytes (commaJoin parts) = (parts.map bytes).sum + (parts.length - 1) := by
  induction parts
  case nil => rfl
  case cons part rest hi =>
    cases rest
    case nil         => simp [commaJoin]
    case cons b rest =>
      simp only [commaJoin, bytes_append, bytes_cons, hi]
      simp [show (',' : Char).utf8Size = 1 from rfl]
      omega

-- The characters of a number.
def isNumeric (c : Char) : Bool :=
  c.isDigit || c = '-' || c = '+' || c = '.' || c = 'e'

theorem digits_numeric {n : ℕ} {c : Char} (h : c ∈ Nat.toDigits 10 n) : isNumeric c := by
  simp [isNumeric, Nat.isDigit_of_mem_toDigits (by decide) (by decide) h]

theorem intText_numeric (n : ℤ) : ∀ c ∈ intText n, isNumeric c := by
  intro c hc
  cases n
  case ofNat m   => exact digits_numeric hc
  case negSucc m =>
    rcases List.mem_cons.mp hc with rfl | hc
    · rfl
    · exact digits_numeric hc

theorem floatText_numeric (s : Bool) (d : ℕ) (e : ℤ) : ∀ c ∈ floatText s d e, isNumeric c := by
  have digits {n : ℕ} {c : Char} (h : c ∈ Nat.toDigits 10 n) := digits_numeric h
  have taken {n k : ℕ} {c : Char} (h : c ∈ (Nat.toDigits 10 n).take k) := digits (List.mem_of_mem_take h)
  have dropped {n k : ℕ} {c : Char} (h : c ∈ (Nat.toDigits 10 n).drop k) := digits (List.mem_of_mem_drop h)
  have zeros {k : ℕ} {c : Char} (h : c ∈ List.replicate k '0') : isNumeric c :=
    List.eq_of_mem_replicate h ▸ rfl
  have marks : isNumeric '-' ∧ isNumeric '+' ∧ isNumeric '.' ∧ isNumeric 'e' ∧ isNumeric '0' := by decide
  intro c hc
  simp only [floatText] at hc
  split_ifs at hc
  all_goals
    simp only [List.mem_append, List.mem_cons, List.not_mem_nil, or_false] at hc
    grind

theorem mem_commaJoin {parts : List (List Char)} {c : Char} (h : c ∈ commaJoin parts) :
    c = ',' ∨ ∃ part ∈ parts, c ∈ part := by
  induction parts
  case nil => simp [commaJoin] at h
  case cons part rest hi =>
    cases rest
    case nil         => exact .inr ⟨part, by simp, h⟩
    case cons b rest =>
      simp only [commaJoin, List.mem_append, List.mem_cons] at h
      rcases h with h | h | h
      · exact .inr ⟨part, by simp, h⟩
      · exact .inl h
      · exact (hi h).imp id fun ⟨p, hp, hc⟩ => ⟨p, List.mem_cons_of_mem _ hp, hc⟩

namespace Json

theorem sortKeys_perm {α : Type} (members : List (String × α)) : (sortKeys members).Perm members :=
  List.perm_insertionSort _ _

theorem sortKeys_map {α β : Type} (f : α → β) (members : List (String × α)) :
    sortKeys (members.map fun m => (m.1, f m.2)) = (sortKeys members).map fun m => (m.1, f m.2) := by
  refine (List.map_insertionSort (fun a b : String × α => a.1 ≤ b.1) (fun a b : String × β => a.1 ≤ b.1)
    (fun m => (m.1, f m.2)) members ?_).symm
  exact fun _ _ _ _ => Iff.rfl

theorem dumpsItems_eq (xs : List Json) : dumpsItems xs = xs.map dumps := by
  induction xs
  case nil         => rfl
  case cons _ _ hi => simp [dumpsItems, hi]

theorem dumpsMembers_eq (ms : Dict) : dumpsMembers ms = ms.map fun m => (m.1, m.2.dumps) := by
  induction ms
  case nil         => rfl
  case cons _ _ hi => simp [dumpsMembers, hi]

theorem dumps_list (xs : List Json) :
    (list xs).dumps = '[' :: commaJoin (xs.map dumps) ++ [']'] := by
  rw [dumps, dumpsItems_eq]

theorem dumps_dict (ms : Dict) : (dict ms).dumps =
    '\x7b' :: commaJoin ((sortKeys ms).map fun m => quoted m.1 ++ ':' :: m.2.dumps) ++ ['\x7d'] := by
  rw [dumps, dumpsMembers_eq, sortKeys_map, List.map_map]
  rfl

-- How deep containers nest.
mutual

def nest : Json → ℕ
  | list items   => nestItems items + 1
  | dict members => nestMembers members + 1
  | null | bool _ | int _ | float .. | str _ => 0

def nestItems : List Json → ℕ
  | []      => 0
  | x :: xs => max x.nest (nestItems xs)

def nestMembers : Dict → ℕ
  | []           => 0
  | (_, x) :: xs => max x.nest (nestMembers xs)

end

-- The length of the text in bytes.
mutual

def size : Json → ℕ
  | null         => 4
  | bool b       => if b then 4 else 5
  | int n        => bytes (intText n)
  | float s d e  => bytes (floatText s d e)
  | str s        => bytes (quoted s)
  | list items   => 2 + sizeItems items + (items.length - 1)
  | dict members => 2 + sizeMembers members + (members.length - 1)

def sizeItems : List Json → ℕ
  | []      => 0
  | x :: xs => x.size + sizeItems xs

def sizeMembers : Dict → ℕ
  | []           => 0
  | (k, x) :: xs => bytes (quoted k) + 1 + x.size + sizeMembers xs

end

theorem nestItems_eq (xs : List Json) : nestItems xs = (xs.map nest).foldr max 0 := by
  induction xs
  case nil         => rfl
  case cons _ _ hi => simp [nestItems, hi]

theorem nestMembers_eq (ms : Dict) : nestMembers ms = (ms.map fun m => m.2.nest).foldr max 0 := by
  induction ms
  case nil         => rfl
  case cons _ _ hi => simp [nestMembers, hi]

theorem sizeItems_eq (xs : List Json) : sizeItems xs = (xs.map size).sum := by
  induction xs
  case nil         => rfl
  case cons _ _ hi => simp [sizeItems, hi]

theorem sizeMembers_eq (ms : Dict) :
    sizeMembers ms = (ms.map fun m => bytes (quoted m.1) + 1 + m.2.size).sum := by
  induction ms
  case nil         => rfl
  case cons _ _ hi => simp [sizeMembers, hi]

theorem bytes_dumps (v : Json) : bytes v.dumps = v.size := by
  induction v using induct
  case null  => rfl
  case bool b => cases b <;> rfl
  case int   => rfl
  case float => rfl
  case str   => rfl
  case list xs hi =>
    rw [dumps_list, size, sizeItems_eq, bytes_append, bytes_cons, bytes_commaJoin, List.map_map,
      List.length_map, List.map_congr_left (f := bytes ∘ dumps) (g := size) hi]
    simp [bytes, show ('[' : Char).utf8Size = 1 from rfl, show (']' : Char).utf8Size = 1 from rfl]
    omega
  case dict ms hi =>
    have sizes : ((sortKeys ms).map fun m => bytes (quoted m.1 ++ ':' :: m.2.dumps)).sum =
        sizeMembers ms := by
      rw [sizeMembers_eq, ((sortKeys_perm ms).map _).sum_eq]
      refine congrArg List.sum (List.map_congr_left fun m hm => ?_)
      rw [bytes_append, bytes_cons, hi m.1 m.2 hm, show (':' : Char).utf8Size = 1 from rfl, Nat.add_assoc]
    rw [dumps_dict, size, bytes_append, bytes_cons, bytes_commaJoin, List.map_map, List.length_map,
      (sortKeys_perm ms).length_eq]
    simp only [Function.comp_def]
    rw [sizes]
    simp [bytes, show ('\x7b' : Char).utf8Size = 1 from rfl, show ('\x7d' : Char).utf8Size = 1 from rfl]
    omega

-- No control character is written.
theorem hexDigit_printable (n : ℕ) : 0x20 ≤ (hexDigit n).toNat := by
  unfold hexDigit
  have : n % 16 < 16 := Nat.mod_lt _ (by decide)
  generalize n % 16 = k at this
  revert k
  decide

theorem escape_printable (c : Char) : ∀ x ∈ escape c, 0x20 ≤ x.toNat := by
  unfold escape
  split_ifs with _ _ _ _ _ _ _ h
  case neg => simpa using h
  all_goals first | exact List.forall_iff_forall_mem.mp (by decide) | skip
  intro x hx
  simp only [List.mem_cons, List.not_mem_nil, or_false] at hx
  rcases hx with rfl | rfl | rfl | rfl | rfl | rfl <;> first | exact hexDigit_printable _ | decide

theorem quoted_printable (s : String) : ∀ c ∈ quoted s, 0x20 ≤ c.toNat := by
  intro c hc
  simp only [quoted, List.mem_append, List.mem_cons, List.not_mem_nil, or_false] at hc
  rcases hc with (rfl | hc) | rfl
  · decide
  · obtain ⟨x, _, hc⟩ := List.mem_flatMap.mp hc
    exact escape_printable x c hc
  · decide

theorem dumps_printable (v : Json) : ∀ c ∈ v.dumps, 0x20 ≤ c.toNat := by
  have numeric {c : Char} (h : isNumeric c) : 0x20 ≤ c.toNat := by
    simp only [isNumeric, Bool.or_eq_true, decide_eq_true_eq, Char.isDigit_iff_toNat] at h
    rcases h with (((h | rfl) | rfl) | rfl) | rfl
    · exact Nat.le_trans (by decide) h.left
    all_goals decide
  induction v using induct
  case null        => exact List.forall_iff_forall_mem.mp (by decide)
  case bool b      => cases b <;> exact List.forall_iff_forall_mem.mp (by decide)
  case int n       => exact fun c hc => numeric (intText_numeric n c hc)
  case float s d e => exact fun c hc => numeric (floatText_numeric s d e c hc)
  case str s       => exact quoted_printable s
  case list xs hi  =>
    intro c hc
    simp only [dumps_list, List.mem_append, List.mem_cons, List.not_mem_nil, or_false] at hc
    rcases hc with (rfl | hc) | rfl
    · decide
    · rcases mem_commaJoin hc with rfl | ⟨_, hp, hc⟩
      · decide
      · obtain ⟨x, hx, rfl⟩ := List.mem_map.mp hp
        exact hi x hx c hc
    · decide
  case dict ms hi =>
    intro c hc
    simp only [dumps_dict, List.mem_append, List.mem_cons, List.not_mem_nil, or_false] at hc
    rcases hc with (rfl | hc) | rfl
    · decide
    · rcases mem_commaJoin hc with rfl | ⟨_, hp, hc⟩
      · decide
      · obtain ⟨m, hm, rfl⟩ := List.mem_map.mp hp
        simp only [List.mem_append, List.mem_cons] at hc
        rcases hc with hc | rfl | hc
        · exact quoted_printable m.1 c hc
        · decide
        · exact hi m.1 m.2 ((sortKeys_perm ms).mem_iff.mp hm) c hc
    · decide

end Json
end Python
