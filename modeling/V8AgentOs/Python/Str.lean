import Mathlib.Algebra.Ring.Int.Defs
import Mathlib.Algebra.Ring.Nat
import Mathlib.Data.List.Basic
import Mathlib.Data.List.DropRight

-- The parts of Python's `str` that the Engine's text handling uses.
-- A string is processed as the list of its code points.
namespace Python

-- `text.encode("utf-8")`, and its length
def utf8 (text : List Char) : List UInt8 :=
  text.flatMap String.utf8EncodeChar

def bytes (text : List Char) : ℕ :=
  (text.map Char.utf8Size).sum

-- The code points for which `str.isspace` holds, which are also those that `str.strip` removes.
def isSpace (c : Char) : Bool :=
  let n := c.toNat
  (0x09 ≤ n && n ≤ 0x0D) || (0x1C ≤ n && n ≤ 0x20) || n == 0x85 || n == 0xA0 || n == 0x1680 ||
  (0x2000 ≤ n && n ≤ 0x200A) || n == 0x2028 || n == 0x2029 || n == 0x202F || n == 0x205F ||
  n == 0x3000

-- `not text.strip()`.
def isBlank (text : List Char) : Bool :=
  text.all isSpace

-- `text.strip()`
def strip (text : String) : String :=
  String.ofList ((text.toList.dropWhile isSpace).rdropWhile isSpace)

-- The digit zero of every script that has decimal digits (Unicode 14.0); the other nine follow it.
def zeroDigits : List ℕ :=
  [0x30, 0x660, 0x6f0, 0x7c0, 0x966, 0x9e6, 0xa66, 0xae6, 0xb66, 0xbe6, 0xc66, 0xce6, 0xd66, 0xde6,
   0xe50, 0xed0, 0xf20, 0x1040, 0x1090, 0x17e0, 0x1810, 0x1946, 0x19d0, 0x1a80, 0x1a90, 0x1b50,
   0x1bb0, 0x1c40, 0x1c50, 0xa620, 0xa8d0, 0xa900, 0xa9d0, 0xa9f0, 0xaa50, 0xabf0, 0xff10, 0x104a0,
   0x10d30, 0x11066, 0x110f0, 0x11136, 0x111d0, 0x112f0, 0x11450, 0x114d0, 0x11650, 0x116c0,
   0x11730, 0x118e0, 0x11950, 0x11c50, 0x11d50, 0x11da0, 0x16a60, 0x16ac0, 0x16b50, 0x1d7ce,
   0x1d7d8, 0x1d7e2, 0x1d7ec, 0x1d7f6, 0x1e140, 0x1e2f0, 0x1e950, 0x1fbf0]

-- `str.isdecimal` of one character, which is what `\d` matches.
def isDecimal (c : Char) : Bool :=
  zeroDigits.any fun z => z ≤ c.toNat && c.toNat < z + 10

-- `len(text.expandtabs(size))`
def expandedLength (size : ℕ) (text : List Char) : ℕ :=
  go 0 text
where
  go (column : ℕ) : List Char → ℕ
    | []      => 0
    | c :: cs =>
      if c = '\t' then
        let width := size - column % size
        width + go (column + width) cs
      else if c = '\n' ∨ c = '\r' then 1 + go 0 cs
      else 1 + go (column + 1) cs

-- `text[:n]`
def take (n : ℕ) (text : String) : String :=
  String.ofList (text.toList.take n)

theorem dropWhile_rdropWhile {p : Char → Bool} (l : List Char) (h : l.dropWhile p = l) :
    (l.rdropWhile p).dropWhile p = l.rdropWhile p := by
  cases l
  case nil => rfl
  case cons c l =>
    have hc : ¬p c := by simpa using List.dropWhile_eq_self_iff.mp h (Nat.succ_pos _)
    cases hr : (c :: l).rdropWhile p
    case nil => rfl
    case cons d r =>
      have ⟨m, hm⟩ := hr ▸ List.rdropWhile_prefix p (l := c :: l)
      cases hm
      simp [hc]

@[simp] theorem strip_strip (text : String) : strip (strip text) = strip text := by
  unfold strip
  rw [String.toList_ofList, dropWhile_rdropWhile _ (List.dropWhile_idempotent (p := isSpace) _), List.rdropWhile_idempotent]

-- A text without white space
theorem strip_eq_self {text : String} (h : ∀ c ∈ text.toList, ¬isSpace c) : strip text = text := by
  unfold strip
  rw [List.dropWhile_eq_self_iff.mpr fun hl => h _ (List.getElem_mem hl),
    List.rdropWhile_eq_self_iff.mpr fun hl => h _ (List.getLast_mem hl), String.ofList_toList]

end Python
