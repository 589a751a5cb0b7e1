import Mathlib.Data.List.Sort
import Mathlib.Data.Nat.Notation
import V8AgentOs.Python.Str

-- The values of Python's `json` module, and the text that `json.dumps` writes for them.
namespace Python

-- A finite float is given by its shortest decimal `±digits * 10 ^ exponent`, which is what its
-- `repr` shows. The members of a `dict` stand in their insertion order.
inductive Json
  | null
  | bool (b : Bool)
  | int (n : ℤ)
  | float (negative : Bool) (digits : ℕ) (exponent : ℤ)
  | str (s : String)
  | list (items : List Json)
  | dict (members : List (String × Json))

abbrev Dict := List (String × Json)

-- `d.get(key)` and `d.get(key, default)`
def Dict.get (d : Dict) (key : String) (default : Json := .null) : Json :=
  (d.lookup key).getD default

def Dict.has (d : Dict) (key : String) : Bool :=
  (d.lookup key).isSome

-- `set(d) <= keys` and `set(d) == keys`
def Dict.within (d : Dict) (keys : List String) : Bool :=
  d.all fun m => keys.contains m.1

def Dict.hasExactly (d : Dict) (keys : List String) : Bool :=
  d.within keys && keys.all d.has

namespace Json

-- `bool(value)`
def truthy : Json → Bool
  | null           => false
  | bool b         => b
  | int n          => n ≠ 0
  | float _ d _    => d ≠ 0
  | str s          => s ≠ ""
  | list items     => !items.isEmpty
  | dict members   => !members.isEmpty

-- A number as `mantissa * 10 ^ exponent`; booleans are numbers.
def number? : Json → Option (ℤ × ℤ)
  | bool b           => some (if b then 1 else 0, 0)
  | int n            => some (n, 0)
  | float negative d e => some (if negative then -d else d, e)
  | _                => none

def sameNumber (x y : ℤ × ℤ) : Bool :=
  let e := min x.2 y.2
  x.1 * 10 ^ (x.2 - e).toNat == y.1 * 10 ^ (y.2 - e).toNat

-- `x == y`
mutual

def eq : Json → Json → Bool
  | null, y         => match y with | null => true | _ => false
  | str s, y        => match y with | str t => s == t | _ => false
  | list xs, y      => match y with | list ys => eqItems xs ys | _ => false
  | dict xs, y      => match y with | dict ys => xs.length == ys.length && eqMembers xs ys | _ => false
  | bool b, y       => match y.number? with | some n => sameNumber (if b then 1 else 0, 0) n | none => false
  | int m, y        => match y.number? with | some n => sameNumber (m, 0) n | none => false
  | float s d e, y  => match y.number? with | some n => sameNumber (if s then -d else d, e) n | none => false

def eqItems : List Json → List Json → Bool
  | [], []           => true
  | x :: xs, y :: ys => x.eq y && eqItems xs ys
  | _, _             => false

def eqMembers : Dict → Dict → Bool
  | [], _            => true
  | (k, x) :: xs, ys => (match ys.lookup k with | some y => x.eq y | none => false) && eqMembers xs ys

end

end Json

-- `repr` of an integer, and of a finite float.
def intText (n : ℤ) : List Char :=
  match n with
  | .ofNat m   => Nat.toDigits 10 m
  | .negSucc m => '-' :: Nat.toDigits 10 (m + 1)

def floatText (negative : Bool) (digits : ℕ) (exponent : ℤ) : List Char :=
  let ds := Nat.toDigits 10 digits
  let point := ds.length + exponent
  let text :=
    if -4 < point ∧ point ≤ 16 then
      if point ≤ 0 then '0' :: '.' :: List.replicate (-point).toNat '0' ++ ds
      else if point.toNat < ds.length then ds.take point.toNat ++ '.' :: ds.drop point.toNat
      else ds ++ List.replicate (point.toNat - ds.length) '0' ++ ['.', '0']
    else
      let power := Nat.toDigits 10 (point - 1).natAbs
      ds.take 1 ++ (if ds.length = 1 then [] else '.' :: ds.drop 1) ++
        ['e', if point - 1 < 0 then '-' else '+'] ++ (if power.length = 1 then '0' :: power else power)
  if negative then '-' :: text else text

def hexDigit (n : ℕ) : Char :=
  Nat.digitChar (n % 16)

-- The characters that `ensure_ascii=False` escapes.
def escape (c : Char) : List Char :=
  if c = '"' then ['\\', '"']
  else if c = '\\' then ['\\', '\\']
  else if c = '\n' then ['\\', 'n']
  else if c = '\r' then ['\\', 'r']
  else if c = '\t' then ['\\', 't']
  else if c = '\x08' then ['\\', 'b']
  else if c = '\x0c' then ['\\', 'f']
  else if c.toNat < 0x20 then ['\\', 'u', '0', '0', hexDigit (c.toNat / 16), hexDigit c.toNat]
  else [c]

def quoted (s : String) : List Char :=
  '"' :: s.toList.flatMap escape ++ ['"']

-- `\uXXXX`
def unicodeEscape (n : ℕ) : List Char :=
  ['\\', 'u', hexDigit (n / 0x1000), hexDigit (n / 0x100), hexDigit (n / 0x10), hexDigit n]

-- The characters that `ensure_ascii=True` escapes: a code point beyond 16 bits becomes two
-- surrogates.
def escapeAscii (c : Char) : List Char :=
  let n := c.toNat
  if n < 0x7f then (if n < 0x20 ∨ c = '"' ∨ c = '\\' then escape c else [c])
  else if n < 0x10000 then unicodeEscape n
  else unicodeEscape (0xd800 + (n - 0x10000) / 0x400) ++ unicodeEscape (0xdc00 + (n - 0x10000) % 0x400)

def quotedAscii (s : String) : List Char :=
  '"' :: s.toList.flatMap escapeAscii ++ ['"']

example : quotedAscii "a\"é😀" = "\"a\\\"\\u00e9\\ud83d\\ude00\"".toList := by decide +kernel

-- `sep.join(parts)` with a comma
def commaJoin : List (List Char) → List Char
  | []           => []
  | [part]       => part
  | part :: rest => part ++ ',' :: commaJoin rest

namespace Json

-- The members of an object by name, which stands first.
def sortKeys {α : Type} (members : List (String × α)) : List (String × α) :=
  members.insertionSort fun a b => a.1 ≤ b.1

-- `json.dumps(value, ensure_ascii=False, sort_keys=True, separators=(",", ":"), allow_nan=False)`
mutual

def dumps : Json → List Char
  | null         => "null".toList
  | bool b       => if b then "true".toList else "false".toList
  | int n        => intText n
  | float s d e  => floatText s d e
  | str s        => quoted s
  | list items   => '[' :: commaJoin (dumpsItems items) ++ [']']
  | dict members =>
    '{' :: commaJoin ((sortKeys (dumpsMembers members)).map fun m => quoted m.1 ++ ':' :: m.2) ++ ['}']

def dumpsItems : List Json → List (List Char)
  | []      => []
  | x :: xs => x.dumps :: dumpsItems xs

def dumpsMembers : Dict → List (String × List Char)
  | []           => []
  | (k, x) :: xs => (k, x.dumps) :: dumpsMembers xs

end

example : (dict [("b", list [int (-30), float false 15 (-1)]), ("a", str "x\"\n")]).dumps =
    "\x7b\"a\":\"x\\\"\\n\",\"b\":[-30,1.5]\x7d".toList := by decide +kernel

-- Induction over the values that a value contains.
theorem induct {P : Json → Prop} (null : P null) (bool : ∀ b, P (bool b)) (int : ∀ n, P (int n))
    (float : ∀ s d e, P (float s d e)) (str : ∀ s, P (str s))
    (list : ∀ xs, (∀ x ∈ xs, P x) → P (list xs))
    (dict : ∀ ms : Dict, (∀ k x, (k, x) ∈ ms → P x) → P (dict ms)) (v : Json) : P v := by
  refine Json.rec (motive_1 := P) (motive_2 := fun xs => ∀ x ∈ xs, P x)
    (motive_3 := fun ms => ∀ k x, (k, x) ∈ ms → P x) (motive_4 := fun m => P m.2)
    null bool int float str list dict ?_ ?_ ?_ ?_ (fun _ _ h => h) v
  · exact fun x hx => absurd hx List.not_mem_nil
  · intro x xs hx hxs y hy
    exact (List.mem_cons.mp hy).elim (· ▸ hx) (hxs y)
  · exact fun k x hx => absurd hx List.not_mem_nil
  · intro m ms hm hms k x hx
    exact (List.mem_cons.mp hx).elim (fun h => by subst h; exact hm) (hms k x)

end Json
end Python
