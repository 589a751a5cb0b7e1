import Mathlib.Data.Int.Notation
import Mathlib.Data.List.TakeWhile
import Mathlib.Tactic.NormNum
import V8AgentOs.Lib.Nesting
import V8AgentOs.Python.Dumps

-- main/wire_codec.c: which frames the device accepts.
namespace Firmware

open Nesting

-- What cJSON reads: the items that `valid_tree` looks at. A number is finite as a double or not,
-- and names are C strings.
inductive Item
  | null
  | bool (b : Bool)
  | number (finite : Bool)
  | string
  | array (items : List Item)
  | object (members : List (List Char × Item))

namespace Item

def isContainer : Item → Bool
  | array _ | object _ => true
  | _                  => false

def isObject : Item → Bool
  | object _ => true
  | _        => false

def isFinite : Item → Bool
  | number finite => finite
  | _             => true

-- `valid_tree`
mutual

def validTree : Item → ℕ → Bool
  | array items, depth    => depth ≤ 12 && items.length ≤ 256 && validItems items depth
  | object members, depth =>
    depth ≤ 12 && members.length ≤ 256 && decide (members.map Prod.fst).Nodup && validMembers members depth
  | null, depth | bool _, depth | number _, depth | string, depth => depth ≤ 12

def validItems : List Item → ℕ → Bool
  | [], _         => true
  | x :: xs, depth => (!x.isContainer || x.validTree (depth + 1)) && x.isFinite && validItems xs depth

def validMembers : List (List Char × Item) → ℕ → Bool
  | [], _               => true
  | (_, x) :: xs, depth =>
    (!x.isContainer || x.validTree (depth + 1)) && x.isFinite && validMembers xs depth

end
end Item

abbrev maxFrame : ℕ := 16384

abbrev maxDepth : ℕ := 12

-- The variables of the loop in `parse_frame`.
structure Scan where
  depth  : ℤ
  quote  : Bool
  escape : Bool

def scanByte (s : Scan) (p : UInt8) : Option Scan :=
  if s.escape then some { s with escape := false }
  else if s.quote && p == '\\'.toUInt8 then some { s with escape := true }
  else if p == '"'.toUInt8 then some { s with quote := !s.quote }
  else if !s.quote && (p == '\x7b'.toUInt8 || p == '['.toUInt8) then
    if s.depth + 1 > maxDepth then none else some { s with depth := s.depth + 1 }
  else if !s.quote && (p == '\x7d'.toUInt8 || p == ']'.toUInt8) then
    if s.depth - 1 < 0 then none else some { s with depth := s.depth - 1 }
  else some s

-- The bytes of a C string end before its first zero.
def cString (bytes : List UInt8) : List UInt8 :=
  bytes.takeWhile (· ≠ 0)

-- `parse_frame`, where `cJSON` is `cJSON_ParseWithOpts` of a whole text
def parseFrame (cJSON : List UInt8 → Option Item) (bytes : List UInt8) : Option Item :=
  let text := cString bytes
  if text.length > maxFrame then none
  else
    match text.foldlM scanByte ⟨0, false, false⟩ with
    | none   => none
    | some s =>
      if s.depth ≠ 0 || s.quote then none
      else (cJSON text).filter fun root => root.isObject && root.validTree 0

end Firmware

-- Which of the texts that `json.dumps` writes the device accepts as a frame.
namespace Firmware

open Python Nesting

namespace Scan

-- The states of the loop outside and inside of a string.
def place (d : ℕ) : Scan := ⟨d, false, false⟩

def inside (d : ℕ) : Scan := ⟨d, true, false⟩

end Scan

section Bytes

variable {b : UInt8} {d : ℕ}

theorem scanByte_open (hb : b = '\x7b'.toUInt8 ∨ b = '['.toUInt8) :
    scanByte (.place d) b = if d < maxDepth then some (.place (d + 1)) else none := by
  have : scanByte (.place d) b =
      if (d : ℤ) + 1 > maxDepth then none else some (.place (d + 1)) := by
    rcases hb with rfl | rfl <;> rfl
  rw [this]
  by_cases h : d < maxDepth
  case pos => rw [if_neg (by omega), if_pos h]
  case neg => rw [if_pos (by omega), if_neg h]

theorem scanByte_close (hb : b = '\x7d'.toUInt8 ∨ b = ']'.toUInt8) :
    scanByte (.place (d + 1)) b = some (.place d) := by
  have : scanByte (.place (d + 1)) b =
      if ((d + 1 : ℕ) : ℤ) - 1 < 0 then none else some ⟨((d + 1 : ℕ) : ℤ) - 1, false, false⟩ := by
    rcases hb with rfl | rfl <;> rfl
  rw [this, if_neg (by omega)]
  simp [Scan.place]

-- The characters that the loop looks at outside and inside of a string.
def brackets : List Char := ['"', '\x7b', '[', '\x7d', ']']

def quotes : List Char := ['"', '\\']

theorem scanByte_place (h : b ∉ brackets.map Char.toUInt8) : scanByte (.place d) b = some (.place d) := by
  simp only [brackets, List.map_cons, List.map_nil, List.mem_cons, List.not_mem_nil, or_false, not_or] at h
  simp [scanByte, Scan.place, h]

theorem scanByte_inside (h : b ∉ quotes.map Char.toUInt8) :
    scanByte (.inside d) b = some (.inside d) := by
  simp only [quotes, List.map_cons, List.map_nil, List.mem_cons, List.not_mem_nil, or_false, not_or] at h
  simp [scanByte, Scan.inside, h]

-- A byte of an encoded character that is in ASCII is the character itself.
theorem toNat_of_mem_utf8 {c : Char} (h : b ∈ String.utf8EncodeChar c) (hb : b.toNat < 128) :
    c.toNat = b.toNat := by
  have small (n : ℕ) (hn : n < 256) : (UInt8.ofNat n).toNat = n := UInt8.toNat_ofNat_of_lt hn
  unfold String.utf8EncodeChar at h
  simp only [] at h
  split_ifs at h
  · obtain rfl := List.mem_singleton.mp h
    rw [small _ (by omega)]
    rfl
  all_goals
    simp only [List.mem_cons, List.not_mem_nil, or_false] at h
    rcases h with rfl | rfl | rfl | rfl
  all_goals
    rw [small _ (by omega)] at hb
    omega

theorem notMem_utf8 {c : Char} {cs : List Char} (hc : c ∉ cs) (hcs : ∀ x ∈ cs, x.toNat < 128)
    (hb : b ∈ String.utf8EncodeChar c) : b ∉ cs.map Char.toUInt8 := by
  intro hm
  obtain ⟨x, hx, rfl⟩ := List.mem_map.mp hm
  have hlt := hcs x hx
  have hval : x.toUInt8.toNat = x.toNat := by
    show x.val.toUInt8.toNat = x.toNat
    rw [UInt32.toNat_toUInt8]
    exact Nat.mod_eq_of_lt (by show x.toNat < _; omega)
  have := toNat_of_mem_utf8 hb (by omega)
  have : c = x := Char.toNat_inj.mp (by omega)
  exact hc (this ▸ hx)

end Bytes

abbrev TextNests (n : ℕ) (text : List Char) : Prop :=
  Nests scanByte Scan.place maxDepth n (utf8 text)

namespace TextNests

variable {n m : ℕ} {text rest : List Char} {d : ℕ}

theorem append (h₁ : TextNests n text) (h₂ : TextNests m rest) : TextNests (max n m) (text ++ rest) := by
  rw [TextNests, utf8_append]
  exact Nests.append h₁ h₂

theorem inert (h : ∀ c ∈ text, c ∉ brackets) : TextNests 0 text := by
  refine Nests.inert fun b hb d => scanByte_place ?_
  obtain ⟨c, hc, hb⟩ := List.mem_flatMap.mp hb
  exact notMem_utf8 (h c hc) (List.forall_iff_forall_mem.mp (by decide)) hb

theorem wrap {o c : Char} (ho : o = '\x7b' ∨ o = '[') (hc : c = '\x7d' ∨ c = ']') (h : TextNests n text) :
    TextNests (n + 1) (o :: text ++ [c]) := by
  have encoded : utf8 (o :: text ++ [c]) = o.toUInt8 :: utf8 text ++ [c.toUInt8] := by
    rcases ho with rfl | rfl <;> rcases hc with rfl | rfl <;> simp [utf8] <;> rfl
  rw [TextNests, encoded]
  refine Nests.wrap (fun d => scanByte_open ?_) (fun d => scanByte_close ?_) h
  · exact ho.imp (congrArg Char.toUInt8) (congrArg Char.toUInt8)
  · exact hc.imp (congrArg Char.toUInt8) (congrArg Char.toUInt8)

end TextNests

theorem hexDigit_inside (n : ℕ) : hexDigit n ∉ quotes := by
  unfold hexDigit
  have : n % 16 < 16 := Nat.mod_lt _ (by decide)
  generalize n % 16 = k at this
  revert k
  decide

-- What the loop passes over inside of a string.
abbrev Literal (text : List Char) : Prop :=
  Nests scanByte Scan.inside maxDepth 0 (utf8 text)

namespace Literal

variable {text : List Char}

theorem inert (h : ∀ c ∈ text, c ∉ quotes) : Literal text := by
  refine Nests.inert fun b hb d => scanByte_inside ?_
  obtain ⟨c, hc, hb⟩ := List.mem_flatMap.mp hb
  exact notMem_utf8 (h c hc) (List.forall_iff_forall_mem.mp (by decide)) hb

-- A backslash and the character that it escapes.
theorem escaped {b : UInt8} : Nests scanByte Scan.inside maxDepth 0 ['\\'.toUInt8, b] :=
  fun _ hd => (if_pos hd).symm

theorem unicode (c : Char) : Literal ['\\', 'u', '0', '0', hexDigit (c.toNat / 16), hexDigit c.toNat] := by
  have digits : Literal ['0', '0', hexDigit (c.toNat / 16), hexDigit c.toNat] := by
    refine inert fun x hx => ?_
    simp only [List.mem_cons, List.not_mem_nil, or_false] at hx
    rcases hx with rfl | rfl | rfl | rfl <;> first | exact hexDigit_inside _ | decide
  exact Nests.append (escaped (b := 'u'.toUInt8)) digits

theorem escape (c : Char) : Literal (escape c) := by
  unfold Python.escape
  split_ifs with h₁ h₂
  case neg =>
    refine inert fun x hx => ?_
    obtain rfl := List.mem_singleton.mp hx
    simp [quotes, h₁, h₂]
  all_goals first | exact escaped | exact unicode c

theorem escapes (s : List Char) : Literal (s.flatMap Python.escape) := by
  induction s
  case nil         => exact Nests.nil
  case cons c s hi =>
    rw [List.flatMap_cons, Literal, utf8_append]
    exact Nests.append (escape c) hi

end Literal

theorem TextNests.quoted (s : String) : TextNests 0 (quoted s) := by
  intro d hd
  have encoded : utf8 (Python.quoted s) =
      '"'.toUInt8 :: utf8 (s.toList.flatMap Python.escape) ++ ['"'.toUInt8] := by
    simp [Python.quoted, utf8]
    rfl
  rw [encoded, List.cons_append, List.foldlM_cons]
  show ((utf8 _ ++ _).foldlM scanByte (.inside d)) = _
  rw [List.foldlM_append, Literal.escapes _ d hd]
  simp only [Nat.add_zero, hd, if_true]
  rfl

theorem numeric_plain {c : Char} (h : isNumeric c) : c ∉ brackets := by
  intro hb
  simp only [brackets, List.mem_cons, List.not_mem_nil, or_false] at hb
  rcases hb with rfl | rfl | rfl | rfl | rfl <;> simp [isNumeric] at h

-- Texts with commas between them nest as deep as the deepest.
theorem TextNests.commaJoin {α : Type} {f : α → List Char} {g : α → ℕ} {l : List α}
    (h : ∀ a ∈ l, TextNests (g a) (f a)) :
    TextNests ((l.map g).foldr max 0) (commaJoin (l.map f)) := by
  induction l
  case nil => exact Nests.nil
  case cons a l hi =>
    have rest := hi fun b hb => h b (List.mem_cons_of_mem _ hb)
    have comma : TextNests 0 [','] := .inert (List.forall_iff_forall_mem.mp (by decide))
    cases l
    case nil      => simpa [Python.commaJoin] using h a List.mem_cons_self
    case cons b l =>
      have := (h a List.mem_cons_self).append (comma.append rest)
      simpa [Python.commaJoin] using this

theorem textNests_dumps (v : Json) : TextNests v.nest v.dumps := by
  induction v using Json.induct
  case null   => exact .inert (List.forall_iff_forall_mem.mp (by decide))
  case bool b => cases b <;> exact .inert (List.forall_iff_forall_mem.mp (by decide))
  case int n       => exact .inert fun c hc => numeric_plain (intText_numeric n c hc)
  case float s d e => exact .inert fun c hc => numeric_plain (floatText_numeric s d e c hc)
  case str s  => exact .quoted s
  case list xs hi =>
    rw [Json.dumps_list, Json.nest, Json.nestItems_eq]
    exact .wrap (.inr rfl) (.inr rfl) (.commaJoin hi)
  case dict ms hi =>
    have members : ∀ m ∈ Json.sortKeys ms, TextNests m.2.nest (quoted m.1 ++ ':' :: m.2.dumps) := by
      intro m hm
      have colon : TextNests 0 [':'] := .inert (List.forall_iff_forall_mem.mp (by decide))
      have hv := hi m.1 m.2 ((Json.sortKeys_perm ms).mem_iff.mp hm)
      simpa using (TextNests.quoted m.1).append (colon.append hv)
    have deepest : Json.nestMembers ms = ((Json.sortKeys ms).map fun m => m.2.nest).foldr max 0 := by
      rw [Json.nestMembers_eq]
      exact (((Json.sortKeys_perm ms).map _).foldr_eq 0).symm
    rw [Json.dumps_dict, Json.nest, deepest]
    exact .wrap (.inl rfl) (.inl rfl) (.commaJoin members)

-- The text is a C string as a whole.
theorem cString_dumps (v : Json) : cString (utf8 v.dumps) = utf8 v.dumps := by
  refine List.takeWhile_eq_self_iff.mpr fun b hb => ?_
  obtain ⟨c, hc, hb⟩ := List.mem_flatMap.mp hb
  have := Json.dumps_printable v c hc
  by_contra h
  obtain rfl : b = 0 := by simpa using h
  have := toNat_of_mem_utf8 hb (by decide)
  simp only [UInt8.toNat_zero] at this
  omega

-- What a name is in C.
def cName (s : String) : List Char :=
  s.toList.takeWhile (· ≠ '\x00')

-- Integers that do not round to infinity as a double
@[irreducible]
def isDouble (n : ℤ) : Bool :=
  n.natAbs < 2 ^ 1024 - 2 ^ 970

theorem double_range {m n : ℕ} (hm : 64 ≤ m) (hn : n = m + 54) : 2 ^ 64 ≤ 2 ^ n - 2 ^ m := by
  have large : 2 ^ 64 ≤ 2 ^ m := Nat.pow_le_pow_right Nat.two_pos hm
  rw [hn, Nat.pow_add]
  generalize 2 ^ m = x at large
  omega

theorem isDouble_of_lt {n : ℤ} (h : n.natAbs < 2 ^ 64) : isDouble n := by
  unfold isDouble
  exact decide_eq_true (Nat.lt_of_lt_of_le h (double_range (by decide) rfl))

-- What cJSON reads from the text of a value. Every float has a finite double as its value.
mutual

def item : Json → Item
  | .null         => .null
  | .bool b       => .bool b
  | .int n        => .number (isDouble n)
  | .float ..     => .number true
  | .str _        => .string
  | .list xs      => .array (itemItems xs)
  | .dict members => .object ((Json.sortKeys (itemMembers members)).map fun m => (cName m.1, m.2))

def itemItems : List Json → List Item
  | []      => []
  | x :: xs => item x :: itemItems xs

def itemMembers : Dict → List (String × Item)
  | []           => []
  | (k, x) :: xs => (k, item x) :: itemMembers xs

end

-- The values whose containers and numbers `valid_tree` allows, however deep they are.
mutual

def isPlain : Json → Bool
  | .list xs      => xs.length ≤ 256 && plainItems xs
  | .dict members =>
    members.length ≤ 256 && decide (members.map fun m => cName m.1).Nodup && plainMembers members
  | .int n        => isDouble n
  | .null | .bool _ | .float .. | .str _ => true

def plainItems : List Json → Bool
  | []      => true
  | x :: xs => isPlain x && plainItems xs

def plainMembers : Dict → Bool
  | []           => true
  | (_, x) :: xs => isPlain x && plainMembers xs

end

theorem itemItems_eq (xs : List Json) : itemItems xs = xs.map item := by
  induction xs
  case nil         => rfl
  case cons _ _ hi => simp [itemItems, hi]

theorem itemMembers_eq (ms : Dict) : itemMembers ms = ms.map fun m => (m.1, item m.2) := by
  induction ms
  case nil         => rfl
  case cons _ _ hi => simp [itemMembers, hi]

theorem plainItems_iff {xs : List Json} : plainItems xs ↔ ∀ x ∈ xs, isPlain x := by
  induction xs
  case nil         => simp [plainItems]
  case cons _ _ hi => simp [plainItems, hi]

theorem plainMembers_iff {ms : Dict} : plainMembers ms ↔ ∀ m ∈ ms, isPlain m.2 := by
  induction ms
  case nil         => simp [plainMembers]
  case cons _ _ hi => simp [plainMembers, hi]

namespace Item

-- What `valid_tree` checks of one child, which stands at `depth` when it is a container.
def ValidAt (depth : ℕ) (x : Item) : Prop :=
  (x.isContainer → x.validTree depth) ∧ x.isFinite

theorem validAt_iff {depth : ℕ} {x : Item} :
    (!x.isContainer || x.validTree depth) && x.isFinite ↔ x.ValidAt depth := by
  simp only [ValidAt, Bool.and_eq_true, Bool.or_eq_true, Bool.not_eq_true']
  cases x.isContainer <;> simp

theorem validItems_iff {xs : List Item} {depth : ℕ} :
    validItems xs depth ↔ ∀ x ∈ xs, x.ValidAt (depth + 1) := by
  induction xs
  case nil          => simp [validItems]
  case cons x xs hi => rw [validItems, Bool.and_eq_true, validAt_iff, hi, List.forall_mem_cons]

theorem validMembers_iff {ms : List (List Char × Item)} {depth : ℕ} :
    validMembers ms depth ↔ ∀ m ∈ ms, m.2.ValidAt (depth + 1) := by
  induction ms
  case nil          => simp [validMembers]
  case cons m ms hi => rw [validMembers, Bool.and_eq_true, validAt_iff, hi, List.forall_mem_cons]

theorem validAt_array {depth : ℕ} {xs : List Item} : (array xs).ValidAt depth ↔
    depth ≤ 12 ∧ xs.length ≤ 256 ∧ ∀ x ∈ xs, x.ValidAt (depth + 1) := by
  rw [← validItems_iff]
  simp [ValidAt, isContainer, isFinite, validTree, and_assoc]

theorem validAt_object {depth : ℕ} {ms : List (List Char × Item)} : (object ms).ValidAt depth ↔
    depth ≤ 12 ∧ ms.length ≤ 256 ∧ (ms.map Prod.fst).Nodup ∧ ∀ m ∈ ms, m.2.ValidAt (depth + 1) := by
  rw [← validMembers_iff]
  simp [ValidAt, isContainer, isFinite, validTree, and_assoc]

end Item

theorem foldr_max_le {l : List ℕ} {n : ℕ} : l.foldr max 0 ≤ n ↔ ∀ a ∈ l, a ≤ n := by
  induction l
  case nil         => simp
  case cons _ _ hi => simp [hi]

theorem item_dict (ms : Dict) :
    item (.dict ms) = .object ((Json.sortKeys ms).map fun m => (cName m.1, item m.2)) := by
  rw [item, itemMembers_eq, Json.sortKeys_map, List.map_map]
  rfl

-- The children of a container are valid one level deeper.
theorem children_iff {depth : ℕ} {vs : List Json} (hd : depth ≤ 12)
    (hi : ∀ v ∈ vs, (item v).ValidAt (depth + 1) ↔ depth + 1 + v.nest ≤ 13 ∧ isPlain v) :
    (∀ v ∈ vs, (item v).ValidAt (depth + 1)) ↔
      depth + ((vs.map Json.nest).foldr max 0 + 1) ≤ 13 ∧ ∀ v ∈ vs, isPlain v := by
  have deepest : depth + ((vs.map Json.nest).foldr max 0 + 1) ≤ 13 ↔
      ∀ v ∈ vs, depth + 1 + v.nest ≤ 13 := by
    have : depth + ((vs.map Json.nest).foldr max 0 + 1) ≤ 13 ↔
        (vs.map Json.nest).foldr max 0 ≤ 12 - depth := by omega
    rw [this, foldr_max_le, List.forall_mem_map]
    exact forall₂_congr fun v _ => by omega
  rw [deepest, ← forall₂_and]
  exact forall₂_congr hi

-- A value is valid when it is plain and not too deep.
theorem validAt_item {depth : ℕ} (hd : depth ≤ 13) (v : Json) :
    (item v).ValidAt depth ↔ depth + v.nest ≤ 13 ∧ isPlain v := by
  induction v using Json.induct generalizing depth
  case null  => simp [item, Item.ValidAt, Item.isContainer, Item.isFinite, isPlain, Json.nest, hd]
  case bool  => simp [item, Item.ValidAt, Item.isContainer, Item.isFinite, isPlain, Json.nest, hd]
  case int   => simp [item, Item.ValidAt, Item.isContainer, Item.isFinite, isPlain, Json.nest, hd]
  case float => simp [item, Item.ValidAt, Item.isContainer, Item.isFinite, isPlain, Json.nest, hd]
  case str   => simp [item, Item.ValidAt, Item.isContainer, Item.isFinite, isPlain, Json.nest, hd]
  case list xs hi =>
    rw [item, itemItems_eq, Item.validAt_array, List.length_map, List.forall_mem_map, isPlain,
      Json.nest, Json.nestItems_eq, Bool.and_eq_true, decide_eq_true_eq, plainItems_iff]
    by_cases hd : depth ≤ 12
    case pos => rw [children_iff hd fun x hx => hi x hx (by omega)]; tauto
    case neg => exact iff_of_false (fun h => hd h.left) fun h => by omega
  case dict ms hi =>
    -- The names and the values are those of the members, in another order.
    have sorted := Json.sortKeys_perm ms
    have names : (((Json.sortKeys ms).map fun m => (cName m.1, item m.2)).map Prod.fst).Nodup ↔
        (ms.map fun m => cName m.1).Nodup := by
      rw [List.map_map]
      exact (sorted.map _).nodup_iff
    have values : (∀ m ∈ (Json.sortKeys ms).map fun m => (cName m.1, item m.2), m.2.ValidAt (depth + 1)) ↔
        ∀ v ∈ ms.map Prod.snd, (item v).ValidAt (depth + 1) := by
      rw [List.forall_mem_map, List.forall_mem_map]
      exact forall_congr' fun m => by rw [sorted.mem_iff]
    have plain : (∀ m ∈ ms, isPlain m.2) ↔ ∀ v ∈ ms.map Prod.snd, isPlain v := by
      rw [List.forall_mem_map]
    have deep : (ms.map fun m => m.2.nest) = (ms.map Prod.snd).map Json.nest := by
      rw [List.map_map]
      rfl
    rw [item_dict, Item.validAt_object, names, values, List.length_map, sorted.length_eq, isPlain,
      Json.nest, Json.nestMembers_eq, Bool.and_eq_true, Bool.and_eq_true, decide_eq_true_eq,
      decide_eq_true_eq, plainMembers_iff, plain, deep]
    by_cases hd : depth ≤ 12
    case pos =>
      rw [children_iff hd fun v hv => ?_]
      · tauto
      · obtain ⟨m, hm, rfl⟩ := List.mem_map.mp hv
        exact hi m.1 m.2 hm (by omega)
    case neg => exact iff_of_false (fun h => hd h.left) fun h => by omega

theorem validTree_dict (ms : Dict) :
    (item (.dict ms)).validTree 0 ↔ (Json.dict ms).nest ≤ 13 ∧ isPlain (.dict ms) := by
  have h : (item (.dict ms)).ValidAt 0 ↔ _ := validAt_item (Nat.zero_le _) (.dict ms)
  rw [Nat.zero_add] at h
  rw [← h, item_dict]
  simp [Item.ValidAt, Item.isContainer, Item.isFinite]

-- Which texts of an object the device accepts, as cJSON reads them.
theorem parseFrame_dumps {cJSON : List UInt8 → Option Item} {ms : Dict}
    (h : cJSON (utf8 (Json.dict ms).dumps) = some (item (.dict ms))) :
    (parseFrame cJSON (utf8 (Json.dict ms).dumps)).isSome ↔
      (Json.dict ms).size ≤ maxFrame ∧ (Json.dict ms).nest ≤ maxDepth ∧ isPlain (.dict ms) := by
  have scanned : (utf8 (Json.dict ms).dumps).foldlM scanByte ⟨0, false, false⟩ = _ :=
    textNests_dumps (.dict ms) 0 (by decide)
  have tree := validTree_dict ms
  have object : (item (.dict ms)).isObject := by rw [item_dict]; rfl
  rw [Nat.zero_add] at scanned
  simp only [parseFrame, cString_dumps, length_utf8, Json.bytes_dumps, scanned, h]
  by_cases hs : (Json.dict ms).size ≤ maxFrame
  case neg => rw [if_pos (by omega)]; simp [hs]
  case pos =>
    rw [if_neg (by omega)]
    by_cases hn : (Json.dict ms).nest ≤ maxDepth
    case neg => simp [hn]
    case pos =>
      have : (Json.dict ms).nest ≤ 13 := hn.trans (by decide)
      simp [hs, hn, Scan.place, object, tree, this]

-- A text that nests too deep is not even read.
theorem parseFrame_deep {cJSON : List UInt8 → Option Item} {ms : Dict}
    (h : maxDepth < (Json.dict ms).nest) : parseFrame cJSON (utf8 (Json.dict ms).dumps) = none := by
  have scanned : (utf8 (Json.dict ms).dumps).foldlM scanByte ⟨0, false, false⟩ = _ :=
    textNests_dumps (.dict ms) 0 (by decide)
  rw [Nat.zero_add, if_neg (by omega)] at scanned
  simp [parseFrame, cString_dumps, scanned]

end Firmware
