import Mathlib.Algebra.Order.Field.Rat
import Mathlib.Algebra.Order.GroupWithZero.Basic
import Mathlib.Data.Rat.Cast.Order
import V8AgentOs.Python.Json
import V8AgentOs.Lib.Lookup

-- Equality of values: whether they are the same, and that `==` is transitive.
namespace Python

-- The number that a mantissa and an exponent stand for
def ratio (x : ℤ × ℤ) : ℚ :=
  x.1 * (10 : ℚ) ^ x.2

theorem ratio_scaled {x : ℤ × ℤ} {e : ℤ} (h : e ≤ x.2) : ratio x = (x.1 * 10 ^ (x.2 - e).toNat : ℤ) * (10 : ℚ) ^ e := by
  have hx : x.2 = ((x.2 - e).toNat : ℤ) + e := by omega
  rw [ratio]
  conv => lhs; rw [hx]
  rw [zpow_add₀ (by decide), zpow_natCast]
  push_cast
  rw [mul_assoc]

theorem sameNumber_iff {x y : ℤ × ℤ} : Json.sameNumber x y ↔ ratio x = ratio y := by
  have hx : min x.2 y.2 ≤ x.2 := min_le_left _ _
  have hy : min x.2 y.2 ≤ y.2 := min_le_right _ _
  have hp : (10 : ℚ) ^ min x.2 y.2 ≠ 0 := zpow_ne_zero _ (by decide)
  rw [ratio_scaled hx, ratio_scaled hy, mul_left_inj' hp, Int.cast_inj]
  simp [Json.sameNumber]

namespace Json

variable {x y z : Json} {n : ℤ × ℤ} {xs ys zs : List Json} {ms ns os : Dict}

theorem eq_number (hx : x.number? = some n) : x.eq y ↔ ∃ m, y.number? = some m ∧ ratio n = ratio m := by
  have hs : x.eq y = y.number?.any (sameNumber n) := by
    cases x
    case bool b      => cases hx; simp only [eq]; cases y.number? <;> rfl
    case int m       => cases hx; simp only [eq]; cases y.number? <;> rfl
    case float s d e => cases hx; simp only [eq]; cases y.number? <;> rfl
    case null        => cases hx
    case str s       => cases hx
    case list xs     => cases hx
    case dict ms     => cases hx
  rw [hs]
  cases y.number?
  case none   => simp
  case some m => simp [sameNumber_iff]

theorem eq_list : (list xs).eq y ↔ ∃ ys, y = list ys ∧ eqItems xs ys := by
  cases y
  case list ys => simp [eq]
  all_goals simp [eq]

theorem eq_dict : (dict ms).eq y ↔ ∃ ns, y = dict ns ∧ ms.length = ns.length ∧ eqMembers ms ns := by
  cases y
  case dict ns => simp [eq]
  all_goals simp [eq]

theorem eqMembers_iff :
    eqMembers ms ns ↔ ∀ k x, (k, x) ∈ ms → ∃ y, ns.lookup k = some y ∧ x.eq y := by
  induction ms
  case nil => simp [eqMembers]
  case cons m ms hi =>
    rw [eqMembers]
    simp only [Bool.and_eq_true, hi, List.mem_cons]
    constructor
    case mp =>
      intro ⟨hm, hms⟩ k x hx
      cases hx
      case inr hx => exact hms k x hx
      case inl hx =>
        cases hl : ns.lookup k
        case none   => subst hx; simp [hl] at hm
        case some y => subst hx; simp only [hl] at hm; exact ⟨y, rfl, hm⟩
    case mpr =>
      intro h
      constructor
      case right => exact fun k x hx => h k x (.inr hx)
      case left =>
        obtain ⟨y, hy, he⟩ := h m.1 m.2 (.inl rfl)
        simp [hy, he]

theorem eqItems_trans (h : ∀ x ∈ xs, ∀ y z, x.eq y → y.eq z → x.eq z) (hxy : eqItems xs ys) (hyz : eqItems ys zs) :
    eqItems xs zs := by
  induction xs generalizing ys zs
  case nil =>
    cases ys
    case nil  => exact hyz
    case cons => cases hxy
  case cons x xs hi =>
    cases ys
    case nil => cases hxy
    case cons y ys =>
      cases zs
      case nil => cases hyz
      case cons z zs =>
        simp only [eqItems, Bool.and_eq_true] at hxy hyz ⊢
        constructor
        case left  => exact h x List.mem_cons_self y z hxy.left hyz.left
        case right => exact hi (fun x hx => h x (List.mem_cons_of_mem _ hx)) hxy.right hyz.right

theorem eqMembers_trans (h : ∀ k x, (k, x) ∈ ms → ∀ y z, x.eq y → y.eq z → x.eq z) (hxy : eqMembers ms ns)
    (hyz : eqMembers ns os) : eqMembers ms os := by
  rw [eqMembers_iff] at hxy hyz ⊢
  intro k x hx
  obtain ⟨y, hy, hxy⟩ := hxy k x hx
  obtain ⟨z, hz, hyz⟩ := hyz k y (Lookup.mem_of_lookup hy)
  exact ⟨z, hz, h k x hx y z hxy hyz⟩

theorem number_trans (hx : x.number? = some n) (hxy : x.eq y) (hyz : y.eq z) : x.eq z := by
  obtain ⟨m, hm, hnm⟩ := (eq_number hx).mp hxy
  obtain ⟨o, ho, hmo⟩ := (eq_number hm).mp hyz
  exact (eq_number hx).mpr ⟨o, ho, hnm.trans hmo⟩

theorem eq_trans (hxy : x.eq y) (hyz : y.eq z) : x.eq z := by
  revert y z
  apply induct (v := x)
  case null =>
    intro y z hxy hyz
    cases y
    case null => exact hyz
    all_goals cases hxy
  case bool  => exact fun b => number_trans rfl
  case int   => exact fun n => number_trans rfl
  case float => exact fun s d e => number_trans rfl
  case str =>
    intro s y z hxy hyz
    cases y
    case str t =>
      have hs : s = t := by simpa [eq] using hxy
      rwa [hs]
    all_goals cases hxy
  case list =>
    intro xs hi y z hxy hyz
    obtain ⟨ys, hy, hxs⟩ := eq_list.mp hxy
    subst hy
    obtain ⟨zs, hz, hys⟩ := eq_list.mp hyz
    exact eq_list.mpr ⟨zs, hz, eqItems_trans (fun x hx y z => hi x hx) hxs hys⟩
  case dict =>
    intro ms hi y z hxy hyz
    obtain ⟨ns, hy, hlen, hms⟩ := eq_dict.mp hxy
    subst hy
    obtain ⟨os, hz, hlen', hns⟩ := eq_dict.mp hyz
    exact eq_dict.mpr ⟨os, hz, hlen.trans hlen', eqMembers_trans (fun k x hx y z => hi k x hx) hms hns⟩

-- The keys of every dictionary in a value differ.
inductive Proper : Json → Prop
  | null : Proper null
  | bool {b : Bool} : Proper (bool b)
  | int {n : ℤ} : Proper (int n)
  | float {s : Bool} {d : ℕ} {e : ℤ} : Proper (float s d e)
  | str {s : String} : Proper (str s)
  | list {xs : List Json} : (∀ x ∈ xs, Proper x) → Proper (list xs)
  | dict {ms : Dict} : (ms.map Prod.fst).Nodup → (∀ m ∈ ms, Proper m.2) → Proper (dict ms)

theorem eqItems_refl (h : ∀ x ∈ xs, x.eq x) : eqItems xs xs := by
  induction xs
  case nil => rfl
  case cons x xs hi =>
    simp only [eqItems, Bool.and_eq_true]
    exact ⟨h x List.mem_cons_self, hi fun y hy => h y (List.mem_cons_of_mem _ hy)⟩

theorem eq_refl (h : Proper x) : x.eq x := by
  induction h
  case null => rfl
  case bool => exact eq_number rfl |>.mpr ⟨_, rfl, rfl⟩
  case int => exact eq_number rfl |>.mpr ⟨_, rfl, rfl⟩
  case float => exact eq_number rfl |>.mpr ⟨_, rfl, rfl⟩
  case str => simp [eq]
  case list xs _ hi => exact eq_list.mpr ⟨xs, rfl, eqItems_refl hi⟩
  case dict ms hn _ hi =>
    exact eq_dict.mpr ⟨ms, rfl, rfl, eqMembers_iff.mpr fun k x hx => ⟨x, Lookup.lookup_of_nodup hn hx, hi _ hx⟩⟩

section Same

-- Whether two values are the same, also in their types and in the order of their members
mutual

def same : Json → Json → Bool
  | null, y        => match y with | null => true | _ => false
  | bool b, y      => match y with | bool c => b == c | _ => false
  | int m, y       => match y with | int n => m == n | _ => false
  | float s d e, y => match y with | float t f g => s == t && d == f && e == g | _ => false
  | str s, y       => match y with | str t => s == t | _ => false
  | list xs, y     => match y with | list ys => sameItems xs ys | _ => false
  | dict ms, y     => match y with | dict ns => sameMembers ms ns | _ => false

def sameItems : List Json → List Json → Bool
  | [], ys      => ys.isEmpty
  | x :: xs, ys => match ys with | y :: ys => x.same y && sameItems xs ys | [] => false

def sameMembers : Dict → Dict → Bool
  | [], ns           => ns.isEmpty
  | (k, x) :: ms, ns => match ns with | (l, y) :: ns => k == l && x.same y && sameMembers ms ns | [] => false

end

theorem sameItems_iff (h : ∀ x ∈ xs, ∀ y, x.same y ↔ x = y) : sameItems xs ys ↔ xs = ys := by
  induction xs generalizing ys
  case nil =>
    cases ys
    case nil  => simp [sameItems]
    case cons => simp [sameItems]
  case cons x xs hi =>
    cases ys
    case nil => simp [sameItems]
    case cons y ys =>
      simp [sameItems, h x List.mem_cons_self y, hi fun x hx => h x (List.mem_cons_of_mem _ hx)]

theorem sameMembers_iff (h : ∀ k x, (k, x) ∈ ms → ∀ y, x.same y ↔ x = y) : sameMembers ms ns ↔ ms = ns := by
  induction ms generalizing ns
  case nil =>
    cases ns
    case nil  => simp [sameMembers]
    case cons => simp [sameMembers]
  case cons m ms hi =>
    cases ns
    case nil => simp [sameMembers]
    case cons n ns =>
      simp [sameMembers, h m.1 m.2 List.mem_cons_self n.2, hi fun k x hx => h k x (List.mem_cons_of_mem _ hx),
        Prod.ext_iff]

theorem same_iff : x.same y ↔ x = y := by
  revert y
  apply induct (v := x)
  case null => intro y; cases y <;> simp [same]
  case bool => intro b y; cases y <;> simp [same]
  case int => intro n y; cases y <;> simp [same]
  case float => intro s d e y; cases y <;> simp [same, and_assoc]
  case str => intro s y; cases y <;> simp [same]
  case list =>
    intro xs hi y
    cases y
    case list ys => simpa [same] using sameItems_iff fun x hx y => hi x hx
    all_goals simp [same]
  case dict =>
    intro ms hi y
    cases y
    case dict ns => simpa [same] using sameMembers_iff fun k x hx y => hi k x hx
    all_goals simp [same]

instance : DecidableEq Json :=
  fun _ _ => decidable_of_iff _ same_iff

end Same

end Json
end Python
