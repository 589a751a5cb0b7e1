import Mathlib.Data.List.TakeWhile

-- A text that arrives in parts, some of which are marked. From a mark on, the blanks at the start of a part go, until
-- a part has shown something else. The result is compared with the whole text without the blanks at its start.
namespace Trimming

variable {α : Type*} (blank : α → Bool)

structure Portion (α : Type*) where
  shown  : List α
  marked : Bool

-- The flag tells that there was a mark and nothing but blanks since.
def trim (flag : Bool) : List (Portion α) → List α
  | []      => []
  | p :: ps =>
    (if flag || p.marked then p.shown.dropWhile blank else p.shown) ++
      trim ((flag || p.marked) && p.shown.all blank) ps

def whole (ps : List (Portion α)) : List α :=
  ps.flatMap Portion.shown

-- There was a mark, in the last of the parts or with nothing but blanks since.
def Marked (before : List (Portion α)) (p : Portion α) : Prop :=
  p.marked = true ∨
    ∃ earlier q since, before = earlier ++ q :: since ∧ q.marked = true ∧ (whole (q :: since)).all blank = true

-- Where a part starts with a blank, there was a mark if and only if nothing but blanks came before it.
def Steady (ps : List (Portion α)) : Prop :=
  ∀ before p after, ps = before ++ p :: after → p.shown.head?.any blank = true →
    (Marked blank before p ↔ (whole before).all blank = true)

-- The same, from part to part
def SteadyFrom (flag allBlank : Bool) : List (Portion α) → Prop
  | []      => True
  | p :: ps =>
    (p.shown.head?.any blank → (flag || p.marked) = allBlank) ∧
      SteadyFrom ((flag || p.marked) && p.shown.all blank) (allBlank && p.shown.all blank) ps

variable {blank} {flag allBlank : Bool} {p : Portion α} {ps : List (Portion α)} {text : List α}

@[simp]
theorem whole_cons : whole (p :: ps) = p.shown ++ whole ps := rfl

@[simp]
theorem trim_nil : trim blank flag [] = [] := rfl

@[simp]
theorem whole_nil : whole ([] : List (Portion α)) = [] := rfl

theorem dropWhile_of_all (h : text.all blank = true) : text.dropWhile blank = [] :=
  List.dropWhile_eq_nil_iff.mpr (List.all_eq_true.mp h)

theorem isEmpty_dropWhile : (text.dropWhile blank).isEmpty = text.all blank := by
  induction text
  case nil => rfl
  case cons a text hi =>
    cases h : blank a
    case false => simp [h]
    case true  => simpa [h] using hi

theorem dropWhile_of_head (h : text.head?.any blank = false) : text.dropWhile blank = text := by
  cases text
  case nil => rfl
  case cons a text => exact List.dropWhile_cons_of_neg (by simpa using h)

theorem head_dropWhile : (text.dropWhile blank).head?.any blank = false := by
  induction text
  case nil => rfl
  case cons a text hi =>
    cases h : blank a
    case false => simp [h]
    case true  => simpa [h] using hi

theorem dropWhile_append_of_all (h : text.all blank = true) (rest : List α) :
    (text ++ rest).dropWhile blank = rest.dropWhile blank := by
  induction text
  case nil => rfl
  case cons a text hi =>
    obtain ⟨ha, ht⟩ := by simpa using h
    simpa [ha] using hi (by simpa using ht)

theorem dropWhile_append_of_not_all (h : text.all blank = false) (rest : List α) :
    (text ++ rest).dropWhile blank = text.dropWhile blank ++ rest := by
  induction text
  case nil => cases h
  case cons a text hi =>
    cases ha : blank a
    case false => simp [ha]
    case true  => simpa [ha] using hi (by simpa [ha] using h)

theorem trim_cons_of_flag (h : (flag || p.marked) = true) :
    trim blank flag (p :: ps) = p.shown.dropWhile blank ++ trim blank (p.shown.all blank) ps := by
  simp [trim, h]

theorem trim_cons_of_not_flag (h : (flag || p.marked) = false) :
    trim blank flag (p :: ps) = p.shown ++ trim blank false ps := by
  simp [trim, h]

theorem length_dropWhile : (text.dropWhile blank).length ≤ text.length :=
  (List.dropWhile_suffix _).length_le

-- Trimming adds nothing.
theorem length_trim : (trim blank flag ps).length ≤ (whole ps).length := by
  induction ps generalizing flag
  case nil => simp
  case cons p ps hi =>
    cases h : flag || p.marked
    case true =>
      simp only [trim_cons_of_flag h, whole_cons, List.length_append]
      exact Nat.add_le_add length_dropWhile hi
    case false =>
      simp only [trim_cons_of_not_flag h, whole_cons, List.length_append]
      exact Nat.add_le_add_left hi _

theorem dropWhile_eq_self_iff : text.dropWhile blank = text ↔ text.head?.any blank = false :=
  ⟨fun h => h ▸ head_dropWhile, dropWhile_of_head⟩

-- A text that has shown something keeps all of what follows, unless a part starts with a blank and is trimmed.
theorem trim_eq_whole_iff : trim blank flag ps = whole ps ↔ SteadyFrom blank flag false ps := by
  induction ps generalizing flag
  case nil => simp [SteadyFrom]
  case cons p ps hi =>
    cases h : flag || p.marked
    case false =>
      simp [trim_cons_of_not_flag h, SteadyFrom, h, hi]
    case true =>
      rw [trim_cons_of_flag h, whole_cons]
      have hparts : p.shown.dropWhile blank ++ trim blank (p.shown.all blank) ps = p.shown ++ whole ps ↔
          p.shown.dropWhile blank = p.shown ∧ trim blank (p.shown.all blank) ps = whole ps := by
        constructor
        case mpr =>
          intro ⟨hp, hps⟩
          rw [hp, hps]
        case mp =>
          intro heq
          have hlength := congrArg List.length heq
          simp only [List.length_append] at hlength
          have hp := @length_dropWhile _ blank p.shown
          have hps := @length_trim _ blank (p.shown.all blank) ps
          exact List.append_inj heq (by omega)
      rw [hparts, dropWhile_eq_self_iff, hi]
      simp [SteadyFrom, h]

-- As long as there were only blanks, the blanks at the start have to go.
theorem trim_eq_dropWhile_iff : trim blank flag ps = (whole ps).dropWhile blank ↔ SteadyFrom blank flag true ps := by
  induction ps generalizing flag
  case nil => simp [SteadyFrom]
  case cons p ps hi =>
    cases h : flag || p.marked
    case true =>
      rw [trim_cons_of_flag h, whole_cons]
      cases hall : p.shown.all blank
      case true =>
        rw [dropWhile_append_of_all hall, dropWhile_of_all hall, List.nil_append, hi]
        simp [SteadyFrom, h, hall]
      case false =>
        rw [dropWhile_append_of_not_all hall, List.append_right_inj, trim_eq_whole_iff]
        simp [SteadyFrom, h, hall]
    case false =>
      rw [trim_cons_of_not_flag h, whole_cons]
      cases hhead : p.shown.head?.any blank
      case true =>
        have hkept : (p.shown ++ trim blank false ps).head?.any blank = true := by
          cases hp : p.shown
          case nil      => simp [hp] at hhead
          case cons a t => simpa [hp] using hhead
        constructor
        case mp  => exact fun heq => absurd (heq ▸ hkept) (by simp [head_dropWhile])
        case mpr => exact fun hs => absurd (hs.left hhead) (by simp [h])
      case false =>
        cases hp : p.shown
        case nil => simp [SteadyFrom, h, hp, hi]
        case cons a t =>
          have hall : p.shown.all blank = false := by
            have ha : blank a = false := by simpa [hp] using hhead
            simp [hp, ha]
          rw [← hp, dropWhile_append_of_not_all hall, dropWhile_of_head hhead, List.append_right_inj, trim_eq_whole_iff]
          simp [SteadyFrom, h, hall, hhead]

theorem marked_cons {q : Portion α} {before : List (Portion α)} :
    Marked blank (q :: before) p ↔
      Marked blank before p ∨ (q.marked = true ∧ (whole (q :: before)).all blank = true) := by
  constructor
  case mp =>
    intro h
    cases h
    case inl hp => exact .inl (.inl hp)
    case inr h =>
      obtain ⟨earlier, r, since, heq, hr, hall⟩ := h
      cases earlier
      case nil =>
        cases heq
        exact .inr ⟨hr, hall⟩
      case cons e earlier =>
        cases heq
        exact .inl (.inr ⟨earlier, r, since, rfl, hr, hall⟩)
  case mpr =>
    intro h
    cases h
    case inr h => exact .inr ⟨[], q, before, rfl, h⟩
    case inl h =>
      cases h
      case inl hp => exact .inl hp
      case inr h =>
        obtain ⟨earlier, r, since, heq, h⟩ := h
        exact .inr ⟨q :: earlier, r, since, congrArg _ heq, h⟩

theorem steadyFrom_iff : SteadyFrom blank flag allBlank ps ↔
    ∀ before p after, ps = before ++ p :: after → p.shown.head?.any blank = true →
      ((Marked blank before p ∨ (flag = true ∧ (whole before).all blank = true)) ↔
        (allBlank = true ∧ (whole before).all blank = true)) := by
  induction ps generalizing flag allBlank
  case nil => simp [SteadyFrom]
  case cons q ps hi =>
    rw [SteadyFrom, hi]
    constructor
    case mp =>
      intro ⟨hq, hps⟩ before p after heq hhead
      cases before
      case nil =>
        cases heq
        have hflag := hq hhead
        simp [Marked, ← hflag, or_comm]
      case cons r before =>
        cases heq
        have hrest := hps before p after rfl hhead
        simp only [marked_cons, whole_cons, List.all_append, Bool.and_eq_true, Bool.or_eq_true] at hrest ⊢
        grind
    case mpr =>
      intro h
      constructor
      case left =>
        intro hhead
        have hq := h [] q ps rfl hhead
        simp only [Marked, whole_nil, List.all_nil, and_true] at hq
        have hno : ¬∃ earlier r since, ([] : List (Portion α)) = earlier ++ r :: since ∧ r.marked = true ∧
            (whole (r :: since)).all blank = true := by simp
        cases hm : q.marked <;> cases hf : flag <;> cases ha : allBlank <;> simp_all
      case right =>
        intro before p after heq hhead
        have hrest := h (q :: before) p after (congrArg _ heq) hhead
        simp only [marked_cons, whole_cons, List.all_append, Bool.and_eq_true, Bool.or_eq_true] at hrest ⊢
        grind

theorem steady_iff : Steady blank ps ↔ SteadyFrom blank false true ps := by
  simp [Steady, steadyFrom_iff]

-- Without a mark, nothing is trimmed.
theorem trim_of_not_marked (h : ∀ p ∈ ps, p.marked = false) : trim blank false ps = whole ps := by
  induction ps
  case nil => rfl
  case cons p ps hi =>
    have hp : (false || p.marked) = false := h p List.mem_cons_self
    rw [trim_cons_of_not_flag hp, hi fun q hq => h q (List.mem_cons_of_mem p hq), whole_cons]

end Trimming
