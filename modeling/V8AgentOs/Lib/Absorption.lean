import Mathlib.Data.Finset.Disjoint
import Mathlib.Data.Finset.Lattice.Basic
import Mathlib.Data.List.Basic

-- A list of entries with names. An entry that shares names with some of the list takes the place of the first of them,
-- and the others go. An entry that shares none comes last, unless the same entry is there.
namespace Absorption

section Enter

variable {γ δ : Type*} (meets : γ → Bool) (put : γ → List γ → γ)

-- The first entry that is met becomes one with the later ones that are met.
def enter : List γ → List γ
  | []      => []
  | l :: ls => if meets l then put l (ls.filter meets) :: ls.filter (!meets ·) else l :: enter ls

variable {meets put} {ls : List γ}

theorem enter_eq (h : ls.any meets) : ∃ before l after, ls = before ++ l :: after ∧ meets l ∧
    (∀ b ∈ before, meets b = false) ∧
      enter meets put ls = before ++ put l (after.filter meets) :: after.filter (!meets ·) := by
  induction ls
  case nil => cases h
  case cons l ls hi =>
    rw [enter]
    split
    case isTrue hl => exact ⟨[], l, ls, rfl, hl, by simp, rfl⟩
    case isFalse hl =>
      have h : ls.any meets := by simpa [hl] using h
      have ⟨before, l', after, hls, hl', hb, he⟩ := hi h
      refine ⟨l :: before, l', after, by rw [hls]; rfl, hl', ?_, by rw [he]; rfl⟩
      simpa [hl] using hb

theorem map_enter {f : γ → δ} {meets' : δ → Bool} {put' : δ → List δ → δ} (hm : ∀ l, meets l = meets' (f l))
    (hp : ∀ l ls, f (put l ls) = put' (f l) (ls.map f)) :
    (enter meets put ls).map f = enter meets' put' (ls.map f) := by
  have e : meets = meets' ∘ f := funext hm
  induction ls
  case nil => rfl
  case cons l ls hi =>
    rw [enter, List.map_cons, enter, ← hm]
    split
    case isTrue => simp [hp, e, List.filter_map, Function.comp_def]
    case isFalse => rw [List.map_cons, hi]

-- The places of the entries that are met
variable (meets) in
def places (ls : List γ) : List ℕ :=
  (ls.zipIdx.filter fun l => meets l.1).map Prod.snd

theorem places_cons {l : γ} : places meets (l :: ls) =
    if meets l then 0 :: (places meets ls).map (· + 1) else (places meets ls).map (· + 1) := by
  rw [places, List.zipIdx_cons', List.filter_cons]
  split
  case isTrue => simp [places, List.filter_map, Function.comp_def]
  case isFalse => simp [places, List.filter_map, Function.comp_def]

theorem places_eq_nil : places meets ls = [] ↔ ls.any meets = false := by
  induction ls
  case nil => simp [places]
  case cons l ls hi =>
    rw [places_cons]
    split
    case isTrue h => simp [h]
    case isFalse h => simp [h, hi]

theorem foldr_eraseIdx {x : γ} {is : List ℕ} :
    (is.map (· + 1)).foldr (fun i ls => ls.eraseIdx i) (x :: ls) = x :: is.foldr (fun i ls => ls.eraseIdx i) ls := by
  induction is
  case nil => rfl
  case cons i is hi => rw [List.map_cons, List.foldr_cons, hi, List.eraseIdx_cons_succ, List.foldr_cons]

theorem erase_places : (places meets ls).foldr (fun i ls => ls.eraseIdx i) ls = ls.filter (!meets ·) := by
  induction ls
  case nil => rfl
  case cons l ls hi =>
    rw [places_cons]
    split
    case isTrue h =>
      rw [List.foldr_cons, foldr_eraseIdx, hi, List.eraseIdx_cons_zero, List.filter_cons, if_neg (by simp [h])]
    case isFalse h => rw [foldr_eraseIdx, hi, List.filter_cons, if_pos (by simp [h])]

-- The same by places: the first is overwritten, and the others are deleted from the last on.
theorem enter_places {x : γ} {first : ℕ} {rest : List ℕ} (h : places meets ls = first :: rest) :
    rest.reverse.foldl List.eraseIdx (ls.set first x) = enter meets (fun _ _ => x) ls := by
  rw [List.foldl_reverse]
  induction ls generalizing first rest
  case nil => cases h
  case cons l ls hi =>
    rw [places_cons] at h
    rw [enter]
    split at h
    case isTrue hl =>
      cases h
      rw [if_pos hl, List.set_cons_zero, foldr_eraseIdx, erase_places]
    case isFalse hl =>
      have ⟨first', rest', hp⟩ : ∃ first' rest', places meets ls = first' :: rest' := by
        cases hp : places meets ls
        case nil => simp [hp] at h
        case cons i is => exact ⟨i, is, rfl⟩
      rw [hp] at h
      cases h
      rw [if_neg hl, List.set_cons_succ, foldr_eraseIdx, hi hp]

end Enter

variable {α β : Type*} [DecidableEq β] (names : α → Finset β) (same : α → α → Bool)

def shares (x y : α) : Bool :=
  !decide (Disjoint (names x) (names y))

def absorb (merged : List α) (item : α) : List α :=
  if merged.any (shares names item) then enter (shares names item) (fun _ _ => item) merged
  else if merged.any (same · item) then merged
  else merged ++ [item]

def absorbAll (items : List α) : List α :=
  items.foldl (absorb names same) []

-- The entries that came to stand in one place, with their numbers. The first of them opened the place.
structure Line (α : Type*) where
  earlier : List (ℕ × α)
  latest  : ℕ × α

namespace Line

def members (l : Line α) : List (ℕ × α) :=
  l.earlier ++ [l.latest]

def first (l : Line α) : ℕ :=
  (l.earlier.head?.getD l.latest).1

theorem exists_first (l : Line α) : ∃ m ∈ l.members, l.first = m.1 := by
  cases l
  case mk earlier latest =>
    cases earlier
    case nil => exact ⟨latest, by simp [members], rfl⟩
    case cons m _ => exact ⟨m, by simp [members], rfl⟩

-- The line goes on with an entry, and takes in other lines that end with it.
def extend (l : Line α) (ls : List (Line α)) (e : ℕ × α) : Line α :=
  ⟨l.members ++ ls.flatMap members, e⟩

variable {l : Line α} {ls : List (Line α)} {e m : ℕ × α}

theorem first_extend : (l.extend ls e).first = l.first := by
  cases l
  case mk earlier latest => cases earlier <;> rfl

theorem mem_extend : m ∈ (l.extend ls e).members ↔ (m ∈ l.members ∨ ∃ o ∈ ls, m ∈ o.members) ∨ m = e := by
  simp [extend, members, or_assoc]

end Line

def lengthen (lines : List (Line α)) (e : ℕ × α) : List (Line α) :=
  if lines.any fun l => shares names e.2 l.latest.2 then
    enter (fun l => shares names e.2 l.latest.2) (fun l ls => l.extend ls e) lines
  else if lines.any fun l => same l.latest.2 e.2 then lines
  else lines ++ [⟨[], e⟩]

variable {names same} {x y : α} {e : ℕ × α} {items merged : List α} {lines : List (Line α)}

theorem shares_iff : shares names x y ↔ ¬Disjoint (names x) (names y) := by
  simp [shares]

theorem not_shares : shares names x y = false ↔ Disjoint (names x) (names y) := by
  simp [shares]

theorem shares_comm : shares names x y = shares names y x := by
  simp only [shares, disjoint_comm]

theorem map_lengthen : (lengthen names same lines e).map (·.latest.2) =
    absorb names same (lines.map (·.latest.2)) e.2 := by
  rw [lengthen, absorb, List.any_map, List.any_map, Function.comp_def, Function.comp_def]
  split
  case isTrue => exact map_enter (fun _ => rfl) (fun _ _ => rfl)
  case isFalse =>
    split
    case isTrue => rfl
    case isFalse => simp

-- Where every entry of `items` is, when the list holds the latest of each line.
variable (names same) in
structure Account (items : List α) (lines : List (Line α)) : Prop where
  members  : ∀ l ∈ lines, ∀ m ∈ l.members, items[m.1]? = some m.2
  once     : ((lines.flatMap Line.members).map Prod.fst).Nodup
  opened   : ∀ l ∈ lines, ∀ m ∈ l.members, l.first ≤ m.1
  order    : lines.Pairwise fun l l' => l.first < l'.first
  replaced : ∀ l ∈ lines, ∀ m ∈ l.earlier, ∃ m' ∈ l.members, m.1 < m'.1 ∧ shares names m.2 m'.2
  all      : ∀ i x, items[i]? = some x → (i, x) ∈ lines.flatMap Line.members ∨
    ∃ m ∈ lines.flatMap Line.members, m.1 < i ∧ same m.2 x
  apart    : lines.Pairwise fun l l' => Disjoint (names l.latest.2) (names l'.latest.2)
  nameless : lines.Pairwise fun l l' => names l.latest.2 = ∅ → names l'.latest.2 = ∅ →
    same l.latest.2 l'.latest.2 = false

-- What an entry can do to the lines
variable (names same) in
inductive Lengthened (lines : List (Line α)) (e : ℕ × α) : List (Line α) → Prop
  | extended {before l after} :
    lines = before ++ l :: after →
    shares names e.2 l.latest.2 →
    (∀ b ∈ before, shares names e.2 b.latest.2 = false) →
    Lengthened lines e (before ++
      l.extend (after.filter fun l => shares names e.2 l.latest.2) e ::
      after.filter fun l => !shares names e.2 l.latest.2)
  | kept {l} :
    (∀ l ∈ lines, shares names e.2 l.latest.2 = false) → l ∈ lines → same l.latest.2 e.2 → Lengthened lines e lines
  | opened :
    (∀ l ∈ lines, shares names e.2 l.latest.2 = false) → (∀ l ∈ lines, same l.latest.2 e.2 = false) →
    Lengthened lines e (lines ++ [⟨[], e⟩])

theorem lengthened : Lengthened names same lines e (lengthen names same lines e) := by
  rw [lengthen]
  split
  case isTrue h =>
    have ⟨before, l, after, hl, hs, hb, he⟩ := @enter_eq _ _ (fun l ls => l.extend ls e) _ h
    rw [he]
    exact .extended hl hs hb
  case isFalse h =>
    have h : ∀ l ∈ lines, shares names e.2 l.latest.2 = false := by simpa using h
    split
    case isTrue hs =>
      have ⟨l, hl, hs⟩ := List.any_eq_true.mp hs
      exact .kept h hl hs
    case isFalse hs => exact .opened h (by simpa using hs)

theorem perm_filter {l : Line α} {before after : List (Line α)} {p : Line α → Bool} :
    ((before ++ l.extend (after.filter p) e :: after.filter fun l => !p l).flatMap
      Line.members).Perm (e :: (before ++ l :: after).flatMap Line.members) := by
  have h : ((after.filter p).flatMap Line.members ++ (after.filter fun l => !p l).flatMap Line.members).Perm
      (after.flatMap Line.members) := by
    rw [← List.flatMap_append]
    exact (List.filter_append_perm p after).flatMap_right _
  have e₁ : (before ++ l.extend (after.filter p) e :: after.filter fun l => !p l).flatMap
      Line.members = (before.flatMap Line.members ++ l.members ++ (after.filter p).flatMap Line.members) ++
        e :: (after.filter fun l => !p l).flatMap Line.members := by
    simp [Line.extend, Line.members]
  have e₂ : (before ++ l :: after).flatMap Line.members =
      before.flatMap Line.members ++ l.members ++ after.flatMap Line.members := by simp
  rw [e₁, e₂]
  apply List.perm_middle.trans
  apply List.Perm.cons
  rw [List.append_assoc]
  exact h.append_left _

theorem lengthened_perm {lines' : List (Line α)} (h : Lengthened names same lines e lines') :
    (lines' = lines ∧ ∃ l ∈ lines, same l.latest.2 e.2) ∨
      (lines'.flatMap Line.members).Perm (e :: lines.flatMap Line.members) := by
  cases h
  case extended hl _ _ => exact .inr <| hl ▸ perm_filter
  case kept l _ hl hs => exact .inl ⟨rfl, l, hl, hs⟩
  case opened =>
    rw [List.flatMap_append]
    exact .inr List.perm_append_comm

theorem mem_line {l : Line α} {m : ℕ × α} (hl : l ∈ lines) (hm : m ∈ l.members) : m ∈ lines.flatMap Line.members :=
  List.mem_flatMap.mpr ⟨l, hl, hm⟩

namespace Account

variable {lines' : List (Line α)}

theorem lt_length (a : Account names same items lines) {m : ℕ × α} (hm : m ∈ lines.flatMap Line.members) :
    m.1 < items.length := by
  have ⟨l, hl, hm⟩ := List.mem_flatMap.mp hm
  exact (List.getElem?_eq_some_iff.mp <| a.members l hl m hm).choose

theorem members_step (a : Account names same items lines) (h : Lengthened names same lines (items.length, x) lines')
    {m : ℕ × α} (hm : m ∈ lines'.flatMap Line.members) : (items ++ [x])[m.1]? = some m.2 := by
  have old (hm : m ∈ lines.flatMap Line.members) : (items ++ [x])[m.1]? = some m.2 := by
    have ⟨l, hl, hm'⟩ := List.mem_flatMap.mp hm
    rw [List.getElem?_append_left (a.lt_length hm)]
    exact a.members l hl m hm'
  obtain ⟨e, _⟩ | hp := lengthened_perm h
  case inl => exact old (e ▸ hm)
  case inr =>
    cases hp.mem_iff.mp hm
    case head => simp
    case tail hm => exact old hm

theorem once_step (a : Account names same items lines) (h : Lengthened names same lines (items.length, x) lines') :
    ((lines'.flatMap Line.members).map Prod.fst).Nodup := by
  obtain ⟨e, _⟩ | hp := lengthened_perm h
  case inl => exact e ▸ a.once
  case inr =>
    rw [(hp.map Prod.fst).nodup_iff, List.map_cons, List.nodup_cons]
    refine ⟨fun hm => ?_, a.once⟩
    have ⟨m, hm, he⟩ := List.mem_map.mp hm
    exact absurd (a.lt_length hm) (by simp only at he; omega)

theorem all_step (a : Account names same items lines) (h : Lengthened names same lines (items.length, x) lines')
    (i : ℕ) (y : α) (hi : (items ++ [x])[i]? = some y) : (i, y) ∈ lines'.flatMap Line.members ∨
      ∃ m ∈ lines'.flatMap Line.members, m.1 < i ∧ same m.2 y := by
  have sub : ∀ m ∈ lines.flatMap Line.members, m ∈ lines'.flatMap Line.members := by
    intro m hm
    obtain ⟨e, _⟩ | hp := lengthened_perm h
    case inl => exact e ▸ hm
    case inr => exact hp.mem_iff.mpr <| List.mem_cons_of_mem _ hm
  by_cases hlt : i < items.length
  case pos =>
    rw [List.getElem?_append_left hlt] at hi
    obtain h | ⟨m, hm, h⟩ := a.all i y hi
    case inl => exact .inl <| sub _ h
    case inr => exact .inr ⟨m, sub _ hm, h⟩
  case neg =>
    have hlen := (List.getElem?_eq_some_iff.mp hi).choose
    have e : i = items.length := by simp at hlen; omega
    cases e
    have hy : x = y := by simpa using hi
    cases hy
    obtain ⟨e, l, hl, hs⟩ | hp := lengthened_perm h
    case inl =>
      have hm : l.latest ∈ lines.flatMap Line.members := mem_line hl (by simp [Line.members])
      exact .inr ⟨l.latest, sub _ hm, a.lt_length hm, hs⟩
    case inr => exact .inl <| hp.mem_iff.mpr List.mem_cons_self

theorem opened_step (a : Account names same items lines) (h : Lengthened names same lines (items.length, x) lines') :
    ∀ l ∈ lines', ∀ m ∈ l.members, l.first ≤ m.1 := by
  cases h
  case kept => exact a.opened
  case opened =>
    intro l hl m hm
    cases List.mem_append.mp hl
    case inl hl => exact a.opened l hl m hm
    case inr hl =>
      cases List.mem_singleton.mp hl
      cases List.mem_singleton.mp hm
      exact Nat.le_refl _
  case extended before l after e _ _ =>
    cases e
    intro l' hl' m hm
    have hlast : l.first < items.length := by
      have ⟨m, hm, e⟩ := l.exists_first
      exact e ▸ a.lt_length (mem_line (by simp) hm)
    have hafter := (List.pairwise_cons.mp (List.pairwise_append.mp a.order).right.left).left
    cases List.mem_append.mp hl'
    case inl hl' => exact a.opened l' (by simp [hl']) m hm
    case inr hl' =>
      cases List.mem_cons.mp hl'
      case inr hl' => exact a.opened l' (by simp [List.mem_of_mem_filter hl']) m hm
      case inl hl' =>
        cases hl'
        rw [Line.first_extend]
        obtain (hm | ⟨o, ho, hm⟩) | hm := Line.mem_extend.mp hm
        case inl.inl => exact a.opened l (by simp) m hm
        case inl.inr =>
          have ho := List.mem_of_mem_filter ho
          exact Nat.le_of_lt <| Nat.lt_of_lt_of_le (hafter o ho) (a.opened o (by simp [ho]) m hm)
        case inr =>
          cases hm
          exact Nat.le_of_lt hlast

theorem order_step (a : Account names same items lines) (h : Lengthened names same lines (items.length, x) lines') :
    lines'.Pairwise fun l l' => l.first < l'.first := by
  cases h
  case kept => exact a.order
  case opened =>
    apply List.pairwise_append.mpr
    refine ⟨a.order, List.pairwise_singleton _ _, fun l hl l' hl' => ?_⟩
    cases List.mem_singleton.mp hl'
    have ⟨m, hm, e⟩ := l.exists_first
    exact e ▸ a.lt_length (mem_line hl hm)
  case extended before l after e _ _ =>
    cases e
    have ⟨hb, hla, hbla⟩ := List.pairwise_append.mp a.order
    have ⟨hl, ha⟩ := List.pairwise_cons.mp hla
    apply List.pairwise_append.mpr
    refine ⟨hb, List.pairwise_cons.mpr ⟨fun o ho => ?_, ha.filter _⟩, fun o ho o' ho' => ?_⟩
    case refine_1 =>
      rw [Line.first_extend]
      exact hl o <| List.mem_of_mem_filter ho
    case refine_2 =>
      cases List.mem_cons.mp ho'
      case inl h =>
        rw [h, Line.first_extend]
        exact hbla o ho l List.mem_cons_self
      case inr h => exact hbla o ho o' <| List.mem_cons_of_mem _ <| List.mem_of_mem_filter h

theorem replaced_step (a : Account names same items lines) (h : Lengthened names same lines (items.length, x) lines') :
    ∀ l ∈ lines', ∀ m ∈ l.earlier, ∃ m' ∈ l.members, m.1 < m'.1 ∧ shares names m.2 m'.2 := by
  cases h
  case kept => exact a.replaced
  case opened =>
    intro l hl m hm
    cases List.mem_append.mp hl
    case inl hl => exact a.replaced l hl m hm
    case inr hl =>
      cases List.mem_singleton.mp hl
      cases hm
  case extended before l after e hs _ =>
    cases e
    -- A line that shares names with the entry goes on with it.
    have joined {o : Line α} (ho : o ∈ before ++ l :: after) (hs : shares names x o.latest.2) {m : ℕ × α}
        (hm : m ∈ o.members) :
        ∃ m', (m' ∈ o.members ∨ m' = (items.length, x)) ∧ m.1 < m'.1 ∧ shares names m.2 m'.2 := by
      cases List.mem_append.mp hm
      case inl hm =>
        have ⟨m', hm', h⟩ := a.replaced o ho m hm
        exact ⟨m', .inl hm', h⟩
      case inr hm' =>
        cases List.mem_singleton.mp hm'
        exact ⟨_, .inr rfl, a.lt_length (mem_line ho hm), by rwa [shares_comm]⟩
    intro l' hl' m hm
    cases List.mem_append.mp hl'
    case inl hl' => exact a.replaced l' (by simp [hl']) m hm
    case inr hl' =>
      cases List.mem_cons.mp hl'
      case inr hl' => exact a.replaced l' (by simp [List.mem_of_mem_filter hl']) m hm
      case inl hl' =>
        cases hl'
        cases List.mem_append.mp hm
        case inl hm =>
          have ⟨m', hm', h⟩ := joined (by simp) hs hm
          exact ⟨m', Line.mem_extend.mpr <| hm'.imp .inl id, h⟩
        case inr hm =>
          have ⟨o, ho, hm⟩ := List.mem_flatMap.mp hm
          have ⟨hoa, hos⟩ := List.mem_filter.mp ho
          have ⟨m', hm', h⟩ := joined (by simp [hoa]) hos hm
          exact ⟨m', Line.mem_extend.mpr <| hm'.imp (fun h => .inr ⟨o, ho, h⟩) id, h⟩

theorem apart_step (a : Account names same items lines) (h : Lengthened names same lines (items.length, x) lines') :
    lines'.Pairwise fun l l' => Disjoint (names l.latest.2) (names l'.latest.2) := by
  cases h
  case kept => exact a.apart
  case opened hs _ =>
    apply List.pairwise_append.mpr
    refine ⟨a.apart, List.pairwise_singleton _ _, fun l hl l' hl' => ?_⟩
    cases List.mem_singleton.mp hl'
    exact (not_shares.mp <| hs l hl).symm
  case extended before l after e _ hb =>
    cases e
    have ⟨hb', hla, hbla⟩ := List.pairwise_append.mp a.apart
    have ⟨_, ha⟩ := List.pairwise_cons.mp hla
    apply List.pairwise_append.mpr
    refine ⟨hb', List.pairwise_cons.mpr ⟨fun o ho => ?_, ha.filter _⟩, fun o ho o' ho' => ?_⟩
    case refine_1 =>
      have hs : shares names x o.latest.2 = false := by simpa using List.of_mem_filter ho
      exact not_shares.mp hs
    case refine_2 =>
      cases List.mem_cons.mp ho'
      case inl h =>
        cases h
        exact (not_shares.mp <| hb o ho).symm
      case inr h => exact hbla o ho o' <| List.mem_cons_of_mem _ <| List.mem_of_mem_filter h

theorem nameless_step (a : Account names same items lines) (h : Lengthened names same lines (items.length, x) lines') :
    lines'.Pairwise fun l l' => names l.latest.2 = ∅ → names l'.latest.2 = ∅ → same l.latest.2 l'.latest.2 = false := by
  cases h
  case kept => exact a.nameless
  case opened _ hs =>
    apply List.pairwise_append.mpr
    refine ⟨a.nameless, List.pairwise_singleton _ _, fun l hl l' hl' _ _ => ?_⟩
    cases List.mem_singleton.mp hl'
    exact hs l hl
  case extended before _ after e hs _ =>
    cases e
    have hx : names x ≠ ∅ := fun h => shares_iff.mp hs <| h ▸ Finset.disjoint_empty_left _
    have ⟨hb', hla, hbla⟩ := List.pairwise_append.mp a.nameless
    have ⟨_, ha⟩ := List.pairwise_cons.mp hla
    apply List.pairwise_append.mpr
    refine ⟨hb', List.pairwise_cons.mpr ⟨fun _ _ h => absurd h hx, ha.filter _⟩, fun o ho o' ho' => ?_⟩
    cases List.mem_cons.mp ho'
    case inl h =>
      cases h
      exact fun _ h => absurd h hx
    case inr h => exact hbla o ho o' <| List.mem_cons_of_mem _ <| List.mem_of_mem_filter h

theorem step (a : Account names same items lines) :
    Account names same (items ++ [x]) (lengthen names same lines (items.length, x)) where
  members _ hl _ hm := a.members_step lengthened (mem_line hl hm)
  once     := a.once_step lengthened
  opened   := a.opened_step lengthened
  order    := a.order_step lengthened
  replaced := a.replaced_step lengthened
  all      := a.all_step lengthened
  apart    := a.apart_step lengthened
  nameless := a.nameless_step lengthened

end Account

variable (names same) in
theorem exists_account (items : List α) :
    ∃ lines, Account names same items lines ∧ lines.map (·.latest.2) = absorbAll names same items := by
  induction items using List.reverseRecOn
  case nil =>
    refine ⟨[], ?_, rfl⟩
    constructor <;> simp
  case append_singleton items x hi =>
    have ⟨lines, a, e⟩ := hi
    refine ⟨_, a.step, ?_⟩
    rw [map_lengthen, e, absorbAll, absorbAll, List.foldl_append]
    rfl

-- An entry without names stays, where entries that are the same have names or not.
theorem exists_nameless (congr : ∀ x ∈ items, ∀ y ∈ items, same x y → (names x = ∅ ↔ names y = ∅))
    (hx : x ∈ items) (hn : names x = ∅) :
    ∃ r ∈ absorbAll names same items, names r = ∅ ∧ (r = x ∨ same r x) := by
  have ⟨lines, a, e⟩ := exists_account names same items
  rw [← e]
  have latest {m : ℕ × α} (hm : m ∈ lines.flatMap Line.members) (hn : names m.2 = ∅) :
      m.2 ∈ lines.map (·.latest.2) := by
    have ⟨l, hl, hm⟩ := List.mem_flatMap.mp hm
    cases List.mem_append.mp hm
    case inl hm =>
      have ⟨_, _, _, h⟩ := a.replaced l hl m hm
      exact absurd (hn ▸ Finset.disjoint_empty_left _) (shares_iff.mp h)
    case inr hm =>
      cases List.mem_singleton.mp hm
      exact List.mem_map_of_mem hl
  have ⟨i, hi⟩ := List.getElem?_of_mem hx
  obtain hm | ⟨m, hm, _, hs⟩ := a.all i x hi
  case inl => exact ⟨x, latest hm hn, hn, .inl rfl⟩
  case inr =>
    have ⟨l, hl, hm'⟩ := List.mem_flatMap.mp hm
    have hn' := (congr m.2 (List.mem_of_getElem? <| a.members l hl m hm') x hx hs).mpr hn
    exact ⟨m.2, latest hm hn', hn', .inr hs⟩

section Again

theorem absorb_apart (h : ∀ m ∈ merged, Disjoint (names m) (names x)) :
    absorb names same merged x = if merged.any (same · x) then merged else merged ++ [x] := by
  have : merged.any (shares names x) = false := by
    rw [List.any_eq_false]
    exact fun m hm => by simpa using not_shares.mpr (h m hm).symm
  rw [absorb, this]
  rfl

variable (same) in
-- Of entries that share no names, only those go that are the same as an earlier one.
theorem foldl_apart {rest : List α} (h : (merged ++ rest).Pairwise fun x y => Disjoint (names x) (names y)) :
    ∃ added, rest.foldl (absorb names same) merged = merged ++ added ∧ added.Sublist rest ∧
      ∀ r ∈ rest, r ∈ added ∨ ∃ m ∈ merged ++ added, same m r := by
  induction rest generalizing merged
  case nil => exact ⟨[], by simp, .refl _, by simp⟩
  case cons x rest hi =>
    have hx : ∀ m ∈ merged, Disjoint (names m) (names x) := by
      intro m hm
      exact (List.pairwise_append.mp h).right.right m hm x List.mem_cons_self
    rw [List.foldl_cons, absorb_apart hx]
    split
    case isTrue hs =>
      have ⟨m, hm, hs⟩ := List.any_eq_true.mp hs
      have ⟨added, e, hsub, hall⟩ := hi (h.sublist ((List.sublist_cons_self x rest).append_left merged))
      refine ⟨added, e, hsub.cons x, fun r hr => ?_⟩
      cases hr
      case head => exact .inr ⟨m, by simp [hm], hs⟩
      case tail hr => exact hall r hr
    case isFalse =>
      have ⟨added, e, hsub, hall⟩ := @hi (merged ++ [x]) (by simpa using h)
      refine ⟨x :: added, by simp [e], hsub.cons_cons x, fun r hr => ?_⟩
      cases hr
      case head => exact .inl List.mem_cons_self
      case tail hr =>
        refine (hall r hr).imp (List.mem_cons_of_mem _) fun ⟨m, hm, hs⟩ => ⟨m, by simpa using hm, hs⟩

theorem foldl_distinct {rest : List α}
    (h : (merged ++ rest).Pairwise fun x y => Disjoint (names x) (names y) ∧ same x y = false) :
    rest.foldl (absorb names same) merged = merged ++ rest := by
  induction rest generalizing merged
  case nil => exact (List.append_nil _).symm
  case cons x rest hi =>
    have hx (m : α) (hm : m ∈ merged) := (List.pairwise_append.mp h).right.right m hm x List.mem_cons_self
    have hany : merged.any (same · x) = false := by
      rw [List.any_eq_false]
      exact fun m hm => by simp [(hx m hm).right]
    rw [List.foldl_cons, absorb_apart fun m hm => (hx m hm).left, hany, if_neg Bool.false_ne_true,
      @hi (merged ++ [x]) (by simpa using h), List.append_assoc]
    rfl

theorem pairwise_absorbAll : (absorbAll names same items).Pairwise fun x y => Disjoint (names x) (names y) := by
  have ⟨lines, a, e⟩ := exists_account names same items
  rw [← e, List.pairwise_map]
  exact a.apart

theorem absorbAll_again : (absorbAll names same (absorbAll names same items)).Sublist (absorbAll names same items) ∧
    ∀ r ∈ absorbAll names same items, r ∈ absorbAll names same (absorbAll names same items) ∨
      ∃ r' ∈ absorbAll names same (absorbAll names same items), same r' r := by
  have h : ([] ++ absorbAll names same items).Pairwise fun x y => Disjoint (names x) (names y) := pairwise_absorbAll
  have ⟨added, e, hsub, hall⟩ := foldl_apart same h
  have e : absorbAll names same (absorbAll names same items) = added := e
  exact e ▸ ⟨hsub, hall⟩

end Again

-- Entries that share a name have the same names, and so have entries that are the same.
variable (names same) in
structure Steady (items : List α) : Prop where
  shared : ∀ x ∈ items, ∀ y ∈ items, shares names x y → names x = names y
  equal  : ∀ x ∈ items, ∀ y ∈ items, same x y → names x = names y

-- Another version of an entry; one without names has none.
variable (names) in
structure Version (x y : α) : Prop where
  keeps    : names x = names y
  nameless : names x = ∅ → x = y

section Steady

variable (s : Steady names same items)
include s

theorem names_member (a : Account names same items lines) {l : Line α} (hl : l ∈ lines) {m : ℕ × α}
    (hm : m ∈ l.members) : names m.2 = names l.latest.2 := by
  induction hn : items.length - m.1 using Nat.strongRecOn generalizing m
  case ind n hi =>
    cases List.mem_append.mp hm
    case inr h => rw [List.mem_singleton.mp h]
    case inl h =>
      have ⟨m', hm', hlt, hs⟩ := a.replaced l hl m h
      have hlt' := a.lt_length (mem_line hl hm')
      have e : names m'.2 = names l.latest.2 := hi _ (by omega) hm' rfl
      have hi₁ := List.mem_of_getElem? (a.members l hl m hm)
      have hi₂ := List.mem_of_getElem? (a.members l hl m' hm')
      rw [← e, s.shared _ hi₁ _ hi₂ hs]

theorem exists_names (hx : x ∈ items) : ∃ r ∈ absorbAll names same items, names r = names x := by
  have ⟨lines, a, e⟩ := exists_account names same items
  rw [← e]
  have ⟨i, hi⟩ := List.getElem?_of_mem hx
  obtain hm | ⟨m, hm, _, hs⟩ := a.all i x hi
  case inl =>
    have ⟨l, hl, hm⟩ := List.mem_flatMap.mp hm
    exact ⟨_, List.mem_map_of_mem hl, (names_member s a hl hm).symm⟩
  case inr =>
    have ⟨l, hl, hm⟩ := List.mem_flatMap.mp hm
    refine ⟨_, List.mem_map_of_mem hl, (names_member s a hl hm).symm.trans ?_⟩
    exact s.equal _ (List.mem_of_getElem? <| a.members l hl m hm) x hx hs

end Steady

-- The list holds some version of every entry.
variable (names same) in
structure Settled (items merged : List α) : Prop where
  mem      : ∀ r ∈ merged, r ∈ items
  apart    : merged.Pairwise fun x y => Disjoint (names x) (names y)
  named    : ∀ x ∈ items, ∃ r ∈ merged, names r = names x
  nameless : ∀ x ∈ items, names x = ∅ → ∃ r ∈ merged, names r = ∅ ∧ same r x

namespace Settled

variable {merged' : List α}

omit [DecidableEq β] in
theorem versions_map (h : List.Forall₂ (Version names) merged merged') : merged.map names = merged'.map names := by
  induction h
  case nil => rfl
  case cons h _ hi => rw [List.map_cons, List.map_cons, hi, h.keeps]

omit [DecidableEq β] in
theorem versions_mem (h : List.Forall₂ (Version names) merged merged') {r : α} (hr : r ∈ merged)
    (hn : names r = ∅) : r ∈ merged' := by
  induction h
  case nil => exact hr
  case cons h _ hi =>
    cases hr
    case head => exact h.nameless hn ▸ List.mem_cons_self
    case tail hr => exact List.mem_cons_of_mem _ (hi hr)

omit [DecidableEq β] in
theorem version (st : Settled names same items merged) (h : List.Forall₂ (Version names) merged merged')
    (mem : ∀ r ∈ merged', r ∈ items) : Settled names same items merged' where
  mem      := mem
  apart    := by
    have := st.apart
    rwa [← List.pairwise_map, versions_map h, List.pairwise_map] at this
  named x hx := by
    have ⟨r, hr, e⟩ := st.named x hx
    have hm : names x ∈ merged'.map names := versions_map h ▸ e ▸ List.mem_map_of_mem hr
    exact List.mem_map.mp hm
  nameless x hx hn := by
    have ⟨r, hr, hn, hs⟩ := st.nameless x hx hn
    exact ⟨r, versions_mem h hr hn, hn, hs⟩

omit [DecidableEq β] in
theorem versions_refl : List.Forall₂ (Version names) merged merged := by
  induction merged
  case nil => exact .nil
  case cons hi => exact .cons ⟨rfl, fun _ => rfl⟩ hi

omit [DecidableEq β] in
theorem versions_trans {merged'' : List α} (h : List.Forall₂ (Version names) merged merged')
    (h' : List.Forall₂ (Version names) merged' merged'') : List.Forall₂ (Version names) merged merged'' := by
  induction h generalizing merged''
  case nil => exact h'
  case cons hd _ hi =>
    cases h'
    case cons hd' htl' =>
      have h := fun hn => (hd.nameless hn).trans <| hd'.nameless <| hd.keeps ▸ hn
      exact .cons ⟨hd.keeps.trans hd'.keeps, h⟩ (hi htl')

theorem absorb_eq (st : Settled names same items merged) (s : Steady names same items) (hx : x ∈ items) :
    List.Forall₂ (Version names) merged (absorb names same merged x) ∧
      ∀ r ∈ absorb names same merged x, r ∈ items := by
  by_cases hn : names x = ∅
  case pos =>
    have ⟨r, hr, _, hs⟩ := st.nameless x hx hn
    have hany : merged.any (same · x) := List.any_eq_true.mpr ⟨r, hr, hs⟩
    rw [absorb_apart (fun m _ => hn ▸ Finset.disjoint_empty_right _), if_pos hany]
    exact ⟨versions_refl, st.mem⟩
  case neg =>
    have self {y : α} (h : names y = names x) : shares names x y := by
      rw [shares_iff, h, disjoint_self]
      exact hn
    have ⟨r, hr, e⟩ := st.named x hx
    have hany : merged.any (shares names x) := List.any_eq_true.mpr ⟨r, hr, self e⟩
    rw [absorb, if_pos hany]
    have ⟨before, l, after, hm, hl, _, he⟩ := @enter_eq _ _ (fun _ _ => x) _ hany
    have hitem {y : α} (hy : y ∈ before ++ l :: after) (h : shares names x y) : names x = names y :=
      s.shared x hx y (st.mem y (hm ▸ hy)) h
    -- the others of the list share no name with this entry
    have hafter : (after.filter (!shares names x ·)) = after := by
      apply List.filter_eq_self.mpr
      intro o ho
      cases hs : shares names x o
      case false => rfl
      case true =>
        have hd := (List.pairwise_cons.mp (List.pairwise_append.mp (hm ▸ st.apart)).right.left).left o ho
        rw [← hitem (by simp) hl, ← hitem (by simp [ho]) hs, disjoint_self] at hd
        exact absurd hd hn
    rw [he, hafter, hm]
    constructor
    case left =>
      apply List.rel_append versions_refl
      exact .cons ⟨(hitem (by simp) hl).symm, fun h => absurd (hitem (by simp) hl |>.trans h) hn⟩ versions_refl
    case right =>
      intro r hr
      obtain hr | hr | hr : r ∈ before ∨ r = x ∨ r ∈ after := by simpa using hr
      case inl => exact st.mem r (by simp [hm, hr])
      case inr.inl => exact hr ▸ hx
      case inr.inr => exact st.mem r (by simp [hm, hr])

theorem foldl_eq {group : List α} (st : Settled names same items merged) (s : Steady names same items)
    (hg : ∀ x ∈ group, x ∈ items) : List.Forall₂ (Version names) merged (group.foldl (absorb names same) merged) := by
  induction group generalizing merged
  case nil => exact versions_refl
  case cons x group hi =>
    have ⟨h, mem⟩ := st.absorb_eq s (hg x List.mem_cons_self)
    exact versions_trans h <| hi (st.version h mem) fun y hy => hg y (List.mem_cons_of_mem _ hy)

end Settled

theorem mem_absorbAll {r : α} (hr : r ∈ absorbAll names same items) : r ∈ items := by
  have ⟨lines, a, e⟩ := exists_account names same items
  rw [← e] at hr
  have ⟨l, hl, h⟩ := List.mem_map.mp hr
  exact h ▸ List.mem_of_getElem? (a.members l hl l.latest (by simp [Line.members]))

theorem Steady.settled (s : Steady names same items) (refl : ∀ x ∈ items, same x x) :
    Settled names same items (absorbAll names same items) where
  mem r hr := mem_absorbAll hr
  apart    := pairwise_absorbAll
  named x hx := exists_names s hx
  nameless x hx hn := by
    have congr : ∀ x ∈ items, ∀ y ∈ items, same x y → (names x = ∅ ↔ names y = ∅) :=
      fun x hx y hy h => by rw [s.equal x hx y hy h]
    have ⟨r, hr, hn, h⟩ := exists_nameless congr hx hn
    exact ⟨r, hr, hn, h.elim (· ▸ refl x hx) id⟩

theorem Steady.again (s : Steady names same items) :
    absorbAll names same (absorbAll names same items) = absorbAll names same items := by
  have ⟨lines, a, e⟩ := exists_account names same items
  apply foldl_distinct
  rw [List.nil_append, ← e, List.pairwise_map]
  refine (a.apart.and a.nameless).imp_of_mem fun {l l'} hl hl' ⟨hd, hn⟩ => ⟨hd, ?_⟩
  cases hs : same l.latest.2 l'.latest.2
  case false => rfl
  case true =>
    have mem {l : Line α} (hl : l ∈ lines) : l.latest.2 ∈ items :=
      List.mem_of_getElem? (a.members l hl l.latest (by simp [Line.members]))
    have he := s.equal _ (mem hl) _ (mem hl') hs
    rw [← he, disjoint_self] at hd
    rw [hn hd (he ▸ hd)] at hs
    cases hs

end Absorption
