import Mathlib.Data.List.DropRight

-- A list that is cut into segments. The first element of a segment is its head, and `breaks h a` says that `a` does
-- not stay in a segment with the head `h`. Whether an element begins a segment depends on the head alone.
namespace Segments

variable {α : Type*} (breaks : α → α → Bool)

-- What stays in the segment before the list, if there is one, and the segments that begin in the list
def cut (h : Option α) : List α → List α × List (List α)
  | []      => ([], [])
  | a :: as =>
    if h.all (breaks · a) then ([], (a :: (cut (some a) as).1) :: (cut (some a) as).2)
    else (a :: (cut h as).1, (cut h as).2)

def segments (l : List α) : List (List α) :=
  (cut breaks none l).2

-- The head of the segment in which a list ends
def headAfter (h : Option α) : List α → Option α
  | []      => h
  | a :: as => headAfter (if h.all (breaks · a) then some a else h) as

def heads (gs : List (List α)) : List α :=
  gs.filterMap List.head?

-- Segments, as they result from a list
def Segmented : List (List α) → Prop
  | []      => True
  | g :: gs => (∃ h t, g = h :: t ∧ (∀ a ∈ t, breaks h a = false) ∧ ∀ a ∈ gs.flatten.head?, breaks h a = true) ∧
    Segmented gs

variable {breaks} {h k : Option α} {a x : α} {l m : List α} {g : List α} {gs gs' : List (List α)}

theorem cut_cons_of_breaks (hb : h.all (breaks · a) = true) :
    cut breaks h (a :: l) = ([], (a :: (cut breaks (some a) l).1) :: (cut breaks (some a) l).2) :=
  if_pos hb

theorem cut_cons_of_stays (hb : h.all (breaks · a) = false) :
    cut breaks h (a :: l) = (a :: (cut breaks h l).1, (cut breaks h l).2) :=
  if_neg (by simp [hb])

theorem cut_some_of_breaks (hb : breaks x a = true) :
    cut breaks (some x) (a :: l) = ([], (a :: (cut breaks (some a) l).1) :: (cut breaks (some a) l).2) :=
  if_pos hb

theorem cut_some_of_stays (hb : breaks x a = false) :
    cut breaks (some x) (a :: l) = (a :: (cut breaks (some x) l).1, (cut breaks (some x) l).2) :=
  if_neg (by simp [hb])

theorem segments_cons :
    segments breaks (a :: l) = (a :: (cut breaks (some a) l).1) :: (cut breaks (some a) l).2 :=
  congrArg Prod.snd (cut_cons_of_breaks rfl)

theorem flatten_cut : (cut breaks h l).1 ++ (cut breaks h l).2.flatten = l := by
  induction l generalizing h
  case nil => rfl
  case cons a l hi =>
    cases hb : h.all (breaks · a)
    case true  => simp [cut_cons_of_breaks hb, hi]
    case false => simp [cut_cons_of_stays hb, hi]

theorem stays_nil : (cut breaks none l).1 = [] := by
  cases l <;> rfl

theorem flatten_segments : (segments breaks l).flatten = l := by
  have h : (cut breaks none l).1 ++ (cut breaks none l).2.flatten = l := flatten_cut
  rwa [stays_nil, List.nil_append] at h

theorem stays_of_mem_cut (ha : a ∈ (cut breaks (some x) l).1) : breaks x a = false := by
  induction l
  case nil => cases ha
  case cons b l hi =>
    cases hb : breaks x b
    case true  => simp [cut_some_of_breaks hb] at ha
    case false =>
      simp only [cut_some_of_stays hb, List.mem_cons] at ha
      cases ha
      case inl ha => exact ha ▸ hb
      case inr ha => exact hi ha

theorem breaks_of_head_cut (ha : a ∈ (cut breaks (some x) l).2.flatten.head?) : breaks x a = true := by
  induction l
  case nil => cases ha
  case cons b l hi =>
    cases hb : breaks x b
    case true =>
      simp [cut_some_of_breaks hb] at ha
      exact ha ▸ hb
    case false =>
      simp only [cut_some_of_stays hb] at ha
      exact hi ha

theorem segmented_cut : Segmented breaks (cut breaks h l).2 := by
  induction l generalizing h
  case nil => trivial
  case cons a l hi =>
    cases hb : h.all (breaks · a)
    case true =>
      rw [cut_cons_of_breaks hb]
      exact ⟨⟨a, _, rfl, fun b hb => stays_of_mem_cut hb, fun b hb => breaks_of_head_cut hb⟩, hi⟩
    case false =>
      rw [cut_cons_of_stays hb]
      exact hi

theorem segmented_segments : Segmented breaks (segments breaks l) :=
  segmented_cut

theorem cut_append_of_stays (hl : ∀ a ∈ l, breaks x a = false) :
    cut breaks (some x) (l ++ m) = (l ++ (cut breaks (some x) m).1, (cut breaks (some x) m).2) := by
  induction l
  case nil => rfl
  case cons a l hi =>
    rw [List.cons_append, cut_some_of_stays (hl a List.mem_cons_self), hi fun b hb => hl b (List.mem_cons_of_mem a hb)]
    rfl

theorem cut_of_head_breaks (hm : ∀ a ∈ m.head?, h.all (breaks · a) = true) :
    cut breaks h m = ([], segments breaks m) := by
  cases m
  case nil => rfl
  case cons a m => rw [cut_cons_of_breaks (hm a rfl), segments_cons]

-- Segments are the segments of what they contain.
theorem segments_flatten (hs : Segmented breaks gs) : segments breaks gs.flatten = gs := by
  induction gs
  case nil => rfl
  case cons g gs hi =>
    obtain ⟨⟨x, t, rfl, ht, hhead⟩, hs⟩ := hs
    rw [List.flatten_cons, List.cons_append, segments_cons, cut_append_of_stays ht,
      cut_of_head_breaks (h := some x) hhead, hi hs, List.append_nil]

theorem Segmented.behind (hs : Segmented breaks (gs ++ gs')) : Segmented breaks gs' := by
  induction gs
  case nil => exact hs
  case cons g gs hi => exact hi (And.right hs)

theorem Segmented.before (hs : Segmented breaks (gs ++ gs')) : Segmented breaks gs := by
  induction gs
  case nil => trivial
  case cons g gs hi =>
    obtain ⟨⟨x, t, rfl, ht, hhead⟩, hs⟩ := hs
    refine ⟨⟨x, t, rfl, ht, fun a ha => hhead a ?_⟩, hi hs⟩
    show a ∈ (gs ++ gs').flatten.head?
    rw [List.flatten_append, List.head?_append, Option.mem_def.mp ha]
    rfl

theorem rdrop_append_rtake {n : ℕ} : l.rdrop n ++ l.rtake n = l :=
  List.take_append_drop _ _

theorem rdrop_rdrop {n k : ℕ} : (l.rdrop n).rdrop k = l.rdrop (n + k) := by
  rw [List.rdrop, List.rdrop, List.rdrop, List.length_take, List.take_take]
  congr 1
  omega

theorem segmented_split {n : ℕ} :
    Segmented breaks ((segments breaks l).rdrop n ++ (segments breaks l).rtake n) := by
  rw [rdrop_append_rtake]
  exact segmented_segments

theorem segments_rtake {n : ℕ} :
    segments breaks ((segments breaks l).rtake n).flatten = (segments breaks l).rtake n :=
  segments_flatten segmented_split.behind

theorem segments_rdrop {n : ℕ} :
    segments breaks ((segments breaks l).rdrop n).flatten = (segments breaks l).rdrop n :=
  segments_flatten segmented_split.before

-- What a segment consists of
theorem Segmented.of_mem (hs : Segmented breaks gs) (hg : g ∈ gs) :
    ∃ h t, g = h :: t ∧ ∀ a ∈ t, breaks h a = false := by
  induction gs
  case nil => cases hg
  case cons g' gs hi =>
    obtain ⟨⟨x, t, hx, ht, -⟩, hs⟩ := hs
    cases hg
    case head    => exact ⟨x, t, hx, ht⟩
    case tail hg => exact hi hs hg

theorem Segmented.ne_nil (hs : Segmented breaks gs) (hg : g ∈ gs) : g ≠ [] := by
  obtain ⟨x, t, rfl, -⟩ := hs.of_mem hg
  exact List.cons_ne_nil x t

theorem Segmented.length_le (hs : Segmented breaks gs) : gs.length ≤ gs.flatten.length := by
  induction gs
  case nil => exact Nat.le_refl _
  case cons g gs hi =>
    obtain ⟨⟨x, t, rfl, -, -⟩, hs⟩ := hs
    have := hi hs
    simp only [List.length_cons, List.flatten_cons, List.length_append]
    omega

-- The segments that begin in a list are the last ones of the segments of a longer list.
theorem cut_append : (cut breaks (headAfter breaks h l) m).2 <:+ (cut breaks h (l ++ m)).2 := by
  induction l generalizing h
  case nil => exact List.suffix_refl _
  case cons a l hi =>
    rw [List.cons_append, headAfter]
    cases hb : h.all (breaks · a)
    case true =>
      rw [cut_cons_of_breaks hb]
      exact hi.trans (List.suffix_cons _ _)
    case false =>
      rw [cut_cons_of_stays hb]
      exact hi

theorem heads_append (hx : x ∈ heads (cut breaks h (l ++ m)).2) :
    x ∈ l ∨ x ∈ heads (cut breaks (headAfter breaks h l) m).2 := by
  induction l generalizing h
  case nil => exact .inr hx
  case cons a l hi =>
    rw [List.cons_append] at hx
    rw [headAfter]
    cases hb : h.all (breaks · a)
    case true =>
      simp only [cut_cons_of_breaks hb, heads, List.filterMap_cons, List.head?_cons, List.mem_cons] at hx
      cases hx
      case inl hx => exact .inl (hx ▸ List.mem_cons_self)
      case inr hx => exact (hi hx).imp_left (List.mem_cons_of_mem a)
    case false =>
      rw [cut_cons_of_stays hb] at hx
      exact (hi hx).imp_left (List.mem_cons_of_mem a)

-- Heads that break at the same elements
theorem cut_congr (hl : ∀ a ∈ l, h.all (breaks · a) = k.all (breaks · a)) :
    (cut breaks h l).2 = (cut breaks k l).2 := by
  induction l
  case nil => rfl
  case cons a l hi =>
    have hi := hi fun b hb => hl b (List.mem_cons_of_mem a hb)
    have ha := hl a List.mem_cons_self
    cases hb : h.all (breaks · a)
    case true  => rw [cut_cons_of_breaks hb, cut_cons_of_breaks (ha ▸ hb)]
    case false => rw [cut_cons_of_stays hb, cut_cons_of_stays (ha ▸ hb), hi]

-- A map of the elements under which the heads break at the same places
theorem cut_map {β : Type*} {breaks' : β → β → Bool} {f : α → β}
    (hh : ∀ x ∈ h, ∀ a ∈ l, breaks' (f x) (f a) = breaks x a)
    (hl : ∀ x ∈ l, ∀ a ∈ l, breaks' (f x) (f a) = breaks x a) :
    cut breaks' (h.map f) (l.map f) = ((cut breaks h l).1.map f, (cut breaks h l).2.map (List.map f)) := by
  induction l generalizing h
  case nil => rfl
  case cons a l hi =>
    have hl' : ∀ x ∈ l, ∀ b ∈ l, breaks' (f x) (f b) = breaks x b := fun x hx b hb =>
      hl x (List.mem_cons_of_mem a hx) b (List.mem_cons_of_mem a hb)
    have hsame : (h.map f).all (breaks' · (f a)) = h.all (breaks · a) := by
      cases h
      case none   => rfl
      case some x => exact hh x rfl a List.mem_cons_self
    rw [List.map_cons]
    cases hb : h.all (breaks · a)
    case true =>
      have hcut := hi (h := some a) (fun x hx b hb => by
        cases hx
        exact hl a List.mem_cons_self b (List.mem_cons_of_mem a hb)) hl'
      rw [cut_cons_of_breaks hb, cut_cons_of_breaks (hsame.trans hb), ← Option.map_some, hcut]
      rfl
    case false =>
      rw [cut_cons_of_stays hb, cut_cons_of_stays (hsame.trans hb),
        hi (fun x hx b hb => hh x hx b (List.mem_cons_of_mem a hb)) hl']
      rfl

theorem segments_map {β : Type*} {breaks' : β → β → Bool} {f : α → β}
    (hl : ∀ x ∈ l, ∀ a ∈ l, breaks' (f x) (f a) = breaks x a) :
    segments breaks' (l.map f) = (segments breaks l).map (List.map f) :=
  congrArg Prod.snd (cut_map (h := none) (fun _ hx => nomatch hx) hl)

-- Elements that begin a segment whatever its head is. A segment that begins with such an element ends with one.
section Hard

variable {hard : α → Bool} (sharp : ∀ h a, hard a = true → breaks h a = true)

-- A head that breaks at the hard elements only
def Lasting (breaks : α → α → Bool) (hard : α → Bool) (h : Option α) : Prop :=
  ∀ a, h.all (breaks · a) = true → hard a = true

include sharp

theorem breaks_of_hard (ha : hard a = true) : h.all (breaks · a) = true := by
  cases h
  case none   => rfl
  case some x => exact sharp x a ha

theorem countP_le_length_cut : l.countP hard ≤ (cut breaks h l).2.length := by
  induction l generalizing h
  case nil => exact Nat.le_refl _
  case cons a l hi =>
    cases hb : h.all (breaks · a)
    case true =>
      rw [cut_cons_of_breaks hb, List.length_cons, List.countP_cons]
      have := hi (h := some a)
      split <;> omega
    case false =>
      have ha : ¬hard a = true := fun ha => by simp [breaks_of_hard sharp ha] at hb
      rw [cut_cons_of_stays hb, List.countP_cons_of_neg ha]
      exact hi

omit sharp in
theorem rtake_of_suffix {n : ℕ} (hs : gs <:+ gs') (hn : n ≤ gs.length) : gs'.rtake n = gs.rtake n := by
  obtain ⟨front, rfl⟩ := hs
  rw [List.rtake, List.rtake, List.length_append, Nat.add_sub_assoc hn, List.drop_append,
    List.drop_eq_nil_of_le (by omega), List.nil_append]
  congr 1
  omega

-- With enough hard elements the last segments do not depend on the head before the list.
theorem rtake_cut {n : ℕ} (hn : n ≤ l.countP hard) : (cut breaks h l).2.rtake n = (cut breaks k l).2.rtake n := by
  induction l generalizing h k
  case nil => rfl
  case cons a l hi =>
    cases ha : hard a
    case true =>
      rw [cut_cons_of_breaks (h := h) (breaks_of_hard sharp ha), cut_cons_of_breaks (h := k) (breaks_of_hard sharp ha)]
    case false =>
      rw [List.countP_cons_of_neg (by simp [ha])] at hn
      have hlater (h : Option α) : (cut breaks h (a :: l)).2.rtake n = (cut breaks none l).2.rtake n := by
        cases hb : h.all (breaks · a)
        case true =>
          rw [cut_cons_of_breaks hb, rtake_of_suffix (List.suffix_cons _ _), hi hn]
          exact Nat.le_trans hn (countP_le_length_cut sharp)
        case false => rw [cut_cons_of_stays hb, hi hn]
      rw [hlater h, hlater k]

-- The segments after a lasting head are the last ones after any head.
theorem cut_of_lasting (hlast : Lasting breaks hard h) : (cut breaks h l).2 <:+ (cut breaks k l).2 := by
  induction l generalizing k
  case nil => exact List.suffix_refl _
  case cons a l hi =>
    cases hb : h.all (breaks · a)
    case true =>
      have hsame : (cut breaks h (a :: l)).2 = (cut breaks k (a :: l)).2 := by
        rw [cut_cons_of_breaks hb, cut_cons_of_breaks (h := k) (breaks_of_hard sharp (hlast a hb))]
      exact hsame ▸ List.suffix_refl _
    case false =>
      rw [cut_cons_of_stays hb]
      cases hk : k.all (breaks · a)
      case true  => rw [cut_cons_of_breaks hk]; exact hi.trans (List.suffix_cons _ _)
      case false => rw [cut_cons_of_stays hk]; exact hi

omit sharp

variable (closed : ∀ a, hard a = true → Lasting breaks hard (some a))

include closed

theorem hard_of_heads (hlast : Lasting breaks hard h) (hx : x ∈ heads (cut breaks h l).2) : hard x = true := by
  induction l generalizing h
  case nil => cases hx
  case cons a l hi =>
    cases hb : h.all (breaks · a)
    case true =>
      simp only [cut_cons_of_breaks hb, heads, List.filterMap_cons, List.head?_cons, List.mem_cons] at hx
      cases hx
      case inl hx => exact hx ▸ hlast a hb
      case inr hx => exact hi (closed a (hlast a hb)) hx
    case false =>
      rw [cut_cons_of_stays hb] at hx
      exact hi hlast hx

-- Behind a segment with a hard head all segments have one.
theorem length_le_countP (hs : Segmented breaks ((x :: l) :: gs)) (hx : hard x = true) :
    gs.length + 1 ≤ ((x :: l) :: gs).flatten.countP hard := by
  induction gs generalizing x l
  case nil => simp [hx]
  case cons g gs hi =>
    obtain ⟨⟨x', t, heq, -, hhead⟩, hs⟩ := hs
    obtain ⟨y, u, rfl, -, -⟩ := And.left hs
    cases heq
    have hy : hard y = true := closed x hx y (hhead y rfl)
    have := hi hs hy
    rw [List.flatten_cons, List.countP_append, List.countP_cons_of_pos hx, List.length_cons]
    omega

end Hard
end Segments
