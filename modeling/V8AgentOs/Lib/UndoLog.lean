import Mathlib.Algebra.Group.Even
import Mathlib.Data.List.Basic
import Mathlib.Data.List.Infix
import Mathlib.Data.List.Nodup
import Mathlib.Algebra.Ring.Parity

-- A log of commands from which an undo and a redo stack are read back, over an arbitrary type of identities.
--
-- Only the newest entries of the log are kept, and a client undoes or redoes what the kept entries show. If an even
-- number of entries is kept, then what the client sees is the newest part of what a full log shows.
namespace UndoLog

inductive Entry (ι : Type*)
  | forward (id : ι)
  | undo (target : ι)
  | redo (target : ι)
  deriving DecidableEq

-- The top of a stack comes first.
structure Stacks (ι : Type*) where
  undo : List ι
  redo : List ι

section Lists

variable {ι : Type*} {xs : List ι} {t : ι}

theorem cons_of_head (h : xs.head? = some t) : xs = t :: xs.tail := by
  cases xs
  case nil       => cases h
  case cons x xs => cases h; rfl

theorem filter_head {p : ι → Bool} (hp : p t) (h : xs.head? = some t) :
    (xs.filter p).head? = some t ∧ (xs.filter p).tail = xs.tail.filter p := by
  rw [cons_of_head h, List.filter_cons_of_pos hp]
  exact ⟨rfl, rfl⟩

theorem filter_not_head {p : ι → Bool} (hp : p t = false) (h : xs.head? = some t) :
    (xs.filter p).head? ≠ some t ∧ xs.filter p = xs.tail.filter p := by
  constructor
  case right =>
    conv => lhs; rw [cons_of_head h]
    exact List.filter_cons_of_neg (by simp [hp])
  case left =>
    intro hh
    have hm : t ∈ xs.filter p := List.mem_of_mem_head? hh
    simp [hp] at hm

theorem filter_prefix {p : ι → Bool} (h : xs.Pairwise fun x y => p y → p x) : xs.filter p <+: xs := by
  induction xs
  case nil => simp
  case cons x xs hi =>
    have ⟨hx, h⟩ := List.pairwise_cons.mp h
    cases hp : p x
    case true =>
      rw [List.filter_cons_of_pos hp]
      exact List.cons_prefix_cons.mpr ⟨rfl, hi h⟩
    case false =>
      have hn : xs.filter p = [] := by
        apply List.filter_eq_nil_iff.mpr
        intro y hy hpy
        rw [hx y hy hpy] at hp
        cases hp
      rw [List.filter_cons_of_neg (by simp [hp]), hn]
      exact List.nil_prefix

end Lists

variable {ι : Type*} [DecidableEq ι]

def Stacks.add (s : Stacks ι) : Entry ι → Stacks ι
  | .forward id  => ⟨id :: s.undo, []⟩
  | .undo target => if s.undo.head? = some target then ⟨s.undo.tail, target :: s.redo⟩ else s
  | .redo target => if s.redo.head? = some target then ⟨target :: s.undo, s.redo.tail⟩ else s

def replay (l : List (Entry ι)) : Stacks ι :=
  l.foldl Stacks.add ⟨[], []⟩

variable {l a : List (Entry ι)} {e : Entry ι} {x y t : ι} {xs : List ι} {n : ℕ}

@[simp] theorem replay_nil : replay ([] : List (Entry ι)) = ⟨[], []⟩ := rfl

@[simp] theorem replay_concat : replay (l ++ [e]) = (replay l).add e := by
  simp [replay]

-- What may be done next: a new command, or an undo or a redo of what is on top
def Allowed (l : List (Entry ι)) : Entry ι → Prop
  | .forward id  => .forward id ∉ l
  | .undo target => (replay l).undo.head? = some target
  | .redo target => (replay l).redo.head? = some target

inductive Legal : List (Entry ι) → Prop
  | nil : Legal []
  | concat {k : List (Entry ι)} {d : Entry ι} : Legal k → Allowed k d → Legal (k ++ [d])

theorem legal_concat (h : Legal (l ++ [e])) : Legal l ∧ Allowed l e := by
  generalize hl : l ++ [e] = full at h
  cases h
  case nil => simp at hl
  case concat l' e' h ha =>
    have ⟨hk, he⟩ := List.append_inj' hl rfl
    cases he
    subst hk
    exact ⟨h, ha⟩

section Stacks

theorem add_undo {s : Stacks ι} (h : s.undo.head? = some t) : s.add (.undo t) = ⟨s.undo.tail, t :: s.redo⟩ := by
  simp [Stacks.add, h]

theorem add_redo {s : Stacks ι} (h : s.redo.head? = some t) : s.add (.redo t) = ⟨t :: s.undo, s.redo.tail⟩ := by
  simp [Stacks.add, h]

-- All commands that can be undone or redone, the newest first
def Stacks.line (s : Stacks ι) : List ι :=
  s.redo.reverse ++ s.undo

theorem line_undo {s : Stacks ι} (h : s.undo.head? = some t) : (s.add (.undo t)).line = s.line := by
  rw [add_undo h, Stacks.line, Stacks.line]
  conv => rhs; rw [cons_of_head h]
  simp

theorem line_redo {s : Stacks ι} (h : s.redo.head? = some t) : (s.add (.redo t)).line = s.line := by
  rw [add_redo h, Stacks.line, Stacks.line]
  conv => rhs; rw [cons_of_head h]
  simp

theorem mem_of_mem_line (h : Legal l) (hx : x ∈ (replay l).line) : .forward x ∈ l := by
  induction h
  case nil => simp [Stacks.line] at hx
  case concat l e hl ha hi =>
    rw [replay_concat] at hx
    cases e
    case forward id =>
      simp only [Stacks.line, Stacks.add, List.reverse_nil, List.nil_append, List.mem_cons] at hx
      cases hx
      case inl hx => simp [hx]
      case inr hx => exact List.mem_append_left _ (hi (List.mem_append_right _ hx))
    case undo target =>
      rw [line_undo ha] at hx
      exact List.mem_append_left _ (hi hx)
    case redo target =>
      rw [line_redo ha] at hx
      exact List.mem_append_left _ (hi hx)

end Stacks

section Suffix

-- The part of the stacks that a part of the log knows of
def Stacks.known (s : Stacks ι) (l : List (Entry ι)) : Stacks ι where
  undo := s.undo.filter (.forward · ∈ l)
  redo := s.redo.filter (.forward · ∈ l)

theorem known_forward {s : Stacks ι} (h : ∀ y ∈ s.undo, y ≠ x) :
    (s.known l).add (.forward x) = (s.add (.forward x)).known (l ++ [.forward x]) := by
  simp only [Stacks.add, Stacks.known, List.filter_nil, Stacks.mk.injEq, and_true]
  rw [List.filter_cons_of_pos (by simp)]
  congr 1
  apply List.filter_congr
  intro y hy
  simp [h y hy]

theorem known_undo {s : Stacks ι} (h : s.undo.head? = some t) :
    (s.known l).add (.undo t) = (s.add (.undo t)).known (l ++ [.undo t]) := by
  have hsame : ∀ x, (Entry.forward x ∈ l ++ [.undo t] ↔ .forward x ∈ l) := by simp
  rw [add_undo h]
  cases hp : decide (Entry.forward t ∈ l)
  case true =>
    have hk := filter_head (p := (.forward · ∈ l)) hp h
    rw [add_undo hk.left]
    simp only [Stacks.known, hsame, hk.right, Stacks.mk.injEq, true_and]
    rw [List.filter_cons_of_pos (p := (Entry.forward · ∈ l)) hp]
  case false =>
    have hk := filter_not_head (p := (.forward · ∈ l)) hp h
    have hskip : (s.known l).add (.undo t) = s.known l := if_neg hk.left
    rw [hskip]
    simp only [Stacks.known, hsame, hk.right, Stacks.mk.injEq, true_and]
    rw [List.filter_cons_of_neg (p := (Entry.forward · ∈ l)) (by simpa using hp)]

theorem known_redo {s : Stacks ι} (h : s.redo.head? = some t) :
    (s.known l).add (.redo t) = (s.add (.redo t)).known (l ++ [.redo t]) := by
  have hsame : ∀ x, (Entry.forward x ∈ l ++ [.redo t] ↔ .forward x ∈ l) := by simp
  rw [add_redo h]
  cases hp : decide (Entry.forward t ∈ l)
  case true =>
    have hk := filter_head (p := (.forward · ∈ l)) hp h
    rw [add_redo hk.left]
    simp only [Stacks.known, hsame, hk.right, Stacks.mk.injEq, and_true]
    rw [List.filter_cons_of_pos (p := (Entry.forward · ∈ l)) hp]
  case false =>
    have hk := filter_not_head (p := (.forward · ∈ l)) hp h
    have hskip : (s.known l).add (.redo t) = s.known l := if_neg hk.left
    rw [hskip]
    simp only [Stacks.known, hsame, hk.right, Stacks.mk.injEq, and_true]
    rw [List.filter_cons_of_neg (p := (Entry.forward · ∈ l)) (by simpa using hp)]

-- Reading back the end of a log gives the part of the stacks that it knows of.
theorem replay_suffix (h : Legal (a ++ l)) : replay l = (replay (a ++ l)).known l := by
  induction l using List.reverseRecOn
  case nil => simp [Stacks.known]
  case append_singleton l e hi =>
    rw [← List.append_assoc] at h ⊢
    have ⟨hl, ha⟩ := legal_concat h
    rw [replay_concat, replay_concat, hi hl]
    cases e
    case undo target => exact known_undo ha
    case redo target => exact known_redo ha
    case forward id =>
      apply known_forward
      intro y hy hid
      have hm : .forward y ∈ a ++ l := mem_of_mem_line hl (List.mem_append_right _ hy)
      exact ha (hid ▸ hm)

end Suffix
section Times

-- The place of a command in the log
def time (l : List (Entry ι)) (x : ι) : ℕ :=
  l.idxOf (.forward x)

theorem time_concat (h : .forward x ∈ l) : time (l ++ [e]) x = time l x :=
  List.idxOf_append_of_mem h

theorem time_lt (h : .forward x ∈ l) : time l x < l.length :=
  List.idxOf_lt_length_of_mem h

theorem time_new (h : .forward x ∉ l) : time (l ++ [.forward x]) x = l.length := by
  simp [time, List.idxOf_append_of_notMem h]

theorem count_forward (h : Legal l) (x : ι) : l.count (.forward x) ≤ 1 := by
  induction h
  case nil => simp
  case concat l e hl ha hi =>
    cases e
    case undo target => simpa using hi
    case redo target => simpa using hi
    case forward id =>
      by_cases hid : id = x
      case neg => simpa [hid] using hi
      case pos =>
        subst hid
        have : l.count (.forward id) = 0 := List.count_eq_zero.mpr ha
        simp [this]

-- A command is in the end of the log when it is not older.
theorem mem_drop_iff (h : Legal l) (hx : .forward x ∈ l) : .forward x ∈ l.drop n ↔ n ≤ time l x := by
  have htake : .forward x ∈ l.take n ↔ time l x < n := List.mem_take_iff_idxOf_lt hx
  constructor
  case mpr =>
    intro hn
    have hsplit : .forward x ∈ l.take n ++ l.drop n := by rwa [List.take_append_drop]
    cases List.mem_append.mp hsplit
    case inl ht => exact absurd (htake.mp ht) (Nat.not_lt.mpr hn)
    case inr hd => exact hd
  case mp =>
    intro hd
    by_contra hn
    have ht := htake.mpr (Nat.lt_of_not_le hn)
    have hcount := count_forward h x
    rw [← List.take_append_drop n l, List.count_append] at hcount
    have := List.count_pos_iff.mpr ht
    have := List.count_pos_iff.mpr hd
    omega

-- What holds of the times along the line
structure Timed (l : List (Entry ι)) : Prop where
  depth  : Even (l.length + (replay l).undo.length)
  parity : ∀ newer x older, (replay l).line = newer ++ x :: older → Even (time l x + older.length)
  sorted : (replay l).line.Pairwise fun x y => time l y < time l x

theorem Timed.undo (h : Timed l) (hl : Legal l) (ht : (replay l).undo.head? = some t) : Timed (l ++ [.undo t]) := by
  have hline : (replay (l ++ [.undo t])).line = (replay l).line := by rw [replay_concat, line_undo ht]
  have htime : ∀ x ∈ (replay l).line, time (l ++ [.undo t]) x = time l x :=
    fun x hx => time_concat (mem_of_mem_line hl hx)
  constructor
  case depth =>
    have hd := h.depth
    rw [cons_of_head ht] at hd
    rw [replay_concat, add_undo ht]
    simp only [List.length_append, List.length_cons, List.length_nil] at hd ⊢
    grind
  case parity =>
    intro newer x older hx
    rw [hline] at hx
    rw [htime x (by simp [hx])]
    exact h.parity newer x older hx
  case sorted =>
    rw [hline]
    apply h.sorted.imp_of_mem
    intro x y hx hy hlt
    rwa [htime x hx, htime y hy]

theorem Timed.redo (h : Timed l) (hl : Legal l) (ht : (replay l).redo.head? = some t) : Timed (l ++ [.redo t]) := by
  have hline : (replay (l ++ [.redo t])).line = (replay l).line := by rw [replay_concat, line_redo ht]
  have htime : ∀ x ∈ (replay l).line, time (l ++ [.redo t]) x = time l x :=
    fun x hx => time_concat (mem_of_mem_line hl hx)
  constructor
  case depth =>
    have hd := h.depth
    rw [replay_concat, add_redo ht]
    simp only [List.length_append, List.length_cons, List.length_nil] at hd ⊢
    grind
  case parity =>
    intro newer x older hx
    rw [hline] at hx
    rw [htime x (by simp [hx])]
    exact h.parity newer x older hx
  case sorted =>
    rw [hline]
    apply h.sorted.imp_of_mem
    intro x y hx hy hlt
    rwa [htime x hx, htime y hy]

theorem Timed.forward (h : Timed l) (hl : Legal l) (hx : .forward x ∉ l) : Timed (l ++ [.forward x]) := by
  have hline : (replay (l ++ [.forward x])).line = x :: (replay l).undo := by
    rw [replay_concat]
    simp [Stacks.add, Stacks.line]
  have hmem : ∀ y ∈ (replay l).undo, .forward y ∈ l :=
    fun y hy => mem_of_mem_line hl (List.mem_append_right _ hy)
  constructor
  case depth =>
    have hd := h.depth
    rw [replay_concat]
    simp only [Stacks.add, List.length_append, List.length_cons, List.length_nil]
    grind
  case parity =>
    intro newer y older hy
    rw [hline] at hy
    cases newer
    case nil =>
      cases hy
      rw [time_new hx]
      exact h.depth
    case cons z newer =>
      have hy : (replay l).undo = newer ++ y :: older := by
        injection hy
      rw [time_concat (hmem y (by simp [hy]))]
      apply h.parity ((replay l).redo.reverse ++ newer) y older
      simp [Stacks.line, hy]
  case sorted =>
    rw [hline, List.pairwise_cons]
    constructor
    case left =>
      intro y hy
      rw [time_new hx, time_concat (hmem y hy)]
      exact time_lt (hmem y hy)
    case right =>
      have hs := (List.pairwise_append.mp h.sorted).right.left
      apply hs.imp_of_mem
      intro y z hy hz hlt
      rwa [time_concat (hmem y hy), time_concat (hmem z hz)]

theorem timed (h : Legal l) : Timed l := by
  induction h
  case nil => exact ⟨by simp, by simp [Stacks.line], by simp [Stacks.line]⟩
  case concat l e hl ha hi =>
    cases e
    case forward id  => exact hi.forward hl ha
    case undo target => exact hi.undo hl ha
    case redo target => exact hi.redo hl ha

end Times

section Recent

-- The entries that are kept
def recent (n : ℕ) (l : List (Entry ι)) : List (Entry ι) :=
  l.drop (l.length - n)

-- A log whose entries undo and redo what the kept entries show to be on top
inductive Seen (n : ℕ) : List (Entry ι) → Prop
  | nil : Seen n []
  | forward {k : List (Entry ι)} {id : ι} : Seen n k → .forward id ∉ k → Seen n (k ++ [.forward id])
  | undo {k : List (Entry ι)} {target : ι} : Seen n k → (replay (recent n k)).undo.head? = some target →
    Seen n (k ++ [.undo target])
  | redo {k : List (Entry ι)} {target : ι} : Seen n k → (replay (recent n k)).redo.head? = some target →
    Seen n (k ++ [.redo target])

theorem replay_recent (h : Legal l) : replay (recent n l) = (replay l).known (recent n l) := by
  have hl : l.take (l.length - n) ++ recent n l = l := List.take_append_drop _ _
  have hs := replay_suffix (a := l.take (l.length - n)) (l := recent n l) (by rwa [hl])
  rwa [hl] at hs

theorem mem_recent_iff (h : Legal l) (hx : .forward x ∈ l) : .forward x ∈ recent n l ↔ l.length ≤ time l x + n := by
  rw [recent, mem_drop_iff h hx]
  omega

-- No kept command waits to be redone above one that is not kept.
def Whole (n : ℕ) (l : List (Entry ι)) : Prop :=
  ∀ x xs, (replay l).redo = x :: xs → .forward x ∉ recent n l → ∀ y ∈ xs, .forward y ∉ recent n l

-- What is to be undone is on top of the full stack.
theorem undo_of_recent (h : Legal l) (ht : (replay (recent n l)).undo.head? = some t) :
    (replay l).undo.head? = some t ∧ .forward t ∈ recent n l := by
  rw [replay_recent h] at ht
  have hm : t ∈ (replay l).undo.filter (.forward · ∈ recent n l) := List.mem_of_mem_head? ht
  have ⟨htu, hkept⟩ := List.mem_filter.mp hm
  have hkept : .forward t ∈ recent n l := of_decide_eq_true hkept
  refine ⟨?_, hkept⟩
  cases hu : (replay l).undo
  case nil => simp [hu] at htu
  case cons x xs =>
    have hline : ∀ y ∈ (replay l).undo, y ∈ (replay l).line := fun y hy => List.mem_append_right _ hy
    have hx : .forward x ∈ recent n l := by
      rw [mem_recent_iff h (mem_of_mem_line h (hline x (by simp [hu])))]
      have hkept := (mem_recent_iff h (mem_of_mem_line h (hline t htu))).mp hkept
      rw [hu] at htu
      cases List.mem_cons.mp htu
      case inl htx => rwa [htx] at hkept
      case inr htx =>
        have hs := (List.pairwise_append.mp (timed h).sorted).right.left
        rw [hu] at hs
        have := (List.pairwise_cons.mp hs).left t htx
        omega
    simp only [Stacks.known, hu] at ht
    rw [List.filter_cons_of_pos (by simpa using hx)] at ht
    exact ht

theorem redo_of_recent (h : Legal l) (hw : Whole n l) (ht : (replay (recent n l)).redo.head? = some t) :
    (replay l).redo.head? = some t ∧ .forward t ∈ recent n l := by
  rw [replay_recent h] at ht
  have hm : t ∈ (replay l).redo.filter (.forward · ∈ recent n l) := List.mem_of_mem_head? ht
  have ⟨htr, hkept⟩ := List.mem_filter.mp hm
  have hkept : .forward t ∈ recent n l := of_decide_eq_true hkept
  refine ⟨?_, hkept⟩
  cases hr : (replay l).redo
  case nil => simp [hr] at htr
  case cons x xs =>
    have hx : .forward x ∈ recent n l := by
      by_contra hx
      rw [hr] at htr
      cases List.mem_cons.mp htr
      case inl htx => exact hx (htx ▸ hkept)
      case inr htx => exact hw x xs hr hx t htx hkept
    simp only [Stacks.known, hr] at ht
    rw [List.filter_cons_of_pos (by simpa using hx)] at ht
    exact ht

-- The parity of the times tells that what was just undone stays in the kept entries.
theorem whole_undo (hn : Even n) (h : Legal l) (hu : (replay l).undo.head? = some t) (ht : .forward t ∈ recent n l) :
    Whole n (l ++ [.undo t]) := by
  have hl' : Legal (l ++ [.undo t]) := .concat h hu
  have htl : .forward t ∈ l := mem_of_mem_line h (List.mem_append_right _ (List.mem_of_mem_head? hu))
  intro x xs hx hnot
  exfalso
  apply hnot
  rw [replay_concat, add_undo hu] at hx
  injection hx with hx _
  subst hx
  rw [mem_recent_iff hl' (List.mem_append_left _ htl), time_concat htl]
  have hkept := (mem_recent_iff h htl).mp ht
  have hdepth := (timed h).depth
  have hparity := (timed h).parity (replay l).redo.reverse t (replay l).undo.tail
    (by rw [Stacks.line, ← cons_of_head hu])
  rw [cons_of_head hu] at hdepth
  simp only [List.length_append, List.length_cons, List.length_nil] at hdepth ⊢
  have hne : l.length ≠ time l t + n := by
    intro heq
    grind
  omega

theorem whole_redo (h : Legal l) (hr : (replay l).redo.head? = some t) (ht : .forward t ∈ recent n l) :
    Whole n (l ++ [.redo t]) := by
  have hl' : Legal (l ++ [.redo t]) := .concat h hr
  have hline : ∀ y ∈ (replay l).redo, y ∈ (replay l).line :=
    fun y hy => List.mem_append_left _ (List.mem_reverse.mpr hy)
  intro x xs hx hnot
  exfalso
  apply hnot
  rw [replay_concat, add_redo hr] at hx
  have hx : (replay l).redo.tail = x :: xs := hx
  have htl : .forward t ∈ l := mem_of_mem_line h (hline t (List.mem_of_mem_head? hr))
  have hxr : x ∈ (replay l).redo := List.mem_of_mem_tail (hx ▸ List.mem_cons_self)
  have hxl : .forward x ∈ l := mem_of_mem_line h (hline x hxr)
  rw [mem_recent_iff hl' (List.mem_append_left _ hxl), time_concat hxl]
  have hkept := (mem_recent_iff h htl).mp ht
  have hs := (List.pairwise_append.mp (timed h).sorted).left
  rw [cons_of_head hr, hx, List.pairwise_reverse] at hs
  have := (List.pairwise_cons.mp hs).left x List.mem_cons_self
  simp only [List.length_append, List.length_cons, List.length_nil]
  omega

theorem legal_of_seen (hn : Even n) (h : Seen n l) : Legal l ∧ Whole n l := by
  induction h
  case nil => exact ⟨.nil, fun x xs hx => by simp at hx⟩
  case forward l id _ hid hi =>
    refine ⟨.concat hi.left hid, fun x xs hx => ?_⟩
    rw [replay_concat] at hx
    cases hx
  case undo l target _ ht hi =>
    have ⟨hu, hkept⟩ := undo_of_recent hi.left ht
    exact ⟨.concat hi.left hu, whole_undo hn hi.left hu hkept⟩
  case redo l target _ ht hi =>
    have ⟨hr, hkept⟩ := redo_of_recent hi.left hi.right ht
    exact ⟨.concat hi.left hr, whole_redo hi.left hr hkept⟩

-- The kept entries show the newest commands that can be undone.
theorem undo_prefix (h : Legal l) : (replay (recent n l)).undo <+: (replay l).undo := by
  rw [replay_recent h]
  apply filter_prefix
  have hs := (List.pairwise_append.mp (timed h).sorted).right.left
  apply hs.imp_of_mem
  intro x y hx hy hlt hkept
  have hline : ∀ z ∈ (replay l).undo, .forward z ∈ l := fun z hz => mem_of_mem_line h (List.mem_append_right _ hz)
  have hkept := (mem_recent_iff h (hline y hy)).mp (of_decide_eq_true hkept)
  apply decide_eq_true
  rw [mem_recent_iff h (hline x hx)]
  omega

-- They show all commands that can be redone, or none.
theorem redo_all (h : Legal l) (hw : Whole n l) :
    (replay (recent n l)).redo = (replay l).redo ∨ (replay (recent n l)).redo = [] := by
  rw [replay_recent h]
  have hline : ∀ z ∈ (replay l).redo, .forward z ∈ l :=
    fun z hz => mem_of_mem_line h (List.mem_append_left _ (List.mem_reverse.mpr hz))
  cases hr : (replay l).redo
  case nil => left; simp [Stacks.known, hr]
  case cons x xs =>
    simp only [Stacks.known, hr]
    by_cases hx : .forward x ∈ recent n l
    case neg =>
      right
      apply List.filter_eq_nil_iff.mpr
      intro y hy
      cases List.mem_cons.mp hy
      case inl hyx => simpa [hyx] using hx
      case inr hyx => simpa using hw x xs hr hx y hyx
    case pos =>
      left
      apply List.filter_eq_self.mpr
      intro y hy
      apply decide_eq_true
      rw [mem_recent_iff h (hline y (hr ▸ hy))]
      have hkept := (mem_recent_iff h (hline x (by simp [hr]))).mp hx
      have hs := (List.pairwise_append.mp (timed h).sorted).left
      rw [List.pairwise_reverse, hr] at hs
      cases List.mem_cons.mp hy
      case inl hyx => rwa [hyx]
      case inr hyx =>
        have := (List.pairwise_cons.mp hs).left y hyx
        omega

end Recent
end UndoLog
