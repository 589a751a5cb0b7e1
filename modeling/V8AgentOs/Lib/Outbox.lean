import Mathlib.Data.List.Infix
import Mathlib.Data.List.Nodup

-- A list of messages to be sent, which belong to groups. Within a group they are sent in the order of the list.
namespace Outbox

variable {α κ β : Type*} [DecidableEq κ] (group : α → κ) (sent : α → Bool)

-- Of two messages of a group the earlier one is sent first.
def InOrder (l : List α) : Prop :=
  l.Pairwise fun a b => group a = group b → sent b → sent a

def groupOf (k : κ) (l : List α) : List α :=
  l.filter (group · = k)

def sentOf (k : κ) (l : List α) : List α :=
  l.filter fun a => group a = k && sent a

variable {group : α → κ} {sent : α → Bool} {k : κ} {l l' before after : List α} {a b : α}

theorem sentOf_append : sentOf group sent k (l ++ l') = sentOf group sent k l ++ sentOf group sent k l' :=
  List.filter_append l l'

theorem sentOf_cons : sentOf group sent k (a :: l) =
    (if group a = k ∧ sent a then [a] else []) ++ sentOf group sent k l := by
  rw [sentOf, List.filter_cons]
  by_cases h : group a = k ∧ sent a
  case pos => simp [h, sentOf]
  case neg =>
    have hf : (decide (group a = k) && sent a) = false := by simpa using h
    rw [if_neg h, if_neg (by simp [hf])]
    rfl

theorem sentOf_pending (h : ∀ a ∈ l, group a = k → sent a = false) : sentOf group sent k l = [] := by
  apply List.filter_eq_nil_iff.mpr
  intro a ha hs
  obtain ⟨hk, hs⟩ := Bool.and_eq_true_iff.mp hs
  rw [h a ha (of_decide_eq_true hk)] at hs
  cases hs

-- What is sent of a group is the first part of it.
theorem sentOf_prefix (h : InOrder group sent l) : sentOf group sent k l <+: groupOf group k l := by
  induction l
  case nil => exact List.nil_prefix
  case cons a l hi =>
    obtain ⟨ha, h⟩ := List.pairwise_cons.mp h
    rw [sentOf_cons, groupOf, List.filter_cons]
    by_cases hk : group a = k
    case neg =>
      rw [if_neg fun hs => hk hs.left, if_neg (by simpa using hk)]
      exact hi h
    case pos =>
      rw [if_pos (decide_eq_true hk)]
      cases hs : sent a
      case true =>
        rw [if_pos ⟨hk, rfl⟩]
        exact List.cons_prefix_cons.mpr ⟨rfl, hi h⟩
      case false =>
        have hpending : sentOf group sent k l = [] := by
          apply sentOf_pending
          intro b hb hbk
          cases hbs : sent b
          case false => rfl
          case true  => rw [ha b hb (hk.trans hbk.symm) hbs] at hs; cases hs
        rw [if_neg (by simp), hpending]
        exact List.nil_prefix

section Changes

variable {f : α → α}

-- Rewriting messages so that they keep their groups, and those that are sent stay the same ones
theorem sentOf_map (hg : ∀ a, group (f a) = group a) (hs : ∀ a ∈ l, sent (f a) = sent a) :
    sentOf group sent k (l.map f) = (sentOf group sent k l).map f := by
  rw [sentOf, sentOf, List.filter_map]
  congr 1
  apply List.filter_congr
  intro a ha
  simp [hg, hs a ha]

omit [DecidableEq κ]

theorem InOrder.map (h : InOrder group sent l) (hg : ∀ a, group (f a) = group a)
    (hs : ∀ a ∈ l, sent (f a) = sent a) : InOrder group sent (l.map f) := by
  apply List.pairwise_map.mpr
  apply h.imp_of_mem
  intro a b ha hb hab hk hb'
  rw [hs a ha]
  rw [hs b hb] at hb'
  rw [hg, hg] at hk
  exact hab hk hb'

-- Messages that are not sent yet may be added.
theorem InOrder.append (h : InOrder group sent l) (hn : ∀ a ∈ l', sent a = false) : InOrder group sent (l ++ l') := by
  apply List.pairwise_append.mpr
  refine ⟨h, List.pairwise_of_forall_mem_list fun a _ b hb _ hs => ?_, fun a _ b hb _ hs => ?_⟩
  all_goals
    rw [hn b hb] at hs
    cases hs

end Changes

section Send

variable (h : InOrder group sent (before ++ a :: after)) (hg : group b = group a) (hb : sent b)
include h hg hb

omit [DecidableEq κ] in
-- The first message of its group that is not sent may be sent.
theorem InOrder.send (hf : ∀ x ∈ before, group x = group a → sent x) : InOrder group sent (before ++ b :: after) := by
  obtain ⟨hbefore, hafter, hcross⟩ := List.pairwise_append.mp h
  obtain ⟨-, hafter⟩ := List.pairwise_cons.mp hafter
  apply List.pairwise_append.mpr
  refine ⟨hbefore, List.pairwise_cons.mpr ⟨fun x _ _ _ => hb, hafter⟩, fun x hx y hy hk hs => ?_⟩
  cases List.mem_cons.mp hy
  case inl hy => subst hy; exact hf x hx (hk.trans hg)
  case inr hy => exact hcross x hx y (List.mem_cons_of_mem _ hy) hk hs

-- It is what comes next.
theorem sentOf_send (ha : sent a = false) : sentOf group sent k (before ++ b :: after) =
    sentOf group sent k (before ++ a :: after) ++ if group a = k then [b] else [] := by
  have hafter := (List.pairwise_cons.mp (List.pairwise_append.mp h).right.left).left
  rw [sentOf_append, sentOf_append, sentOf_cons, sentOf_cons, hg, hb, ha]
  by_cases hk : group a = k
  case neg => simp [hk]
  case pos =>
    have hnone : sentOf group sent k after = [] := by
      apply sentOf_pending
      intro x hx hxk
      cases hs : sent x
      case false => rfl
      case true  => rw [hafter x hx (hk.trans hxk.symm) hs] at ha; cases ha
    simp [hk, hnone]

end Send

-- A message is found by its key, and rewritten where it stands.
theorem map_key [DecidableEq β] {key : α → β} {f : α → α} (hn : ((before ++ a :: after).map key).Nodup) :
    ((before ++ a :: after).map fun x => if key x = key a then f x else x) = before ++ f a :: after := by
  have hother : ∀ x ∈ before ++ after, ¬ key x = key a := by
    rw [List.map_append, List.map_cons, List.nodup_middle, List.nodup_cons, ← List.map_append] at hn
    exact fun x hx heq => hn.left (heq ▸ List.mem_map_of_mem hx)
  have hsame : ∀ rest : List α, (∀ x ∈ rest, ¬ key x = key a) →
      (rest.map fun x => if key x = key a then f x else x) = rest := by
    intro rest hrest
    conv => rhs; rw [← List.map_id rest]
    exact List.map_congr_left fun x hx => if_neg (hrest x hx)
  rw [List.map_append, List.map_cons, if_pos rfl, hsame before fun x hx => hother x (List.mem_append_left _ hx),
    hsame after fun x hx => hother x (List.mem_append_right _ hx)]

end Outbox
