import Mathlib.Data.Fintype.Card
import Mathlib.Data.Set.Finite.List
import Mathlib.Data.List.Cycle
import Mathlib.Logic.Function.Basic
import Mathlib.Logic.Relation
import Mathlib.Order.WellFounded

-- Depth-first search with three colours. An edge to a node that is still on the stack closes a circuit.
namespace DepthFirst

open Relation (ReflTransGen TransGen)

inductive Colour
  | white
  | grey
  | black
  deriving DecidableEq

structure Search (α β : Type*) where
  colour : α → Colour
  stack  : List α
  found  : β

variable {α β : Type*} (graph : α → List α)

section Visits

variable (report : List α → α → β → β)

-- What is done at the end of an edge
def look (visit : α → Search α β → Search α β) (s : Search α β) (b : α) : Search α β :=
  match s.colour b with
  | .white => visit b s
  | .grey  => { s with found := report s.stack b s.found }
  | .black => s

variable [DecidableEq α]

-- A node is grey while the nodes behind it are visited.
def visit : ℕ → α → Search α β → Search α β
  | 0, _, s        => s
  | fuel + 1, a, s =>
    let entered := { s with colour := Function.update s.colour a .grey, stack := s.stack ++ [a] }
    let scanned := (graph a).foldl (look report (visit fuel)) entered
    { scanned with colour := Function.update scanned.colour a .black, stack := scanned.stack.dropLast }

def search (fuel : ℕ) (roots : List α) (s : Search α β) : Search α β :=
  roots.foldl (fun s a => if s.colour a = .white then visit graph report fuel a s else s) s

end Visits

-- What a node needs to be done
def Needs (b a : α) : Prop :=
  b ∈ graph a

-- A circuit that meets no node twice
structure Circuit (members : List α) : Prop where
  nonempty : members ≠ []
  nodup    : members.Nodup
  chain    : (members : Cycle α).Chain fun a b => b ∈ graph a

-- The last node on the stack has an edge to a node of the stack.
structure Closes (stack : List α) (b : α) : Prop where
  nodup : stack.Nodup
  chain : stack.IsChain fun a b => b ∈ graph a
  mem   : b ∈ stack
  edge  : ∀ a ∈ stack.getLast?, b ∈ graph a

variable {graph} {members stack all : List α} {a b : α}

section Circuits

theorem Circuit.rotated {other : List α} (h : Circuit graph members) (hr : members.IsRotated other) :
    Circuit graph other := by
  have heq : (members : Cycle α) = other := Cycle.coe_eq_coe.mpr hr
  constructor
  case nonempty => exact fun hnil => h.nonempty (List.isRotated_nil_iff.mp (hnil ▸ hr))
  case nodup    => exact hr.nodup_iff.mp h.nodup
  case chain    => exact heq ▸ h.chain

theorem Closes.circuit [DecidableEq α] (h : Closes graph stack b) : Circuit graph (stack.drop (stack.idxOf b)) := by
  have hlt : stack.idxOf b < stack.length := List.idxOf_lt_length_of_mem h.mem
  have hdrop : stack.drop (stack.idxOf b) = b :: stack.drop (stack.idxOf b + 1) := by
    rw [List.drop_eq_getElem_cons hlt, List.getElem_idxOf]
  have hlast : (stack.drop (stack.idxOf b)).getLast? = stack.getLast? := by
    rw [List.getLast?_drop, if_neg (Nat.not_le.mpr hlt)]
  constructor
  case nonempty => simp [hdrop]
  case nodup    => exact h.nodup.sublist (List.drop_sublist _ _)
  case chain =>
    have hchain := h.chain.drop (stack.idxOf b)
    rw [hdrop] at hchain hlast ⊢
    rw [Cycle.chain_coe_cons, ← List.cons_append, List.isChain_append]
    refine ⟨hchain, List.isChain_singleton _, ?_⟩
    intro a ha c hc
    cases Option.mem_some.mp hc
    exact h.edge a (hlast ▸ ha)

theorem Circuit.transGen (h : Circuit graph members) : ∃ a, TransGen (fun a b => b ∈ graph a) a a := by
  cases members
  case nil => exact absurd rfl h.nonempty
  case cons a members =>
    have hchain := (Cycle.chain_coe_cons _ a members).mp h.chain
    exists a
    cases members
    case nil => exact .single (List.isChain_cons_cons.mp hchain).left
    case cons b members =>
      rw [List.cons_append, List.isChain_cons_cons] at hchain
      apply TransGen.head' hchain.left
      apply List.relationReflTransGen_of_exists_isChain_cons (members ++ [a]) hchain.right
      simp

-- What is well-founded has no circuits.
theorem not_transGen_of_acc {r : α → α → Prop} (h : Acc r a) : ¬TransGen r a a := by
  have hacc := h.transGen
  clear h
  induction hacc
  case intro a _ hi => exact fun hr => hi a hr hr

-- And without circuits, a finite relation is well-founded.
theorem acc_of_acyclic {r : α → α → Prop} (hall : ∀ a b, r b a → b ∈ all) (h : ∀ a, ¬TransGen r a a) (a : α) :
    Acc r a := by
  let inner (b a : { a // a ∈ all }) : Prop := TransGen r b a
  have : IsTrans { a // a ∈ all } inner := ⟨fun _ _ _ => TransGen.trans⟩
  have : Std.Irrefl inner := ⟨fun a => h a⟩
  have : Finite { a // a ∈ all } := List.finite_toSet all
  have hwf : WellFounded inner := Finite.wellFounded_of_trans_of_irrefl inner
  have hacc (b : { a // a ∈ all }) : Acc r b := by
    induction b using hwf.induction
    case h b hi => exact .intro _ fun c hc => hi ⟨c, hall _ _ hc⟩ (.single hc)
  exact .intro _ fun b hb => hacc ⟨b, hall _ _ hb⟩

end Circuits

section Runs

variable [DecidableEq α] {report : List α → α → β → β} {s t u : Search α β} {fuel : ℕ} {bs roots : List α}
  {Clean : β → Prop}

-- What has been found changes where a circuit is closed.
def Reports (graph : α → List α) (report : List α → α → β → β) (found found' : β) : Prop :=
  ∃ stack b, Closes graph stack b ∧ found' = report stack b found

structure Tidy (graph : α → List α) (s : Search α β) : Prop where
  nodup : s.stack.Nodup
  chain : s.stack.IsChain fun a b => b ∈ graph a
  grey  : ∀ a, s.colour a = .grey ↔ a ∈ s.stack

-- How a search goes on. `Clean` says of what has been found that it holds no circuit.
structure Grown (graph : α → List α) (report : List α → α → β → β) (Clean : β → Prop) (s t : Search α β) : Prop where
  tidy    : Tidy graph t
  stack   : t.stack = s.stack
  black   : ∀ a, s.colour a = .black → t.colour a = .black
  white   : ∀ a, t.colour a = .white → s.colour a = .white
  reports : ReflTransGen (Reports graph report) s.found t.found
  settled : Clean t.found → (∀ a, s.colour a = .black → Acc (Needs graph) a) →
    ∀ a, t.colour a = .black → Acc (Needs graph) a

omit [DecidableEq α] in
theorem clean_of_reports (hclean : ∀ stack b found, Closes graph stack b → ¬Clean (report stack b found))
    {found found' : β} (hr : ReflTransGen (Reports graph report) found found') (h : Clean found') : found' = found := by
  induction hr
  case refl => rfl
  case tail hstep _ =>
    have ⟨stack, b, hcloses, heq⟩ := hstep
    exact absurd (heq ▸ h) (hclean stack b _ hcloses)

omit [DecidableEq α] in
theorem Grown.refl (h : Tidy graph s) : Grown graph report Clean s s :=
  ⟨h, rfl, fun _ => id, fun _ => id, .refl, fun _ => id⟩

omit [DecidableEq α] in
theorem Grown.trans (hclean : ∀ stack b found, Closes graph stack b → ¬Clean (report stack b found))
    (h : Grown graph report Clean s t) (h' : Grown graph report Clean t u) : Grown graph report Clean s u where
  tidy    := h'.tidy
  stack   := h'.stack.trans h.stack
  black a := h'.black a ∘ h.black a
  white a := h.white a ∘ h'.white a
  reports := h.reports.trans h'.reports
  settled hu hs := h'.settled hu (h.settled (clean_of_reports hclean h'.reports hu ▸ hu) hs)

-- The nodes that have not been visited
def whites (all : List α) (s : Search α β) : ℕ :=
  all.countP fun a => s.colour a = .white

omit [DecidableEq α] in
theorem Grown.whites (h : Grown graph report Clean s t) : whites all t ≤ whites all s :=
  List.countP_mono_left fun a _ ha => by simpa using h.white a (by simpa using ha)

theorem Tidy.enter (h : Tidy graph s) (ha : s.colour a = .white) (hedge : ∀ c ∈ s.stack.getLast?, a ∈ graph c) :
    Tidy graph { s with colour := Function.update s.colour a .grey, stack := s.stack ++ [a] } := by
  have hfresh : a ∉ s.stack := fun hmem => by simp [(h.grey a).mpr hmem] at ha
  constructor
  case nodup =>
    have hne : ∀ c ∈ s.stack, c ≠ a := fun c hc heq => hfresh (heq ▸ hc)
    simpa [List.nodup_append, h.nodup] using hne
  case chain =>
    rw [List.isChain_append]
    refine ⟨h.chain, List.isChain_singleton _, ?_⟩
    intro c hc d hd
    cases Option.mem_some.mp hd
    exact hedge c hc
  case grey =>
    intro c
    rw [List.mem_append, List.mem_singleton]
    by_cases hc : c = a
    case pos => simp [hc]
    case neg => simp [hc, h.grey]

theorem whites_enter (ha : s.colour a = .white) (hall : a ∈ all) :
    whites all { s with colour := Function.update s.colour a .grey, stack := s.stack ++ [a] } < whites all s := by
  unfold whites
  induction all
  case nil => exact absurd hall List.not_mem_nil
  case cons c all hi =>
    have hle : all.countP (fun c => Function.update s.colour a .grey c = .white) ≤
        all.countP fun c => s.colour c = .white := by
      apply List.countP_mono_left
      intro c _ hc
      by_cases heq : c = a
      case pos => simp [heq] at hc
      case neg => simpa [heq] using hc
    rw [List.countP_cons, List.countP_cons]
    by_cases heq : c = a
    case pos =>
      have hself : Function.update s.colour a .grey c ≠ .white := by simp [heq]
      rw [if_neg (by simpa using hself), if_pos (by simpa [heq] using ha)]
      exact Nat.lt_succ_of_le hle
    case neg =>
      have := hi ((List.mem_cons.mp hall).resolve_left (Ne.symm heq))
      simp only [Function.update_of_ne heq] at this ⊢
      omega

-- Once all nodes behind it have been scanned, a node is done.
theorem Grown.leave (hs : Tidy graph s) (ha : s.colour a = .white)
    (h : Grown graph report Clean { s with colour := Function.update s.colour a .grey, stack := s.stack ++ [a] } t)
    (hscan : Clean t.found → ∀ b ∈ graph a, t.colour b = .black) :
    Grown graph report Clean s { t with colour := Function.update t.colour a .black, stack := t.stack.dropLast } := by
  have hfresh : a ∉ s.stack := fun hmem => by simp [(hs.grey a).mpr hmem] at ha
  have hstack : t.stack.dropLast = s.stack := by rw [h.stack, List.dropLast_concat]
  have hblack {c : α} (hc : s.colour c = .black) : c ≠ a ∧ t.colour c = .black := by
    have hne : c ≠ a := fun heq => by simp [heq, ha] at hc
    exact ⟨hne, h.black c (by simpa [hne] using hc)⟩
  constructor
  case tidy =>
    constructor
    case nodup => exact hstack ▸ hs.nodup
    case chain => exact hstack ▸ hs.chain
    case grey =>
      intro c
      by_cases hc : c = a
      case pos => simp [hc, hstack, hfresh]
      case neg => simp [hc, h.tidy.grey, h.stack]
  case stack => exact hstack
  case black =>
    intro c hc
    simp [hblack hc]
  case white =>
    intro c hc
    by_cases heq : c = a
    case pos => exact heq ▸ ha
    case neg => simpa [heq] using h.white c (by simpa [heq] using hc)
  case reports => exact h.reports
  case settled =>
    intro hclean hacc c hc
    have hrest : ∀ c, t.colour c = .black → Acc (Needs graph) c := by
      apply h.settled hclean
      intro c hc
      by_cases heq : c = a
      case pos => simp [heq] at hc
      case neg => exact hacc c (by simpa [heq] using hc)
    by_cases heq : c = a
    case pos => exact heq ▸ .intro a fun b hb => hrest b (hscan hclean b hb)
    case neg => exact hrest c (by simpa [heq] using hc)

theorem visit_grown (hclean : ∀ stack b found, Closes graph stack b → ¬Clean (report stack b found))
    (hall : ∀ a, ∀ b ∈ graph a, b ∈ all) (hs : Tidy graph s) (ha : s.colour a = .white) (hmem : a ∈ all)
    (hedge : ∀ c ∈ s.stack.getLast?, a ∈ graph c) (hfuel : whites all s ≤ fuel) :
    Grown graph report Clean s (visit graph report fuel a s) ∧
    (visit graph report fuel a s).colour a = .black := by
  induction fuel generalizing a s
  case zero =>
    have hpos : 0 < whites all s := List.countP_pos_iff.mpr ⟨a, hmem, by simpa using ha⟩
    omega
  case succ fuel hi =>
    -- The nodes behind `a` are scanned one by one.
    have hscan (bs : List α) (hbs : bs ⊆ graph a) (s : Search α β) (hs : Tidy graph s)
        (hlast : s.stack.getLast? = some a) (hfuel : whites all s ≤ fuel) :
        let scanned := bs.foldl (look report (visit graph report fuel)) s
        Grown graph report Clean s scanned ∧ (Clean scanned.found → ∀ b ∈ bs, scanned.colour b = .black) := by
      induction bs generalizing s
      case nil => exact ⟨.refl hs, fun _ b hb => absurd hb List.not_mem_nil⟩
      case cons b bs hrec =>
        have hb : b ∈ graph a := hbs List.mem_cons_self
        have hstep : ∃ t, look report (visit graph report fuel) s b = t ∧ Grown graph report Clean s t ∧
            (Clean t.found → t.colour b = .black) := by
          unfold look
          cases hc : s.colour b
          case white =>
            have ⟨hgrown, hblack⟩ := hi hs hc (hall a b hb) (fun c hc => by simp_all) hfuel
            exact ⟨_, rfl, hgrown, fun _ => hblack⟩
          case grey =>
            have hcloses : Closes graph s.stack b := ⟨hs.nodup, hs.chain, (hs.grey b).mp hc, fun c hc => by simp_all⟩
            have hno := hclean s.stack b s.found hcloses
            refine ⟨_, rfl, ?_, fun h => absurd h hno⟩
            constructor
            case tidy    => exact ⟨hs.nodup, hs.chain, hs.grey⟩
            case stack   => rfl
            case black   => exact fun _ => id
            case white   => exact fun _ => id
            case reports => exact .single ⟨s.stack, b, hcloses, rfl⟩
            case settled => exact fun h => absurd h hno
          case black => exact ⟨s, rfl, .refl hs, fun _ => hc⟩
        have ⟨t, ht, hgrown, hblack⟩ := hstep
        have ⟨hrest, hdone⟩ := hrec (List.subset_of_cons_subset hbs) t hgrown.tidy (hgrown.stack ▸ hlast)
          (hgrown.whites.trans hfuel)
        simp only [List.foldl_cons, ht]
        refine ⟨hgrown.trans hclean hrest, fun hfinal => ?_⟩
        have heq := clean_of_reports hclean hrest.reports hfinal
        exact List.forall_mem_cons.mpr ⟨hrest.black b (hblack (heq ▸ hfinal)), hdone hfinal⟩
    have henter := whites_enter ha hmem
    have ⟨hgrown, hdone⟩ := hscan (graph a) (List.Subset.refl _) _ (hs.enter ha hedge) (by simp) (by omega)
    exact ⟨.leave hs ha hgrown hdone, Function.update_self ..⟩

theorem search_grown (hclean : ∀ stack b found, Closes graph stack b → ¬Clean (report stack b found))
    (hall : ∀ a, ∀ b ∈ graph a, b ∈ all) (hroots : roots ⊆ all) (hs : Tidy graph s) (hstack : s.stack = [])
    (hfuel : whites all s ≤ fuel) :
    Grown graph report Clean s (search graph report fuel roots s) ∧
    ∀ a ∈ roots, (search graph report fuel roots s).colour a = .black := by
  induction roots generalizing s
  case nil => exact ⟨.refl hs, fun a ha => absurd ha List.not_mem_nil⟩
  case cons a roots hi =>
    have hstep : ∃ t, (if s.colour a = .white then visit graph report fuel a s else s) = t ∧
        Grown graph report Clean s t ∧ t.colour a = .black := by
      split
      case isTrue ha =>
        have ⟨hgrown, hblack⟩ := visit_grown hclean hall hs ha (hroots List.mem_cons_self) (by simp [hstack]) hfuel
        exact ⟨_, rfl, hgrown, hblack⟩
      case isFalse ha =>
        refine ⟨s, rfl, .refl hs, ?_⟩
        cases hc : s.colour a
        case white => exact absurd hc ha
        case grey  => simpa [hstack] using (hs.grey a).mp hc
        case black => rfl
    have ⟨t, ht, hgrown, hblack⟩ := hstep
    have ⟨hrest, hdone⟩ := hi (List.subset_of_cons_subset hroots) hgrown.tidy (hgrown.stack.trans hstack)
      (hgrown.whites.trans hfuel)
    simp only [search, List.foldl_cons, ht]
    exact ⟨hgrown.trans hclean hrest, List.forall_mem_cons.mpr ⟨hrest.black a hblack, hdone⟩⟩

-- All that is reported are circuits, and if none is, then there are no circuits behind the roots.
theorem search_exact (report : List α → α → β → β) (Clean : β → Prop)
    (hclean : ∀ stack b found, Closes graph stack b → ¬Clean (report stack b found))
    (hall : ∀ a, ∀ b ∈ graph a, b ∈ all) (hroots : roots ⊆ all) (found : β) :
    let result := search graph report all.length roots ⟨fun _ => .white, [], found⟩
    ReflTransGen (Reports graph report) found result.found ∧
    (Clean result.found → ∀ a ∈ roots, Acc (Needs graph) a) := by
  have hs : Tidy graph (⟨fun _ => .white, [], found⟩ : Search α β) := ⟨.nil, .nil, by simp⟩
  have ⟨hgrown, hdone⟩ := search_grown hclean hall hroots hs rfl List.countP_le_length
  exact ⟨hgrown.reports, fun h a ha => hgrown.settled h (by simp) a (hdone a ha)⟩

end Runs
end DepthFirst
