import Mathlib.Data.List.Induction
import V8AgentOs.Lib.Transition

-- Replies that stand right behind what asks for them, and what becomes of this when each reply is followed by a remark
namespace Replies

variable {μ : Type*} {isReply : μ → Bool} {asks : μ → μ → Prop} {remark : μ → μ} {ms before after : List μ} {m : μ}

-- Between a reply and what asks for it, there are only other replies to it.
def Asked (isReply : μ → Bool) (asks : μ → μ → Prop) (before : List μ) (m : μ) : Prop :=
  ∃ earlier a between, before = earlier ++ a :: between ∧ asks a m ∧ ∀ m' ∈ between, isReply m' ∧ asks a m'

def Direct (isReply : μ → Bool) (asks : μ → μ → Prop) (ms : List μ) : Prop :=
  ∀ before m after, ms = before ++ m :: after → isReply m → Asked isReply asks before m

-- Each reply is followed by a remark.
def remarked (isReply : μ → Bool) (remark : μ → μ) (ms : List μ) : List μ :=
  ms.flatMap fun m => m :: if isReply m then [remark m] else []

-- Between a reply and what asks for it, there are only other replies to it, each with its remark.
def DirectUpTo (isReply : μ → Bool) (asks : μ → μ → Prop) (remark : μ → μ) (ms : List μ) : Prop :=
  ∀ before m after, ms = before ++ m :: after → isReply m → ∃ (earlier : List μ) (a : μ) (between : List μ),
    before = earlier ++ a :: between.flatMap (fun m' => [m', remark m']) ∧ asks a m ∧
      ∀ m' ∈ between, isReply m' ∧ asks a m'

theorem direct_nil : Direct isReply asks [] := by
  intro before m after h
  simp at h

theorem Direct.concat (h : Direct isReply asks ms) (hm : isReply m → Asked isReply asks ms m) :
    Direct isReply asks (ms ++ [m]) := by
  intro before x after heq hx
  cases Transition.split_concat heq
  case inl hlast =>
    obtain ⟨-, rfl, rfl⟩ := hlast
    exact hm hx
  case inr hinner =>
    obtain ⟨after', -, heq⟩ := hinner
    exact h before x after' heq hx

theorem Direct.append (h : Direct isReply asks ms) (hafter : ∀ m ∈ after, ¬isReply m) :
    Direct isReply asks (ms ++ after) := by
  induction after using List.reverseRecOn
  case nil => rwa [List.append_nil]
  case append_singleton after m hi =>
    rw [← List.append_assoc]
    apply (hi fun x hx => hafter x (List.mem_append_left _ hx)).concat
    exact fun hm => absurd hm (hafter m (by simp))

-- Replies to what stands last
theorem Direct.answer {a : μ} (h : Direct isReply asks (ms ++ [a])) (hreplies : ∀ m ∈ after, isReply m ∧ asks a m) :
    Direct isReply asks (ms ++ [a] ++ after) := by
  induction after using List.reverseRecOn
  case nil => rwa [List.append_nil]
  case append_singleton after m hi =>
    have hbefore := fun x hx => hreplies x (List.mem_append_left _ hx)
    rw [← List.append_assoc]
    apply (hi hbefore).concat
    intro _
    exact ⟨ms, a, after, by simp, (hreplies m (by simp)).2, hbefore⟩

theorem remarked_append (ms after : List μ) :
    remarked isReply remark (ms ++ after) = remarked isReply remark ms ++ remarked isReply remark after :=
  List.flatMap_append

-- A reply in the remarked list is one of the list, as no remark is a reply.
theorem split_remarked (hremark : ∀ m, isReply m → ¬isReply (remark m)) (hm : isReply m)
    (h : remarked isReply remark ms = before ++ m :: after) :
    ∃ before' after', ms = before' ++ m :: after' ∧ before = remarked isReply remark before' := by
  induction ms generalizing before
  case nil => simp [remarked] at h
  case cons x ms hi =>
    have hcons : remarked isReply remark (x :: ms) =
        x :: ((if isReply x then [remark x] else []) ++ remarked isReply remark ms) := rfl
    rw [hcons] at h
    cases before
    case nil =>
      rw [List.nil_append, List.cons.injEq] at h
      exact ⟨[], ms, by rw [h.1]; rfl, rfl⟩
    case cons y before =>
      rw [List.cons_append, List.cons.injEq] at h
      have hrest : ∃ before', remarked isReply remark ms = before' ++ m :: after ∧
          before = (if isReply x then [remark x] else []) ++ before' := by
        split_ifs at h ⊢ with hx
        case neg => exact ⟨before, h.2, rfl⟩
        case pos =>
          cases before
          case nil =>
            have hfirst := (List.cons.inj h.2).1
            exact absurd (hfirst ▸ hm) (hremark x hx)
          case cons z before =>
            rw [List.singleton_append, List.cons_append, List.cons.injEq] at h
            exact ⟨before, h.2.2, by rw [h.2.1]; rfl⟩
      obtain ⟨inner, heq, hbefore⟩ := hrest
      obtain ⟨before', after', hms, hinner⟩ := hi heq
      refine ⟨x :: before', after', by rw [hms]; rfl, ?_⟩
      rw [← h.1, hbefore, hinner]
      rfl

theorem remarked_of_replies (h : ∀ m ∈ ms, isReply m) :
    remarked isReply remark ms = ms.flatMap fun m => [m, remark m] := by
  induction ms
  case nil => rfl
  case cons m ms hi =>
    have hm := h m List.mem_cons_self
    have hi := hi fun x hx => h x (List.mem_cons_of_mem _ hx)
    unfold remarked at hi ⊢
    rw [List.flatMap_cons, List.flatMap_cons, hi, if_pos hm]

theorem DirectUpTo.of_direct (h : Direct isReply asks ms) (hremark : ∀ m, isReply m → ¬isReply (remark m))
    (hasks : ∀ a m, asks a m → ¬isReply a) : DirectUpTo isReply asks remark (remarked isReply remark ms) := by
  intro before m after heq hm
  obtain ⟨before', after', hms, hbefore⟩ := split_remarked hremark hm heq
  obtain ⟨earlier, a, between, hsplit, ha, hbetween⟩ := h before' m after' hms hm
  refine ⟨remarked isReply remark earlier, a, between, ?_, ha, hbetween⟩
  have hself : remarked isReply remark (a :: between) = a :: remarked isReply remark between := by
    have hno := hasks a m ha
    unfold remarked
    rw [List.flatMap_cons, if_neg hno]
    rfl
  rw [hbefore, hsplit, remarked_append, hself, remarked_of_replies fun m hm => (hbetween m hm).1]

end Replies
