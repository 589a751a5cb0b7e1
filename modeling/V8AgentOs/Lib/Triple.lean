import Mathlib.Logic.Basic

-- Hoare triples for stateful programs that may stop before their end.
--
-- A program of `EStateM ε σ` ends with a value, or stops with an `ε`: a crash that keeps what was
-- already done, or a refusal. A triple describes the states of both endings.
namespace Hoare

variable {ε σ α β : Type}

def Triple (pre : σ → Prop) (x : EStateM ε σ α) (post : α → σ → Prop) (stop : ε → σ → Prop) : Prop :=
  ∀ s, pre s → match x s with
    | .ok a t    => post a t
    | .error e t => stop e t

namespace Triple

variable {P P' : σ → Prop} {x : EStateM ε σ α} {f : α → EStateM ε σ β} {Q Q' : α → σ → Prop}
  {R : β → σ → Prop} {E E' : ε → σ → Prop} {s t : σ} {a : α} {e : ε}

theorem intro (h : ∀ s, P s → match x s with
    | .ok a t    => Q a t
    | .error e t => E e t) : Triple P x Q E := h

theorem ok (h : Triple P x Q E) (hs : P s) (hx : x s = .ok a t) : Q a t := by
  have := h s hs
  rwa [hx] at this

theorem error (h : Triple P x Q E) (hs : P s) (hx : x s = .error e t) : E e t := by
  have := h s hs
  rwa [hx] at this

theorem pure (h : ∀ s, P s → Q a s) : Triple P (pure a) Q E := h

theorem throw (h : ∀ s, P s → E e s) : Triple P (throw e) Q E := h

theorem stop : Triple P (MonadExcept.throw e : EStateM ε σ α) Q fun _ _ => True :=
  throw fun _ _ => trivial

theorem bind (hx : Triple P x Q E) (hf : ∀ a, Triple (Q a) (f a) R E) :
    Triple P (x >>= f) R E := by
  intro s hs
  show match EStateM.bind x f s with | .ok a t => R a t | .error e t => E e t
  unfold EStateM.bind
  cases hr : x s
  case ok a t    => exact hf a t (hx.ok hs hr)
  case error e t => exact hx.error hs hr

theorem modify {Q : PUnit → σ → Prop} {g : σ → σ} (h : ∀ s, P s → Q ⟨⟩ (g s)) :
    Triple P (modify g) Q E := h

theorem get {Q : σ → σ → Prop} (h : ∀ s, P s → Q s s) : Triple P get Q E := h

theorem map {g : α → β} (h : Triple P x (fun a => R (g a)) E) : Triple P (g <$> x) R E := by
  intro s hs
  show match EStateM.map g x s with | .ok a t => R a t | .error e t => E e t
  unfold EStateM.map
  cases hr : x s
  case ok a t    => exact h.ok hs hr
  case error e t => exact h.error hs hr

theorem ite {c : Prop} [Decidable c] {y : EStateM ε σ α} (hx : c → Triple P x Q E)
    (hy : ¬c → Triple P y Q E) : Triple P (if c then x else y) Q E := by
  split
  case isTrue h  => exact hx h
  case isFalse h => exact hy h

theorem and (h : Triple P x Q E) (h' : Triple P x Q' E') :
    Triple P x (fun a s => Q a s ∧ Q' a s) fun e s => E e s ∧ E' e s := by
  intro s hs
  cases hr : x s
  case ok a t    => exact ⟨h.ok hs hr, h'.ok hs hr⟩
  case error e t => exact ⟨h.error hs hr, h'.error hs hr⟩

-- The state of a program that stopped is the one in which the handler starts.
theorem tryCatch {h : ε → EStateM ε σ α} (hx : Triple P x Q E) (hh : ∀ e, Triple (E e) (h e) Q E') :
    Triple P (MonadExcept.tryCatch x h) Q E' := by
  intro s hs
  show match EStateM.tryCatch x h s with | .ok a t => Q a t | .error e t => E' e t
  unfold EStateM.tryCatch
  cases hr : x s
  case ok a t    => exact hx.ok hs hr
  case error e t => exact hh e t (hx.error hs hr)

theorem conseq (h : Triple P x Q E) (hp : ∀ s, P' s → P s) (hq : ∀ a s, Q a s → Q' a s)
    (he : ∀ e s, E e s → E' e s) : Triple P' x Q' E' := by
  intro s hs
  cases hr : x s
  case ok a t    => exact hq a t (h.ok (hp s hs) hr)
  case error e t => exact he e t (h.error (hp s hs) hr)

-- From what a program does in each state to what it does under a precondition.
theorem adapt {S : σ → α → σ → Prop} {C : σ → ε → σ → Prop}
    (h : ∀ s, Triple (· = s) x (S s) (C s)) (hq : ∀ s a t, P s → S s a t → Q a t)
    (he : ∀ s e t, P s → C s e t → E e t) : Triple P x Q E := by
  intro s hs
  exact (h s).conseq (fun _ h => h) (fun a t => hq s a t hs) (fun e t => he s e t hs) s rfl

theorem assume (h : ∀ s, P s → Triple (· = s) x Q E) : Triple P x Q E :=
  fun s hs => h s hs s rfl

end Triple

-- A transaction: a program that stops has no effect.
def atomically (x : EStateM ε σ α) : EStateM ε σ α := fun s =>
  match x s with
  | .ok a t    => .ok a t
  | .error e _ => .error e s

namespace Triple

variable {P : σ → Prop} {x : EStateM ε σ α} {f : α → EStateM ε σ β} {Q : α → σ → Prop}
  {R : β → σ → Prop} {E : ε → σ → Prop} {s t : σ} {a : α}

-- Rules for a program that starts in a known state: it is run statement by statement.
section Known

theorem atomically (h : Triple (· = s) x Q E) :
    Triple (· = s) (atomically x) Q fun e t => t = s ∧ ∃ u, E e u := by
  intro u hu
  subst hu
  unfold Hoare.atomically
  cases hx : x u
  case ok a t    => exact h.ok rfl hx
  case error e t => exact ⟨rfl, t, h.error rfl hx⟩

theorem chain (hx : Triple (· = s) x Q E) (hf : ∀ a t, Q a t → Triple (· = t) (f a) R E) :
    Triple (· = s) (x >>= f) R E :=
  hx.bind fun a => assume (hf a)

theorem read {f : σ → EStateM ε σ β} (h : Triple (· = s) (f s) R E) :
    Triple (· = s) (EStateM.get >>= f) R E := by
  apply bind (Q := fun a t => a = s ∧ t = s) (get fun _ h => ⟨h, h⟩)
  intro a
  apply assume
  intro t ht
  rw [ht.left, ht.right]
  exact h

theorem write {f : PUnit → EStateM ε σ β} (h : Triple (· = t) (f ⟨⟩) R E) :
    Triple (· = s) (set t >>= f) R E :=
  bind (modify fun _ _ => rfl) fun _ => h

theorem update {g : σ → σ} {f : PUnit → EStateM ε σ β} (h : Triple (· = g s) (f ⟨⟩) R E) :
    Triple (· = s) (MonadState.modifyGet (fun s => (⟨⟩, g s)) >>= f) R E :=
  bind (modify fun _ h => h ▸ rfl) fun _ => h

theorem done (h : Q a s) : Triple (· = s) (Pure.pure a) Q E :=
  pure fun _ hs => hs ▸ h

end Known
end Triple

-- From here on a triple is used through its rules only.
attribute [irreducible] Triple

-- The steps of a program without a state that ended
theorem bind_ok {x : Except ε α} {f : α → Except ε β} {b : β} (h : x >>= f = .ok b) :
    ∃ a, x = .ok a ∧ f a = .ok b := by
  cases x
  case error => cases h
  case ok a  => exact ⟨a, rfl, h⟩

end Hoare
