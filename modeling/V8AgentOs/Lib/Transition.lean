import Mathlib.Data.List.Nodup
import Mathlib.Order.Defs.PartialOrder

-- A labelled transition system over an arbitrary state type `σ` and event type `ε`.
--
-- Events carry everything an observer sees of a step (the call that was made and what it
-- returned), so properties of a history can be stated about the list of events of a run.
structure Transition (σ ε : Type*) where
  init : σ → Prop
  step : σ → ε → σ → Prop

namespace Transition

variable {σ ε κ : Type*}

inductive Run (sys : Transition σ ε) : σ → List ε → σ → Prop
  | refl {s} : Run sys s [] s
  | trans {s t u e es} : sys.step s e t → Run sys t es u → Run sys s (e :: es) u

inductive Reachable (sys : Transition σ ε) : σ → Prop
  | init {s} : sys.init s → Reachable sys s
  | step {s e t} : Reachable sys s → sys.step s e t → Reachable sys t

variable {sys : Transition σ ε} {s t u : σ} {e : ε} {es es₁ es₂ : List ε}

namespace Run

theorem single (h : sys.step s e t) : sys.Run s [e] t :=
  .trans h .refl

theorem append (r₁ : sys.Run s es₁ t) (r₂ : sys.Run t es₂ u) : sys.Run s (es₁ ++ es₂) u := by
  induction r₁
  case refl         => exact r₂
  case trans h _ hi => exact .trans h (hi r₂)

-- Every event of a run happens in some intermediate state.
theorem split (r : sys.Run s es t) (h : e ∈ es) :
    ∃ s₁ s₂ es₁ es₂, sys.Run s es₁ s₁ ∧ sys.step s₁ e s₂ ∧ sys.Run s₂ es₂ t := by
  induction r
  case refl => simp at h
  case trans hs r hi =>
    cases List.mem_cons.mp h
    case inl h => exact ⟨_, _, _, _, .refl, h ▸ hs, r⟩
    case inr h =>
      have ⟨_, _, _, _, r₁, hs', r₂⟩ := hi h
      exact ⟨_, _, _, _, .trans hs r₁, hs', r₂⟩

theorem of_append (r : sys.Run s (es₁ ++ es₂) u) : ∃ t, sys.Run s es₁ t ∧ sys.Run t es₂ u := by
  induction es₁ generalizing s
  case nil => exact ⟨s, .refl, r⟩
  case cons e es₁ hi =>
    cases r
    case trans hs r =>
      have ⟨t, r₁, r₂⟩ := hi r
      exact ⟨t, .trans hs r₁, r₂⟩

-- An invariant of the events so far and the state.
theorem history {H : List ε → σ → Prop} (hH : ∀ es s e t, H es s → sys.step s e t → H (es ++ [e]) t)
    (r : sys.Run s es t) (h : H es₁ s) : H (es₁ ++ es) t := by
  induction r generalizing es₁
  case refl => simpa using h
  case trans e es hs _ hi =>
    have := hi (hH _ _ _ _ h hs)
    simpa using this

theorem from_start {H : List ε → σ → Prop} (r : sys.Run s es t) (h : H [] s)
    (hH : ∀ es s e t, H es s → sys.step s e t → H (es ++ [e]) t) : H es t :=
  history hH r h

theorem preserves {I : σ → Prop} (hI : ∀ s e t, I s → sys.step s e t → I t)
    (r : sys.Run s es t) (h : I s) : I t := by
  induction r
  case refl         => exact h
  case trans hs _ hi => exact hi (hI _ _ _ h hs)

-- A reflexive and transitive relation that contains every step (from a state that satisfies an
-- invariant) relates the two ends of every run.
theorem relates {I : σ → Prop} {R : σ → σ → Prop} (hI : ∀ s e t, I s → sys.step s e t → I t)
    (refl : ∀ s, R s s) (trans : ∀ s t u, R s t → R t u → R s u)
    (step : ∀ s e t, I s → sys.step s e t → R s t) (r : sys.Run s es t) (h : I s) : R s t := by
  induction r
  case refl          => exact refl _
  case trans hs _ hi => exact trans _ _ _ (step _ _ _ h hs) (hi (hI _ _ _ h hs))

section AtMostOnce

-- The keys an event emits, and the keys that are spent in a state. A key is emitted only when it
-- is not spent yet, emitting it spends it, and no step makes a spent key available again.
variable {I : σ → Prop} {emits : ε → List κ} {S : σ → κ → Prop}

theorem emitted_not_spent (hI : ∀ s e t, I s → sys.step s e t → I t)
    (fresh : ∀ s e t, I s → sys.step s e t → ∀ k ∈ emits e, ¬S s k)
    (mono : ∀ s e t, I s → sys.step s e t → ∀ k, S s k → S t k)
    (r : sys.Run s es t) (h : I s) : ∀ k ∈ es.flatMap emits, ¬S s k := by
  induction r
  case refl => simp
  case trans hs _ hi =>
    intro k hk hsp
    cases List.mem_append.mp (List.flatMap_cons ▸ hk)
    case inl hk => exact fresh _ _ _ h hs k hk hsp
    case inr hk => exact hi (hI _ _ _ h hs) k hk (mono _ _ _ h hs k hsp)

-- The at-most-once rule: over a whole run no key is emitted twice.
theorem nodup_emitted (hI : ∀ s e t, I s → sys.step s e t → I t)
    (nodup : ∀ s e t, I s → sys.step s e t → (emits e).Nodup)
    (fresh : ∀ s e t, I s → sys.step s e t → ∀ k ∈ emits e, ¬S s k)
    (spends : ∀ s e t, I s → sys.step s e t → ∀ k ∈ emits e, S t k)
    (mono : ∀ s e t, I s → sys.step s e t → ∀ k, S s k → S t k)
    (r : sys.Run s es t) (h : I s) : (es.flatMap emits).Nodup := by
  induction r
  case refl => simp
  case trans hs r hi =>
    have h' := hI _ _ _ h hs
    rw [List.flatMap_cons]
    refine List.Nodup.append (nodup _ _ _ h hs) (hi h') fun k hk hk' => ?_
    exact emitted_not_spent hI fresh mono r h' k hk' (spends _ _ _ h hs k hk)

end AtMostOnce
end Run

namespace Reachable

theorem run (h : sys.Reachable s) (r : sys.Run s es t) : sys.Reachable t := by
  induction r
  case refl          => exact h
  case trans hs _ hi => exact hi (.step h hs)

theorem exists_run (h : sys.Reachable s) : ∃ s₀ es, sys.init s₀ ∧ sys.Run s₀ es s := by
  induction h
  case init h => exact ⟨_, _, h, .refl⟩
  case step hs hi =>
    have ⟨s₀, es, h₀, r⟩ := hi
    exact ⟨s₀, _, h₀, r.append (.single hs)⟩

theorem invariant {I : σ → Prop} (h₀ : ∀ s, sys.init s → I s)
    (hI : ∀ s e t, I s → sys.step s e t → I t) (h : sys.Reachable s) : I s := by
  induction h
  case init h     => exact h₀ _ h
  case step hs hi => exact hI _ _ _ hi hs

-- Steps that are taken by a function
theorem foldlM {f : σ → ε → Option σ} (hf : ∀ s e t, f s e = some t → sys.step s e t) (h : sys.Reachable s)
    (hs : es.foldlM f s = some t) : sys.Reachable t := by
  induction es generalizing s
  case nil => cases hs; exact h
  case cons e es hi =>
    rw [List.foldlM_cons, Option.bind_eq_bind, Option.bind_eq_some_iff] at hs
    obtain ⟨u, hu, hs⟩ := hs
    exact hi (.step h (hf _ _ _ hu)) hs

end Reachable

-- The last thing that the events of a history say, each of which says something or nothing
def latest (f : ε → Option κ) (es : List ε) : Option κ :=
  (es.filterMap f).getLast?

theorem latest_concat {f : ε → Option κ} : latest f (es ++ [e]) = (f e).or (latest f es) := by
  unfold latest
  rw [List.filterMap_append]
  cases h : f e
  case none   => simp [h]
  case some o => simp [h]

-- A history that ends with one more event ends with it, or the event is the marked one.
theorem split_concat {x : ε} (h : es ++ [e] = es₁ ++ x :: es₂) :
    (es₂ = [] ∧ es = es₁ ∧ e = x) ∨ ∃ es₃, es₂ = es₃ ++ [e] ∧ es = es₁ ++ x :: es₃ := by
  cases List.eq_nil_or_concat es₂
  case inl hn =>
    subst hn
    have ⟨h₁, h₂⟩ := List.append_inj' h rfl
    exact .inl ⟨rfl, h₁, List.singleton_inj.mp h₂⟩
  case inr hc =>
    have ⟨es₃, y, hy⟩ := hc
    subst hy
    have h : es ++ [e] = (es₁ ++ x :: es₃) ++ [y] := by simpa using h
    have ⟨h₁, h₂⟩ := List.append_inj' h rfl
    exact .inr ⟨es₃, by simp [List.singleton_inj.mp h₂], h₁⟩

-- The runs of `sys` all of whose steps meet a condition on the event and the state before it.
def restrict (sys : Transition σ ε) (ok : σ → ε → Prop) : Transition σ ε where
  init := sys.init
  step s e t := ok s e ∧ sys.step s e t

theorem Run.of_restrict {ok : σ → ε → Prop} (r : (sys.restrict ok).Run s es t) : sys.Run s es t := by
  induction r
  case refl          => exact .refl
  case trans hs _ hi => exact .trans hs.right hi

theorem Reachable.of_restrict {ok : σ → ε → Prop} (h : (sys.restrict ok).Reachable s) :
    sys.Reachable s := by
  induction h
  case init h     => exact .init h
  case step hs hi => exact .step hi hs.right

end Transition
