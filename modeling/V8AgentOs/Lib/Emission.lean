import Mathlib.Data.List.Basic

-- Programs that change a state and append to an output.
def Emission (σ φ : Type*) := σ → σ × List φ

namespace Emission

variable {σ φ α β : Type*}

def skip : Emission σ φ :=
  fun s => (s, [])

def andThen (f g : Emission σ φ) : Emission σ φ :=
  fun s => ((g (f s).1).1, (f s).2 ++ (g (f s).1).2)

def all (f : α → Emission σ φ) : List α → Emission σ φ
  | []      => skip
  | a :: as => (f a).andThen (all f as)

-- What holds of the state and the output so far holds after the program.
def Keeps (I : σ → List φ → Prop) (f : Emission σ φ) : Prop :=
  ∀ s out, I s out → I (f s).1 (out ++ (f s).2)

variable {I : σ → List φ → Prop} {f g : Emission σ φ}

theorem keeps_skip : Keeps I skip := by
  intro s out h
  rw [skip, List.append_nil]
  exact h

theorem Keeps.andThen (hf : Keeps I f) (hg : Keeps I g) : Keeps I (f.andThen g) := by
  intro s out h
  have h' := hg _ _ (hf s out h)
  rw [List.append_assoc] at h'
  exact h'

theorem keeps_all {f : α → Emission σ φ} {as : List α} (h : ∀ a ∈ as, Keeps I (f a)) : Keeps I (all f as) := by
  induction as
  case nil => exact keeps_skip
  case cons a as hi =>
    have ha := h a List.mem_cons_self
    exact ha.andThen (hi fun b hb => h b (List.mem_cons_of_mem a hb))

theorem all_concat {f : α → Emission σ φ} {as : List α} {a : α} {s : σ} :
    all f (as ++ [a]) s = ((f a (all f as s).1).1, (all f as s).2 ++ (f a (all f as s).1).2) := by
  induction as generalizing s
  case nil => simp [all, andThen, skip]
  case cons b as hi => simp [all, andThen, hi]

-- What a program says, of which the output of two programs says the one after the other
theorem flatMap_andThen {m : φ → List β} {s : σ} :
    ((f.andThen g) s).2.flatMap m = (f s).2.flatMap m ++ (g (f s).1).2.flatMap m :=
  List.flatMap_append

end Emission
