import V8AgentOs.Runs.Kept

-- The control signal and the metadata of a run, over every interleaving of calls.
namespace Runs

open Python (Dict Json Text)

-- The signal that an event sets on a run
def Event.signals (id : String) (e : Event) : Option Dict :=
  match e.action with
  | .commit (.setControlSignal run command reason payload) _ true =>
    if run = id then some (signalValue command reason payload) else none
  | _ => none

-- The event consumes or clears the signal of a run, or updates the metadata key of the signal.
def Event.Takes (id : String) (e : Event) : Prop :=
  e.gives id "control_signal" ≠ none ∧ e.signals id = none

variable {text : Text} {w : World} {s t : State} {e : Event} {es : List Event} {tr : Transaction}
  {runs runs' : RunTable} {id key : String} {i : ℕ} {b : Bool} {d : Dict}

theorem gives_commit : Event.gives id key ⟨i, .commit tr w b⟩ = if b then tr.gives id key else none := by
  cases b
  case false => rfl
  case true  => rfl

theorem valueOf_step (hs : (system text).step s e t) (hf : Fresh s e) :
    valueOf t.runs id key = (e.gives id key).getD (valueOf s.runs id key) := by
  cases hs
  case call    => rfl
  case recheck => rfl
  case stop    => rfl
  case commit =>
    rw [gives_commit]
    exact valueOf_apply hf

-- A step that undoes nothing is fresh.
theorem fresh_of_step (hs : (system text).step s e t)
    (h : ∀ id key, valueOf t.runs id key = (e.gives id key).getD (valueOf s.runs id key)) : Fresh s e := by
  cases hs
  case call    => trivial
  case recheck => trivial
  case stop    => trivial
  case commit i tr w hw =>
    have h : ∀ id key, valueOf (tr.apply text w s.runs).2 id key =
        (if (tr.apply text w s.runs).1 then tr.gives id key else none).getD (valueOf s.runs id key) := by
      intro id key
      rw [← gives_commit]
      exact h id key
    exact fresh_of_apply h

theorem readMetadata_lookup : (readMetadata runs id).lookup key = valueOf runs id key := by
  unfold readMetadata valueOf
  cases runs.get? id
  case none   => rfl
  case some r => rfl

theorem getControlSignal_congr (h : valueOf runs id "control_signal" = valueOf runs' id "control_signal") :
    getControlSignal runs id = getControlSignal runs' id := by
  simp only [getControlSignal, controlSignal, markerOf, readMetadata_lookup, h]

theorem getControlSignal_of_valueOf (h : valueOf runs id "control_signal" = some (.dict d)) (hd : d.isEmpty = false) :
    getControlSignal runs id = some d := by
  simp only [getControlSignal, controlSignal, markerOf, readMetadata_lookup, h]
  simp [Option.filter, hd]

-- An event that sets a signal gives it to the key.
theorem gives_of_signals (h : e.signals id = some d) :
    e.gives id "control_signal" = some (some (.dict d)) ∧ d.isEmpty = false := by
  unfold Event.signals at h
  split at h
  case h_2 => cases h
  case h_1 run command reason payload w ha =>
    split at h
    case isFalse => cases h
    case isTrue hid =>
      cases h
      simp [Event.gives, ha, Transaction.gives, hid, signalValue]

theorem signal_step (hs : (system text).step s e t) (hf : Fresh s e) (hn : ¬e.Takes id) :
    getControlSignal t.runs id = (e.signals id).or (getControlSignal s.runs id) := by
  have hv : valueOf t.runs id "control_signal" =
      (e.gives id "control_signal").getD (valueOf s.runs id "control_signal") := valueOf_step hs hf
  cases hd : e.signals id
  case some d =>
    have ⟨hg, hne⟩ := gives_of_signals hd
    rw [hg] at hv
    exact getControlSignal_of_valueOf hv hne
  case none =>
    have hg : e.gives id "control_signal" = none := by
      cases hg : e.gives id "control_signal"
      case none   => rfl
      case some v => exact absurd ⟨by simp [hg], hd⟩ hn
    rw [hg] at hv
    exact getControlSignal_congr hv

theorem signal_run (r : ((system text).restrict Fresh).Run s es t) (hn : ∀ e ∈ es, ¬e.Takes id) :
    getControlSignal t.runs id = (Transition.latest (·.signals id) es).or (getControlSignal s.runs id) := by
  revert hn
  apply r.from_start (H := fun es t => (∀ e ∈ es, ¬e.Takes id) →
    getControlSignal t.runs id = (Transition.latest (·.signals id) es).or (getControlSignal s.runs id))
  case h  => exact fun _ => rfl
  case hH =>
    intro es u e v hi hs hn
    have hn' := List.forall_mem_append.mp hn
    rw [signal_step hs.right hs.left (hn'.right e List.mem_cons_self), hi hn'.left, Transition.latest_concat,
      Option.or_assoc]

theorem valueOf_run (r : ((system text).restrict Fresh).Run s es t) :
    valueOf t.runs id key = (Transition.latest (·.gives id key) es).getD (valueOf s.runs id key) := by
  apply r.from_start (H := fun es t =>
    valueOf t.runs id key = (Transition.latest (·.gives id key) es).getD (valueOf s.runs id key))
  case h  => rfl
  case hH =>
    intro es u e v hi hs
    rw [valueOf_step hs.right hs.left, hi, Transition.latest_concat]
    cases e.gives id key
    case none   => rfl
    case some o => rfl

-- In a run whose steps write no metadata over newer metadata, a control signal stays until it is consumed or
-- cleared, where a newer signal replaces it, and every key has the value that the call that wrote it last gave to
-- it. Any other step undoes what another call wrote.
theorem control_kept (r : ((system text).restrict Fresh).Run s es t) (id : String) :
    ((∀ e ∈ es, ¬e.Takes id) →
      getControlSignal t.runs id = (Transition.latest (·.signals id) es).or (getControlSignal s.runs id)) ∧
    (∀ key, valueOf t.runs id key = (Transition.latest (·.gives id key) es).getD (valueOf s.runs id key)) ∧
    ∀ s e t, (system text).step s e t →
      (Fresh s e ↔ ∀ id key, valueOf t.runs id key = (e.gives id key).getD (valueOf s.runs id key)) :=
  ⟨signal_run r, fun _ => valueOf_run r, fun _ _ _ hs => ⟨fun hf _ _ => valueOf_step hs hf, fresh_of_step hs⟩⟩

section Sample

def sampleRow : RunRecord where
  id           := "run"
  sessionId    := "session"
  runType      := "chat"
  status       := "running"
  errorMessage := none
  metadata     := []
  finishedAt   := none

def sampleWorld : World where
  now       := 0
  blocked _ := none

def sampleState : State where
  runs   := ⟨[sampleRow], by simp⟩
  work _ := none

-- A thread has read the metadata, which it is about to extend, and another one cancels the run.
def sampleHint : Transaction :=
  .updateRunRecord "run" "running" none (some ⟨[], [("taskShapeHint", .str "code")]⟩)

def sampleCancel : Transaction :=
  .setControlSignal "run" "cancel" none []

def sampleCancelled : RunTable :=
  (sampleCancel.apply Python.asciiText sampleWorld sampleState.runs).2

def samplePending : State where
  runs := sampleCancelled
  work := Function.update (Function.update (Function.update sampleState.work 0 (some (.transaction sampleHint))) 1
    (some (.transaction sampleCancel))) 1 none

def sampleStart : List Event :=
  [⟨0, .call (.updateMetadata "run" [("taskShapeHint", .str "code")])⟩,
    ⟨1, .call (.setControlSignal "run" "cancel" none [])⟩, ⟨1, .commit sampleCancel sampleWorld true⟩]

theorem sampleStart_run : (system Python.asciiText).Run sampleState sampleStart samplePending := by
  refine .trans (.call rfl) (.trans (.call rfl) (.single ?_))
  exact .commit (w := sampleWorld) rfl

def sampleEnd : List Event :=
  [⟨0, .commit sampleHint sampleWorld true⟩]

def sampleLost : State where
  runs := (sampleHint.apply Python.asciiText sampleWorld sampleCancelled).2
  work := Function.update samplePending.work 0 none

theorem sampleEnd_run : (system Python.asciiText).Run samplePending sampleEnd sampleLost :=
  .single (.commit rfl)

-- The write of the first thread drops the cancellation that was set after its read.
theorem cancel_lost :
    ¬∀ (text : Text) (s₀ s t : State) (es es' : List Event) (id : String), (system text).init s₀ →
      (system text).Run s₀ es s → (system text).Run s es' t → (∀ e ∈ es', ¬e.Takes id) →
      getControlSignal s.runs id ≠ none → getControlSignal t.runs id ≠ none := by
  intro h
  have hn : ∀ e ∈ sampleEnd, ¬e.Takes "run" :=
    List.forall_iff_forall_mem.mp fun h => h.left (by decide)
  exact h Python.asciiText _ _ _ _ _ "run" (fun _ => rfl) sampleStart_run sampleEnd_run hn (by decide +kernel)
    (by decide +kernel)

theorem control_kept_cancelled : getControlSignal samplePending.runs "run" = some (signalValue "cancel" none []) := by
  have r : ((system Python.asciiText).restrict Fresh).Run sampleState sampleStart samplePending := by
    refine .trans ⟨trivial, .call rfl⟩ (.trans ⟨trivial, .call rfl⟩ (.single ⟨trivial, ?_⟩))
    exact .commit (w := sampleWorld) rfl
  have hn : ∀ e ∈ sampleStart, ¬e.Takes "run" :=
    List.forall_iff_forall_mem.mp ⟨fun h => h.left rfl, fun h => h.left rfl,
      fun h => absurd h.right (by simp [Event.signals, sampleCancel])⟩
  exact (control_kept r "run").left hn

end Sample
end Runs
