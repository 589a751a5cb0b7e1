import V8AgentOs.ChatStream.Stored

-- What a reader has seen of a message when its stream ends is the text that is kept of it.
namespace ChatStream

open ModelEvents Python

open Emission (Keeps keeps_all andThen)

variable {P : Type*} {text : Text} {payloads : Payloads P} {s t : ChatStreamState} {out : List Chunk}
  {signal : Signal P} {signals : List (Signal P)} {display terminal preserve : Bool} {modelRunId : String}
  {events : List CanonicalModelEvent} {event : CanonicalModelEvent} {runIds : List String}

section Calls

variable {call : Call P} {stores : Stores}

end Calls

section Signals

-- No text of another run arrives while one is buffered, nothing is corrected that the filter holds back, and what is
-- buffered is not flushed on behalf of someone who does not write to the message.
structure Orderly (text : Text) (payloads : Payloads P) (s : ChatStreamState) (signal : Signal P) : Prop where
  turns  : ∀ event ∈ signal.events text payloads s, event.eventType = .textDelta → InTurn s event.modelRunId
  whole  : ∀ event ∈ signal.events text payloads s,
    (event.diagnostics.get "terminalTextCorrection").truthy → s.textFilter.flushed ∨ s.textFilter.buffer = []
  shared : signal = .guidance false → s.textAggregator.buffer = []

end Signals

section Ends

-- A text that the filter has held back to the end is the only one of its message.
theorem Faithful.held (h : Faithful s out) (hheld : s.textFilter.flush.1 ≠ []) :
    s.outputTextRunOrder = [] ∧ s.outputBuffer = [] ∧ s.textAggregator.buffer = [] ∧ (seen out).order = [] := by
  have hclosed : s.textFilter.flushed ≠ true := by
    intro hf
    simp [StreamFilter.flush, hf] at hheld
  have horder : s.outputTextRunOrder = [] := by
    by_contra hne
    exact hclosed (h.filter hne)
  have hstored : (settled s (seen out)).order = [] := h.stored ▸ horder
  have hnil : s.textAggregator.buffer = [] := by
    by_contra hne
    rw [settled, if_neg hne, Texts.put] at hstored
    simp only at hstored
    split at hstored
    case isTrue hmem => rw [hstored] at hmem; exact absurd hmem List.not_mem_nil
    case isFalse     => simp at hstored
  refine ⟨horder, ?_, hnil, ?_⟩
  · rw [h.buffer, horder, List.map_nil]
  · rwa [settled_nil hnil] at hstored

end Ends
end ChatStream
