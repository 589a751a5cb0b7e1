import V8AgentOs.Lib.Along
import V8AgentOs.ModelEvents.Adapter

-- What a call on behalf of one model run does with the snapshots of that run.
namespace ModelEvents

open Python

variable {P : Type*} (text : Text) (payloads : Payloads P)

def runKey (call : Call P) : String :=
  normalizedModelRunId (modelRunId text call)

def eventKey (event : CanonicalModelEvent) : String :=
  normalizedModelRunId event.modelRunId

-- The reasoning that an accepted payload brings.
def fragment (call : Call P) : Chars :=
  let raw := rawReasoning payloads call
  if raw = [] then []
  else
    publicReasoning payloads (reasoningPayloadDecision text payloads call.event call.payload call.surface)
      call.payload raw

-- A call of an assistant's root run whose chunks are additive and whose reasoning is accepted.
structure Plain (call : Call P) : Prop where
  root     : scopeForEvent text call.event = .assistantRoot
  additive : call.terminal = false → payloads.isChunk call.payload
  accepted : rawReasoning payloads call ≠ [] →
    ((reasoningPayloadDecision text payloads call.event call.payload call.surface).get "accepted").truthy

def textTurn (call : Call P) (previous : Chars) : (Chars × Chars) × Dict :=
  if call.terminal then mergeTerminalText previous (rawText payloads call) call.emittedText
  else ((rawText payloads call, previous ++ rawText payloads call), [("textStreamMode", .str "delta")])

def reasoningTurn (call : Call P) (previous : Chars) : Chars × Chars :=
  if call.suppressReasoning || (call.terminal && rawText payloads call ≠ [] && previous ≠ []) then ([], previous)
  else mergeStreamValue true previous (fragment text payloads call)

-- The event of a delta, if there is one.
def said (call : Call P) (type : CanonicalModelEventType) (turn : Chars × Chars) (diagnostics : Dict) :
    List CanonicalModelEvent :=
  if turn.1 = [] then []
  else
    [⟨type, text.stripped (orElse (call.event.get "parent_run_id") (call.event.get "run_id")), modelRunId text call,
      .assistantRoot, turn.1, turn.2, diagnostics⟩]

def turnEvents (call : Call P) (previousText previousReasoning : Chars) : List CanonicalModelEvent :=
  said text call .textDelta (textTurn payloads call previousText).1 (textTurn payloads call previousText).2 ++
  said text call .reasoningDelta (reasoningTurn text payloads call previousReasoning)
    (reasoningDiagnostics (reasoningPayloadDecision text payloads call.event call.payload call.surface))

variable {text payloads} {call : Call P} {stores : Stores}

theorem update_same {snapshots : Snapshots} {key : String} :
    Function.update snapshots key (snapshots key) = snapshots :=
  Function.update_eq_self key snapshots

theorem normalizeText_eq (hp : Plain text payloads call) {snapshots : Snapshots} :
    normalizeText payloads call (text.stripped (orElse (call.event.get "parent_run_id") (call.event.get "run_id")))
      (modelRunId text call) (rawText payloads call) snapshots =
    (Function.update snapshots (runKey text call) (textTurn payloads call (snapshots (runKey text call))).1.2,
      said text call .textDelta (textTurn payloads call (snapshots (runKey text call))).1
        (textTurn payloads call (snapshots (runKey text call))).2) := by
  unfold normalizeText
  by_cases hr : rawText payloads call = []
  case pos =>
    have ht : (textTurn payloads call (snapshots (runKey text call))).1 = ([], snapshots (runKey text call)) := by
      cases hc : call.terminal <;> simp [textTurn, hc, hr, mergeTerminalText]
    simp [hr, ht, said]
  case neg =>
    cases hc : call.terminal
    case true  => simp [hr, hc, consumeText, consumeTerminalText, textTurn, said, runKey]
    case false => simp [hr, hc, hp.additive hc, consumeText, textTurn, said, runKey]

theorem normalizeReasoning_eq (hp : Plain text payloads call) (hr : rawReasoning payloads call ≠ [])
    {snapshots : Snapshots} :
    normalizeReasoning text payloads call
      (text.stripped (orElse (call.event.get "parent_run_id") (call.event.get "run_id")))
      (modelRunId text call) (rawReasoning payloads call) snapshots =
    (Function.update snapshots (runKey text call)
        (mergeStreamValue true (snapshots (runKey text call)) (fragment text payloads call)).2,
      said text call .reasoningDelta
        (mergeStreamValue true (snapshots (runKey text call)) (fragment text payloads call))
        (reasoningDiagnostics (reasoningPayloadDecision text payloads call.event call.payload call.surface))) := by
  have hf : fragment text payloads call =
      publicReasoning payloads (reasoningPayloadDecision text payloads call.event call.payload call.surface)
        call.payload (rawReasoning payloads call) := by
    simp [fragment, hr]
  unfold normalizeReasoning
  simp only [hp.accepted hr, Bool.not_true, Bool.false_eq_true, if_false, ← hf]
  by_cases he : fragment text payloads call = []
  case pos => simp [he, said]
  case neg =>
    simp only [he, if_false, consumeCanonicalStreamValue, said, runKey]
    congr 1

-- A call reads and writes the snapshots of its own run only.
theorem normalize_eq (hp : Plain text payloads call) :
    normalize text payloads call stores =
      (⟨Function.update stores.text (runKey text call)
          (textTurn payloads call (stores.text (runKey text call))).1.2,
        Function.update stores.reasoning (runKey text call)
          (reasoningTurn text payloads call (stores.reasoning (runKey text call))).2⟩,
        turnEvents text payloads call (stores.text (runKey text call)) (stores.reasoning (runKey text call))) := by
  unfold normalize
  simp only [hp.root, ne_eq, not_true, if_false, normalizeText_eq hp]
  by_cases hr : rawReasoning payloads call = []
  case pos =>
    have hf : fragment text payloads call = [] := by simp [fragment, hr]
    have ht : reasoningTurn text payloads call (stores.reasoning (runKey text call)) =
        ([], stores.reasoning (runKey text call)) := by
      simp [reasoningTurn, hf]
    simp [hr, ht, turnEvents, said]
  case neg =>
    rw [normalizeReasoning_eq hp hr]
    by_cases hs : call.suppressReasoning ||
        (call.terminal && rawText payloads call ≠ [] && stores.reasoning (runKey text call) ≠ [])
    case pos =>
      have ht : reasoningTurn text payloads call (stores.reasoning (runKey text call)) =
          ([], stores.reasoning (runKey text call)) := by
        rw [reasoningTurn, if_pos hs]
      have hs' : (rawReasoning payloads call = [] || call.suppressReasoning ||
          (call.terminal && rawText payloads call ≠ [] && stores.reasoning (runKey text call) ≠ [])) = true := by
        rw [Bool.or_assoc, hs, Bool.or_true]
      unfold runKey at ht hs' ⊢
      simp only [hs', if_true, ht, turnEvents, said, List.append_nil, update_same]
    case neg =>
      have ht : reasoningTurn text payloads call (stores.reasoning (runKey text call)) =
          mergeStreamValue true (stores.reasoning (runKey text call)) (fragment text payloads call) := by
        rw [reasoningTurn, if_neg hs]
      have hs' : ¬(rawReasoning payloads call = [] || call.suppressReasoning ||
          (call.terminal && rawText payloads call ≠ [] && stores.reasoning (runKey text call) ≠ [])) = true := by
        rw [Bool.or_assoc, decide_eq_false hr, Bool.false_or]
        exact hs
      unfold runKey at ht hs' ⊢
      rw [if_neg hs']
      simp only [ht, turnEvents]

-- What a terminal text does to a run whose deltas so far make up its snapshot.
theorem terminal_shown_iff {previous current emitted : Chars} :
    (let turn := mergeTerminalText previous current emitted
     if turn.1.1 = [] then previous
     else if (turn.2.get "terminalTextCorrection").truthy then turn.1.1 else previous ++ turn.1.1) = current ↔
    (current = [] → previous = []) ∧ (previous = [] → current ≠ [] → ¬current <:+: emitted) := by
  by_cases hc : current = []
  case pos => simp [mergeTerminalText, hc]
  case neg =>
    by_cases hp : previous = []
    case pos =>
      by_cases hi : current <:+: emitted
      case pos => simp [mergeTerminalText, hc, hp, hi, Ne.symm hc]
      case neg => simp [mergeTerminalText, hc, hp, hi, Dict.get, Json.truthy]
    case neg =>
      simp only [hc, hp, false_implies, and_self, iff_true]
      by_cases he : current = previous
      case pos => simp [mergeTerminalText, hp, he]
      case neg =>
        by_cases hpre : previous <+: current
        case pos =>
          obtain ⟨rest, hr⟩ := hpre
          cases hr
          have hne : rest ≠ [] := fun h => he (by simp [h])
          simp [mergeTerminalText, hc, hp, hne, Dict.get, Json.truthy]
        case neg =>
          have hflag : (Dict.get [("terminalTextCorrection", Json.bool true),
              ("previousRunTextChars", Json.int previous.length)] "terminalTextCorrection").truthy = true := rfl
          simp [mergeTerminalText, hc, hp, he, hpre, hflag]

-- A text that has not been emitted is taken as if nothing had been.
theorem terminal_of_unseen {previous current emitted : Chars}
    (h : previous = [] → current ≠ [] → ¬current <:+: emitted) :
    mergeTerminalText previous current [] = mergeTerminalText previous current emitted := by
  by_cases hc : current = []
  case pos => simp [mergeTerminalText, hc]
  case neg =>
    by_cases hp : previous = []
    case neg => simp [mergeTerminalText, hp]
    case pos => simp [mergeTerminalText, hc, hp, h hp hc]

theorem reasoningTurn_snapshot {previous : Chars} :
    (reasoningTurn text payloads call previous).2 = previous ++ (reasoningTurn text payloads call previous).1 := by
  unfold reasoningTurn
  split
  case isTrue  => simp
  case isFalse => exact merge_snapshot

theorem textTurn_snapshot {previous : Chars} (hd : (textTurn payloads call previous).1.1 ≠ []) :
    (textTurn payloads call previous).1.2 =
      if ((textTurn payloads call previous).2.get "terminalTextCorrection").truthy then
        (textTurn payloads call previous).1.1
      else previous ++ (textTurn payloads call previous).1.1 := by
  have hdelta : (Dict.get [("textStreamMode", Json.str "delta")] "terminalTextCorrection").truthy = false := rfl
  have hnone : (Dict.get [] "terminalTextCorrection").truthy = false := rfl
  unfold textTurn at hd ⊢
  cases ht : call.terminal
  case false => simp [hdelta]
  case true =>
    simp only [ht, if_true] at hd ⊢
    generalize rawText payloads call = current at hd ⊢
    unfold mergeTerminalText at hd ⊢
    split
    case isTrue hc => simp [hc] at hd
    case isFalse hc =>
      simp only [hc, if_false] at hd
      split
      case isTrue hp =>
        simp only [hp, if_true] at hd
        split
        case isTrue hi  => simp [hi] at hd
        case isFalse hi => simp [hnone, hp]
      case isFalse hp =>
        simp only [hp, if_false] at hd
        split
        case isTrue he => simp [he] at hd
        case isFalse he =>
          split
          case isTrue hpre =>
            have ⟨rest, hr⟩ := hpre
            cases hr
            simp [hnone]
          case isFalse => rfl

end ModelEvents
