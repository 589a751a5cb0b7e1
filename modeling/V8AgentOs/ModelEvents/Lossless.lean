import V8AgentOs.ModelEvents.Turns

-- What the canonical events of several model runs keep of the texts and the reasoning that the runs send.
namespace ModelEvents

open Python

variable {P : Type*} (text : Text) (payloads : Payloads P)

def canonicalise (calls : List (Call P)) : Stores × List CanonicalModelEvent :=
  Emission.all (normalize text payloads) calls ⟨fun _ => [], fun _ => []⟩

-- What a run has sent of its text or of its reasoning. A terminal payload carries all of it.
def carried (field : Call P → Chars) (key : String) (calls : List (Call P)) : Chars :=
  calls.foldl (fun sofar call =>
    if runKey text call ≠ key then sofar else if call.terminal then field call else sofar ++ field call) []

-- The concatenated deltas of a run. The delta of a correction replaces the ones before it.
def shown (type : CanonicalModelEventType) (key : String) (events : List CanonicalModelEvent) : Chars :=
  events.foldl (fun sofar event =>
    if event.eventType ≠ type ∨ eventKey event ≠ key then sofar
    else if (event.diagnostics.get "terminalTextCorrection").truthy then event.delta
    else sofar ++ event.delta) []

-- A call in a chat where no other run has emitted a text.
def Call.quiet : Call P → Call P
  | .stream event payload surface            => .stream event payload surface
  | .finish event payload surface suppress _ => .finish event payload surface suppress []

-- The calls of one run, in a chat where nothing else has been emitted.
def alone (key : String) (calls : List (Call P)) : List (Call P) :=
  (calls.filter (runKey text · = key)).map Call.quiet

-- The calls of runs that send additive chunks and then a terminal payload with their text and their reasoning.
-- The runtime suppresses the reasoning of a run only after the run has sent something.
structure Sends (before : List (Call P)) (call : Call P) : Prop where
  plain     : Plain text payloads call
  unended   : ∀ c ∈ before, runKey text c = runKey text call → c.terminal = false
  full      : call.terminal → (∃ c ∈ before, runKey text c = runKey text call) →
    fragment text payloads call = carried text (fragment text payloads) (runKey text call) before
  narrative : call.suppressReasoning → ∃ c ∈ before, runKey text c = runKey text call

-- The fragments of reasoning are fresh, a terminal payload does not leave out the text of its run, and the text of
-- a run that has sent none before is not a part of the text that has been emitted.
structure Distinct (before : List (Call P)) (call : Call P) : Prop where
  fresh    : call.terminal = false → fragment text payloads call ≠ [] →
    carried text (fragment text payloads) (runKey text call) before ≠ [] →
    Fresh (carried text (fragment text payloads) (runKey text call) before) (fragment text payloads call)
  complete : call.terminal → rawText payloads call = [] → carried text (rawText payloads) (runKey text call) before = []
  unseen   : call.terminal → carried text (rawText payloads) (runKey text call) before = [] →
    rawText payloads call ≠ [] → ¬rawText payloads call <:+: call.emittedText

-- The snapshot of an event is what the events of its run have shown.
def Continues (before : List CanonicalModelEvent) (event : CanonicalModelEvent) : Prop :=
  event.snapshot = shown event.eventType (eventKey event) (before ++ [event])

structure Lossless (calls : List (Call P)) : Prop where
  texts      : ∀ key,
    shown .textDelta key (canonicalise text payloads calls).2 = carried text (rawText payloads) key calls
  reasonings : ∀ key,
    shown .reasoningDelta key (canonicalise text payloads calls).2 = carried text (fragment text payloads) key calls
  snapshots  : Along Continues (canonicalise text payloads calls).2
  apart      : ∀ key,
    (canonicalise text payloads calls).2.filter (eventKey · = key) =
      (canonicalise text payloads (alone text key calls)).2

variable {text payloads} {calls : List (Call P)} {call : Call P} {key : String}

section Snoc

theorem canonicalise_snoc : canonicalise text payloads (calls ++ [call]) =
    ((normalize text payloads call (canonicalise text payloads calls).1).1,
      (canonicalise text payloads calls).2 ++ (normalize text payloads call (canonicalise text payloads calls).1).2) :=
  Emission.all_concat

theorem carried_snoc {field : Call P → Chars} : carried text field key (calls ++ [call]) =
    if runKey text call ≠ key then carried text field key calls
    else if call.terminal then field call
    else carried text field key calls ++ field call := by
  simp [carried]

theorem carried_of_absent {field : Call P → Chars} (h : ∀ c ∈ calls, runKey text c ≠ key) :
    carried text field key calls = [] := by
  induction calls using List.reverseRecOn
  case nil => rfl
  case append_singleton calls c hi =>
    rw [carried_snoc, if_pos (h c (by simp))]
    exact hi fun c' hc' => h c' (List.mem_append_left _ hc')

theorem shown_snoc {type : CanonicalModelEventType} {events : List CanonicalModelEvent} {event : CanonicalModelEvent} :
    shown type key (events ++ [event]) =
    if event.eventType ≠ type ∨ eventKey event ≠ key then shown type key events
    else if (event.diagnostics.get "terminalTextCorrection").truthy then event.delta
    else shown type key events ++ event.delta := by
  simp [shown]

theorem shown_said {type type' : CanonicalModelEventType} {events : List CanonicalModelEvent} {turn : Chars × Chars}
    {diagnostics : Dict} :
    shown type key (events ++ said text call type' turn diagnostics) =
    if type' ≠ type ∨ runKey text call ≠ key ∨ turn.1 = [] then shown type key events
    else if (diagnostics.get "terminalTextCorrection").truthy then turn.1
    else shown type key events ++ turn.1 := by
  unfold said
  by_cases ht : turn.1 = []
  case pos => simp [ht]
  case neg => simp [ht, shown_snoc, eventKey, runKey]

theorem continues_said {type : CanonicalModelEventType} {events : List CanonicalModelEvent} {turn : Chars × Chars}
    {diagnostics : Dict} (h : Along Continues events)
    (hd : turn.1 ≠ [] → turn.2 =
      if (diagnostics.get "terminalTextCorrection").truthy then turn.1
      else shown type (runKey text call) events ++ turn.1) :
    Along Continues (events ++ said text call type turn diagnostics) := by
  unfold said
  split
  case isTrue => simpa using h
  case isFalse ht =>
    apply h.snoc
    rw [Continues, shown_snoc]
    simpa [eventKey, runKey] using hd ht

theorem canonicalise_plain (hp : Plain text payloads call) : canonicalise text payloads (calls ++ [call]) =
    (⟨Function.update (canonicalise text payloads calls).1.text (runKey text call)
        (textTurn payloads call ((canonicalise text payloads calls).1.text (runKey text call))).1.2,
      Function.update (canonicalise text payloads calls).1.reasoning (runKey text call)
        (reasoningTurn text payloads call ((canonicalise text payloads calls).1.reasoning (runKey text call))).2⟩,
      (canonicalise text payloads calls).2 ++ turnEvents text payloads call
        ((canonicalise text payloads calls).1.text (runKey text call))
        ((canonicalise text payloads calls).1.reasoning (runKey text call))) := by
  rw [canonicalise_snoc, normalize_eq hp]

theorem shown_turn_text {events : List CanonicalModelEvent} {t r : Chars} :
    shown .textDelta key (events ++ turnEvents text payloads call t r) =
    if runKey text call ≠ key ∨ (textTurn payloads call t).1.1 = [] then shown .textDelta key events
    else if ((textTurn payloads call t).2.get "terminalTextCorrection").truthy then (textTurn payloads call t).1.1
    else shown .textDelta key events ++ (textTurn payloads call t).1.1 := by
  rw [turnEvents, ← List.append_assoc, shown_said, if_pos (.inl (by decide)), shown_said]
  simp

theorem reasoning_unflagged (decision : Dict) :
    ((reasoningDiagnostics decision).get "terminalTextCorrection").truthy = false := rfl

theorem shown_said_text {events : List CanonicalModelEvent} {turn : Chars × Chars} {diagnostics : Dict} :
    shown .reasoningDelta key (events ++ said text call .textDelta turn diagnostics) =
    shown .reasoningDelta key events := by
  rw [shown_said, if_pos (.inl (by decide))]

theorem shown_turn_reasoning {events : List CanonicalModelEvent} {t r : Chars} :
    shown .reasoningDelta key (events ++ turnEvents text payloads call t r) =
    if runKey text call ≠ key then shown .reasoningDelta key events
    else shown .reasoningDelta key events ++ (reasoningTurn text payloads call r).1 := by
  rw [turnEvents, ← List.append_assoc, shown_said, reasoning_unflagged, shown_said_text]
  by_cases hk : runKey text call = key
  case neg => simp [hk]
  case pos =>
    by_cases hd : (reasoningTurn text payloads call r).1 = [] <;> simp [hk, hd]

end Snoc

section Stores

-- The snapshot of a run that has not ended is what it has sent.
theorem text_of_unended (h : Along (Sends text payloads) calls)
    (hk : ∀ c ∈ calls, runKey text c = key → c.terminal = false) :
    (canonicalise text payloads calls).1.text key = carried text (rawText payloads) key calls := by
  induction h
  case nil => rfl
  case snoc l c hl hc hi =>
    have hi := hi fun c' hc' => hk c' (List.mem_append_left _ hc')
    rw [canonicalise_plain hc.plain, carried_snoc]
    by_cases hr : runKey text c = key
    case neg => simp [hr, Function.update_of_ne (Ne.symm hr), hi]
    case pos =>
      have ht := hk c (by simp) hr
      simp [hr, ht, textTurn, hi]

theorem reasoning_shown (h : Along (Sends text payloads) calls) :
    (canonicalise text payloads calls).1.reasoning key =
      shown .reasoningDelta key (canonicalise text payloads calls).2 := by
  induction h
  case nil => rfl
  case snoc l c hl hc hi =>
    rw [canonicalise_plain hc.plain, shown_turn_reasoning]
    by_cases hr : runKey text c = key
    case neg => simp [hr, Function.update_of_ne (Ne.symm hr), hi]
    case pos =>
      cases hr
      simp only [Function.update_self, ne_eq, not_true, if_false, ← hi]
      exact reasoningTurn_snapshot

end Stores

section Steps

variable (hs : Along (Sends text payloads) calls) (hc : Sends text payloads calls call)
include hs hc

theorem text_of_call : (canonicalise text payloads calls).1.text (runKey text call) =
    carried text (rawText payloads) (runKey text call) calls :=
  text_of_unended hs hc.unended

-- A call keeps the text of its run exactly when it is not one of the terminal payloads that lose it.
theorem shown_text_iff
    (hi : shown .textDelta (runKey text call) (canonicalise text payloads calls).2 =
      carried text (rawText payloads) (runKey text call) calls) :
    shown .textDelta (runKey text call) (canonicalise text payloads (calls ++ [call])).2 =
      carried text (rawText payloads) (runKey text call) (calls ++ [call]) ↔
    (call.terminal → rawText payloads call = [] → carried text (rawText payloads) (runKey text call) calls = []) ∧
    (call.terminal → carried text (rawText payloads) (runKey text call) calls = [] → rawText payloads call ≠ [] →
      ¬rawText payloads call <:+: call.emittedText) := by
  rw [canonicalise_plain hc.plain, shown_turn_text, carried_snoc, text_of_call hs hc, hi]
  cases ht : call.terminal
  case false =>
    by_cases hr : rawText payloads call = []
    case pos => simp [textTurn, ht, hr]
    case neg =>
      have hdelta : (Dict.get [("textStreamMode", Json.str "delta")] "terminalTextCorrection").truthy = false := rfl
      simp [textTurn, ht, hr, hdelta]
  case true =>
    have h := @terminal_shown_iff (carried text (rawText payloads) (runKey text call) calls) (rawText payloads call)
      call.emittedText
    simpa [textTurn, ht] using h

theorem shown_reasoning (hd : Distinct text payloads calls call)
    (hi : shown .reasoningDelta (runKey text call) (canonicalise text payloads calls).2 =
      carried text (fragment text payloads) (runKey text call) calls) :
    shown .reasoningDelta (runKey text call) (canonicalise text payloads (calls ++ [call])).2 =
      carried text (fragment text payloads) (runKey text call) (calls ++ [call]) := by
  rw [canonicalise_plain hc.plain, shown_turn_reasoning, reasoning_shown hs, carried_snoc, hi]
  generalize hC : carried text (fragment text payloads) (runKey text call) calls = C
  simp only [ne_eq, not_true, if_false]
  by_cases hsent : ∃ c ∈ calls, runKey text c = runKey text call
  case pos =>
    cases ht : call.terminal
    case true =>
      have hf := hc.full ht hsent
      rw [hC] at hf
      simp only [if_true, hf, reasoningTurn]
      split <;> simp
    case false =>
      have hsup : call.suppressReasoning = false := by
        cases call
        case stream => rfl
        case finish => simp [Call.terminal] at ht
      have hm : (mergeStreamValue true C (fragment text payloads call)).1 = fragment text payloads call := by
        by_cases hf : fragment text payloads call = []
        case pos => simp [hf]
        case neg =>
          by_cases he : C = []
          case pos => simp [he]
          case neg => exact (merge_delta_iff he hf).mpr (hC ▸ hd.fresh ht hf (hC ▸ he))
      simp [reasoningTurn, hsup, ht, hm]
  case neg =>
    have hnone : ∀ c ∈ calls, runKey text c ≠ runKey text call := fun c hm he => hsent ⟨c, hm, he⟩
    have hC' : C = [] := hC ▸ carried_of_absent hnone
    have hsup : call.suppressReasoning = false := by
      cases h : call.suppressReasoning
      case false => rfl
      case true  => exact absurd (hc.narrative h) hsent
    cases hC'
    simp [reasoningTurn, hsup]

theorem fresh_of_shown
    (hi : shown .reasoningDelta (runKey text call) (canonicalise text payloads calls).2 =
      carried text (fragment text payloads) (runKey text call) calls)
    (hn : shown .reasoningDelta (runKey text call) (canonicalise text payloads (calls ++ [call])).2 =
      carried text (fragment text payloads) (runKey text call) (calls ++ [call]))
    (ht : call.terminal = false) (hf : fragment text payloads call ≠ [])
    (he : carried text (fragment text payloads) (runKey text call) calls ≠ []) :
    Fresh (carried text (fragment text payloads) (runKey text call) calls) (fragment text payloads call) := by
  have hsup : call.suppressReasoning = false := by
    cases call
    case stream => rfl
    case finish => simp [Call.terminal] at ht
  rw [canonicalise_plain hc.plain, shown_turn_reasoning, reasoning_shown hs, carried_snoc, hi] at hn
  simp only [ne_eq, not_true, if_false, ht, Bool.false_eq_true, reasoningTurn, hsup, Bool.false_and, Bool.or_self] at hn
  exact (merge_delta_iff he hf).mp (List.append_cancel_left hn)

theorem snapshots_step
    (hi : shown .textDelta (runKey text call) (canonicalise text payloads calls).2 =
      carried text (rawText payloads) (runKey text call) calls)
    (ha : Along Continues (canonicalise text payloads calls).2) :
    Along Continues (canonicalise text payloads (calls ++ [call])).2 := by
  rw [canonicalise_plain hc.plain, turnEvents, ← List.append_assoc]
  apply continues_said
  case h =>
    apply continues_said ha
    intro hd
    rw [hi, ← text_of_call hs hc]
    exact textTurn_snapshot hd
  case hd =>
    intro
    rw [shown_said_text, reasoning_unflagged, ← reasoning_shown hs, reasoningTurn_snapshot]
    rfl

end Steps

section Alone

@[simp] theorem quiet_runKey : runKey text call.quiet = runKey text call := by cases call <;> rfl

@[simp] theorem quiet_rawText : rawText payloads call.quiet = rawText payloads call := by cases call <;> rfl

@[simp] theorem quiet_said {type : CanonicalModelEventType} {turn : Chars × Chars} {diagnostics : Dict} :
    said text call.quiet type turn diagnostics = said text call type turn diagnostics := by
  cases call <;> rfl

theorem Plain.quiet (h : Plain text payloads call) : Plain text payloads call.quiet := by
  cases call <;> exact ⟨h.root, h.additive, h.accepted⟩

theorem quiet_reasoningTurn {r : Chars} :
    reasoningTurn text payloads call.quiet r = reasoningTurn text payloads call r := by
  cases call <;> rfl

theorem quiet_textTurn {t : Chars}
    (h : call.terminal → t = [] → rawText payloads call ≠ [] → ¬rawText payloads call <:+: call.emittedText) :
    textTurn payloads call.quiet t = textTurn payloads call t := by
  cases call
  case stream => rfl
  case finish event payload surface suppress emitted =>
    have he := terminal_of_unseen (h rfl)
    exact he

theorem quiet_turnEvents {t r : Chars}
    (h : call.terminal → t = [] → rawText payloads call ≠ [] → ¬rawText payloads call <:+: call.emittedText) :
    turnEvents text payloads call.quiet t r = turnEvents text payloads call t r := by
  have hdecision : reasoningPayloadDecision text payloads call.quiet.event call.quiet.payload call.quiet.surface =
      reasoningPayloadDecision text payloads call.event call.payload call.surface := by
    cases call <;> rfl
  simp only [turnEvents, quiet_textTurn h, quiet_reasoningTurn, quiet_said, hdecision]

theorem alone_snoc : alone text key (calls ++ [call]) =
    if runKey text call = key then alone text key calls ++ [call.quiet] else alone text key calls := by
  by_cases hk : runKey text call = key <;> simp [alone, List.filter_append, hk]

theorem filter_said {type : CanonicalModelEventType} {turn : Chars × Chars} {diagnostics : Dict} :
    (said text call type turn diagnostics).filter (eventKey · = key) =
    if runKey text call = key then said text call type turn diagnostics else [] := by
  unfold said
  by_cases ht : turn.1 = []
  case pos => simp [ht]
  case neg => by_cases hk : runKey text call = key <;> simp_all [eventKey, runKey]

theorem filter_turnEvents {t r : Chars} : (turnEvents text payloads call t r).filter (eventKey · = key) =
    if runKey text call = key then turnEvents text payloads call t r else [] := by
  rw [turnEvents, List.filter_append, filter_said, filter_said]
  split <;> rfl

-- A run goes through the same snapshots and emits the same events as it does alone.
theorem alone_agrees (hs : Along (Sends text payloads) calls) (hd : Along (Distinct text payloads) calls) :
    (canonicalise text payloads (alone text key calls)).1.text key = (canonicalise text payloads calls).1.text key ∧
    (canonicalise text payloads (alone text key calls)).1.reasoning key =
      (canonicalise text payloads calls).1.reasoning key ∧
    (canonicalise text payloads calls).2.filter (eventKey · = key) =
      (canonicalise text payloads (alone text key calls)).2 := by
  induction hs
  case nil => exact ⟨rfl, rfl, rfl⟩
  case snoc l c hl hc hi =>
    have ⟨hdl, hdc⟩ := Along.snoc_iff.mp hd
    have ⟨htext, hreasoning, hevents⟩ := hi hdl
    rw [alone_snoc, canonicalise_plain hc.plain, List.filter_append, filter_turnEvents]
    by_cases hk : runKey text c = key
    case neg => simp [hk, Function.update_of_ne (Ne.symm hk), htext, hreasoning, hevents]
    case pos =>
      cases hk
      have hseen := hdc.unseen
      rw [← text_of_call hl hc] at hseen
      rw [if_pos rfl, if_pos rfl, canonicalise_plain hc.plain.quiet, quiet_runKey, htext, hreasoning, hevents,
        quiet_textTurn hseen, quiet_reasoningTurn, quiet_turnEvents hseen]
      simp

end Alone

section Runs

-- What a run's call leaves as it is for the other runs.
theorem shown_of_other (hc : Sends text payloads calls call) (hk : runKey text call ≠ key) :
    shown .textDelta key (canonicalise text payloads (calls ++ [call])).2 =
      shown .textDelta key (canonicalise text payloads calls).2 ∧
    shown .reasoningDelta key (canonicalise text payloads (calls ++ [call])).2 =
      shown .reasoningDelta key (canonicalise text payloads calls).2 := by
  rw [canonicalise_plain hc.plain, shown_turn_text, shown_turn_reasoning, if_pos (.inl hk), if_pos hk]
  exact ⟨rfl, rfl⟩

theorem lossless_step (hs : Along (Sends text payloads) calls) (hc : Sends text payloads calls call)
    (hd : Along (Distinct text payloads) (calls ++ [call])) (hi : Lossless text payloads calls) :
    Lossless text payloads (calls ++ [call]) where
  texts key := by
    by_cases hk : runKey text call = key
    case neg =>
      rw [(shown_of_other hc hk).1, carried_snoc, if_pos hk]
      exact hi.texts key
    case pos =>
      cases hk
      have hdc := (Along.snoc_iff.mp hd).2
      exact (shown_text_iff hs hc (hi.texts _)).mpr ⟨hdc.complete, hdc.unseen⟩
  reasonings key := by
    by_cases hk : runKey text call = key
    case neg =>
      rw [(shown_of_other hc hk).2, carried_snoc, if_pos hk]
      exact hi.reasonings key
    case pos =>
      cases hk
      exact shown_reasoning hs hc (Along.snoc_iff.mp hd).2 (hi.reasonings _)
  snapshots := snapshots_step hs hc (hi.texts _) hi.snapshots
  apart _ := (alone_agrees (hs.snoc hc) hd).2.2

theorem distinct_of_lossless (hs : Along (Sends text payloads) calls) (hc : Sends text payloads calls call)
    (hi : Lossless text payloads calls) (hn : Lossless text payloads (calls ++ [call])) :
    Distinct text payloads calls call where
  fresh    := fresh_of_shown hs hc (hi.reasonings _) (hn.reasonings _)
  complete := ((shown_text_iff hs hc (hi.texts _)).mp (hn.texts _)).1
  unseen   := ((shown_text_iff hs hc (hi.texts _)).mp (hn.texts _)).2

-- At every moment of a chat whose runs send additive chunks and then all of their text and their reasoning, nothing
-- of it is lost, exactly when the fragments of reasoning are fresh and the terminal texts are not left out or already
-- a part of what has been emitted.
theorem lossless_iff_distinct (hs : Along (Sends text payloads) calls) :
    (∀ sofar, sofar <+: calls → Lossless text payloads sofar) ↔ Along (Distinct text payloads) calls := by
  constructor
  case mp => exact fun h => hs.of_starts h fun l c hl hc hi hn => distinct_of_lossless hl hc hi hn
  case mpr =>
    intro hd sofar hp
    have hs := hs.start hp
    have hd := hd.start hp
    induction hs
    case nil => exact ⟨fun _ => rfl, fun _ => rfl, .nil, fun _ => rfl⟩
    case snoc l c hl hc hi =>
      have hpre : l <+: calls := (List.prefix_append l [c]).trans hp
      exact lossless_step hl hc hd (hi hpre (Along.snoc_iff.mp hd).1)

end Runs

section Sample

-- Messages of a text and a reasoning whose provider is trusted
def trusting : Payloads (Chars × Chars) where
  isChunk _                   := true
  asText _                    := none
  extractTextAndReasoning p   := p
  extractReasoningSummary _   := []
  extractTypedThinkingText _  := []
  normalizeReasoningSurface _ := [("mode", .str "provider_reasoning")]
  evaluateReasoningPayload _ _ := [("accepted", .bool true), ("reasoningKind", .str "provider_reasoning")]

def chunk (run text reasoning : String) : Call (Chars × Chars) :=
  .stream [("run_id", .str run)] (text.toList, reasoning.toList) .null

def ended (run text reasoning emitted : String) : Call (Chars × Chars) :=
  .finish [("run_id", .str run)] (text.toList, reasoning.toList) .null false emitted.toList

theorem scope_of_bare {event : Dict} (hm : metadataOf event = []) (ht : tagsOf event = []) :
    scopeForEvent asciiText event = .assistantRoot := by
  simp only [scopeForEvent, hm, ht]
  decide +kernel

theorem plain_chunk {run text reasoning : String} : Plain asciiText trusting (chunk run text reasoning) where
  root       := scope_of_bare rfl rfl
  additive _ := rfl
  accepted _ := rfl

theorem plain_ended {run text reasoning emitted : String} :
    Plain asciiText trusting (ended run text reasoning emitted) where
  root       := scope_of_bare rfl rfl
  additive   := Bool.noConfusion
  accepted _ := rfl

-- A run that repeats a token of its reasoning, and one that answers with a part of what the first has said.
def repeating : List (Call (Chars × Chars)) :=
  [chunk "a" "" "ha", chunk "a" "1 2" "ha", ended "a" "1 2" "haha" "1 2", ended "b" "2" "" "1 2"]

theorem sends_chunk {before : List (Call (Chars × Chars))} {run text reasoning : String}
    (h : ∀ c ∈ before, runKey asciiText c = runKey asciiText (chunk run text reasoning) → c.terminal = false) :
    Sends asciiText trusting before (chunk run text reasoning) where
  plain     := plain_chunk
  unended   := h
  full      := Bool.noConfusion
  narrative := Bool.noConfusion

theorem sends_ended {before : List (Call (Chars × Chars))} {run text reasoning emitted : String}
    (h : ∀ c ∈ before, runKey asciiText c = runKey asciiText (ended run text reasoning emitted) → c.terminal = false)
    (hf : (∃ c ∈ before, runKey asciiText c = runKey asciiText (ended run text reasoning emitted)) →
      fragment asciiText trusting (ended run text reasoning emitted) =
        carried asciiText (fragment asciiText trusting) (runKey asciiText (ended run text reasoning emitted)) before) :
    Sends asciiText trusting before (ended run text reasoning emitted) where
  plain     := plain_ended
  unended   := h
  full _    := hf
  narrative := Bool.noConfusion

theorem repeating_sends : Along (Sends asciiText trusting) repeating := by
  have h₁ : Along (Sends asciiText trusting) [chunk "a" "" "ha"] := .snoc .nil (sends_chunk (by decide +kernel))
  have h₂ : Along (Sends asciiText trusting) [chunk "a" "" "ha", chunk "a" "1 2" "ha"] :=
    h₁.snoc (sends_chunk (by decide +kernel))
  have h₃ : Along (Sends asciiText trusting) [chunk "a" "" "ha", chunk "a" "1 2" "ha", ended "a" "1 2" "haha" "1 2"] :=
    h₂.snoc (sends_ended (by decide +kernel) (by decide +kernel))
  exact h₃.snoc (sends_ended (by decide +kernel) (by decide +kernel))

theorem lossless_fails : Along (Sends asciiText trusting) repeating ∧ ¬Lossless asciiText trusting repeating ∧
    shown .reasoningDelta "a" (canonicalise asciiText trusting repeating).2 = "ha".toList ∧
    shown .textDelta "b" (canonicalise asciiText trusting repeating).2 = "".toList := by
  have ha : shown .reasoningDelta "a" (canonicalise asciiText trusting repeating).2 = "ha".toList := by decide +kernel
  constructor
  case left => exact repeating_sends
  case right =>
    constructor
    case left =>
      intro h
      have hr := h.reasonings "a"
      rw [ha] at hr
      revert hr
      decide +kernel
    case right => exact ⟨ha, by decide +kernel⟩

theorem distinct_chunk {before : List (Call (Chars × Chars))} {run text reasoning : String}
    (h : carried asciiText (fragment asciiText trusting) (runKey asciiText (chunk run text reasoning)) before = []) :
    Distinct asciiText trusting before (chunk run text reasoning) where
  fresh _ _ hne := absurd h hne
  complete      := Bool.noConfusion
  unseen        := Bool.noConfusion

theorem lossless_iff_distinct_sample : Lossless asciiText trusting [chunk "a" "1" "so", ended "b" "2" "" "1"] := by
  have hs : Along (Sends asciiText trusting) [chunk "a" "1" "so"] := .snoc .nil (sends_chunk (by decide +kernel))
  have hd : Along (Distinct asciiText trusting) [chunk "a" "1" "so"] := .snoc .nil (distinct_chunk rfl)
  have hs' : Sends asciiText trusting [chunk "a" "1" "so"] (ended "b" "2" "" "1") :=
    sends_ended (by decide +kernel) (by decide +kernel)
  have hd' : Distinct asciiText trusting [chunk "a" "1" "so"] (ended "b" "2" "" "1") := by
    constructor
    case fresh    => exact Bool.noConfusion
    case complete => exact fun _ _ => by decide +kernel
    case unseen   => exact fun _ _ _ => by decide +kernel
  exact (lossless_iff_distinct (hs.snoc hs')).mpr (hd.snoc hd') _ List.prefix_rfl

end Sample
end ModelEvents
