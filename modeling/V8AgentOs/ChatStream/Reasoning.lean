import V8AgentOs.ChatStream.Calm

-- Reasoning is sent on once and in its order.
namespace ChatStream

open ModelEvents Python

open Emission (Keeps keeps_all andThen)

-- The reasoning of a run in the chunks that have been emitted
def said (key : String) (chunks : List Chunk) : Chars :=
  chunks.flatMap fun
    | .reasoning _ runKey content => if runKey = key then content else []
    | .text ..                    => []

-- The reasoning of a run that has not been emitted
def waiting (key : String) (s : ChatStreamState) : Chars :=
  ((s.pendingReasoningByRun.lookup key).map (·.deltaParts.flatten)).getD []

-- What a canonical event adds to the reasoning of its run. A delta that repeats the last one is not heard.
def hear (event : CanonicalModelEvent) : Emission Last (String × Chars) := fun last =>
  if event.eventType = .reasoningDelta then
    let (delta, last) := suppressNeighborDuplicateDelta last event.delta event.modelRunId false
    (last, if delta = [] then [] else [(normalizedModelRunId event.modelRunId, delta)])
  else (last, [])

def heard (key : String) (events : List CanonicalModelEvent) : Chars :=
  ((Emission.all hear events ([], "")).2.filter (·.1 = key)).flatMap (·.2)

-- How the chat stands after some canonical events
structure Told (events : List CanonicalModelEvent) (s : ChatStreamState) (out : List Chunk) : Prop where
  last : s.lastReasoning = (Emission.all hear events ([], "")).1
  keys : ∀ key ∈ s.pendingRuns, normalizedModelRunId key = key ∧ key ∈ s.reasoningImmediateRunIds
  said : ∀ key, said key out ++ waiting key s = heard key events

-- A step that has nothing to do with reasoning
structure Quiet (s : ChatStreamState) (result : ChatStreamState × List Chunk) : Prop where
  pending : result.1.pendingReasoningByRun = s.pendingReasoningByRun
  begun   : result.1.reasoningImmediateRunIds = s.reasoningImmediateRunIds
  last    : result.1.lastReasoning = s.lastReasoning
  silent  : ∀ key, said key result.2 = []

variable {s t : ChatStreamState} {out chunks : List Chunk} {events : List CanonicalModelEvent}
  {event : CanonicalModelEvent} {display terminal readyOnly final replace : Bool} {key runKey modelRunId : String}
  {delta content : Chars} {runIds : List String}

section Lemmas

theorem said_append : said key (out ++ chunks) = said key out ++ said key chunks :=
  List.flatMap_append

theorem heard_concat : heard key (events ++ [event]) =
    heard key events ++ (((hear event (Emission.all hear events ([], "")).1).2.filter (·.1 = key)).flatMap (·.2)) := by
  rw [heard, Emission.all_concat, List.filter_append, List.flatMap_append]
  rfl

theorem Told.quiet {result : ChatStreamState × List Chunk} (h : Told events s out) (hq : Quiet s result) :
    Told events result.1 (out ++ result.2) := by
  constructor
  case last => exact hq.last.trans h.last
  case keys => rw [ChatStreamState.pendingRuns, hq.pending, hq.begun]; exact h.keys
  case said =>
    intro key
    rw [said_append, hq.silent, List.append_nil, waiting, hq.pending]
    exact h.said key

end Lemmas

section Texts

theorem stable_silent {cut : Bool} : said key (emitStableTextChunk display modelRunId content cut replace) = [] := by
  unfold emitStableTextChunk
  split <;> rfl

theorem flushTexts_quiet (s : ChatStreamState) (display readyOnly final : Bool) :
    Quiet s (flushPendingTextAggregator display readyOnly final s) := by
  unfold flushPendingTextAggregator
  simp only
  split
  case isTrue  => exact ⟨rfl, rfl, rfl, fun _ => rfl⟩
  case isFalse => exact ⟨rfl, rfl, rfl, fun _ => stable_silent⟩

theorem emitTextDelta_quiet (s : ChatStreamState) (modelRunId : String) (delta : Chars) (display replace : Bool) :
    Quiet s (emitTextDelta display modelRunId delta replace s) := by
  have hall (texts : List Chars) (key : String) :
      said key (texts.flatMap fun chunk => emitStableTextChunk display modelRunId chunk false false) = [] := by
    induction texts
    case nil                 => rfl
    case cons text texts hi => rw [List.flatMap_cons, said_append, stable_silent, hi, List.append_nil]
  unfold emitTextDelta
  split
  case isTrue => exact ⟨rfl, rfl, rfl, fun _ => rfl⟩
  case isFalse =>
    split
    case isTrue => exact ⟨rfl, rfl, rfl, fun _ => stable_silent⟩
    case isFalse =>
      split
      case isTrue => exact ⟨rfl, rfl, rfl, fun _ => stable_silent⟩
      case isFalse =>
        split
        case isTrue => exact ⟨rfl, rfl, rfl, fun _ => stable_silent⟩
        case isFalse =>
          simp only
          split
          case isTrue  => exact ⟨rfl, rfl, rfl, hall _⟩
          case isFalse => exact ⟨rfl, rfl, rfl, hall _⟩

theorem sendText_quiet : Quiet s (sendText terminal display event delta s) := by
  have hq (t : ChatStreamState) (hp : t.pendingReasoningByRun = s.pendingReasoningByRun)
      (hb : t.reasoningImmediateRunIds = s.reasoningImmediateRunIds) (hl : t.lastReasoning = s.lastReasoning)
      (replace : Bool) :
      Quiet s (emitTextDelta display event.modelRunId delta replace t) := by
    have h := emitTextDelta_quiet t event.modelRunId delta display replace
    exact ⟨h.pending.trans hp, h.begun.trans hb, h.last.trans hl, h.silent⟩
  unfold sendText
  simp only
  split
  case isTrue => refine hq _ ?_ ?_ ?_ _ <;> rfl
  case isFalse =>
    split
    case isTrue  => refine hq _ ?_ ?_ ?_ _ <;> rfl
    case isFalse => refine hq _ ?_ ?_ ?_ _ <;> rfl

end Texts

section Flushes

theorem waiting_pop (hk : normalizedModelRunId runKey = runKey ∨ runKey ∉ s.pendingRuns) :
    said key (popReasoning runKey s).2 ++ waiting key (popReasoning runKey s).1 = waiting key s := by
  unfold popReasoning
  simp only
  split
  case h_1 hnone =>
    by_cases heq : key = runKey
    case pos => simp only [waiting, heq, Lookup.lookup_filter_self, hnone]; rfl
    case neg => simp only [waiting, Lookup.lookup_filter_of_ne heq]; rfl
  case h_2 batch hbatch =>
    have hnormal : normalizedModelRunId runKey = runKey := by
      apply hk.resolve_right
      exact not_not.mpr (Lookup.mem_keys_iff.mpr (by rw [hbatch]; rfl))
    by_cases heq : key = runKey
    case pos =>
      simp only [waiting, heq, Lookup.lookup_filter_self, hbatch, emitReasoningDelta]
      split
      case isTrue hnil => simp [said, hnil]
      case isFalse     => simp [said, hnormal]
    case neg =>
      simp only [waiting, Lookup.lookup_filter_of_ne heq, emitReasoningDelta]
      split
      case isTrue  => simp [said]
      case isFalse => simp [said, hnormal, Ne.symm heq]

theorem pop_state : (popReasoning runKey s).1 = { s with
    pendingReasoningByRun   := s.pendingReasoningByRun.filter (·.1 ≠ runKey)
    reasoningFlushDeadlines := s.reasoningFlushDeadlines.filter (· ≠ runKey) } := by
  unfold popReasoning
  simp only
  split <;> rfl

theorem told_pop (h : Told events s out) :
    Told events (popReasoning runKey s).1 (out ++ (popReasoning runKey s).2) := by
  have hk : normalizedModelRunId runKey = runKey ∨ runKey ∉ s.pendingRuns := by
    by_cases hmem : runKey ∈ s.pendingRuns
    case pos => exact .inl (h.keys runKey hmem).left
    case neg => exact .inr hmem
  constructor
  case last => rw [pop_state]; exact h.last
  case keys =>
    rw [pop_state]
    intro key hkey
    have ⟨entry, hentry, heq⟩ := List.mem_map.mp hkey
    exact h.keys key (List.mem_map.mpr ⟨entry, List.mem_of_mem_filter hentry, heq⟩)
  case said =>
    intro key
    rw [said_append, List.append_assoc, waiting_pop hk]
    exact h.said key

theorem told_flushReasoning (runIds : List String) : Keeps (Told events) (flushPendingReasoningBatches runIds) := by
  intro s out h
  have hall : Keeps (Told events) (Emission.all popReasoning
      (if runIds = [] then s.pendingReasoningByRun.map Prod.fst else runIds)) :=
    keeps_all fun _ _ _ _ h => told_pop h
  exact hall s out h

theorem told_flushTexts : Keeps (Told events) (flushPendingTextAggregator display readyOnly final) :=
  fun _ _ h => h.quiet (flushTexts_quiet ..)

end Flushes

section Queue

theorem waiting_assign (s : ChatStreamState) (key runKey : String) (batch : PendingReasoningBatch) :
    waiting key { s with pendingReasoningByRun := Lookup.assign s.pendingReasoningByRun runKey batch } =
    if key = runKey then batch.deltaParts.flatten else waiting key s := by
  unfold waiting
  split
  case isTrue heq  => simp [heq, Lookup.lookup_assign_self]
  case isFalse hne => simp [Lookup.lookup_assign_of_ne hne]

theorem waiting_none (h : key ∉ s.pendingRuns) : waiting key s = [] := by
  have hnone : s.pendingReasoningByRun.lookup key = none := by
    by_contra hsome
    exact h (Lookup.mem_keys_iff.mpr (Option.isSome_iff_ne_none.mpr hsome))
  rw [waiting, hnone]
  rfl

-- A delta that is heard is sent on at once, or it waits behind what its run has said.
theorem told_queue (hd : delta ≠ []) (hlast : s.lastReasoning = (Emission.all hear events ([], "")).1)
    (hkeys : ∀ key ∈ s.pendingRuns, normalizedModelRunId key = key ∧ key ∈ s.reasoningImmediateRunIds)
    (hsaid : ∀ key, heard key events = said key out ++ waiting key s ++
      if key = normalizedModelRunId modelRunId then delta else []) :
    Told events (queueReasoningDelta display modelRunId delta s).1
      (out ++ (queueReasoningDelta display modelRunId delta s).2) := by
  unfold queueReasoningDelta
  simp only [if_neg hd]
  split
  case isTrue hfirst =>
    have hnone : waiting (normalizedModelRunId modelRunId) s = [] :=
      waiting_none fun hmem => hfirst (hkeys _ hmem).right
    constructor
    case last => exact hlast
    case keys => exact fun key hkey => ⟨(hkeys key hkey).left, List.mem_append_left _ (hkeys key hkey).right⟩
    case said =>
      intro key
      rw [said_append, hsaid key, emitReasoningDelta, if_neg hd]
      by_cases heq : key = normalizedModelRunId modelRunId
      case pos =>
        subst heq
        rw [if_pos rfl, hnone]
        simp only [waiting] at hnone ⊢
        simp [said, hnone]
      case neg => simp [said, heq, Ne.symm heq, waiting]
  case isFalse hbegun =>
    have hbegun : normalizedModelRunId modelRunId ∈ s.reasoningImmediateRunIds := not_not.mp hbegun
    generalize hbatch : PendingReasoningBatch.mk (((s.pendingReasoningByRun.lookup
      (normalizedModelRunId modelRunId)).map (·.deltaParts)).getD [] ++ [delta]) display = batch
    have hflat : batch.deltaParts.flatten = waiting (normalizedModelRunId modelRunId) s ++ delta := by
      rw [← hbatch, waiting]
      cases s.pendingReasoningByRun.lookup (normalizedModelRunId modelRunId) <;> simp
    have hqueued (deadlines : List String) : Told events { s with
        pendingReasoningByRun   := Lookup.assign s.pendingReasoningByRun (normalizedModelRunId modelRunId) batch
        reasoningFlushDeadlines := deadlines } out := by
      constructor
      case last => exact hlast
      case keys =>
        intro key hkey
        rw [ChatStreamState.pendingRuns, Lookup.keys_assign] at hkey
        split at hkey
        case isTrue => exact hkeys key hkey
        case isFalse =>
          cases List.mem_append.mp hkey
          case inl hold => exact hkeys key hold
          case inr hnew =>
            rw [List.mem_singleton.mp hnew]
            exact ⟨normalizedModelRunId_idem, hbegun⟩
      case said =>
        intro key
        have hassign := waiting_assign s key (normalizedModelRunId modelRunId) batch
        have hkept : waiting key s ++ (if key = normalizedModelRunId modelRunId then delta else []) =
            if key = normalizedModelRunId modelRunId then batch.deltaParts.flatten else waiting key s := by
          split
          case isTrue heq => rw [heq, hflat]
          case isFalse    => rw [List.append_nil]
        rw [hsaid key, List.append_assoc, hkept, ← hassign]
        rfl
    split
    case isTrue => exact told_flushReasoning _ _ _ (hqueued s.reasoningFlushDeadlines)
    case isFalse =>
      split
      case isTrue  => rw [List.append_nil]; exact hqueued s.reasoningFlushDeadlines
      case isFalse => rw [List.append_nil]; exact hqueued _

end Queue

section Events

theorem told_other (h : Told events s out) (ht : event.eventType ≠ .reasoningDelta) :
    Told (events ++ [event]) s out := by
  have hsilent (last : Last) : hear event last = (last, []) := by rw [hear, if_neg ht]
  constructor
  case last => rw [Emission.all_concat, hsilent]; exact h.last
  case keys => exact h.keys
  case said =>
    intro key
    rw [heard_concat, hsilent]
    simpa using h.said key

theorem told_onTextDelta (h : Told events s out) :
    Told events (onTextDelta terminal display event s).1 (out ++ (onTextDelta terminal display event s).2) := by
  have hflushed := told_flushReasoning [normalizedModelRunId event.modelRunId] s out h
  unfold onTextDelta andThen
  generalize flushPendingReasoningBatches [normalizedModelRunId event.modelRunId] s = flushed at hflushed
  have hsame {t : ChatStreamState} (hp : t.pendingReasoningByRun = flushed.1.pendingReasoningByRun)
      (hb : t.reasoningImmediateRunIds = flushed.1.reasoningImmediateRunIds)
      (hl : t.lastReasoning = flushed.1.lastReasoning) : Told events t (out ++ flushed.2) := by
    have hq : Quiet flushed.1 (t, []) := ⟨hp, hb, hl, fun _ => rfl⟩
    have ht := hflushed.quiet hq
    rwa [List.append_nil] at ht
  have hfiltered : (filtered display event.delta flushed.1).2.pendingReasoningByRun = flushed.1.pendingReasoningByRun ∧
      (filtered display event.delta flushed.1).2.reasoningImmediateRunIds = flushed.1.reasoningImmediateRunIds ∧
      (filtered display event.delta flushed.1).2.lastReasoning = flushed.1.lastReasoning := by
    unfold filtered
    split <;> exact ⟨rfl, rfl, rfl⟩
  simp only [← List.append_assoc]
  split
  case isTrue =>
    rw [List.append_nil]
    exact hsame hfiltered.left hfiltered.right.left hfiltered.right.right
  case isFalse =>
    apply Told.quiet (hsame ?_ ?_ ?_) sendText_quiet
    case _ => exact hfiltered.left
    case _ => exact hfiltered.right.left
    case _ => exact hfiltered.right.right

theorem told_onReasoningDelta (h : Told events s out) (ht : event.eventType = .reasoningDelta) :
    Told (events ++ [event]) (onReasoningDelta display event s).1 (out ++ (onReasoningDelta display event s).2) := by
  have hflushed := h.quiet (flushTexts_quiet s display true false)
  unfold onReasoningDelta andThen
  generalize flushPendingTextAggregator display true false s = flushed at hflushed
  simp only [← List.append_assoc]
  generalize hsuppressed : suppressNeighborDuplicateDelta flushed.1.lastReasoning event.delta event.modelRunId false =
    suppressed
  have hheard : hear event (Emission.all hear events ([], "")).1 =
      (suppressed.2, if suppressed.1 = [] then [] else [(normalizedModelRunId event.modelRunId, suppressed.1)]) := by
    rw [hear, if_pos ht, ← hflushed.last, hsuppressed]
  have hlast : (Emission.all hear (events ++ [event]) ([], "")).1 = suppressed.2 := by
    rw [Emission.all_concat, hheard]
  split
  case isTrue hnil =>
    rw [List.append_nil]
    constructor
    case last => exact hlast.symm
    case keys => exact hflushed.keys
    case said =>
      intro key
      rw [heard_concat, hheard, if_pos hnil, List.filter_nil, List.flatMap_nil, List.append_nil]
      exact hflushed.said key
  case isFalse hne =>
    have hsaid (key : String) : heard key (events ++ [event]) = said key (out ++ flushed.2) ++ waiting key flushed.1 ++
        if key = normalizedModelRunId event.modelRunId then suppressed.1 else [] := by
      have hnew : (if suppressed.1 = [] then [] else [(normalizedModelRunId event.modelRunId, suppressed.1)]) =
          [(normalizedModelRunId event.modelRunId, suppressed.1)] := if_neg hne
      have hpart : ([(normalizedModelRunId event.modelRunId, suppressed.1)].filter (·.1 = key)).flatMap (·.2) =
          if key = normalizedModelRunId event.modelRunId then suppressed.1 else [] := by
        by_cases heq : key = normalizedModelRunId event.modelRunId
        case pos => simp [heq]
        case neg => simp [heq, Ne.symm heq]
      rw [heard_concat, hheard, hnew, ← hflushed.said key, hpart]
    apply told_queue hne
    case hlast => split <;> exact hlast.symm
    case hkeys => split <;> exact hflushed.keys
    case hsaid => split <;> exact hsaid

theorem told_onModelEvent (terminal display : Bool) (event : CanonicalModelEvent) (h : Told events s out) :
    Told (events ++ [event]) (onModelEvent terminal display event s).1
    (out ++ (onModelEvent terminal display event s).2) := by
  cases htype : event.eventType
  case textDelta =>
    simp only [onModelEvent, htype]
    exact told_other (told_onTextDelta h) (by simp [htype])
  case reasoningDelta =>
    simp only [onModelEvent, htype]
    exact told_onReasoningDelta h htype
  case reasoningSuppressed =>
    simp only [onModelEvent, htype, Emission.skip, List.append_nil]
    exact told_other h (by simp [htype])

theorem told_events (terminal display : Bool) (new : List CanonicalModelEvent) (h : Told events s out) :
    Told (events ++ new) (Emission.all (onModelEvent terminal display) new s).1
      (out ++ (Emission.all (onModelEvent terminal display) new s).2) := by
  induction new generalizing events s out
  case nil => simpa [Emission.all, Emission.skip] using h
  case cons event new hi =>
    have hrest := hi (told_onModelEvent terminal display event h)
    rwa [List.append_assoc, List.append_assoc] at hrest

end Events

section Signals

variable {P : Type*} {text : Text} {payloads : Payloads P} {signal : Signal P} {signals : List (Signal P)}
  {preserve : Bool}

-- The canonical events of the signals
def trace (text : Text) (payloads : Payloads P) : ChatStreamState → List (Signal P) → List CanonicalModelEvent
  | _, []                => []
  | s, signal :: signals =>
    signal.events text payloads s ++ trace text payloads (handleStreamEvent text payloads signal s).1 signals

theorem told_stores (h : Told events s out) (stores : Stores) : Told events { s with stores := stores } out :=
  ⟨h.last, h.keys, h.said⟩

theorem told_normalized (text : Text) (payloads : Payloads P) (signal : Signal P) (h : Told events s out) :
    Told events (normalized text payloads signal s) out := by
  unfold normalized
  split
  case h_1 => exact h
  case h_2 => exact told_stores h _

-- What a model is asked about does not depend on the reasoning that waits.
theorem events_flushed (text : Text) (payloads : Payloads P) (signal : Signal P) (s : ChatStreamState)
    (runIds : List String) : signal.events text payloads (flushPendingReasoningBatches runIds s).1 =
    signal.events text payloads s := by
  have hall (keys : List String) : ∃ pending deadlines, (Emission.all popReasoning keys s).1 =
      { s with pendingReasoningByRun := pending, reasoningFlushDeadlines := deadlines } := by
    induction keys generalizing s
    case nil => exact ⟨_, _, rfl⟩
    case cons key keys hi =>
      obtain ⟨pending, deadlines, heq⟩ := hi (s := (popReasoning key s).1)
      rw [pop_state] at heq
      exact ⟨pending, deadlines, by simpa [Emission.all, andThen, pop_state] using heq⟩
  obtain ⟨pending, deadlines, heq⟩ := hall (if runIds = [] then s.pendingReasoningByRun.map Prod.fst else runIds)
  rw [flushPendingReasoningBatches, heq]
  cases signal
  case onChatModelEnd => simp only [Signal.events, Signal.call, currentCanonicalText]
  all_goals rfl

theorem told_endModel {new : List CanonicalModelEvent}
    (h : Told events (Emission.all (onModelEvent true display) new s).1
      (out ++ (Emission.all (onModelEvent true display) new s).2)) :
    Told events (endModel display modelRunId new s).1 (out ++ (endModel display modelRunId new s).2) := by
  have hended : Keeps (Told events) (flushEndedText display (modelRunId :: new.map (·.modelRunId))) := by
    intro s out h
    unfold flushEndedText
    split
    case isTrue  => exact h.quiet (flushTexts_quiet ..)
    case isFalse => simpa using h
  have hflush : Keeps (Told events) (flushPendingReasoningBatches
      ((modelRunId :: new.map (·.modelRunId)).map normalizedModelRunId)) := told_flushReasoning _
  have hrest := hflush.andThen hended _ _ h
  rwa [List.append_assoc] at hrest

theorem told_handle (text : Text) (payloads : Payloads P) (signal : Signal P) (h : Told events s out) :
    Told (events ++ signal.events text payloads s)
    (handleStreamEvent text payloads signal s).1 (out ++ (handleStreamEvent text payloads signal s).2) := by
  have hflushes (display readyOnly final : Bool) : Keeps (Told events)
      (andThen (flushPendingReasoningBatches []) (flushPendingTextAggregator display readyOnly final)) :=
    (told_flushReasoning []).andThen told_flushTexts
  cases signal
  case onChatModelStream display event payload surface =>
    have hevents := told_normalized text payloads (.onChatModelStream display event payload surface) h
    simp only [handleStreamEvent]
    exact told_events false display _ hevents
  case onChatModelEnd display event payload surface =>
    have hflushed := told_flushReasoning [normalizedModelRunId (text.stripped (event.get "run_id"))] s out h
    have hsame := events_flushed text payloads (.onChatModelEnd display event payload surface) s
      [normalizedModelRunId (text.stripped (event.get "run_id"))]
    simp only [handleStreamEvent, andThen, ← hsame]
    generalize flushPendingReasoningBatches [normalizedModelRunId (text.stripped (event.get "run_id"))] s = flushed
      at hflushed
    rw [← List.append_assoc]
    generalize Signal.events text payloads (.onChatModelEnd display event payload surface) flushed.1 = new
    have hevents := told_events true display new
      (told_normalized text payloads (.onChatModelEnd display event payload surface) hflushed)
    exact told_endModel hevents
  case onToolStart display =>
    have hnone : (Signal.onToolStart display : Signal P).events text payloads s = [] := rfl
    rw [hnone, List.append_nil]
    exact hflushes display true false s out h
  case textFlush display =>
    have hnone : (Signal.textFlush display : Signal P).events text payloads s = [] := rfl
    rw [hnone, List.append_nil]
    exact told_flushTexts s out h
  case reasoningFlush =>
    have hnone : (Signal.reasoningFlush : Signal P).events text payloads s = [] := rfl
    rw [hnone, List.append_nil]
    exact told_flushReasoning [] s out h
  case guidance display =>
    have hnone : (Signal.guidance display : Signal P).events text payloads s = [] := rfl
    rw [hnone, List.append_nil]
    exact hflushes display false true s out h

theorem told_signals (text : Text) (payloads : Payloads P) (signals : List (Signal P)) (h : Told events s out) :
    Told (events ++ trace text payloads s signals)
    (Emission.all (handleStreamEvent text payloads) signals s).1
    (out ++ (Emission.all (handleStreamEvent text payloads) signals s).2) := by
  induction signals generalizing events s out
  case nil => simpa [trace, Emission.all, Emission.skip] using h
  case cons signal signals hi =>
    have hrest := hi (told_handle text payloads signal h)
    rwa [List.append_assoc, List.append_assoc] at hrest

-- Flushing all that waits leaves nothing.
theorem flush_all : (flushPendingReasoningBatches [] s).1.pendingReasoningByRun = [] := by
  have hall (keys : List String) : (Emission.all popReasoning keys s).1.pendingReasoningByRun =
      s.pendingReasoningByRun.filter (·.1 ∉ keys) := by
    induction keys generalizing s
    case nil => simp [Emission.all, Emission.skip]
    case cons key keys hi =>
      have hrest := hi (s := (popReasoning key s).1)
      simp only [pop_state, List.filter_filter] at hrest
      have hsplit : Emission.all popReasoning (key :: keys) s =
          ((Emission.all popReasoning keys (popReasoning key s).1).1, (popReasoning key s).2 ++
            (Emission.all popReasoning keys (popReasoning key s).1).2) := rfl
      rw [hsplit, pop_state, hrest]
      apply List.filter_congr
      intro entry _
      by_cases heq : entry.1 = key <;> simp [heq]
  rw [flushPendingReasoningBatches, if_pos rfl, hall, List.filter_eq_nil_iff]
  intro entry hentry
  simpa using ⟨entry.2, hentry⟩

theorem flushStreamText_silent : said key (flushStreamText display s).2 = [] := by
  unfold flushStreamText
  simp only
  split
  case isTrue  => exact (flushTexts_quiet ..).silent key
  case isFalse =>
    rw [andThen, said_append, (emitTextDelta_quiet ..).silent, (flushTexts_quiet ..).silent, List.append_nil]

-- Of each run, the chat sends on what it hears of the reasoning, once and in its order.
theorem reasoning_kept (text : Text) (payloads : Payloads P) (preserve display : Bool) (signals : List (Signal P))
    (key : String) :
    said key (andThen (Emission.all (handleStreamEvent text payloads) signals) (flushStreamState display)
      (.start preserve)).2 = heard key (trace text payloads (.start preserve) signals) := by
  have hstart : Told [] (.start preserve) [] := ⟨rfl, by simp [ChatStreamState.pendingRuns, ChatStreamState.start],
    fun _ => rfl⟩
  have hsignals := told_signals text payloads signals hstart
  rw [List.nil_append, List.nil_append] at hsignals
  simp only [andThen]
  generalize Emission.all (handleStreamEvent text payloads) signals (.start preserve) = sent at hsignals
  have hflushed := (told_flushReasoning [] _ _ hsignals).said key
  have hnone : waiting key (flushPendingReasoningBatches [] sent.1).1 = [] := by rw [waiting, flush_all]; rfl
  rw [hnone, List.append_nil, said_append] at hflushed
  rw [said_append, flushStreamState, andThen, said_append, flushStreamText_silent, List.append_nil]
  exact hflushed

end Signals
end ChatStream
