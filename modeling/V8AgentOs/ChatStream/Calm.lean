import V8AgentOs.ChatStream.Runtime

-- Between two signals, what the chat holds back is short and has a deadline.
namespace ChatStream

open ModelEvents Python

open Emission (Keeps keeps_all keeps_skip)

-- The runs whose reasoning waits
def ChatStreamState.pendingRuns (s : ChatStreamState) : List String :=
  s.pendingReasoningByRun.map Prod.fst

structure Calm (s : ChatStreamState) : Prop where
  waits     : s.textAggregator.shouldFlushNow = false
  deadline  : s.textFlushDeadline = true ↔ s.textAggregator.buffer ≠ []
  direct    : s.preserveStreamTimeline → s.textAggregator.buffer = []
  nodup     : s.pendingRuns.Nodup
  short     : ∀ entry ∈ s.pendingReasoningByRun, entry.2.charCount < reasoningFlushMaxChars
  deadlines : ∀ runKey, runKey ∈ s.reasoningFlushDeadlines ↔ runKey ∈ s.pendingRuns

-- What the text of a message does not depend on
structure SameTexts (s t : ChatStreamState) : Prop where
  aggregator : t.textAggregator = s.textAggregator
  deadline   : t.textFlushDeadline = s.textFlushDeadline
  preserve   : t.preserveStreamTimeline = s.preserveStreamTimeline

structure SameReasoning (s t : ChatStreamState) : Prop where
  pending   : t.pendingReasoningByRun = s.pendingReasoningByRun
  deadlines : t.reasoningFlushDeadlines = s.reasoningFlushDeadlines

variable {s t : ChatStreamState} {display terminal readyOnly final replace : Bool} {runKey modelRunId : String}
  {delta : Chars} {runIds : List String} {aggregator : TextChunkAggregator} {event : CanonicalModelEvent}

theorem normalizedModelRunId_idem :
    normalizedModelRunId (normalizedModelRunId modelRunId) = normalizedModelRunId modelRunId := by
  have hdefault : strip "__default__" = "__default__" := by decide +kernel
  unfold normalizedModelRunId
  simp only
  split
  case isTrue    => rw [hdefault]; rfl
  case isFalse h => simp [h]

theorem Calm.same (h : Calm s) (ht : SameTexts s t) (hr : SameReasoning s t) : Calm t := by
  have hruns : t.pendingRuns = s.pendingRuns := by rw [ChatStreamState.pendingRuns, hr.pending]; rfl
  constructor
  case waits     => exact ht.aggregator ▸ h.waits
  case deadline  => rw [ht.deadline, ht.aggregator, h.deadline]
  case direct    => rw [ht.preserve, ht.aggregator]; exact h.direct
  case nodup     => exact hruns ▸ h.nodup
  case short     => exact hr.pending ▸ h.short
  case deadlines => rw [hr.deadlines, hruns]; exact h.deadlines

section Aggregator

theorem flush_waits : aggregator.flush.2.shouldFlushNow = false := rfl

-- A push leaves nothing that could be flushed.
theorem push_waits (h : aggregator.shouldFlushNow = false) : (aggregator.push delta).2.shouldFlushNow = false := by
  unfold TextChunkAggregator.push
  split
  case isTrue => exact h
  case isFalse =>
    simp only
    split
    case isTrue         => exact flush_waits
    case isFalse hwaits => simpa using hwaits

theorem push_flushed (aggregator : TextChunkAggregator) (hd : delta ≠ []) :
    (aggregator.push delta).1 = [aggregator.buffer ++ delta] ∧ (aggregator.push delta).2.buffer = [] ∨
    (aggregator.push delta).1 = [] ∧ (aggregator.push delta).2.buffer = aggregator.buffer ++ delta := by
  unfold TextChunkAggregator.push
  rw [if_neg hd]
  simp only
  split
  case isTrue  => exact .inl ⟨rfl, rfl⟩
  case isFalse => exact .inr ⟨rfl, rfl⟩

end Aggregator

section Texts

theorem calm_texts (h : Calm s) (hr : SameReasoning s t) (hp : t.preserveStreamTimeline = s.preserveStreamTimeline)
    (hw : t.textAggregator.shouldFlushNow = false) (hd : t.textFlushDeadline = true ↔ t.textAggregator.buffer ≠ [])
    (hb : s.preserveStreamTimeline → t.textAggregator.buffer = []) : Calm t := by
  have hruns : t.pendingRuns = s.pendingRuns := by rw [ChatStreamState.pendingRuns, hr.pending]; rfl
  constructor
  case waits     => exact hw
  case deadline  => exact hd
  case direct    => exact hp ▸ hb
  case nodup     => exact hruns ▸ h.nodup
  case short     => exact hr.pending ▸ h.short
  case deadlines => rw [hr.deadlines, hruns]; exact h.deadlines

theorem calm_emptied (h : Calm s) :
    Calm { s with textFlushDeadline := false, textAggregator := s.textAggregator.flush.2 } :=
  calm_texts h ⟨rfl, rfl⟩ rfl flush_waits (by simp [TextChunkAggregator.flush]) fun _ => rfl

theorem calm_flushTexts (h : Calm s) : Calm (flushPendingTextAggregator display readyOnly final s).1 := by
  unfold flushPendingTextAggregator
  simp only
  split
  case isTrue  => exact calm_texts h ⟨rfl, rfl⟩ rfl h.waits (by simp [scheduleTextFlushDeadline]) h.direct
  case isFalse => exact calm_emptied h

-- Texts that are not sent on at once. A replaced text has nothing left in the buffer.
theorem calm_emitTextDelta (h : Calm s) (hr : replace → display → s.textAggregator.buffer = []) :
    Calm (emitTextDelta display modelRunId delta replace s).1 := by
  unfold emitTextDelta
  split
  case isTrue => exact h
  case isFalse hd =>
    split
    case isTrue hreplace =>
      have hnil : s.textAggregator.buffer = [] := by simp at hreplace; exact hr hreplace.left hreplace.right
      exact calm_texts h ⟨rfl, rfl⟩ rfl h.waits (by simp [hnil]) h.direct
    case isFalse =>
      split
      case isTrue  => exact h
      case isFalse =>
        split
        case isTrue hp =>
          exact calm_texts h ⟨rfl, rfl⟩ rfl h.waits (by simp [h.direct hp]) h.direct
        case isFalse hp =>
          simp only
          have hwaits : (s.textAggregator.push delta).2.shouldFlushNow = false := push_waits h.waits
          cases push_flushed s.textAggregator hd
          case inl hpush =>
            have ⟨_, hnil⟩ := hpush
            simp only [hnil, decide_true, Bool.or_true, if_true]
            exact calm_texts h ⟨rfl, rfl⟩ rfl hwaits (by simp [hnil]) (absurd · hp)
          case inr hpush =>
            have ⟨hnone, hbuffer⟩ := hpush
            have hne : s.textAggregator.buffer ++ delta ≠ [] := by simp [hd]
            simp only [hnone, hbuffer, List.flatMap_nil, List.isEmpty_nil, hne, decide_false, Bool.not_true,
              Bool.or_self, Bool.false_eq_true, if_false]
            exact calm_texts h ⟨rfl, rfl⟩ rfl hwaits (by simp [scheduleTextFlushDeadline]) (absurd · hp)

end Texts

section Reasoning

theorem calm_popReasoning (h : Calm s) : Calm (popReasoning runKey s).1 := by
  have hkeys : (s.pendingReasoningByRun.filter (·.1 ≠ runKey)).map Prod.fst =
      s.pendingRuns.filter (· ≠ runKey) := by
    rw [ChatStreamState.pendingRuns, List.filter_map]
    rfl
  have hpopped : Calm { s with
      pendingReasoningByRun   := s.pendingReasoningByRun.filter (·.1 ≠ runKey)
      reasoningFlushDeadlines := s.reasoningFlushDeadlines.filter (· ≠ runKey) } := by
    constructor
    case waits     => exact h.waits
    case deadline  => exact h.deadline
    case direct    => exact h.direct
    case nodup     => rw [ChatStreamState.pendingRuns, hkeys]; exact h.nodup.filter _
    case short     => exact fun entry hentry => h.short entry (List.mem_of_mem_filter hentry)
    case deadlines =>
      intro key
      rw [ChatStreamState.pendingRuns, hkeys, List.mem_filter, List.mem_filter, h.deadlines]
  unfold popReasoning
  simp only
  split
  case h_1 => exact hpopped
  case h_2 => exact hpopped

theorem calm_flushReasoning (h : Calm s) : Calm (flushPendingReasoningBatches runIds s).1 := by
  have hall : Keeps (fun s _ => Calm s) (Emission.all popReasoning
      (if runIds = [] then s.pendingReasoningByRun.map Prod.fst else runIds)) :=
    keeps_all fun _ _ _ _ h => calm_popReasoning h
  exact hall s [] h

-- What waits for a run does not matter to what is left without it.
theorem popReasoning_assign {batch : PendingReasoningBatch} :
    (popReasoning runKey
      { s with pendingReasoningByRun := Lookup.assign s.pendingReasoningByRun runKey batch }).1 =
    (popReasoning runKey s).1 := by
  unfold popReasoning
  simp only [Lookup.filter_assign, Lookup.lookup_assign_self]
  split <;> rfl

theorem calm_queueReasoning (h : Calm s) : Calm (queueReasoningDelta display modelRunId delta s).1 := by
  unfold queueReasoningDelta
  simp only
  split
  case isTrue => exact h
  case isFalse =>
    split
    case isTrue => exact h.same ⟨rfl, rfl, rfl⟩ ⟨rfl, rfl⟩
    case isFalse =>
      generalize hwaiting : ((s.pendingReasoningByRun.lookup (normalizedModelRunId modelRunId)).map
        (·.deltaParts)).getD [] = waiting
      split
      case isTrue =>
        simp only [flushPendingReasoningBatches, List.cons_ne_nil, if_false, Emission.all, Emission.andThen,
          Emission.skip, popReasoning_assign]
        exact calm_popReasoning h
      case isFalse hshort =>
        have hshort : ∀ entry ∈ Lookup.assign s.pendingReasoningByRun (normalizedModelRunId modelRunId)
            ⟨waiting ++ [delta], display⟩, entry.2.charCount < reasoningFlushMaxChars := by
          intro entry hentry
          cases Lookup.mem_of_mem_assign hentry
          case inl hold => exact h.short entry hold
          case inr hnew => exact hnew ▸ Nat.not_le.mp hshort
        have hkeys : (Lookup.assign s.pendingReasoningByRun (normalizedModelRunId modelRunId)
            ⟨waiting ++ [delta], display⟩).map Prod.fst = _ := Lookup.keys_assign
        have hnodup : ((Lookup.assign s.pendingReasoningByRun (normalizedModelRunId modelRunId)
            ⟨waiting ++ [delta], display⟩).map Prod.fst).Nodup := by
          rw [hkeys]
          split
          case isTrue         => exact h.nodup
          case isFalse hfresh =>
            have hnodup := h.nodup
            rw [ChatStreamState.pendingRuns] at hnodup
            exact List.nodup_middle.mpr (List.nodup_cons.mpr ⟨by simpa using hfresh, by simpa using hnodup⟩)
        have hmem (key : String) : key ∈ (Lookup.assign s.pendingReasoningByRun (normalizedModelRunId modelRunId)
            ⟨waiting ++ [delta], display⟩).map Prod.fst ↔
            key ∈ s.pendingRuns ∨ key = normalizedModelRunId modelRunId := by
          rw [hkeys, ChatStreamState.pendingRuns]
          split
          case isTrue hold => exact ⟨.inl, fun hkey => hkey.elim id (· ▸ hold)⟩
          case isFalse     => simp
        split
        case isTrue hdeadline =>
          have hold := (h.deadlines _).mp hdeadline
          constructor
          case waits     => exact h.waits
          case deadline  => exact h.deadline
          case direct    => exact h.direct
          case nodup     => exact hnodup
          case short     => exact hshort
          case deadlines => exact fun key => (h.deadlines key).trans ⟨fun hkey => (hmem key).mpr (.inl hkey),
              fun hkey => ((hmem key).mp hkey).elim id (· ▸ hold)⟩
        case isFalse =>
          constructor
          case waits     => exact h.waits
          case deadline  => exact h.deadline
          case direct    => exact h.direct
          case nodup     => exact hnodup
          case short     => exact hshort
          case deadlines =>
            intro key
            rw [List.mem_append, List.mem_singleton, h.deadlines]
            exact (hmem key).symm

end Reasoning

section Events

theorem calm_sendText (h : Calm s) (hd : delta ≠ []) : Calm (sendText terminal display event delta s).1 := by
  unfold sendText
  simp only
  split
  case isTrue hdisplay =>
    have hsame : Calm { s with narrativeStarted := s.narrativeStarted ++ [normalizedModelRunId event.modelRunId] } :=
      h.same ⟨rfl, rfl, rfl⟩ ⟨rfl, rfl⟩
    exact calm_emitTextDelta hsame (fun _ hshown => by simp [hshown] at hdisplay)
  case isFalse hdisplay =>
    have hshown : display = true := by simpa using hdisplay
    split
    case isTrue hcorrection =>
      unfold emitTextDelta
      rw [if_neg hd, if_pos (by simp [hcorrection, hshown])]
      exact (calm_emptied h).same ⟨rfl, rfl, rfl⟩ ⟨rfl, rfl⟩
    case isFalse hcorrection =>
      have hsame : Calm { appendMessageOutputText event.modelRunId (· ++ delta) s with
          narrativeStarted := s.narrativeStarted ++ [normalizedModelRunId event.modelRunId] } :=
        h.same ⟨rfl, rfl, rfl⟩ ⟨rfl, rfl⟩
      exact calm_emitTextDelta hsame (fun hreplace => absurd hreplace hcorrection)

theorem calm_filtered (h : Calm s) : Calm (filtered display delta s).2 := by
  unfold filtered
  split
  case isTrue  => exact h.same ⟨rfl, rfl, rfl⟩ ⟨rfl, rfl⟩
  case isFalse => exact h

theorem calm_onModelEvent (h : Calm s) : Calm (onModelEvent terminal display event s).1 := by
  cases htype : event.eventType
  case textDelta =>
    simp only [onModelEvent, htype, onTextDelta, Emission.andThen]
    split
    case isTrue => exact (calm_filtered (calm_flushReasoning h)).same ⟨rfl, rfl, rfl⟩ ⟨rfl, rfl⟩
    case isFalse hd =>
      exact calm_sendText ((calm_filtered (calm_flushReasoning h)).same ⟨rfl, rfl, rfl⟩ ⟨rfl, rfl⟩) hd
  case reasoningDelta =>
    simp only [onModelEvent, htype, onReasoningDelta, Emission.andThen]
    split
    case isTrue => exact (calm_flushTexts h).same ⟨rfl, rfl, rfl⟩ ⟨rfl, rfl⟩
    case isFalse =>
      apply calm_queueReasoning
      split
      case isTrue  => exact (calm_flushTexts h).same ⟨rfl, rfl, rfl⟩ ⟨rfl, rfl⟩
      case isFalse => exact (calm_flushTexts h).same ⟨rfl, rfl, rfl⟩ ⟨rfl, rfl⟩
  case reasoningSuppressed =>
    simp only [onModelEvent, htype]
    exact h

end Events

section Signals

variable {P : Type*} {text : Text} {payloads : Payloads P} {signal : Signal P} {signals : List (Signal P)}
  {preserve : Bool}

theorem calm_normalized (h : Calm s) : Calm (normalized text payloads signal s) := by
  unfold normalized
  split
  case h_1 => exact h
  case h_2 => exact h.same ⟨rfl, rfl, rfl⟩ ⟨rfl, rfl⟩

theorem calm_events {events : List CanonicalModelEvent} (h : Calm s) :
    Calm (Emission.all (onModelEvent terminal display) events s).1 := by
  have hall : Keeps (fun s _ => Calm s) (Emission.all (onModelEvent terminal display) events) :=
    keeps_all fun _ _ _ _ h => calm_onModelEvent h
  exact hall s [] h

theorem calm_endModel {events : List CanonicalModelEvent} (h : Calm s) :
    Calm (endModel display modelRunId events s).1 := by
  have hended : Keeps (fun s _ => Calm s) (flushEndedText display (modelRunId :: events.map (·.modelRunId))) := by
    intro s out h
    unfold flushEndedText
    split
    case isTrue  => exact calm_flushTexts h
    case isFalse => exact h
  have hflush : Keeps (fun s _ => Calm s) (flushPendingReasoningBatches
      ((modelRunId :: events.map (·.modelRunId)).map normalizedModelRunId)) := fun _ _ h => calm_flushReasoning h
  exact hflush.andThen hended _ [] (calm_events h)

theorem calm_handle : Keeps (fun s _ => Calm s) (handleStreamEvent text payloads signal) := by
  have hflush (runIds : List String) : Keeps (fun s _ => Calm s) (flushPendingReasoningBatches runIds) :=
    fun _ _ h => calm_flushReasoning h
  have htexts (display readyOnly final : Bool) :
      Keeps (fun s _ => Calm s) (flushPendingTextAggregator display readyOnly final) := fun _ _ h => calm_flushTexts h
  unfold handleStreamEvent
  split
  case h_1 => exact fun _ _ h => calm_events (calm_normalized h)
  case h_2 => exact (hflush _).andThen fun _ _ h => calm_endModel (calm_normalized h)
  case h_3 => exact (hflush _).andThen (htexts _ _ _)
  case h_4 => exact htexts _ _ _
  case h_5 => exact hflush _
  case h_6 => exact (hflush _).andThen (htexts _ _ _)

theorem calm_start : Calm (.start preserve) := by
  constructor
  case waits     => rfl
  case deadline  => simp [ChatStreamState.start]
  case direct    => exact fun _ => rfl
  case nodup     => exact List.nodup_nil
  case short     => simp [ChatStreamState.start]
  case deadlines => exact fun _ => .rfl

theorem calm_stream : Calm (stream text payloads preserve signals).1 := by
  have hall : Keeps (fun s _ => Calm s) (Emission.all (handleStreamEvent text payloads) signals) :=
    keeps_all fun _ _ => calm_handle
  exact hall _ [] calm_start

theorem flushTexts_ready (h : Calm s) : (flushPendingTextAggregator display true false s).2 = [] := by
  simp [flushPendingTextAggregator, h.waits]

-- After any signals the chat is calm, so that a deadline of its text has nothing to send on.
theorem held_back_little (text : Text) (payloads : Payloads P) (preserve display : Bool) (signals : List (Signal P)) :
    Calm (stream text payloads preserve signals).1 ∧
    (handleStreamEvent text payloads (.textFlush display) (stream text payloads preserve signals).1).2 = [] :=
  ⟨calm_stream, flushTexts_ready calm_stream⟩

end Signals
end ChatStream
