import V8AgentOs.Lib.Lookup
import V8AgentOs.ModelEvents.Adapter

-- runtimes/chat/runtime.py: how the chat sends on what its models say, and keeps the text of its message.
namespace ChatStream

open ModelEvents Python

-- runtimes/chat/stream_filter.py
structure StreamFilter where
  badWords : List Chars
  buffer   : Chars
  flushed  : Bool

namespace StreamFilter

def process (filter : StreamFilter) (chunk : Chars) : Chars × StreamFilter :=
  if filter.flushed then (chunk, filter)
  else
    let buffer := filter.buffer ++ chunk
    if buffer ∈ filter.badWords then ([], { filter with buffer := buffer })
    else if filter.badWords.any (buffer.isPrefixOf ·) then ([], { filter with buffer := buffer })
    else (buffer, { filter with buffer := buffer, flushed := true })

def flush (filter : StreamFilter) : Chars × StreamFilter :=
  if filter.flushed || filter.buffer = [] then ([], filter)
  else if filter.buffer ∈ filter.badWords then ([], filter)
  else (filter.buffer, { filter with flushed := true })

end StreamFilter

-- core/stream_chunk_aggregator.py
structure TextChunkAggregator where
  softLimit : ℕ
  hardLimit : ℕ
  buffer    : Chars

namespace TextChunkAggregator

def endsWith (marks : List Char) (text : Chars) : Bool :=
  match text.getLast? with
  | none   => false
  | some c => marks.contains c

def strongBoundaries : List Char := ['\n', '\r', '。', '！', '？', '.', '!', '?']

def boundaries : List Char := strongBoundaries ++ ['；', ';', '：', ':', '，', ',', '、', ' ']

def shouldFlushNow (aggregator : TextChunkAggregator) : Bool :=
  if aggregator.buffer = [] then false
  else if aggregator.hardLimit ≤ aggregator.buffer.length then true
  else if endsWith strongBoundaries aggregator.buffer then true
  else aggregator.softLimit ≤ aggregator.buffer.length && endsWith boundaries aggregator.buffer

def flush (aggregator : TextChunkAggregator) : Chars × TextChunkAggregator :=
  (aggregator.buffer, { aggregator with buffer := [] })

def push (aggregator : TextChunkAggregator) (delta : Chars) : List Chars × TextChunkAggregator :=
  if delta = [] then ([], aggregator)
  else
    let aggregator := { aggregator with buffer := aggregator.buffer ++ delta }
    if aggregator.shouldFlushNow then ([aggregator.flush.1], aggregator.flush.2) else ([], aggregator)

end TextChunkAggregator

-- The chunks that the chat emits. `display` says that a chunk belongs to the message.
inductive Chunk
  | text (display : Bool) (runKey : String) (content : Chars) (isPartial replaceStream : Bool)
  | reasoning (display : Bool) (runKey : String) (content : Chars)

structure PendingReasoningBatch where
  deltaParts : List Chars
  display    : Bool

-- The last delta with its run
abbrev Last := Chars × String

structure ChatStreamState where
  stores                    : Stores
  textFilter                : StreamFilter
  textAggregator            : TextChunkAggregator
  preserveStreamTimeline    : Bool
  textFlushDeadline         : Bool -- whether there is one
  outputBuffer              : List Chars
  outputTextByRun           : String → Chars
  outputTextRunOrder        : List String
  narrativeStarted          : List String
  reasoningBuffer           : List Chars
  pendingReasoningByRun     : List (String × PendingReasoningBatch)
  reasoningFlushDeadlines   : List String
  reasoningImmediateRunIds  : List String
  lastText                  : Last
  lastReasoning             : Last

def ChatStreamState.start (preserveStreamTimeline : Bool) : ChatStreamState where
  stores                   := ⟨fun _ => [], fun _ => []⟩
  textFilter               := ⟨["NONE".toList, "None".toList, "null".toList, "```json".toList, "```".toList], [], false⟩
  textAggregator           := ⟨24, 72, []⟩
  preserveStreamTimeline   := preserveStreamTimeline
  textFlushDeadline        := false
  outputBuffer             := []
  outputTextByRun          := fun _ => []
  outputTextRunOrder       := []
  narrativeStarted         := []
  reasoningBuffer          := []
  pendingReasoningByRun    := []
  reasoningFlushDeadlines  := []
  reasoningImmediateRunIds := []
  lastText                 := ([], "")
  lastReasoning            := ([], "")

abbrev Outflow := Emission ChatStreamState Chunk

open Emission (andThen all skip)

def modify (f : ChatStreamState → ChatStreamState) : Outflow :=
  fun s => (f s, [])

-- What a delta of another run adds to the last one
def neighborRest (last : Last) (delta : Chars) (runId : String) (additive : Bool) : Chars :=
  if !additive && last.1 ≠ [] && runId ≠ last.2 then
    if last.1 <+: delta then delta.drop last.1.length
    else if delta <+: last.1 ∨ delta <:+: last.1 then []
    else delta.drop (longestOverlapSuffixPrefix last.1 delta)
  else delta

-- What is left of a delta, and the last delta that follows.
def suppressNeighborDuplicateDelta (last : Last) (delta : Chars) (modelRunId : String) (additive : Bool) :
    Chars × Last :=
  let runId := normalizedModelRunId modelRunId
  if delta = [] then ([], last)
  else if !additive && last.1 ≠ [] && delta = last.1 then ([], last)
  else
    let rest := neighborRest last delta runId additive
    if rest = [] then ([], last) else (rest, (delta, runId))

section Reasoning

def reasoningFlushMaxChars : ℕ := 512

def PendingReasoningBatch.charCount (batch : PendingReasoningBatch) : ℕ :=
  (batch.deltaParts.map List.length).sum

def emitReasoningDelta (display : Bool) (modelRunId : String) (delta : Chars) : List Chunk :=
  if delta = [] then [] else [.reasoning display (normalizedModelRunId modelRunId) delta]

-- One turn of the loop of `_flush_pending_reasoning_batches`
def popReasoning (runKey : String) : Outflow := fun s =>
  let popped := { s with
    pendingReasoningByRun   := s.pendingReasoningByRun.filter (·.1 ≠ runKey)
    reasoningFlushDeadlines := s.reasoningFlushDeadlines.filter (· ≠ runKey) }
  match s.pendingReasoningByRun.lookup runKey with
  | none       => (popped, [])
  | some batch => (popped, emitReasoningDelta batch.display runKey batch.deltaParts.flatten)

def flushPendingReasoningBatches (runIds : List String) : Outflow := fun s =>
  all popReasoning (if runIds = [] then s.pendingReasoningByRun.map Prod.fst else runIds) s

def queueReasoningDelta (display : Bool) (modelRunId : String) (delta : Chars) : Outflow := fun s =>
  let runKey := normalizedModelRunId modelRunId
  if delta = [] then (s, [])
  else if runKey ∉ s.reasoningImmediateRunIds then
    ({ s with reasoningImmediateRunIds := s.reasoningImmediateRunIds ++ [runKey] },
      emitReasoningDelta display modelRunId delta)
  else
    let waiting := ((s.pendingReasoningByRun.lookup runKey).map (·.deltaParts)).getD []
    let batch : PendingReasoningBatch := ⟨waiting ++ [delta], display⟩
    let queued := { s with pendingReasoningByRun := Lookup.assign s.pendingReasoningByRun runKey batch }
    if reasoningFlushMaxChars ≤ batch.charCount then flushPendingReasoningBatches [runKey] queued
    else if runKey ∈ queued.reasoningFlushDeadlines then (queued, [])
    else ({ queued with reasoningFlushDeadlines := queued.reasoningFlushDeadlines ++ [runKey] }, [])

end Reasoning

section Texts

def emitStableTextChunk (display : Bool) (modelRunId : String) (content : Chars) (isPartial replaceStream : Bool) :
    List Chunk :=
  if content = [] then []
  else [.text display (normalizedModelRunId modelRunId) content isPartial (replaceStream && display)]

-- Also `_schedule_text_flush_deadline`, which clears the deadline if nothing is buffered.
def scheduleTextFlushDeadline (s : ChatStreamState) : ChatStreamState :=
  { s with textFlushDeadline := s.textAggregator.buffer ≠ [] }

def emitTextDelta (display : Bool) (modelRunId : String) (delta : Chars) (replaceStream : Bool) : Outflow := fun s =>
  if delta = [] then (s, [])
  else if replaceStream && display then
    ({ s with textFlushDeadline := false }, emitStableTextChunk display modelRunId delta false true)
  else if !display then (s, emitStableTextChunk display modelRunId delta false false)
  else if s.preserveStreamTimeline then
    ({ s with textFlushDeadline := false }, emitStableTextChunk display modelRunId delta false false)
  else
    let pushed := s.textAggregator.push delta
    let emitted := pushed.1.flatMap fun chunk => emitStableTextChunk display modelRunId chunk false false
    let s := { s with textAggregator := pushed.2 }
    if !emitted.isEmpty || s.textAggregator.buffer = [] then ({ s with textFlushDeadline := false }, emitted)
    else (scheduleTextFlushDeadline s, emitted)

-- `readyOnly` is `from_timer or ready_only`.
def flushPendingTextAggregator (display readyOnly final : Bool) : Outflow := fun s =>
  let flushReady := s.textAggregator.shouldFlushNow
  if readyOnly && !flushReady then (scheduleTextFlushDeadline { s with textFlushDeadline := false }, [])
  else
    let flushed := s.textAggregator.flush
    ({ s with textFlushDeadline := false, textAggregator := flushed.2 },
      emitStableTextChunk display s.lastText.2 flushed.1 (final && !flushReady) false)

def currentCanonicalText (s : ChatStreamState) : Chars :=
  if s.outputTextRunOrder ≠ [] then s.outputTextRunOrder.flatMap s.outputTextByRun else s.outputBuffer.flatten

-- The text of a run is replaced or gets longer.
def appendMessageOutputText (modelRunId : String) (change : Chars → Chars) (s : ChatStreamState) : ChatStreamState :=
  let runKey := normalizedModelRunId modelRunId
  let order := if runKey ∈ s.outputTextRunOrder then s.outputTextRunOrder else s.outputTextRunOrder ++ [runKey]
  let byRun := Function.update s.outputTextByRun runKey (change (s.outputTextByRun runKey))
  { s with outputTextRunOrder := order, outputTextByRun := byRun, outputBuffer := order.map byRun }

end Texts

section Events

def filtered (display : Bool) (delta : Chars) (s : ChatStreamState) : Chars × ChatStreamState :=
  if display then ((s.textFilter.process delta).1, { s with textFilter := (s.textFilter.process delta).2 })
  else (delta, s)

-- A delta of a text that has come through
def sendText (terminal display : Bool) (event : CanonicalModelEvent) (delta : Chars) : Outflow := fun s =>
  let correction := terminal && (event.diagnostics.get "terminalTextCorrection").truthy
  let s :=
    if !display then s
    else if correction then
      appendMessageOutputText event.modelRunId (fun _ => event.snapshot)
        { s with textAggregator := s.textAggregator.flush.2 }
    else appendMessageOutputText event.modelRunId (· ++ delta) s
  let s := { s with narrativeStarted := s.narrativeStarted ++ [normalizedModelRunId event.modelRunId] }
  emitTextDelta display event.modelRunId delta correction s

def onTextDelta (terminal display : Bool) (event : CanonicalModelEvent) : Outflow :=
  andThen (flushPendingReasoningBatches [normalizedModelRunId event.modelRunId]) fun s =>
    let (delta, s) := filtered display event.delta s
    let additive := terminal || (event.diagnostics.get "textStreamMode").eq (.str "delta")
    let (delta, last) := suppressNeighborDuplicateDelta s.lastText delta event.modelRunId additive
    let s := { s with lastText := last }
    if delta = [] then (s, []) else sendText terminal display event delta s

def onReasoningDelta (display : Bool) (event : CanonicalModelEvent) : Outflow :=
  andThen (flushPendingTextAggregator display true false) fun s =>
    let (delta, last) := suppressNeighborDuplicateDelta s.lastReasoning event.delta event.modelRunId false
    let s := { s with lastReasoning := last }
    if delta = [] then (s, [])
    else
      let s := if display then { s with reasoningBuffer := s.reasoningBuffer ++ [delta] } else s
      queueReasoningDelta display event.modelRunId delta s

def onModelEvent (terminal display : Bool) (event : CanonicalModelEvent) : Outflow :=
  match event.eventType with
  | .textDelta           => onTextDelta terminal display event
  | .reasoningDelta      => onReasoningDelta display event
  | .reasoningSuppressed => skip

end Events

section Signals

variable {P : Type*} (text : Text) (payloads : Payloads P)

-- What `run` waits for: the events of the graph that get here, and the deadlines. `display` is `displayInMessage` of
-- the owner at that time.
inductive Signal (P : Type*)
  | onChatModelStream (display : Bool) (event : Dict) (payload : P) (surface : Json)
  | onChatModelEnd (display : Bool) (event : Dict) (payload : P) (surface : Json)
  | onToolStart (display : Bool)
  | textFlush (display : Bool)
  | reasoningFlush
  | guidance (display : Bool)

-- The call of the adapter that a signal makes
def Signal.call (s : ChatStreamState) : Signal P → Option (Call P)
  | onChatModelStream _ event payload surface => some (.stream event payload surface)
  | onChatModelEnd _ event payload surface    =>
    let suppressReasoning :=
      s.narrativeStarted.contains (normalizedModelRunId (text.stripped (event.get "run_id")))
    some (.finish event payload surface suppressReasoning (currentCanonicalText s))
  | _                                         => none

-- The canonical events of a signal
def Signal.events (signal : Signal P) (s : ChatStreamState) : List CanonicalModelEvent :=
  match signal.call text s with
  | none      => []
  | some call => (ModelEvents.normalize text payloads call s.stores).2

def normalized (signal : Signal P) (s : ChatStreamState) : ChatStreamState :=
  match signal.call text s with
  | none      => s
  | some call => { s with stores := (ModelEvents.normalize text payloads call s.stores).1 }

-- A model boundary completes even a short, unpunctuated tail.
def flushEndedText (display : Bool) (modelEndRunIds : List String) : Outflow := fun s =>
  if s.lastText.2 ∈ modelEndRunIds ∧ display then flushPendingTextAggregator display false false s else (s, [])

def endModel (display : Bool) (modelRunId : String) (events : List CanonicalModelEvent) : Outflow :=
  let modelEndRunIds := modelRunId :: events.map (·.modelRunId)
  andThen (all (onModelEvent true display) events)
    (andThen (flushPendingReasoningBatches (modelEndRunIds.map normalizedModelRunId))
      (flushEndedText display modelEndRunIds))

def handleStreamEvent (signal : Signal P) : Outflow :=
  match signal with
  | .onChatModelStream display .. => fun s =>
    all (onModelEvent false display) (signal.events text payloads s) (normalized text payloads signal s)
  | .onChatModelEnd display event .. =>
    let modelRunId := text.stripped (event.get "run_id")
    andThen (flushPendingReasoningBatches [normalizedModelRunId modelRunId]) fun s =>
      endModel display modelRunId (signal.events text payloads s) (normalized text payloads signal s)
  | .onToolStart display =>
    andThen (flushPendingReasoningBatches []) (flushPendingTextAggregator display true false)
  | .textFlush display => flushPendingTextAggregator display true false
  | .reasoningFlush    => flushPendingReasoningBatches []
  | .guidance display  =>
    andThen (flushPendingReasoningBatches []) (flushPendingTextAggregator display false true)

-- The chat so far, and what it has emitted.
def stream (preserveStreamTimeline : Bool) (signals : List (Signal P)) : ChatStreamState × List Chunk :=
  all (handleStreamEvent text payloads) signals (.start preserveStreamTimeline)

def finalFilteredText (display : Bool) (filter : StreamFilter) : Chars × StreamFilter :=
  if display then filter.flush else ([], filter)

def flushStreamText (display : Bool) : Outflow := fun s =>
  let final := finalFilteredText display s.textFilter
  let s := { s with textFlushDeadline := false, textFilter := final.2 }
  if final.1 = [] then flushPendingTextAggregator display false true s
  else
    andThen (emitTextDelta display s.lastText.2 final.1 false) (flushPendingTextAggregator display false true)
      { s with outputBuffer := s.outputBuffer ++ [final.1] }

def flushStreamState (display : Bool) : Outflow :=
  andThen (flushPendingReasoningBatches []) (flushStreamText display)

end Signals
end ChatStream
