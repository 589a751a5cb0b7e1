import V8AgentOs.CompatWire.ThinkFilter
import V8AgentOs.Lib.Emission
import V8AgentOs.Python.Dict

-- runtimes/network_supervisor/compat_wire_emitter.py: the streams that the compat routes send. The frames are kept as
-- they are before they become JSON and bytes.
namespace CompatWire

open Python (Dict)

structure Frame (δ : Type) where
  eventId : String
  data    : δ

-- The calls of a route on an emitter, with the tool calls of its wire format
inductive Call (τ : Type)
  | text (content : List Char)
  | reasoning (content : List Char)
  | tool (call : τ)
  | notice (notice : List Char)

namespace OpenAI

structure ToolCall where
  index     : ℤ
  wireId    : String
  wireName  : String
  arguments : String

inductive Delta
  | role
  | content (text : List Char)
  | reasoningContent (text : List Char)
  | toolCalls (call : ToolCall)
  | empty

structure Chunk where
  id           : String
  created      : ℤ
  model        : String
  delta        : Delta
  finishReason : Option String

inductive Payload
  | chunk (chunk : Chunk)
  | done

-- `OpenAIStreamTimelineEmitter`
structure Emitter where
  responseId   : String
  modelName    : String
  created      : ℤ
  roleEmitted  : Bool := false
  eventCounter : ℕ := 0
  thinkFilter  : InlineThinkStreamFilter := {}

abbrev Emits := Emission Emitter (Frame Payload)

-- `openai_sse_frame` with `_next_event_id`
def frame (data : Payload) : Emits := fun e =>
  ({ e with eventCounter := e.eventCounter + 1 },
    [⟨e.responseId ++ ":" ++ toString (e.eventCounter + 1), data⟩])

-- `_chunk`
def chunk (delta : Delta) (finishReason : Option String) : Emits := fun e =>
  frame (.chunk ⟨e.responseId, e.created, e.modelName, delta, finishReason⟩) e

def ensureRole : Emits := fun e =>
  if e.roleEmitted then (e, []) else chunk .role none { e with roleEmitted := true }

def reasoningDelta (content : List Char) : Emits :=
  if content.isEmpty then .skip else ensureRole.andThen (chunk (.reasoningContent content) none)

def contentDelta (content : List Char) : Emits :=
  if content.isEmpty then .skip else ensureRole.andThen (chunk (.content content) none)

-- What the filter has said
def say (fed : Fed) : Emits := fun e =>
  ((reasoningDelta fed.reasoning).andThen (contentDelta fed.visible)) { e with thinkFilter := fed.filter }

def textDelta (content : List Char) : Emits := fun e =>
  if content.isEmpty then (e, []) else say (e.thinkFilter.feed content) e

def toolCallDelta (call : ToolCall) : Emits :=
  if call.wireId = "" ∨ call.wireName = "" then .skip else ensureRole.andThen (chunk (.toolCalls call) none)

def approvalNotice (notice : List Char) : Emits :=
  textDelta notice

def flush : Emits := fun e =>
  say e.thinkFilter.flush e

def finish (finishReason : String) : Emits :=
  flush.andThen (ensureRole.andThen ((chunk .empty (some finishReason)).andThen (frame .done)))

def call : Call ToolCall → Emits
  | .text content      => textDelta content
  | .reasoning content => reasoningDelta content
  | .tool call         => toolCallDelta call
  | .notice notice     => approvalNotice notice

-- The stream of some calls
def stream (e : Emitter) (calls : List (Call ToolCall)) (finishReason : String) : List (Frame Payload) :=
  ((Emission.all call calls).andThen (finish finishReason) e).2

end OpenAI

namespace Anthropic

structure ToolUse where
  wireId       : String
  wireName     : String
  inputPayload : Dict

inductive BlockType
  | text
  | thinking
  deriving DecidableEq

inductive ContentBlock
  | opened (type : BlockType)
  | toolUse (id name : String)

inductive Delta
  | textDelta (text : List Char)
  | thinkingDelta (thinking : List Char)
  | inputJsonDelta (payload : Dict)

inductive Event
  | messageStart (id model : String)
  | contentBlockStart (index : ℕ) (block : ContentBlock)
  | contentBlockDelta (index : ℕ) (delta : Delta)
  | contentBlockStop (index : ℕ)
  | messageDelta (stopReason : String)
  | messageStop

-- `AnthropicStreamTimelineEmitter`
structure Emitter where
  responseId         : String
  modelName          : String
  emitInlineThinking : Bool
  nextBlockIndex     : ℕ := 0
  activeBlockIndex   : Option ℕ := none
  activeBlockType    : Option BlockType := none
  eventCounter       : ℕ := 0
  thinkFilter        : InlineThinkStreamFilter := {}

abbrev Emits := Emission Emitter (Frame Event)

-- `_frame`
def frame (event : Event) : Emits := fun e =>
  ({ e with eventCounter := e.eventCounter + 1 },
    [⟨e.responseId ++ ":" ++ toString (e.eventCounter + 1), event⟩])

def messageStart : Emits := fun e =>
  frame (.messageStart e.responseId e.modelName) e

def closeActiveBlock : Emits := fun e =>
  match e.activeBlockIndex with
  | none       => (e, [])
  | some index => frame (.contentBlockStop index) { e with activeBlockIndex := none, activeBlockType := none }

-- A new block, after the one that is open
def openBlock (type : BlockType) : Emits :=
  closeActiveBlock.andThen fun e => frame (.contentBlockStart e.nextBlockIndex (.opened type)) { e with
    nextBlockIndex   := e.nextBlockIndex + 1
    activeBlockIndex := some e.nextBlockIndex
    activeBlockType  := some type }

-- `_ensure_block`
def ensureBlock (type : BlockType) : Emits := fun e =>
  if e.activeBlockIndex.isSome && e.activeBlockType = some type then (e, []) else openBlock type e

-- A delta for the block that `_ensure_block` has returned
def blockDelta (delta : Delta) : Emits := fun e =>
  frame (.contentBlockDelta (e.activeBlockIndex.getD 0) delta) e

def thinkingDelta (content : List Char) : Emits :=
  if content.isEmpty then .skip else (ensureBlock .thinking).andThen (blockDelta (.thinkingDelta content))

def visibleDelta (content : List Char) : Emits :=
  if content.isEmpty then .skip else (ensureBlock .text).andThen (blockDelta (.textDelta content))

-- The reasoning that the filter has found
def inlineThinking (reasoning : List Char) : Emits := fun e =>
  if e.emitInlineThinking then thinkingDelta reasoning e else (e, [])

def textDelta (content : List Char) : Emits := fun e =>
  if content.isEmpty then (e, [])
  else
    let fed := e.thinkFilter.feed content
    ((inlineThinking fed.reasoning).andThen (visibleDelta fed.visible)) { e with thinkFilter := fed.filter }

-- The three frames of a tool call
def toolBlock (use : ToolUse) : Emits := fun e =>
  ((frame (.contentBlockStart e.nextBlockIndex (.toolUse use.wireId use.wireName))).andThen
    ((frame (.contentBlockDelta e.nextBlockIndex (.inputJsonDelta use.inputPayload))).andThen
      (frame (.contentBlockStop e.nextBlockIndex)))) { e with nextBlockIndex := e.nextBlockIndex + 1 }

def toolUse (use : ToolUse) : Emits :=
  if use.wireId = "" ∨ use.wireName = "" then .skip else closeActiveBlock.andThen (toolBlock use)

def approvalNotice (notice : List Char) : Emits :=
  textDelta notice

-- What is held back at the end: the visible part goes through the filter once more.
def flush : Emits := fun e =>
  let fed := e.thinkFilter.flush
  ((inlineThinking fed.reasoning).andThen (textDelta fed.visible)) { e with thinkFilter := fed.filter }

def finish (stopReason : String) : Emits :=
  flush.andThen (closeActiveBlock.andThen ((frame (.messageDelta stopReason)).andThen (frame .messageStop)))

def call : Call ToolUse → Emits
  | .text content      => textDelta content
  | .reasoning content => thinkingDelta content
  | .tool use          => toolUse use
  | .notice notice     => approvalNotice notice

-- The stream of some calls
def stream (e : Emitter) (calls : List (Call ToolUse)) (stopReason : String) : List (Frame Event) :=
  (messageStart.andThen ((Emission.all call calls).andThen (finish stopReason)) e).2

end Anthropic
end CompatWire

-- What the calls on an emitter say.
namespace CompatWire

open InlineThinkStreamFilter

variable {τ δ : Type} {inline : Bool} {f : InlineThinkStreamFilter} {a b c : Fed}

namespace Fed

-- Nothing is said.
def silent (f : InlineThinkStreamFilter) : Fed :=
  ⟨[], [], f⟩

-- The one after the other
def append (a b : Fed) : Fed :=
  ⟨a.visible ++ b.visible, a.reasoning ++ b.reasoning, b.filter⟩

-- What is told of it, with or without the reasoning that was found in the text
def told (inline : Bool) (fed : Fed) : Fed :=
  { fed with reasoning := if inline then fed.reasoning else [] }

@[simp]
theorem append_assoc : (a.append b).append c = a.append (b.append c) := by
  simp [append]

@[simp]
theorem silent_filter : (silent f).filter = f := rfl

@[simp]
theorem silent_append : (silent f).append a = a := rfl

@[simp]
theorem told_true : told true a = a := rfl

theorem append_silent (h : a.filter = f) : a.append (silent f) = a := by
  simp [append, silent, ← h]

end Fed

-- The texts that go through the filter
def texts : List (Call τ) → List (List Char)
  | []                   => []
  | .text content :: cs  => content :: texts cs
  | .notice notice :: cs => notice :: texts cs
  | .reasoning _ :: cs   => texts cs
  | .tool _ :: cs        => texts cs

-- What the filter returns for some texts
def feedAll (f : InlineThinkStreamFilter) : List (List Char) → Fed
  | []         => .silent f
  | text :: ts => (f.feed text).append (feedAll (f.feed text).filter ts)

-- What it returns for them in total, the flush included
def total (ts : List (List Char)) : Fed :=
  (feedAll {} ts).append (feedAll {} ts).filter.flush

-- What one call says
def hear (inline : Bool) (f : InlineThinkStreamFilter) : Call τ → Fed
  | .text content      => (f.feed content).told inline
  | .notice notice     => (f.feed notice).told inline
  | .reasoning content => ⟨[], content, f⟩
  | .tool _            => .silent f

def hearAll (inline : Bool) (f : InlineThinkStreamFilter) : List (Call τ) → Fed
  | []      => .silent f
  | c :: cs => (hear inline f c).append (hearAll inline (hear inline f c).filter cs)

-- The reasoning of the calls in their order: what is passed as such and, when it is emitted, what the filter finds
def thoughts (inline : Bool) (calls : List (Call τ)) : List Char :=
  ((hearAll inline {} calls).append ((hearAll inline {} calls).filter.flush.told inline)).reasoning

-- After the last call, the filter holds the start of a tag back that would open a think block.
def HeldBack (calls : List (Call τ)) : Prop :=
  (feedAll {} (texts calls)).filter.insideThink = false ∧ (feedAll {} (texts calls)).filter.pending ≠ []

instance {calls : List (Call τ)} : Decidable (HeldBack calls) :=
  inferInstanceAs (Decidable (_ ∧ _))

theorem held_init : ({} : InlineThinkStreamFilter).Held :=
  held_of_nil rfl

theorem held_hear {c : Call τ} (h : f.Held) : (hear inline f c).filter.Held := by
  cases c
  case text      => exact held_feed
  case notice    => exact held_feed
  case reasoning => exact h
  case tool      => exact h

theorem held_feedAll {ts : List (List Char)} (h : f.Held) : (feedAll f ts).filter.Held := by
  induction ts generalizing f
  case nil => exact h
  case cons text ts hi => exact hi held_feed

-- The calls leave the filter as their texts do, and say as much text.
theorem hearAll_texts {calls : List (Call τ)} :
    (hearAll inline f calls).visible = (feedAll f (texts calls)).visible ∧
      (hearAll inline f calls).filter = (feedAll f (texts calls)).filter := by
  induction calls generalizing f
  case nil => exact ⟨rfl, rfl⟩
  case cons c cs hi =>
    cases c
    case text content  => simp [hearAll, hear, texts, feedAll, Fed.append, Fed.told, hi]
    case notice notice => simp [hearAll, hear, texts, feedAll, Fed.append, Fed.told, hi]
    case reasoning     => simp [hearAll, hear, texts, Fed.append, hi]
    case tool          => simp [hearAll, hear, texts, hi]

theorem hearAll_reasoning {calls : List (Call τ)} (h : ∀ content, .reasoning content ∉ calls) :
    (hearAll true f calls).reasoning = (feedAll f (texts calls)).reasoning := by
  induction calls generalizing f
  case nil => rfl
  case cons c cs hi =>
    have hrest := fun content hc => h content (List.mem_cons_of_mem c hc)
    cases c
    case text content      => simp [hearAll, hear, texts, feedAll, Fed.append, Fed.told, hi hrest]
    case notice notice     => simp [hearAll, hear, texts, feedAll, Fed.append, Fed.told, hi hrest]
    case tool              => simp [hearAll, hear, texts, hi hrest]
    case reasoning content => exact absurd List.mem_cons_self (h content)

-- Without calls that pass reasoning, the reasoning is that of the filter.
theorem thoughts_eq {calls : List (Call τ)} (h : ∀ content, .reasoning content ∉ calls) :
    thoughts true calls = (total (texts calls)).reasoning := by
  simp only [thoughts, total, Fed.append, Fed.told_true, hearAll_reasoning h, hearAll_texts.right]

-- The events are numbered from one.
def Numbered (responseId : String) (frames : List (Frame δ)) : Prop :=
  frames.map (·.eventId) = (List.range frames.length).map fun n => responseId ++ ":" ++ toString (n + 1)

theorem numbered_nil {responseId : String} : Numbered responseId ([] : List (Frame δ)) := rfl

theorem Numbered.concat {responseId : String} {frames : List (Frame δ)} (h : Numbered responseId frames) (data : δ) :
    Numbered responseId (frames ++ [⟨responseId ++ ":" ++ toString (frames.length + 1), data⟩]) := by
  unfold Numbered at h ⊢
  rw [List.map_append, h, List.length_append, List.length_singleton, List.range_succ, List.map_append]
  rfl

end CompatWire
