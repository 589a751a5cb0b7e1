import Mathlib.Logic.Function.Basic
import V8AgentOs.Script.Text
import V8AgentOs.SessionRealtime.Timeline

-- message-lifecycle.ts: what a delta adds to a text that is being streamed
namespace SessionRealtime

open Script

variable (current incoming : Text)

-- The loop of `longestOverlapSuffixPrefix`, from `size` down
def overlapUpTo : ℕ → ℕ
  | 0        => 0
  | size + 1 =>
    if current.drop (current.length - (size + 1)) = incoming.take (size + 1) then size + 1 else overlapUpTo size

def longestOverlapSuffixPrefix : ℕ :=
  overlapUpTo current incoming (min current.length incoming.length)

def computeStreamingSuffix : Text :=
  if incoming = [] then []
  else if current = [] then incoming
  else if incoming = current then []
  else if current <+: incoming then incoming.drop current.length
  else if incoming <+: current then []
  else match indexOf current incoming with
    | some nestedIndex => incoming.drop (nestedIndex + current.length)
    | none             => incoming.drop (longestOverlapSuffixPrefix current incoming)

-- The chunk looks like a repetition: it is the beginning of the text, contains the text or begins with an end of it.
def Repeats : Prop :=
  current ≠ [] ∧ incoming ≠ [] ∧ (incoming <+: current ∨ current <:+: incoming ∨
    ∃ overlap, overlap ≠ [] ∧ overlap <:+ current ∧ overlap <+: incoming)

variable {current incoming}

theorem overlapUpTo_eq_zero_iff {n : ℕ} : overlapUpTo current incoming n = 0 ↔
    ∀ size, 0 < size → size ≤ n → current.drop (current.length - size) ≠ incoming.take size := by
  induction n
  case zero =>
    simp only [overlapUpTo, true_iff]
    intro size _ _
    omega
  case succ n hi =>
    simp only [overlapUpTo]
    split_ifs with h
    case pos =>
      constructor
      case mp =>
        intro hz
        cases hz
      case mpr =>
        intro hall
        exact absurd h (hall (n + 1) (by omega) (le_refl _))
    case neg =>
      rw [hi]
      constructor
      case mp =>
        intro hall size hpos hle
        cases Nat.of_le_succ hle
        case inl hle => exact hall size hpos hle
        case inr heq => exact heq ▸ h
      case mpr =>
        intro hall size hpos hle
        exact hall size hpos (by omega)

-- The loop finds nothing if and only if no end of the text is a beginning of the chunk.
theorem longestOverlapSuffixPrefix_eq_zero_iff : longestOverlapSuffixPrefix current incoming = 0 ↔
    ¬∃ overlap, overlap ≠ [] ∧ overlap <:+ current ∧ overlap <+: incoming := by
  rw [longestOverlapSuffixPrefix, overlapUpTo_eq_zero_iff]
  constructor
  case mp =>
    intro hall ⟨overlap, hne, hs, hp⟩
    have hpos : 0 < overlap.length := List.length_pos_iff.mpr hne
    apply hall overlap.length hpos (le_min hs.length_le hp.length_le)
    rw [← List.suffix_iff_eq_drop.mp hs, ← List.prefix_iff_eq_take.mp hp]
  case mpr =>
    intro hno size hpos hle heq
    have hlen : (incoming.take size).length = size := by
      rw [List.length_take]
      omega
    refine hno ⟨incoming.take size, ?nonempty, ?ending, List.take_prefix _ _⟩
    case nonempty =>
      intro hnil
      rw [hnil] at hlen
      simp at hlen
      omega
    case ending => exact heq ▸ List.drop_suffix _ _

-- What is kept of a chunk is an end of it.
theorem computeStreamingSuffix_suffix (current incoming : Text) :
    computeStreamingSuffix current incoming <:+ incoming := by
  unfold computeStreamingSuffix
  split_ifs
  case pos => exact List.nil_suffix
  case pos => exact List.suffix_refl _
  case pos => exact List.nil_suffix
  case pos => exact List.drop_suffix _ _
  case pos => exact List.nil_suffix
  case neg => split <;> exact List.drop_suffix _ _

theorem drop_ne_self {α : Type} {l : List α} {n : ℕ} (hl : l ≠ []) (hn : 0 < n) : l.drop n ≠ l := by
  intro h
  have hlen := congrArg List.length h
  have hpos := List.length_pos_iff.mpr hl
  rw [List.length_drop] at hlen
  omega

-- A chunk is kept whole if and only if it does not look like a repetition.
theorem computeStreamingSuffix_eq_self_iff :
    computeStreamingSuffix current incoming = incoming ↔ ¬Repeats current incoming := by
  unfold computeStreamingSuffix Repeats
  split_ifs with hi hc heq hpre hbegin
  case pos => simp [hi]
  case pos => simp [hc]
  all_goals have hpos : 0 < current.length := List.length_pos_iff.mpr hc
  case pos => simp [heq, hc]
  case pos => simp [hi, hc, hpre.isInfix, drop_ne_self hi hpos]
  case pos => simp [hi, hc, hbegin, Ne.symm hi]
  case neg =>
    split
    case h_1 i hindex =>
      have hinside : current <:+: incoming := by
        by_contra hno
        rw [indexOf_eq_none_iff.mpr hno] at hindex
        cases hindex
      simp [hi, hc, hinside, drop_ne_self hi (show 0 < i + current.length by omega)]
    case h_2 hindex =>
      have hno := indexOf_eq_none_iff.mp hindex
      have hzero : incoming.drop (longestOverlapSuffixPrefix current incoming) = incoming ↔
          longestOverlapSuffixPrefix current incoming = 0 := by
        constructor
        case mp =>
          intro hd
          by_contra hz
          exact drop_ne_self hi (Nat.pos_of_ne_zero hz) hd
        case mpr =>
          intro hz
          rw [hz, List.drop_zero]
      rw [hzero, longestOverlapSuffixPrefix_eq_zero_iff]
      simp only [hi, hc, hbegin, hno, ne_eq, not_false_eq_true, true_and, false_or]

-- The text that the deltas of a stream leave, from the text `current` on
def streamed (current : Text) (chunks : List Text) : Text :=
  chunks.foldl (fun text chunk => text ++ computeStreamingSuffix text chunk) current

-- No chunk looks like a repetition of the text before it.
def NoRepeats : Text → List Text → Prop
  | _, []                 => True
  | current, chunk :: chunks => ¬Repeats current chunk ∧ NoRepeats (current ++ chunk) chunks

theorem length_streamed_le (current : Text) (chunks : List Text) :
    (streamed current chunks).length ≤ current.length + chunks.flatten.length := by
  induction chunks generalizing current
  case nil => simp [streamed]
  case cons chunk chunks hi =>
    have hs := (computeStreamingSuffix_suffix current chunk).length_le
    have hrest := hi (current ++ computeStreamingSuffix current chunk)
    simp only [streamed, List.foldl_cons, List.flatten_cons, List.length_append] at hrest ⊢
    omega

theorem streamed_eq_iff (chunks : List Text) :
    streamed current chunks = current ++ chunks.flatten ↔ NoRepeats current chunks := by
  induction chunks generalizing current
  case nil => simp [streamed, NoRepeats]
  case cons chunk chunks hi =>
    have hstep : streamed current (chunk :: chunks) =
        streamed (current ++ computeStreamingSuffix current chunk) chunks := rfl
    rw [NoRepeats, ← hi, ← computeStreamingSuffix_eq_self_iff, hstep]
    constructor
    case mpr =>
      rintro ⟨hself, hrest⟩
      rw [hself, hrest]
      simp
    case mp =>
      intro h
      have hself : computeStreamingSuffix current chunk = chunk := by
        apply (computeStreamingSuffix_suffix current chunk).eq_of_length
        have hle := length_streamed_le (current ++ computeStreamingSuffix current chunk) chunks
        have hs := (computeStreamingSuffix_suffix current chunk).length_le
        rw [h] at hle
        simp only [List.flatten_cons, List.length_append] at hle
        omega
      rw [hself] at h
      exact ⟨hself, by simpa using h⟩

end SessionRealtime

-- session-realtime/src/message-lifecycle.ts: `applyRealtimeEventToMessages`
namespace SessionRealtime

open Script

inductive EventType
  | agent_start
  | text_chunk
  | reasoning_chunk
  | tool_start
  | tool_result
  | custom_event
  | done
  | error
  | other
  deriving DecidableEq

inductive EventName
  | message_user_recorded
  | artifact_recorded
  | runtime_progress
  | runtime_event
  | ask_user
  | approval_requested
  | approval_resolved
  | run_controlled
  | safety_blocked
  | context_governance_changed
  | lane_updated
  | human_guidance
  | session_coordination
  | other
  deriving DecidableEq

-- The fields under which a tool's result arrives
structure ToolResult where
  agentVisibleResult    : Option Value := none
  agent_visible_result  : Option Value := none
  agentVisibleOutput    : Option Value := none
  agent_visible_output  : Option Value := none

-- `eventData.tool`
structure NestedTool extends ToolResult where
  toolInvocationId   : Text := []
  tool_invocation_id : Text := []
  toolCallId         : Text := []
  tool_call_id       : Text := []

structure Attachment where
  id        : Text
  sourceId  : Text
  source_id : Text

-- `event.data`. A field of another type than the one that is asked for is missing.
structure StreamData extends ToolResult where
  ownerRuntimeId          : Option Text := none
  owner_runtime_id        : Option Text := none
  ownerAgentKind          : Option Text := none
  owner_agent_kind        : Option Text := none
  ownerAgentId            : Option Text := none
  owner_agent_id          : Option Text := none
  ownerStreamKey          : Option Text := none
  owner_stream_key        : Option Text := none
  displayInMessage        : Option Bool := none
  display_in_message      : Option Bool := none
  surfaceTargets          : List Text := []
  snapshot                : Option Text := none
  finalized               : Bool := false
  isFinal                 : Bool := false
  partialText             : Bool := false
  replaceStreamRunKey     : Text := []
  content                 : Text := []
  message                 : Option Text := none
  label                   : Option Text := none
  summary                 : Option Text := none
  topic                   : Option Text := none
  node_id                 : Text := []
  toolInvocationId        : Text := []
  tool_call_id            : Text := []
  toolCallId              : Text := []
  toolName                : Text := []
  result                  : Option Value := none
  tool                    : NestedTool := {}
  clientMessageId         : Text := []
  client_message_id       : Text := []
  message_id              : Text := []
  messageId               : Text := []
  metadataClientMessageId : Option Text := none
  attachments             : List Attachment := []

-- `event.tool`
structure ToolPayload where
  toolInvocationId   : Text := []
  toolCallId         : Text := []
  toolName           : Text := []
  agentVisibleResult : Option Value := none
  result             : Option Value := none

-- `identity` is what `buildSessionRuntimeEventIdentity` makes of the event.
structure UiEvent where
  type       : EventType
  name       : EventName := .other
  content    : Text := []
  run_id     : Text := []
  message_id : Text := []
  node_id    : Text := []
  event_id   : Text := []
  identity   : Text := []
  runtimeId  : Option Text := none
  topic      : Text := []
  targets    : List Text := []
  tool       : ToolPayload := {}
  artifact   : Option Artifact := none
  data       : StreamData := {}

-- The argument of `createId`
inductive IdPrefix
  | assistant
  | node
  deriving DecidableEq

-- The options, with `createId` as the ids of the calls in their order, and the three tests of event-normalizer.ts
structure LifecycleOptions where
  createId                                 : IdPrefix → ℕ → Text
  defaultAgentProfile                      : AgentProfile
  resolveAgentProfile                      : UiEvent → AgentProfile → AgentProfile
  resolveArtifact                          : UiEvent → Option Artifact
  shouldForwardRuntimeEventToRealtimeSurface : UiEvent → Bool
  isTodoToolRuntimePayload                 : UiEvent → Bool
  isTodoToolRuntimeData                    : UiEvent → Bool

namespace UiEvent

variable (event : UiEvent)

def targetsMessage : Bool :=
  text "message" ∈ event.targets

-- `eventTargetsMessage`
def eventTargetsMessage : Bool :=
  event.targetsMessage || text "message" ∈ event.data.surfaceTargets

-- `eventDisplayInMessage`
def eventDisplayInMessage : Bool :=
  if event.data.displayInMessage = some false ∨ event.data.display_in_message = some false then false
  else if event.data.displayInMessage = some true ∨ event.data.display_in_message = some true then true
  else event.eventTargetsMessage

def ownerFieldsFromEvent : OwnerFields where
  ownerRuntimeId   := (event.data.ownerRuntimeId <|> event.data.owner_runtime_id) <|> event.runtimeId
  ownerAgentKind   := event.data.ownerAgentKind <|> event.data.owner_agent_kind
  ownerAgentId     := event.data.ownerAgentId <|> event.data.owner_agent_id
  ownerStreamKey   := event.data.ownerStreamKey <|> event.data.owner_stream_key
  displayInMessage := event.eventDisplayInMessage

-- `timelineFields.runId`
def timelineRunId : Text :=
  trim event.run_id

def finalized : Bool :=
  event.data.finalized || event.data.isFinal

-- `event.content`, `eventData.content` or `eventData.message`, whichever is the first that is not blank
def narrativeContent : Text :=
  firstNonEmptyString [event.content, event.data.content, event.data.message.getD []]

-- The same for the events of an approval, which do not ask for `eventData.content` and want the message as target
def approvalContentInMessage : Text :=
  if event.targetsMessage then firstNonEmptyString [event.content, event.data.message.getD []] else []

-- The name of the tool, as `tool_start` and `tool_result` resolve it
def toolName : Text :=
  firstTruthy [event.tool.toolName, event.data.toolName]

def resolveSurfaceToolCallId (fallbackId : Text) : Text :=
  firstNonEmptyString [event.tool.toolInvocationId, event.tool.toolCallId, event.data.toolInvocationId,
    event.data.tool_call_id, event.data.toolCallId, event.data.tool.toolInvocationId,
    event.data.tool.tool_invocation_id, event.data.tool.toolCallId, event.data.tool.tool_call_id, fallbackId]

end UiEvent

-- `isCommandToolName`
def isCommandToolName (toolName : Text) : Bool :=
  toolName ∈ [text "run_system_command", text "execute_system_command", text "command_session_broker",
    text "read_background_output", text "send_background_input"]

def looksLikeCommandControlJson : Option Value → Bool
  | some (.object keys)  =>
    2 ≤ ([text "ok", text "kind", text "summary", text "recommendedNextAction", text "state",
      text "awaitingInput"].filter (· ∈ keys)).length
  | some (.string value) =>
    let trimmed := trim value
    let includes (part : String) : Bool := text part <:+: trimmed
    text "\x7b" <+: trimmed && includes "\"" &&
    (includes "\"summary\"" || includes "\"recommendedNextAction\"" || includes "\"state\"") &&
    (includes "\"kind\"" || includes "\"ok\"" || includes "\"mode\"")
  | _                    => false

def looksLikeTerminalResult : Option Value → Bool
  | some (.string value) =>
    let trimmed := value.dropWhile isSpace
    let includes (part : String) : Bool := text part <:+: trimmed
    text "$ " <+: trimmed || includes "\n<stdout>" || includes "\n<stderr>" || includes "[exit code:" ||
    includes "[completed with no output]" || includes "[waiting for input]"
  | _                    => false

-- `value ?? fallback`
def orElse (value fallback : Option Value) : Option Value :=
  if value = none ∨ value = some .null then fallback else value

def chooseAgentVisibleToolResult (toolName : Text) (agentVisibleResult fallbackResult : Option Value) : Option Value :=
  if isCommandToolName toolName ∧ looksLikeCommandControlJson agentVisibleResult ∧
    looksLikeTerminalResult fallbackResult
  then fallbackResult else orElse agentVisibleResult fallbackResult

-- `agentVisibleResult` of a `tool_result`, with its alternatives
def ToolResult.first (result : ToolResult) (fallback : Option Value) : Option Value :=
  orElse result.agentVisibleResult <| orElse result.agent_visible_result <|
    orElse result.agentVisibleOutput <| orElse result.agent_visible_output fallback

def UiEvent.displayResult (event : UiEvent) : Option Value :=
  let nested := event.data.tool
  let agentVisibleResult := orElse event.tool.agentVisibleResult <| event.data.toToolResult.first <|
    orElse nested.agentVisibleResult <| orElse nested.agent_visible_result <|
      orElse nested.agentVisibleOutput nested.agent_visible_output
  chooseAgentVisibleToolResult event.toolName agentVisibleResult (orElse event.tool.result event.data.result)

-- A message that is being changed, and how often `createId` was called
structure Draft where
  message : Message
  calls   : ℕ

namespace Draft

variable (options : LifecycleOptions) (event : UiEvent) (profile : AgentProfile) (draft : Draft)

def modify (f : Message → Message) : Draft :=
  { draft with message := f draft.message }

-- The draft after a call `createId("node")`
def called : Draft :=
  { draft with calls := draft.calls + 1 }

def createdId : Text :=
  options.createId .node draft.calls

-- `appendNode` of a node that gets a new id
def appendNew (node : Node) : Draft :=
  (draft.modify (·.appendNode { node with id := draft.createdId options })).called

-- `given || createId("node")`
def nodeId (given : Text) : Text :=
  if given ≠ [] then given else draft.createdId options

-- `upsertTimelineNode` of a node with that id
def upsert (given : Text) (node : Node → Node) : Draft where
  message := draft.message.upsertTimelineNode fun old => { node old with id := draft.nodeId options given }
  calls   := if given ≠ [] then draft.calls else draft.calls + 1

-- `appendNarrativeContent`. Some callers give it no owner fields.
def appendNarrativeContent (owner : Option OwnerFields) (runId content : Text) : Draft :=
  let normalizedContent := trim content
  if owner.any (·.displayInMessage = false) ∨ normalizedContent = [] then draft
  else
    let withOwner (node : Node) : Node := (owner.map node.withOwner).getD node
    let grown (message : Message) : Message := { message with content := message.content ++ normalizedContent }
    let merged (node : Node) : Node :=
      (withOwner { node with content := some (node.text ++ normalizedContent) }).applyEventTimelineFields runId
    let node : Node :=
      { Node.empty with kind := .narrative, role := some .assistant, content := some normalizedContent }
    let last := draft.message.nodes.length - 1
    if draft.message.nodes.getLast?.any (canMergeNarrativeNode · profile (owner.bind (·.ownerStreamKey))) then
      draft.modify fun message => grown { message with nodes := message.nodes.modify last merged }
    else
      (draft.appendNew options (withOwner (node.withProfile profile) |>.withTimeline runId)).modify grown

def appendArtifactNode (artifact : Option Artifact) : Draft :=
  match artifact with
  | none          => draft
  | some artifact =>
    let key := artifactKey artifact
    if key = [] ∨ draft.message.artifacts.any (artifactKey · = key) then draft
    else
      let node := { Node.empty with kind := .artifact }
      (draft.modify fun message => { message with artifacts := message.artifacts ++ [artifact] }).appendNew options
        ((node.withProfile profile).withTimeline event.timelineRunId)

def appendEventArtifactIfPresent : Draft :=
  if event.artifact.isSome then draft.appendArtifactNode options event profile (options.resolveArtifact event)
  else draft

def promote : Draft :=
  draft.modify fun message =>
    let message := { message with uiStreamPhase := some .agent_started }
    if message.shouldPromoteMessageIdentity profile options.defaultAgentProfile
    then message.ensureAssistantIdentity profile true else message

def agentStart : Draft :=
  let draft := draft.promote options profile
  if event.node_id = [] then draft
  else draft.upsert options event.node_id fun node =>
    ({ node with kind := .execution, executionType := some .agent_start }.withProfile profile).withTimeline
      event.timelineRunId

-- A final snapshot that replaces the segments of a stream. `none` if the event is no such snapshot.
def replacedStream : Option Text :=
  let key := event.data.replaceStreamRunKey ++ text ":segment:"
  if event.data.replaceStreamRunKey ≠ [] ∧ event.data.snapshot.isSome ∧ event.finalized ∧
    event.data.partialText = false ∧ key <+: event.ownerFieldsFromEvent.ownerStreamKey.getD []
  then some key else none

-- A segment of the stream `key` of the same owner
def isSegment (key : Text) (owner : Owner) (node : Node) : Bool :=
  node.kind = .narrative && key <+: node.ownerStreamKey.getD [] && node.ownerAgentId = owner.ownerAgentId &&
  node.ownerAgentKind = owner.ownerAgentKind && node.ownerRuntimeId = owner.ownerRuntimeId

def replaceSegments : Draft :=
  match replacedStream event with
  | none     => draft
  | some key =>
    draft.modify fun message =>
      let nodes := message.nodes.filter fun node => !isSegment key event.ownerFieldsFromEvent.toOwner node
      let message := { message with nodes := nodes }
      { message with content := message.deriveNarrativeContentFromNodes }

-- The narrative node with the id of the event
def isExplicit (node : Node) : Bool :=
  trim node.id = event.node_id && node.kind = .narrative && node.role = some .assistant && !node.finalized

def explicitIndex : Option ℕ :=
  if event.node_id = [] then none else draft.message.nodes.findIdx? (isExplicit event)

-- The last node, if a text chunk can be merged with it
def lastIndex : Option ℕ :=
  if draft.message.nodes.getLast?.any (canMergeNarrativeNode · profile event.ownerFieldsFromEvent.ownerStreamKey)
  then some (draft.message.nodes.length - 1) else none

-- The narrative node that a text chunk continues
def narrativeIndex : Option ℕ :=
  draft.explicitIndex event <|> draft.lastIndex event profile

-- A node that a chunk continues, but for the text
def ownText (node : Node) : Node :=
  { node.withOwner event.ownerFieldsFromEvent with finalized := event.finalized }.applyEventTimelineFields
    event.timelineRunId

-- The chunk is merged with the node at `index`.
def mergeText (index : ℕ) : Draft :=
  draft.modify fun message =>
    let node := message.nodes.getD index Node.empty
    match event.data.snapshot with
    | some snapshot =>
      let merged := { ownText event node with content := some snapshot }
      let message := { message with nodes := message.nodes.set index merged }
      { message with content := message.deriveNarrativeContentFromNodes }
    | none          =>
      let suffix := computeStreamingSuffix node.text event.content
      if suffix = [] then { message with nodes := message.nodes.set index (ownText event node) }
      else
        let merged := { ownText event node with content := some (node.text ++ suffix) }
        { message with nodes := message.nodes.set index merged, content := message.content ++ suffix }

-- The fields of a new narrative node
def textNode (node : Node) : Node :=
  let node := { node with
    kind    := .narrative
    role    := some .assistant
    content := some (event.data.snapshot.getD event.content) }
  { ((node.withProfile profile).withOwner event.ownerFieldsFromEvent).withTimeline event.timelineRunId with
    finalized := event.finalized }

-- The chunk becomes a node of its own, or is merged with the node of its id.
def insertText : Draft :=
  let draft := draft.upsert options event.node_id (textNode event profile)
  draft.modify fun message => { message with content :=
    if event.data.snapshot.isSome ∨ event.eventDisplayInMessage = false then message.deriveNarrativeContentFromNodes
    else message.content ++ event.content }

def writeText : Draft :=
  match draft.narrativeIndex event profile with
  | some index => draft.mergeText event index
  | none       => draft.insertText options event profile

def streaming : Draft :=
  draft.modify fun message => { message with uiStreamPhase := some .streaming }

def textChunk : Draft :=
  let draft := (draft.streaming.replaceSegments event).writeText options event profile
  draft.appendEventArtifactIfPresent options event profile

-- The place of the node that a reasoning chunk may continue: the one with its id, or the last one
def reasoningPlace : ℕ :=
  let explicitNode :=
    if event.node_id = [] then none else draft.message.nodes.findIdx? (trim ·.id = event.node_id)
  explicitNode.getD (draft.message.nodes.length - 1)

def sameReasoning (node : Node) : Bool :=
  node.kind = .execution && node.executionType = some .reasoning &&
  streamKeyMatches node.ownerStreamKey event.ownerFieldsFromEvent.ownerStreamKey

def continueReasoning (node : Node) : Node :=
  let merged := (node.withOwner event.ownerFieldsFromEvent).applyEventTimelineFields event.timelineRunId
  match event.data.snapshot with
  | some snapshot => { merged with content := some snapshot }
  | none          =>
    let suffix := computeStreamingSuffix node.text event.content
    if suffix = [] then merged else { merged with content := some (node.text ++ suffix) }

-- The fields of a new reasoning node
def reasoningNode (node : Node) : Node :=
  let node := { node with
    kind          := .execution
    executionType := some .reasoning
    content       := some (event.data.snapshot.getD event.content) }
  ((node.withProfile profile).withOwner event.ownerFieldsFromEvent).withTimeline event.timelineRunId

def writeReasoning : Draft :=
  let place := draft.reasoningPlace event
  if draft.message.nodes[place]?.any (sameReasoning event) then
    draft.modify fun message => { message with nodes := message.nodes.modify place (continueReasoning event) }
  else draft.upsert options event.node_id (reasoningNode event profile)

def reasoningChunk : Draft :=
  (draft.modify (·.working)).writeReasoning options event profile

-- What `tool_start` and `tool_result` do after they have written the node
def toolNarrative : Draft :=
  let draft := draft.appendNarrativeContent options profile (some event.ownerFieldsFromEvent) event.timelineRunId
    event.narrativeContent
  draft.appendEventArtifactIfPresent options event profile

-- The fields that the nodes of a call and of a result share
def toolNode (executionType : ExecutionType) (toolCallId : Text) (node : Node) : Node :=
  (({ node with
    kind             := .execution
    executionType    := some executionType
    toolCallId       := some toolCallId
    toolInvocationId := some toolCallId
    toolName         := event.toolName }.withProfile profile).withOwner event.ownerFieldsFromEvent).withTimeline
      event.timelineRunId

def toolStart : Draft :=
  let draft := draft.modify (·.working)
  let toolCallId := event.resolveSurfaceToolCallId (draft.nodeId options event.node_id)
  let draft := draft.upsert options event.node_id (toolNode event profile .tool_call toolCallId)
  draft.toolNarrative options event profile

-- The last call that has no result yet
def reusableCall : Option Node :=
  draft.message.nodes.reverse.find? fun node =>
    node.kind = .execution && node.executionType = some .tool_call && node.result.isNone &&
    (event.toolName = [] || node.toolName = [] || node.toolName = event.toolName)

-- A call whose result has come
def finishCall (node : Node) : Node :=
  { (node.withOwner event.ownerFieldsFromEvent).applyEventTimelineFields event.timelineRunId with
    result   := event.displayResult
    toolName := firstTruthy [node.toolName, event.toolName] }

def toolResult : Draft :=
  let draft := draft.modify (·.working)
  let reusableCall := (draft.reusableCall event).getD Node.empty
  let resultNodeId := draft.nodeId options event.node_id
  let draft := if event.node_id ≠ [] then draft else draft.called
  let toolCallId := event.resolveSurfaceToolCallId
    (firstTruthy [reusableCall.toolInvocationId.getD [], reusableCall.toolCallId.getD [], resultNodeId])
  let resultNode (node : Node) : Node :=
    { toolNode event profile .tool_result toolCallId node with result := event.displayResult }
  let existingToolCall := draft.message.nodes.findIdx? fun node =>
    node.kind = .execution && node.executionType = some .tool_call &&
    (node.toolInvocationId = some toolCallId || node.toolCallId = some toolCallId)
  let draft := match existingToolCall with
    | some index =>
      if event.node_id ≠ [] then draft.upsert options event.node_id resultNode
      else draft.modify fun message => { message with nodes := message.nodes.modify index (finishCall event) }
    | none       => draft.upsert options event.node_id resultNode
  draft.toolNarrative options event profile

def artifactRecorded : Draft :=
  (draft.modify (·.working)).appendArtifactNode options event profile (options.resolveArtifact event)

def runtimeProgress : Draft :=
  let topic := event.data.topic.getD (text (if event.name = .runtime_event then "runtime" else "runtime_progress"))
  let label := ((event.data.label <|> event.data.summary) <|> event.data.message).getD topic
  let content := if event.targetsMessage ∧ event.narrativeContent ≠ label then event.narrativeContent else []
  let draft := (draft.modify (·.working)).appendNarrativeContent options profile none event.timelineRunId content
  draft.appendEventArtifactIfPresent options event profile

-- The events that append a node of governance, three of them after a narrative
def governed (governanceType : GovernanceType) (content : Text) : Draft :=
  let node := { Node.empty with kind := .governance, governanceType := some governanceType }
  let draft := (draft.modify (·.working)).appendNarrativeContent options profile none event.timelineRunId content
  draft.appendNew options ((node.withProfile profile).withTimeline event.timelineRunId)

-- `human_guidance` and `session_coordination`
def guided (governanceType : GovernanceType) : Draft :=
  (draft.modify (·.working)).upsert options (firstTruthy [event.node_id, trim event.data.node_id]) fun node =>
    (({ node with kind := .governance, governanceType := some governanceType }.withProfile profile).withOwner
      event.ownerFieldsFromEvent).withTimeline event.timelineRunId

-- What `done` and `error` do to the message that they end
def settle : Draft :=
  let draft := draft.modify fun message => { message with uiStreamPhase := some .settling }
  draft.appendEventArtifactIfPresent options event profile

def fail : Draft :=
  draft.modify fun message => { message with uiStreamPhase := some .error }

end Draft
end SessionRealtime
