import V8AgentOs.SessionRealtime.Lifecycle

-- session-realtime/src/message-lifecycle.ts: the messages as objects, and one event after the other
namespace SessionRealtime

open Script

-- The objects of the messages, the list of the caller and `SessionStreamState`. The list and `currentAiMsg` refer to
-- objects: a message that is changed through one of them is changed for the other as well.
structure Stream where
  objects            : ℕ → Message
  localMessages      : List ℕ
  currentAiMsg       : Option ℕ
  activeAgentProfile : AgentProfile
  calls              : ℕ

def runtimeIsExcluded (event : UiEvent) : Bool :=
  (["subagent_swarm", "engineering", "engineering_lane", "research", "creative_media", "computer_use", "rpa"].any
    fun runtime => event.runtimeId = some (text runtime)) ||
  ["subagent.", "engineering.", "engineering_lane.", "research.", "creative_media.", "computer_use.", "rpa."].any
    fun topic => text topic <+: event.topic

def shouldApplyRuntimeEventToMessage (options : LifecycleOptions) (event : UiEvent) : Bool :=
  let messageScoped := event.type ≠ .custom_event ∧ event.type ≠ .other
  if !options.shouldForwardRuntimeEventToRealtimeSurface event then false
  else if messageScoped ∧ !event.targetsMessage then false
  else if runtimeIsExcluded event then false
  else match event.type with
    | .tool_start | .tool_result => !options.isTodoToolRuntimePayload event
    | .custom_event              => event.targetsMessage || event.name = .artifact_recorded || event.name = .ask_user
    | .other                     => false
    | _                          => true

def buildAssistantMessage (options : LifecycleOptions) (profile : AgentProfile) (id runId : Text) : Message where
  agentName       := profile.agentName <|> options.defaultAgentProfile.agentName
  agentAvatar     := profile.agentAvatar <|> options.defaultAgentProfile.agentAvatar
  agentRoleLabel  := profile.agentRoleLabel <|> options.defaultAgentProfile.agentRoleLabel
  id              := id
  role            := .assistant
  content         := []
  runId           := runId
  nodes           := []
  artifacts       := []
  clientMessageId := []
  uiEphemeral     := true
  uiStreamPhase   := some .placeholder

namespace UiEvent

variable (event : UiEvent)

-- `clientMessageId` of `buildRecordedUserMessage`
def recordedClientId : Option Text :=
  let given := firstNonEmptyString [event.data.clientMessageId, event.data.client_message_id]
  if given ≠ [] then some given else event.data.metadataClientMessageId

def recordedId : Text :=
  firstNonEmptyString [event.message_id, event.data.message_id, event.data.messageId,
    firstNonEmptyString [event.data.clientMessageId, event.data.client_message_id], event.event_id, event.identity]

def recordedContent : Text :=
  firstNonEmptyString [event.data.content, event.content]

def recordedNodes : List Node :=
  let id := event.recordedId
  let node := { Node.empty with runId := event.timelineRunId }
  let narrative : Node := { node with
    id      := firstTruthy [event.node_id, id ++ text ":narrative"]
    kind    := .narrative
    role    := some .user
    content := some event.recordedContent }
  let source (attachment : Attachment) (index : ℕ) : Node := { node with
    id   := id ++ text ":source:" ++ firstNonEmptyString [attachment.id, attachment.sourceId, attachment.source_id,
      id ++ text ":attachment:" ++ text (toString index)]
    kind := .artifact }
  (if event.recordedContent = [] then [] else [narrative]) ++ event.data.attachments.mapIdx fun i a => source a i

-- `{...existing, ...recorded}`
def recordOver (existing : Message) : Message :=
  { existing with
    id              := event.recordedId
    role            := .user
    content         := event.recordedContent
    runId           := event.timelineRunId
    nodes           := event.recordedNodes
    artifacts       := []
    clientMessageId := event.recordedClientId.getD existing.clientMessageId }

-- `buildRecordedUserMessage`
def recorded : Message :=
  event.recordOver {
    agentName       := none
    agentAvatar     := none
    agentRoleLabel  := none
    id              := []
    role            := .user
    content         := []
    runId           := []
    nodes           := []
    artifacts       := []
    clientMessageId := []
    uiEphemeral     := false
    uiStreamPhase   := none }

end UiEvent

namespace Stream

variable (stream : Stream) (options : LifecycleOptions) (event : UiEvent)

-- The messages that the list shows
def messages : List Message :=
  stream.localMessages.map stream.objects

def modify (ref : ℕ) (f : Message → Message) : Stream :=
  { stream with objects := Function.update stream.objects ref (f (stream.objects ref)) }

-- The references that are in use
def held : List ℕ :=
  stream.localMessages ++ stream.currentAiMsg.toList

-- The reference of the next object that is made
def newRef : ℕ :=
  stream.held.foldr max 0 + 1

def findMessageById (messageId : Text) : Option ℕ :=
  if trim messageId = [] then none
  else stream.localMessages.find? fun ref => trim (stream.objects ref).id = trim messageId

-- The first message of the list with the id of `ref` is replaced by `ref`.
def upsertCurrentAiMessage (ref : ℕ) : Stream :=
  match stream.localMessages.findIdx? fun r => (stream.objects r).id = (stream.objects ref).id with
  | some index => { stream with localMessages := stream.localMessages.set index ref }
  | none       => { stream with localMessages := stream.localMessages ++ [ref] }

-- The message of the run takes the place of a current message of another run. A placeholder that waits for the
-- receipt of a submission is not taken either.
def resolveRun : Option ℕ :=
  if event.run_id = [] ∨ stream.currentAiMsg.any (fun ref => (stream.objects ref).runId = event.run_id) then
    stream.currentAiMsg
  else
    (stream.localMessages.find? fun ref =>
      (stream.objects ref).role = .assistant && (stream.objects ref).runId = event.run_id) <|>
    stream.currentAiMsg.filter fun ref =>
      (stream.objects ref).runId = [] && (stream.objects ref).clientMessageId = []

-- What `ensureCurrent` writes to the message of the event
def bind (message : Message) : Message :=
  { message with runId := if event.run_id = [] then message.runId else event.run_id }.ensureAssistantIdentity
    stream.activeAgentProfile false

-- A new assistant message at the end of the list
def pushAssistant : Stream :=
  let message := buildAssistantMessage options stream.activeAgentProfile
    (options.createId .assistant stream.calls) event.run_id
  { stream with
    objects       := Function.update stream.objects stream.newRef message
    localMessages := stream.localMessages ++ [stream.newRef]
    calls         := stream.calls + 1 }

def ensureCurrent : Stream × ℕ :=
  match stream.findMessageById event.message_id with
  | some ref => (stream.modify ref (stream.bind event), ref)
  | none     =>
    let rename (message : Message) : Message :=
      { message with id := if event.message_id = [] then message.id else event.message_id }
    match stream.resolveRun event with
    | some ref => (stream.modify ref fun message => rename (stream.bind event message), ref)
    | none     =>
      let ref := stream.newRef
      ((stream.pushAssistant options event).modify ref fun message => rename (stream.bind event message), ref)

-- The message at `ref` is changed and is the current one from then on.
def editCurrent (ref : ℕ) (edit : Draft → Draft) : Stream :=
  let draft := edit ⟨stream.objects ref, stream.calls⟩
  { stream.modify ref fun _ => draft.message with calls := draft.calls, currentAiMsg := some ref }

-- `done` and `error`
def finish (edit : Draft → Draft) : Stream :=
  match stream.currentAiMsg with
  | none     => stream
  | some ref => { (stream.editCurrent ref edit).upsertCurrentAiMessage ref with currentAiMsg := none }

-- The place of the user's message that `message_user_recorded` records
def recordedIndex : Option ℕ :=
  let clientMessageId := trim (event.recordedClientId.getD [])
  stream.localMessages.findIdx? fun ref =>
    let message := stream.objects ref
    message.role = .user && (trim message.id = event.recordedId ||
      clientMessageId ≠ [] && trim message.clientMessageId = clientMessageId)

-- The recorded message, at its place or at the end of the list
def placeRecorded : Stream :=
  match stream.recordedIndex event with
  | some index =>
    let existing := stream.objects (stream.localMessages.getD index 0)
    { stream with
      objects       := Function.update stream.objects stream.newRef (event.recordOver existing)
      localMessages := stream.localMessages.set index stream.newRef }
  | none       =>
    { stream with
      objects       := Function.update stream.objects stream.newRef event.recorded
      localMessages := stream.localMessages ++ [stream.newRef] }

-- The placeholder of the submission
def pendingAssistant : Option ℕ :=
  stream.localMessages.find? fun ref =>
    let message := stream.objects ref
    message.role = .assistant && message.uiEphemeral &&
    message.clientMessageId = firstTruthy [trim (event.recordedClientId.getD []), event.recordedId] &&
    (message.runId = [] || message.runId = event.timelineRunId)

-- `message_user_recorded`
def recordUser : Stream :=
  let stream := stream.placeRecorded event
  match stream.pendingAssistant event with
  | none     => stream
  | some ref => { stream.modify ref fun message => { message with runId := event.timelineRunId } with
      currentAiMsg := some ref }

-- What an event writes to its message, if it has one of the types that write to a message
def editOf : Option (AgentProfile → Draft → Draft) :=
  match event.type, event.name with
  | .agent_start, _                             => some (Draft.agentStart options event)
  | .text_chunk, _                              => some (Draft.textChunk options event)
  | .reasoning_chunk, _                         => some (Draft.reasoningChunk options event)
  | .tool_start, _                              => some (Draft.toolStart options event)
  | .tool_result, _                             => some (Draft.toolResult options event)
  | .custom_event, .artifact_recorded           => some (Draft.artifactRecorded options event)
  | .custom_event, .runtime_progress            => some (Draft.runtimeProgress options event)
  | .custom_event, .runtime_event               => some (Draft.runtimeProgress options event)
  | .custom_event, .ask_user                    => some fun p d => d.governed options event p .ask_user []
  | .custom_event, .approval_requested          =>
    some fun p d => d.governed options event p .approval_request event.approvalContentInMessage
  | .custom_event, .approval_resolved           =>
    some fun p d => d.governed options event p .approval_resolved event.approvalContentInMessage
  | .custom_event, .run_controlled              => some fun p d => d.governed options event p .run_controlled []
  | .custom_event, .safety_blocked              =>
    some fun p d => d.governed options event p .safety_blocked event.approvalContentInMessage
  | .custom_event, .context_governance_changed  => some fun p d => d.governed options event p .context_governance []
  | .custom_event, .lane_updated                => some fun p d => d.governed options event p .lane_updated []
  | .custom_event, .human_guidance              => some fun p d => d.guided options event p .human_guidance
  | .custom_event, .session_coordination        => some fun p d => d.guided options event p .session_coordination
  | _, _                                        => none

-- The events at which the function returns before it looks at the current message
def skips : Bool :=
  !shouldApplyRuntimeEventToMessage options event ||
  ((event.type = .tool_start || event.type = .tool_result) && options.isTodoToolRuntimeData event) ||
  (event.type = .custom_event && (event.name = .human_guidance || event.name = .session_coordination) &&
    !event.targetsMessage && !event.eventDisplayInMessage)

-- `nextActiveAgentProfile`
def profileOf : AgentProfile :=
  if event.type = .agent_start then options.resolveAgentProfile event stream.activeAgentProfile
  else stream.activeAgentProfile

-- An event that writes to its message
def write (edit : AgentProfile → Draft → Draft) : Stream :=
  let profile := stream.profileOf options event
  let ensured := { stream with activeAgentProfile := profile }.ensureCurrent options event
  (ensured.1.editCurrent ensured.2 (edit profile)).upsertCurrentAiMessage ensured.2

-- An event that writes to no message
def touch : Stream :=
  match stream.currentAiMsg with
  | some ref => stream.upsertCurrentAiMessage ref
  | none     => stream

def applyRealtimeEventToMessages : Stream :=
  if skips options event then stream
  else if event.type = .custom_event ∧ event.name = .message_user_recorded then stream.recordUser event
  else if event.type = .done then stream.finish (Draft.settle options event stream.activeAgentProfile)
  else if event.type = .error then stream.finish Draft.fail
  else match editOf options event with
    | some edit => stream.write options event edit
    | none      => stream.touch

def applyAll (events : List UiEvent) : Stream :=
  events.foldl (applyRealtimeEventToMessages · options) stream

end Stream
end SessionRealtime
