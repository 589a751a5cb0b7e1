import V8AgentOs.Script.Text

-- session-realtime/src/message-lifecycle.ts: the messages of a conversation, their nodes, and the functions that
-- change a message. Times, event numbers and the fields that are only shown are left out; a field that is missing
-- and a field that holds the empty string are told apart where the source tells them apart.
namespace SessionRealtime

open Script

inductive Role
  | user
  | assistant
  | system
  | tool
  deriving DecidableEq

inductive NodeKind
  | narrative
  | execution
  | governance
  | artifact
  deriving DecidableEq

inductive ExecutionType
  | reasoning
  | tool_call
  | tool_result
  | agent_start
  deriving DecidableEq

inductive GovernanceType
  | ask_user
  | approval_request
  | approval_resolved
  | run_controlled
  | safety_blocked
  | context_governance
  | lane_updated
  | human_guidance
  | session_coordination
  deriving DecidableEq

inductive StreamPhase
  | placeholder
  | agent_started
  | settling
  | streaming
  | error
  deriving DecidableEq

-- What a tool returns, as far as it is looked at
inductive Value
  | null
  | string (text : Text)
  | object (keys : List Text)
  | scalar
  deriving DecidableEq

structure Artifact where
  id            : Text
  artifactId    : Text
  workspacePath : Text
  sourcePath    : Text
  adminPath     : Text
  url           : Text
  previewUrl    : Text
  externalUrl   : Text
  title         : Text
  deriving DecidableEq

def artifactKey (artifact : Artifact) : Text :=
  trim <| firstTruthy [artifact.id, artifact.artifactId, artifact.workspacePath, artifact.sourcePath,
    artifact.adminPath, artifact.url, artifact.previewUrl, artifact.externalUrl, artifact.title]

structure AgentProfile where
  agentName      : Option Text
  agentAvatar    : Option Text
  agentRoleLabel : Option Text
  deriving DecidableEq

structure Owner where
  ownerRuntimeId : Option Text
  ownerAgentKind : Option Text
  ownerAgentId   : Option Text
  ownerStreamKey : Option Text
  deriving DecidableEq

-- `ownerFieldsFromEvent`
structure OwnerFields extends Owner where
  displayInMessage : Bool
  deriving DecidableEq

-- One record for the four kinds of node: `{...existing, ...node}` can make one kind of another, and then the fields
-- that only the old kind has stay.
structure Node extends AgentProfile, Owner where
  id               : Text
  kind             : NodeKind
  role             : Option Role
  content          : Option Text
  finalized        : Bool
  displayInMessage : Option Bool
  runId            : Text
  executionType    : Option ExecutionType
  governanceType   : Option GovernanceType
  toolCallId       : Option Text
  toolInvocationId : Option Text
  toolName         : Text
  result           : Option Value
  deriving DecidableEq

structure Message extends AgentProfile where
  id              : Text
  role            : Role
  content         : Text
  runId           : Text
  nodes           : List Node
  artifacts       : List Artifact
  clientMessageId : Text
  uiEphemeral     : Bool
  uiStreamPhase   : Option StreamPhase
  deriving DecidableEq

namespace Node

-- An object without fields
def empty : Node where
  agentName        := none
  agentAvatar      := none
  agentRoleLabel   := none
  ownerRuntimeId   := none
  ownerAgentKind   := none
  ownerAgentId     := none
  ownerStreamKey   := none
  id               := []
  kind             := .narrative
  role             := none
  content          := none
  finalized        := false
  displayInMessage := none
  runId            := []
  executionType    := none
  governanceType   := none
  toolCallId       := none
  toolInvocationId := none
  toolName         := []
  result           := none

variable (node : Node)

-- `...profile`
def withProfile (profile : AgentProfile) : Node :=
  { node with
    agentName      := profile.agentName <|> node.agentName
    agentAvatar    := profile.agentAvatar <|> node.agentAvatar
    agentRoleLabel := profile.agentRoleLabel <|> node.agentRoleLabel }

-- `...ownerFields`
def withOwner (fields : OwnerFields) : Node :=
  { node with toOwner := fields.toOwner, displayInMessage := some fields.displayInMessage }

-- `...timelineFields`
def withTimeline (runId : Text) : Node :=
  { node with runId := runId }

def applyEventTimelineFields (runId : Text) : Node :=
  { node with runId := if node.runId = [] then runId else node.runId }

def text : Text :=
  node.content.getD []

-- `nodeDisplayInMessage`
def displayed : Bool :=
  node.displayInMessage ≠ some false

-- The nodes that `deriveNarrativeContentFromNodes` collects
def narrates : Bool :=
  node.kind = .narrative && node.role = some .assistant && node.displayed

-- `timelineNodeFinalized`, of a narrative node
def settled : Bool :=
  node.kind = .narrative && node.finalized

def toolIdentity : Text :=
  trim (firstTruthy [node.toolInvocationId.getD [], node.toolCallId.getD []])

end Node

-- `narrativeStreamKeyMatches` and `executionStreamKeyMatches`
def streamKeyMatches (existing incoming : Option Text) : Bool :=
  let incomingKey := trim (incoming.getD [])
  let existingKey := trim (existing.getD [])
  if incomingKey ≠ [] then existingKey = incomingKey else existingKey = []

def canMergeNarrativeNode (node : Node) (profile : AgentProfile) (ownerStreamKey : Option Text) : Bool :=
  node.kind = .narrative && node.role = some .assistant && !node.finalized && node.agentName = profile.agentName &&
  streamKeyMatches node.ownerStreamKey ownerStreamKey

-- The candidate is a call or a result of the same invocation.
def sameInvocation (node candidate : Node) : Bool :=
  candidate.kind = .execution && candidate.executionType = node.executionType && candidate.toolIdentity ≠ [] &&
  candidate.toolIdentity = node.toolIdentity &&
  (trim node.runId = [] || trim candidate.runId = [] || trim node.runId = trim candidate.runId) &&
  (trim (node.ownerStreamKey.getD []) = [] || trim (candidate.ownerStreamKey.getD []) = [] ||
    trim (node.ownerStreamKey.getD []) = trim (candidate.ownerStreamKey.getD []))

namespace Message

variable (message : Message)

def deriveNarrativeContentFromNodes : Text :=
  (message.nodes.filter (·.narrates)).flatMap (·.text)

def appendNode (node : Node) : Message :=
  { message with nodes := message.nodes ++ [node] }

-- Where `upsertTimelineNode` finds the node that it merges `node` with
def existingIndex (node : Node) : Option ℕ :=
  let byId := if trim node.id = [] then none else message.nodes.findIdx? (trim ·.id = trim node.id)
  let byToolIdentity :=
    if node.kind = .execution ∧ (node.executionType = some .tool_call ∨ node.executionType = some .tool_result) ∧
      node.toolIdentity ≠ []
    then message.nodes.findIdx? (sameInvocation node) else none
  byId <|> byToolIdentity

-- The node is given as what it writes over another one: `{...existing, ...node}` is `node existing`.
def upsertTimelineNode (node : Node → Node) : Message :=
  let incoming := node Node.empty
  match message.existingIndex incoming with
  | none   => message.appendNode incoming
  | some i =>
    let existing := message.nodes.getD i Node.empty
    if existing.settled ∧ incoming.kind = .narrative then
      if existing.text = incoming.text then message
      else message.appendNode { incoming with
        id := trim incoming.id ++ text ":append:" ++ text (toString message.nodes.length) }
    else { message with nodes := message.nodes.set i (node existing) }

-- `current.uiStreamPhase = current.content ? "streaming" : "agent_started"`
def working : Message :=
  { message with uiStreamPhase := some (if message.content ≠ [] then .streaming else .agent_started) }

-- One field of `ensureAssistantIdentity`
def identityField (overwrite : Bool) (own given : Option Text) (fallback : Text) : Option Text :=
  if overwrite ∨ own.getD [] = [] then some (firstTruthy [given.getD [], own.getD [], fallback]) else own

-- `DEFAULT_AGENT_PROFILE`
def defaultAgentName : Text := text "智能主管"
def defaultAgentAvatar : Text := text "/brand-mark.png"
def defaultAgentRoleLabel : Text := text "主理人"

def ensureAssistantIdentity (profile : AgentProfile) (overwrite : Bool) : Message :=
  { message with
    agentName      := identityField overwrite message.agentName profile.agentName defaultAgentName
    agentAvatar    := identityField overwrite message.agentAvatar profile.agentAvatar defaultAgentAvatar
    agentRoleLabel := identityField overwrite message.agentRoleLabel profile.agentRoleLabel defaultAgentRoleLabel }

def shouldPromoteMessageIdentity (profile defaultAgentProfile : AgentProfile) : Bool :=
  let currentName := trim (message.agentName.getD [])
  let currentRole := trim (message.agentRoleLabel.getD [])
  let nextName := trim (profile.agentName.getD [])
  let nextRole := trim (profile.agentRoleLabel.getD [])
  currentName = [] || some currentName = defaultAgentProfile.agentName ||
  some currentRole = defaultAgentProfile.agentRoleLabel || some nextName = defaultAgentProfile.agentName ||
  some nextRole = defaultAgentProfile.agentRoleLabel

end Message
end SessionRealtime
