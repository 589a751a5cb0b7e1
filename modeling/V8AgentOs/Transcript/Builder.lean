import Mathlib.Data.List.Infix
import V8AgentOs.Lib.Transition
import V8AgentOs.Python.Dict
import V8AgentOs.Python.Text

-- erc/chat_canonical_transcript.py: the nodes of a canonical message, and the texts that are derived from them
namespace Transcript

open Python

-- What the texts take from Unicode: the characters that `\w` matches as well
structure Unicode extends Python.Text where
  word      : Char → Bool
  wordAscii : ∀ c : Char, c.toNat < 128 → word c = (c.isAlphanum || c == '_')

-- The letter of the pattern that the character stands for, as `re.IGNORECASE` compares them
def fold (c : Char) : Char :=
  if c = '\u0130' ∨ c = '\u0131' then 'i' else if c = '\u212a' then 'k' else c.toLower

-- The rest after a tag, if the text starts with it
def afterTag (tag : String) (text : List Char) : Option (List Char) :=
  if tag.toList <+: text.map fold then some (text.drop tag.length) else none

-- `([\s\S]*?)(?:</think>|$)`: the group, and what follows. A line feed at the very end stands after `$`.
def untilClose : List Char → List Char × List Char
  | []      => ([], [])
  | c :: cs =>
    match afterTag "</think>" (c :: cs) with
    | some rest => ([], rest)
    | none      =>
      if c = '\n' ∧ cs = [] then ([], [c])
      else
        let found := untilClose cs
        (c :: found.1, found.2)

-- `_INLINE_THINK_PATTERN` at the start of a text: the group, and what follows the match
def thinkAt (word : Char → Bool) (text : List Char) : Option (List Char × List Char) :=
  match afterTag "<think" text with
  | none      => none
  | some rest =>
    if rest.head?.any word then none
    else match rest.dropWhile (· ≠ '>') with
      | []        => none
      | _ :: body => some (untilClose body)

-- The groups of `finditer`, and the text without the matches. A match is longer than one character, so the length of
-- the text bounds the number of steps.
def thinks (word : Char → Bool) : ℕ → List Char → List (List Char) × List Char
  | 0, text         => ([], text)
  | _ + 1, []       => ([], [])
  | n + 1, c :: cs  =>
    match thinkAt word (c :: cs) with
    | some (group, rest) =>
      let found := thinks word n rest
      (group :: found.1, found.2)
    | none               =>
      let found := thinks word n cs
      (found.1, c :: found.2)

-- `re.sub(r"\s+", " ", text)`; `inside` says that the character before is white space.
def squeeze (inside : Bool) : List Char → List Char
  | []      => []
  | c :: cs =>
    if isSpace c then if inside then squeeze true cs else ' ' :: squeeze true cs
    else c :: squeeze false cs

abbrev CanonicalNode := Dict

-- `_as_list`, and of its items those that are dictionaries
def asNodes : Json → List CanonicalNode
  | .list items => items.filterMap fun
    | .dict members => some members
    | _             => none
  | _           => []

variable (text : Unicode)

-- `"<think" in raw.lower()`
def mentionsThink (raw : String) : Bool :=
  "<think".toList <:+: (text.lower raw).toList

-- `_split_inline_reasoning`: the visible text and the reasoning
def splitInlineReasoning (value : Json) : String × String :=
  let raw := text.orEmpty value
  if mentionsThink text raw then
    let found := thinks text.word raw.length raw.toList
    let parts := (found.1.map fun group => strip (String.ofList group)).filter (· ≠ "")
    (strip (String.ofList found.2), "\n".intercalate parts.eraseDups)
  else (raw, "")

def reasoningFingerprint (value : Json) : String :=
  strip (String.ofList (squeeze false (text.orEmpty value).toList))

def inlineReasoningNodeId (narrativeNodeId : Json) : String :=
  (if narrativeNodeId.truthy then text.str narrativeNodeId else "assistant-narrative") ++ ":inline-reasoning"

def kind (node : CanonicalNode) : String :=
  text.stripped (node.get "kind")

def isNarrative (node : CanonicalNode) : Bool :=
  kind text node = "narrative"

def isReasoning (node : CanonicalNode) : Bool :=
  kind text node = "execution" && text.stripped (node.get "executionType") = "reasoning"

-- The node for the reasoning that stands in the text of a narrative node
def inlineReasoningNode (node : CanonicalNode) : CanonicalNode :=
  let copied := ["timestamp", "agentName", "agentAvatar", "agentRoleLabel", "finalized", "partial"].filterMap
    fun key => (node.lookup key).bind fun value => if value matches .null then none else some (key, value)
  copied ++
    [("id", .str (inlineReasoningNodeId text (node.get "id"))),
      ("kind", .str "execution"),
      ("executionType", .str "reasoning"),
      ("content", .str (splitInlineReasoning text (node.get "content")).2),
      ("reasoningKind", .str "legacy_inline_think"),
      ("reasoningUnverified", .bool true)]

-- The loop of `normalize_canonical_nodes`
def normalizeFrom (inlineIds explicitReasoning : List String) : List String → List CanonicalNode → List CanonicalNode
  | _, []                       => []
  | emittedReasoning, node :: nodes =>
    if isReasoning text node then
      let fingerprint := reasoningFingerprint text (node.get "content")
      if text.stripped (node.get "id") ∈ inlineIds then normalizeFrom inlineIds explicitReasoning emittedReasoning nodes
      else if fingerprint ≠ "" ∧ fingerprint ∈ emittedReasoning then
        normalizeFrom inlineIds explicitReasoning emittedReasoning nodes
      else
        let emittedReasoning := if fingerprint ≠ "" then fingerprint :: emittedReasoning else emittedReasoning
        node :: normalizeFrom inlineIds explicitReasoning emittedReasoning nodes
    else if !isNarrative text node then node :: normalizeFrom inlineIds explicitReasoning emittedReasoning nodes
    else
      let split := splitInlineReasoning text (node.get "content")
      let fingerprint := reasoningFingerprint text (.str split.2)
      let narrative := node.set "content" (.str split.1)
      if fingerprint ≠ "" ∧ fingerprint ∉ explicitReasoning ∧ fingerprint ∉ emittedReasoning then
        inlineReasoningNode text node ::
          narrative :: normalizeFrom inlineIds explicitReasoning (fingerprint :: emittedReasoning) nodes
      else narrative :: normalizeFrom inlineIds explicitReasoning emittedReasoning nodes

def isAssistant (role : String) : Bool :=
  text.lower (strip role) = "assistant"

-- The keys of `inline_reasoning_by_node_id`
def inlineReasoningIds (nodes : List CanonicalNode) : List String :=
  (nodes.filter fun node =>
    isNarrative text node && (splitInlineReasoning text (node.get "content")).2 ≠ "").map
      fun node => inlineReasoningNodeId text (node.get "id")

-- `explicit_reasoning`
def explicitReasoning (nodes : List CanonicalNode) : List String :=
  ((nodes.filter fun node =>
    isReasoning text node && !(inlineReasoningIds text nodes).contains (text.stripped (node.get "id"))).map
      fun node => reasoningFingerprint text (node.get "content")).filter (· ≠ "")

def normalizeCanonicalNodes (nodes : List CanonicalNode) (role : String) : List CanonicalNode :=
  if isAssistant text role then
    normalizeFrom text (inlineReasoningIds text nodes) (explicitReasoning text nodes) [] nodes
  else nodes

-- `derive_text_fields`: the text and the reasoning
def deriveTextFields (nodes : List CanonicalNode) : String × String :=
  let join (p : CanonicalNode → Bool) :=
    String.join ((nodes.filter p).map fun node => text.orEmpty (node.get "content"))
  (join (isNarrative text), join (isReasoning text))

end Transcript

-- erc/chat_canonical_transcript.py: `CanonicalTranscriptBuilder`, over `update_chat_canonical_message` of
-- core/chat_transcript_repository.py
namespace Transcript

open Python

-- `INTERNAL_TOOL_ARG_MARKERS`
def internalToolArgMarkers : List String :=
  ["ToolRuntime(", "AsyncCallbackManager", "PregelScratchpad", "__pregel_", "stream_writer="]

mutual

-- `_contains_internal_tool_arg`
def containsInternalToolArg : Json → Bool
  | .str s        => internalToolArgMarkers.any fun marker => marker.toList <:+: s.toList
  | .dict members => membersContain members
  | .list items   => itemsContain items
  | _             => false

def itemsContain : List Json → Bool
  | []            => false
  | item :: items => containsInternalToolArg item || itemsContain items

def membersContain : Dict → Bool
  | []                   => false
  | (_, item) :: members => containsInternalToolArg item || membersContain members

end

-- A row of `chat_canonical_messages`. Its id and its session never change; the times are left out but for
-- `finalized_at`.
structure CanonicalMessage where
  run_id         : Option String
  ordinal        : ℤ
  role           : String
  state          : String
  nodes          : List CanonicalNode
  artifacts      : List Json
  content_text   : Option String
  reasoning_text : Option String
  metadata       : Dict
  version        : ℕ
  finalized_at   : Option String

inductive InvariantError
  | content_text_mismatch
  | reasoning_text_mismatch
  | assistant_narrative_contains_think
  | tool_args_contain_runtime_internal
  deriving DecidableEq

variable (text : Unicode)

def validateCanonicalMessageInvariants (row : CanonicalMessage) : List InvariantError :=
  let nodes := normalizeCanonicalNodes text row.nodes row.role
  let derived := deriveTextFields text nodes
  let isToolCall (node : CanonicalNode) : Bool :=
    kind text node = "execution" && text.stripped (node.get "executionType") = "tool_call"
  let narrates (node : CanonicalNode) : Bool :=
    isNarrative text node && mentionsThink text (text.orEmpty (node.get "content"))
  (if row.content_text.getD "" ≠ derived.1 then [.content_text_mismatch] else []) ++
  (if row.reasoning_text.getD "" ≠ derived.2 then [.reasoning_text_mismatch] else []) ++
  (if isAssistant text row.role ∧ row.nodes.any narrates then [.assistant_narrative_contains_think] else []) ++
  (if nodes.any fun node => isToolCall node && containsInternalToolArg (node.get "args")
   then [.tool_args_contain_runtime_internal] else [])

-- `value or None`
def orNone (value : String) : Option String :=
  if value ≠ "" then some value else none

-- The row that `create_message` stores
def createMessage (run_id : Option String) (ordinal : ℤ) (role state : String) (metadata : Dict)
    (nodes : List CanonicalNode) (content_text reasoning_text : Option String) : CanonicalMessage :=
  let seededNodes := normalizeCanonicalNodes text nodes role
  let derived := deriveTextFields text seededNodes
  let hasCanonicalTextNodes := seededNodes.any fun node => isNarrative text node || isReasoning text node
  { run_id         := run_id
    ordinal        := ordinal
    role           := role
    state          := state
    nodes          := seededNodes
    artifacts      := []
    content_text   := some (if hasCanonicalTextNodes then derived.1 else content_text.getD "")
    reasoning_text := if hasCanonicalTextNodes then orNone derived.2 else reasoning_text
    metadata       := metadata
    version        := 1
    finalized_at   := none }

-- What a mutator makes of the nodes and the metadata. It may change the metadata in place, and it may raise.
abbrev Mutator := List CanonicalNode → Dict → Option (Json × Dict)

-- The arguments of `mutate_message`
structure Mutation where
  mutator          : Mutator
  state            : Option String
  metadata_updates : Dict
  finalize         : Bool

-- `set_message_state`
def setMessageState (state : String) (metadata_updates : Dict) (finalize : Bool) : Mutation where
  mutator nodes metadata := some (.list (nodes.map .dict), metadata)
  state                  := some state
  metadata_updates       := metadata_updates
  finalize               := finalize

-- The arguments of `update_chat_canonical_message`
structure Update where
  expected_version : ℕ
  state            : String
  nodes            : List CanonicalNode
  artifacts        : List Json
  content_text     : String
  reasoning_text   : Option String
  metadata         : Dict
  finalized_at     : Option String

-- `first or second`
def orElse (first : Option String) (second : String) : String :=
  if first.getD "" ≠ "" then first.getD "" else second

-- `int(row.get("version") or 1)`
def CanonicalMessage.currentVersion (row : CanonicalMessage) : ℕ :=
  if row.version ≠ 0 then row.version else 1

-- What `mutate_message` does between its read and the update, at the time `now`. `none` if the mutator raises.
def Mutation.update (mutation : Mutation) (existing : CanonicalMessage) (now : String) : Option Update :=
  (mutation.mutator existing.nodes (existing.metadata.merge mutation.metadata_updates)).map fun (next, metadata) =>
    let nextNodes := normalizeCanonicalNodes text (asNodes next) existing.role
    let derived := deriveTextFields text nextNodes
    { expected_version := existing.currentVersion
      state            := orElse mutation.state (orElse (some existing.state) "pending")
      nodes            := nextNodes
      artifacts        := existing.artifacts
      content_text     := derived.1
      reasoning_text   := orNone derived.2
      metadata         := metadata
      finalized_at     := if mutation.finalize then some now else existing.finalized_at }

-- The row that `update_chat_canonical_message` makes of `row`, after it has read `existing`
def Update.apply (update : Update) (existing row : CanonicalMessage) : CanonicalMessage :=
  { row with
    state          := orElse (some update.state) (orElse (some existing.state) "pending")
    nodes          := update.nodes
    artifacts      := update.artifacts
    content_text   := some update.content_text
    reasoning_text := update.reasoning_text <|> existing.reasoning_text
    metadata       := update.metadata
    version        := existing.version + 1
    finalized_at   := update.finalized_at <|> existing.finalized_at }

-- How far a call has come
inductive Phase
  | called (mutation : Mutation)
  | computed (mutation : Mutation) (update : Update)
  | checked (mutation : Mutation) (update : Update) (existing : CanonicalMessage)
  | returned
  | raised

-- The row, and the calls by their numbers
structure State where
  row   : CanonicalMessage
  calls : ℕ → Option Phase

inductive Event
  | call (id : ℕ) (mutation : Mutation)
  | read (id : ℕ) (now : String)
  | check (id : ℕ)
  | write (id : ℕ) (epoch : Bool)

namespace State

variable (s : State)

def advance (id : ℕ) (phase : Phase) : State :=
  { s with calls := Function.update s.calls id (some phase) }

-- One step of a call: `mutate_message` reads the row and runs the mutator; the update reads the row again; and it
-- writes if the run's epoch holds and the version has not changed meanwhile.
def step : Event → Option State
  | .call id mutation => if (s.calls id).isNone then some (s.advance id (.called mutation)) else none
  | .read id now      =>
    match s.calls id with
    | some (.called mutation) =>
      match mutation.update text s.row now with
      | some update => some (s.advance id (.computed mutation update))
      | none        => some (s.advance id .raised)
    | _                       => none
  | .check id         =>
    match s.calls id with
    | some (.computed mutation update) =>
      if s.row.currentVersion = update.expected_version then some (s.advance id (.checked mutation update s.row))
      else some (s.advance id .raised)
    | _                                => none
  | .write id epoch   =>
    match s.calls id with
    | some (.checked _ update existing) =>
      if epoch ∧ s.row.version = existing.currentVersion then
        some { s.advance id .returned with row := update.apply existing s.row }
      else some (s.advance id .raised)
    | _                                 => none

end State

-- An assistant's message has been created with a narrative or a reasoning node, and nothing has been called yet.
structure State.Initial (s : State) (nodes : List CanonicalNode) : Prop where
  assistant : isAssistant text s.row.role
  texts     : ∃ node ∈ nodes, isNarrative text node ∨ isReasoning text node
  created   : ∃ run_id ordinal state metadata content_text reasoning_text, s.row =
    createMessage text run_id ordinal s.row.role state metadata nodes content_text reasoning_text
  calls     : ∀ id, s.calls id = none

def system (nodes : List CanonicalNode) : Transition State Event where
  init s     := s.Initial text nodes
  step s e t := s.step text e = some t

end Transcript
