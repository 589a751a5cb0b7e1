import Mathlib.Algebra.Group.Nat.Defs
import V8AgentOs.Script.Text

-- packages/session-realtime/src/message-segments.ts: how the nodes of a message are shown. Fragments of one narrative
-- become one node, and the nodes that trace what was done become groups.
namespace MessageSegments

open Script

-- The fields that are only compared with each other
structure Owner (ν : Type) where
  ownerRuntimeId   : ν
  ownerAgentKind   : ν
  ownerAgentId     : ν
  displayInMessage : ν
  runId            : ν
  deriving DecidableEq

-- A field that is no string is `none`, and so is one that is missing. `rest` are the fields that are not looked at.
structure TimelineSegmentNode (ν δ : Type) where
  id             : Option Text := none
  kind           : Option Text := none
  role           : Option Text := none
  content        : Option Text := none
  ownerStreamKey : Option Text := none
  executionType  : Option Text := none
  toolCallId     : Option Text := none
  traceGroupId   : Option Text := none
  finalized      : Option Bool := none
  isPartial      : Option Bool := none -- `partial`
  owner          : Owner ν
  rest           : δ
  deriving DecidableEq

def isDigit (u : UInt16) : Bool :=
  0x30 ≤ u.toNat && u.toNat ≤ 0x39

-- What `.` does not match
def isLineTerminator (u : UInt16) : Bool :=
  u == 0x0A || u == 0x0D || u == 0x2028 || u == 0x2029

-- `/^(.*):segment:(\d+)$/`. The digits are all that the text ends with, because a colon stands before them.
def fragmentKey (key : Text) : Option (Text × Text) :=
  let digits := key.rtakeWhile isDigit
  let before := key.rdropWhile isDigit
  let base := before.take (before.length - (text ":segment:").length)
  if digits ≠ [] ∧ text ":segment:" <:+ before ∧ base.all (!isLineTerminator ·) then some (base, digits) else none

-- The number that is nearest to a natural number, the even one of two; `none` is `Infinity`
def rounded (n : ℕ) : Option ℕ :=
  if n < 2 ^ 53 then some n
  else
    let unit := 2 ^ (Nat.log2 n - 52)
    let below := n / unit
    let up := unit < 2 * (n % unit) ∨ (unit = 2 * (n % unit) ∧ below % 2 = 1)
    let nearest := (if up then below + 1 else below) * unit
    if nearest < 2 ^ 1024 then some nearest else none

-- `Number(digits)`
def number (digits : Text) : Option ℕ :=
  rounded (digits.foldl (fun n u => 10 * n + (u.toNat - 0x30)) 0)

-- `value + 1`
def next (value : Option ℕ) : Option ℕ :=
  value.bind fun n => rounded (n + 1)

variable {ν δ : Type} [DecidableEq ν]

namespace TimelineSegmentNode

def fragment (node : TimelineSegmentNode ν δ) : Option (Text × Text) :=
  if node.kind = some (text "narrative") ∧ node.role = some (text "assistant") then
    fragmentKey (node.ownerStreamKey.getD [])
  else none

-- The node goes on where the previous one has ended.
def Continues (previous node : TimelineSegmentNode ν δ) : Prop :=
  ∃ base digits digits', previous.fragment = some (base, digits) ∧ node.fragment = some (base, digits') ∧
    number digits' = next (number digits) ∧ previous.owner = node.owner ∧ node.content.isSome

instance {previous node : TimelineSegmentNode ν δ} : Decidable (Continues previous node) :=
  match hp : previous.fragment, hn : node.fragment with
  | some (base, digits), some (base', digits') =>
    if h : base = base' ∧ number digits' = next (number digits) ∧ previous.owner = node.owner ∧ node.content.isSome then
      .isTrue ⟨base, digits, digits', hp, h.left ▸ hn, h.right⟩
    else .isFalse fun ⟨b, d, d', hp', hn', hrest⟩ => by
      rw [hp] at hp'
      rw [hn] at hn'
      cases hp'
      cases hn'
      exact h ⟨rfl, hrest⟩
  | none, _ => .isFalse fun ⟨_, _, _, hp', _⟩ => by
      rw [hp] at hp'
      cases hp'
  | some _, none => .isFalse fun ⟨_, _, _, _, hn', _⟩ => by
      rw [hn] at hn'
      cases hn'

-- What becomes of the last node when a fragment joins it
def join (last node : TimelineSegmentNode ν δ) : TimelineSegmentNode ν δ :=
  { last with
    content   := some (last.content.getD [] ++ node.content.getD [])
    finalized := some (last.finalized = some true && node.finalized = some true)
    isPartial := some (last.isPartial = some true || node.isPartial = some true) }

end TimelineSegmentNode

structure Coalescing (ν δ : Type) where
  result         : List (TimelineSegmentNode ν δ)         := []
  previousSource : Option (TimelineSegmentNode ν δ) := none

namespace Coalescing

def visit (s : Coalescing ν δ) (node : TimelineSegmentNode ν δ) : Coalescing ν δ where
  previousSource := some node
  result         :=
    match s.previousSource, s.result.getLast? with
    | some previous, some last =>
      if previous.Continues node ∧ last.content.isSome then s.result.dropLast ++ [last.join node]
      else s.result ++ [node]
    | _, _ => s.result ++ [node]

end Coalescing

def coalesceNarrativeFragments (nodes : List (TimelineSegmentNode ν δ)) : List (TimelineSegmentNode ν δ) :=
  (nodes.foldl Coalescing.visit {}).result

end MessageSegments

-- `buildMessageTimelineSegments`
namespace MessageSegments

open Script

variable {ν δ : Type}

-- `${number}`
def decimal (n : ℕ) : Text :=
  (Nat.toDigits 10 n).flatMap units

def nodeKey (node : TimelineSegmentNode ν δ) (index : ℕ) : Text :=
  let numbered := text "node-" ++ decimal index
  let key := trim (firstTruthy [node.id.getD [], numbered])
  if key = [] then numbered else key

namespace TimelineSegmentNode

def isTrace (node : TimelineSegmentNode ν δ) : Bool :=
  if text "call_v8_attachment_preflight_" <+: trim (node.toolCallId.getD []) then false
  else
    node.kind = some (text "execution") &&
      [text "reasoning", text "tool_call", text "tool_result", text "runtime_progress"].contains
        (trim (node.executionType.getD []))

def isNarrative (node : TimelineSegmentNode ν δ) : Bool :=
  node.kind = some (text "narrative")

-- `incomingGroupId`
def groupId (node : TimelineSegmentNode ν δ) : Text :=
  trim (node.traceGroupId.getD [])

end TimelineSegmentNode

inductive MessageTimelineSegment (ν δ : Type)
  | node (id : Text) (node : TimelineSegmentNode ν δ)
  | traceGroup (id : Text) (nodes : List (TimelineSegmentNode ν δ)) (collapsedByDefault active : Bool)

namespace MessageTimelineSegment

def id : MessageTimelineSegment ν δ → Text
  | .node i _           => i
  | .traceGroup i _ _ _ => i

def nodes : MessageTimelineSegment ν δ → List (TimelineSegmentNode ν δ)
  | .node _ n            => [n]
  | .traceGroup _ ns _ _ => ns

def active : MessageTimelineSegment ν δ → Bool
  | .node _ _           => false
  | .traceGroup _ _ _ a => a

variable {i : Text} {n : TimelineSegmentNode ν δ} {ns : List (TimelineSegmentNode ν δ)} {c a : Bool}

@[simp] theorem id_node : (node i n).id = i := rfl

@[simp] theorem id_traceGroup : (traceGroup i ns c a).id = i := rfl

end MessageTimelineSegment

-- `groupIdOccurrences` has, for each base of a group's id, how often it is in `bases`.
structure Building (ν δ : Type) where
  segments        : List (MessageTimelineSegment ν δ) := []
  traceBuffer     : List (TimelineSegmentNode ν δ)    := []
  traceStartIndex : ℕ                                 := 0 -- not read without a buffer
  traceGroupId    : Text                              := []
  bases           : List Text                         := []

def hasNarrativeFrom (nodes : List (TimelineSegmentNode ν δ)) (index : ℕ) : Bool :=
  (nodes.drop index).any (·.isNarrative)

-- The base of the id of a group
def baseGroupId (traceGroupId : Text) (first : TimelineSegmentNode ν δ) (traceStartIndex groupIndex : ℕ) : Text :=
  if traceGroupId ≠ [] then traceGroupId
  else text "trace-" ++ nodeKey first traceStartIndex ++ text "-" ++ decimal groupIndex

def occurrenceId (base : Text) (occurrence : ℕ) : Text :=
  if 0 < occurrence then base ++ text ":occurrence:" ++ decimal occurrence else base

def nodeSegmentId (node : TimelineSegmentNode ν δ) (index position : ℕ) : Text :=
  text "node-" ++ nodeKey node index ++ text "-" ++ decimal position

namespace Building

variable (nodes : List (TimelineSegmentNode ν δ)) (active : Bool)

-- The buffer ends before the index `end`, which is `endIndex + 1`.
def flushTrace (s : Building ν δ) (stop : ℕ) : Building ν δ :=
  match s.traceBuffer with
  | []         => s
  | first :: _ =>
    let base := baseGroupId s.traceGroupId first s.traceStartIndex s.segments.length
    let followedByNarrative := hasNarrativeFrom nodes stop
    let active := active && !followedByNarrative
    { segments := s.segments ++
        [.traceGroup (occurrenceId base (s.bases.count base)) s.traceBuffer (followedByNarrative && !active) active]
      bases    := s.bases ++ [base] }

def visit (s : Building ν δ) (entry : TimelineSegmentNode ν δ × ℕ) : Building ν δ :=
  let (node, index) := entry
  if node.isTrace then
    let incomingGroupId := node.groupId
    let s :=
      if s.traceBuffer ≠ [] ∧ incomingGroupId ≠ [] ∧ s.traceGroupId ≠ [] ∧ incomingGroupId ≠ s.traceGroupId then
        s.flushTrace nodes active index
      else s
    let s := if s.traceBuffer = [] then { s with traceStartIndex := index, traceGroupId := incomingGroupId } else s
    { s with traceBuffer := s.traceBuffer ++ [node] }
  else
    let s := s.flushTrace nodes active index
    { s with segments := s.segments ++ [.node (nodeSegmentId node index s.segments.length) node] }

end Building

def segmentsOf (nodes : List (TimelineSegmentNode ν δ)) (active : Bool) : List (MessageTimelineSegment ν δ) :=
  ((nodes.zipIdx.foldl (Building.visit nodes active) {}).flushTrace nodes active nodes.length).segments

def buildMessageTimelineSegments [DecidableEq ν] (nodes : List (TimelineSegmentNode ν δ)) (active : Bool) :
    List (MessageTimelineSegment ν δ) :=
  if nodes = [] then [] else segmentsOf (coalesceNarrativeFragments nodes) active

end MessageSegments
