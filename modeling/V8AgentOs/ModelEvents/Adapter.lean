import Mathlib.Data.List.Infix
import Mathlib.Logic.Function.Basic
import V8AgentOs.Lib.Emission
import V8AgentOs.Python.Dict
import V8AgentOs.Python.Numbers
import V8AgentOs.Python.Str
import V8AgentOs.Python.Text

-- How a value of a provider's stream, which is a token or a snapshot of everything so far, becomes a delta and a
-- snapshot.
namespace ModelEvents

open Python

abbrev Chars := List Char

-- The `dict` from the runs to their snapshots; a run that is missing has the snapshot `""`.
abbrev Snapshots := String → Chars

def normalizedModelRunId (modelRunId : String) : String :=
  let key := strip modelRunId
  if key = "" then "__default__" else key

def longestOverlapSuffixPrefix (previous current : Chars) : ℕ :=
  go (min previous.length current.length)
where
  go : ℕ → ℕ
    | 0        => 0
    | size + 1 => if previous.drop (previous.length - (size + 1)) = current.take (size + 1) then size + 1 else go size

-- The delta and the snapshot that follows `previous`.
def mergeStreamValue (allowTokenDelta : Bool) (previous current : Chars) : Chars × Chars :=
  if current = [] then ([], previous)
  else if previous = [] then (current, current)
  else if current = previous then ([], previous)
  else if previous <+: current then (current.drop previous.length, current)
  else if current <:+ previous ∨ current <:+: previous then ([], previous)
  else
    let overlap := longestOverlapSuffixPrefix previous current
    if 0 < overlap then (current.drop overlap, previous ++ current.drop overlap)
    else if allowTokenDelta then (current, previous ++ current)
    -- Strict text streams treat non-monotonic values as provider correction snapshots.
    else ([], previous)

def consumeCanonicalStreamValue (snapshots : Snapshots) (modelRunId : String) (rawValue : Chars)
    (allowTokenDelta : Bool) : (Chars × Chars) × Snapshots :=
  let runKey := normalizedModelRunId modelRunId
  let merged := mergeStreamValue allowTokenDelta (snapshots runKey) rawValue
  (merged, Function.update snapshots runKey merged.2)

-- A token that neither repeats a part of `previous` nor starts with what `previous` ends with.
def Fresh (previous current : Chars) : Prop :=
  ¬current <:+: previous ∧ ∀ part : Chars, part ≠ [] → part <+: current → ¬part <:+ previous

section Overlap

variable {previous current : Chars}

theorem longestOverlap_go_pos {n : ℕ} (hn : n ≤ min previous.length current.length) :
    0 < longestOverlapSuffixPrefix.go previous current n ↔
      ∃ part : Chars, part ≠ [] ∧ part.length ≤ n ∧ part <+: current ∧ part <:+ previous := by
  induction n
  case zero =>
    simp only [longestOverlapSuffixPrefix.go, lt_irrefl, false_iff]
    intro ⟨part, hne, hlen, _⟩
    exact hne (List.length_eq_zero_iff.mp (Nat.le_zero.mp hlen))
  case succ n hi =>
    have hp : n + 1 ≤ previous.length := by omega
    have hc : n + 1 ≤ current.length := by omega
    simp only [longestOverlapSuffixPrefix.go]
    split
    case isTrue he =>
      simp only [Nat.zero_lt_succ, true_iff]
      have hl : (current.take (n + 1)).length = n + 1 := List.length_take_of_le hc
      exists current.take (n + 1)
      constructor
      case left  => exact List.ne_nil_of_length_pos (by omega)
      case right => exact ⟨hl.le, List.take_prefix _ _, he ▸ List.drop_suffix _ _⟩
    case isFalse he =>
      rw [hi (by omega)]
      constructor
      case mp =>
        intro ⟨part, hne, hlen, h⟩
        exact ⟨part, hne, by omega, h⟩
      case mpr =>
        intro ⟨part, hne, hlen, hpre, hsuf⟩
        have hlt : part.length ≠ n + 1 := by
          intro hl
          have h₁ := List.prefix_iff_eq_take.mp hpre
          have h₂ := List.suffix_iff_eq_drop.mp hsuf
          rw [hl] at h₁ h₂
          exact he (h₂ ▸ h₁)
        exact ⟨part, hne, by omega, hpre, hsuf⟩

theorem longestOverlap_pos : 0 < longestOverlapSuffixPrefix previous current ↔
    ∃ part : Chars, part ≠ [] ∧ part <+: current ∧ part <:+ previous := by
  unfold longestOverlapSuffixPrefix
  rw [longestOverlap_go_pos le_rfl]
  constructor
  case mp => exact fun ⟨part, hne, _, h⟩ => ⟨part, hne, h⟩
  case mpr =>
    intro ⟨part, hne, hpre, hsuf⟩
    exact ⟨part, hne, le_min hsuf.length_le hpre.length_le, hpre, hsuf⟩

end Overlap

variable {allow : Bool} {previous current : Chars}

@[simp]
theorem merge_nil : mergeStreamValue allow previous [] = ([], previous) := by
  simp [mergeStreamValue]

@[simp]
theorem merge_first : mergeStreamValue allow [] current = (current, current) := by
  cases current <;> simp [mergeStreamValue]

@[simp]
theorem merge_same : mergeStreamValue allow previous previous = ([], previous) := by
  cases previous <;> simp [mergeStreamValue]

-- A delta extends the snapshot.
theorem merge_snapshot :
    (mergeStreamValue allow previous current).2 = previous ++ (mergeStreamValue allow previous current).1 := by
  unfold mergeStreamValue
  split
  case isTrue => simp
  case isFalse =>
    split
    case isTrue h => simp [h]
    case isFalse =>
      split
      case isTrue => simp
      case isFalse =>
        split
        case isTrue h =>
          have ⟨rest, hr⟩ := h
          simp [← hr]
        case isFalse =>
          split
          case isTrue => simp
          case isFalse =>
            simp only
            split
            case isTrue => rfl
            case isFalse => split <;> simp

-- The delta is the token exactly when the token is fresh.
theorem merge_delta_iff (hp : previous ≠ []) (hc : current ≠ []) :
    (mergeStreamValue true previous current).1 = current ↔ Fresh previous current := by
  have hshort : ∀ n, 0 < n → current.drop n ≠ current := by
    intro n hn h
    have hl := congrArg List.length h
    have := List.length_pos_of_ne_nil hc
    rw [List.length_drop] at hl
    omega
  unfold mergeStreamValue
  simp only [hc, hp, if_false]
  split
  case isTrue h =>
    apply iff_of_false hc.symm
    exact fun hf => hf.1 (h ▸ List.infix_rfl)
  case isFalse =>
    split
    case isTrue h =>
      apply iff_of_false
      case ha => exact hshort _ (List.length_pos_of_ne_nil hp)
      case hb => exact fun hf => hf.2 previous hp h List.suffix_rfl
    case isFalse =>
      split
      case isTrue h =>
        apply iff_of_false hc.symm
        exact fun hf => hf.1 (h.elim List.IsSuffix.isInfix id)
      case isFalse h =>
        have hni : ¬current <:+: previous := fun hi => h (.inr hi)
        split
        case isTrue ho =>
          have ⟨part, hne, hpre, hsuf⟩ := longestOverlap_pos.mp ho
          apply iff_of_false
          case ha => exact hshort _ ho
          case hb => exact fun hf => hf.2 part hne hpre hsuf
        case isFalse ho =>
          apply iff_of_true rfl
          constructor
          case left => exact hni
          case right => exact fun part hne hpre hsuf => ho (longestOverlap_pos.mpr ⟨part, hne, hpre, hsuf⟩)

end ModelEvents

-- How the payloads of a model's callbacks become canonical events.
namespace ModelEvents

open Python

inductive CanonicalModelEventType
  | reasoningDelta | reasoningSuppressed | textDelta
deriving DecidableEq

inductive CanonicalModelEventScope
  | assistantRoot | toolInternal | runtimeInternal
deriving DecidableEq

structure CanonicalModelEvent where
  eventType   : CanonicalModelEventType
  runId       : String
  modelRunId  : String
  scope       : CanonicalModelEventScope
  delta       : Chars
  snapshot    : Chars
  diagnostics : Dict

-- `part in text`
def occursIn (part text : String) : Bool :=
  part.toList <:+: text.toList

section Scope

variable (text : Text)

mutual

def metadataPathContainsToolNode : Json → Bool
  | .list items => anyContainsToolNode items
  | value       =>
    let path := text.lowered value
    path ≠ "" && (occursIn "supervisor_tools" path || "_tools".toList <:+ path.toList || occursIn ":tools" path)

def anyContainsToolNode : List Json → Bool
  | []            => false
  | item :: items => metadataPathContainsToolNode item || anyContainsToolNode items

end

def metadataTruthy : Json → Bool
  | .bool b => b
  | value   => ["1", "true", "yes", "y", "trusted"].contains (text.lowered value)

def metadataOf (event : Dict) : Dict :=
  match event.get "metadata" with
  | .dict metadata => metadata
  | _              => []

def tagsOf (event : Dict) : List Json :=
  match event.get "tags" with
  | .list tags => tags
  | _          => []

def scopeNamed : String → Option CanonicalModelEventScope
  | "assistant_root"   => some .assistantRoot
  | "tool_internal"    => some .toolInternal
  | "runtime_internal" => some .runtimeInternal
  | _                  => none

def scopeForEvent (event : Dict) : CanonicalModelEventScope :=
  let metadata := metadataOf event
  let explicitScope :=
    text.stripped (orElse (metadata.get "v8_model_scope") (orElse (metadata.get "model_scope") (metadata.get "scope")))
  match scopeNamed explicitScope with
  | some scope => scope
  | none       =>
    let loweredTags := (tagsOf event).map text.lowered
    let langgraphNode := text.lowered (orElse (metadata.get "langgraph_node") (metadata.get "node"))
    if loweredTags.contains "tool_internal" || loweredTags.contains "runtime_internal" then .toolInternal
    else if (metadata.get "tool_name").truthy || (metadata.get "tool_call_id").truthy ||
      (metadata.get "v8_tool_runtime").truthy then .toolInternal
    else if ["supervisor_tools", "tools", "tool", "tool_node"].contains langgraphNode ||
      "_tools".toList <:+ langgraphNode.toList then .toolInternal
    else if metadataPathContainsToolNode text (metadata.get "langgraph_path") ||
      metadataPathContainsToolNode text (metadata.get "checkpoint_ns") then .toolInternal
    else .assistantRoot

def untrustedReasoningProgressPatterns : List String :=
  ["让我", "我先", "我现在", "现在开始", "接下来", "计划已", "工具", "调用", "检查", "读取", "搜索", "创建", "写入",
   "观察", "用户想", "用户要求", "let me", "i need to", "i will", "i'll", "now i", "next i", "calling", "call the",
   "use the tool", "check", "read", "search", "create", "write"]

def looksLikeUntrustedReasoningProgress (value : String) : Bool :=
  let progress := strip value
  let lowered := text.lower progress
  progress ≠ "" &&
    (untrustedReasoningProgressPatterns.any (occursIn · lowered) ||
      progress.length ≤ 24 && !(["because", "therefore", "所以", "因为", "推理"].any (occursIn · lowered)))

end Scope

-- What the code reads off the messages of LangChain, which are the values of type `P`, and off a reasoning surface.
structure Payloads (P : Type*) where
  isChunk                   : P → Bool -- `isinstance(payload, BaseMessageChunk)`
  asText                    : P → Option Chars -- a payload that is itself a text
  extractTextAndReasoning   : P → Chars × Chars
  extractReasoningSummary   : P → Chars
  extractTypedThinkingText  : P → Chars
  normalizeReasoningSurface : Json → Dict
  evaluateReasoningPayload  : Dict → P → Dict

-- The snapshots of the texts and of the reasoning that the runtime keeps for a chat.
structure Stores where
  text      : Snapshots
  reasoning : Snapshots

-- `normalize_chat_model_stream` and `normalize_chat_model_end` with their arguments
inductive Call (P : Type*)
  | stream (event : Dict) (payload : P) (surface : Json)
  | finish (event : Dict) (payload : P) (surface : Json) (suppressReasoning : Bool) (emittedText : Chars)

namespace Call

variable {P : Type*}

def event : Call P → Dict
  | stream event ..  => event
  | finish event .. => event

def payload : Call P → P
  | stream _ payload _      => payload
  | finish _ payload _ _ _ => payload

def surface : Call P → Json
  | stream _ _ surface     => surface
  | finish _ _ surface _ _ => surface

def terminal : Call P → Bool
  | stream .. => false
  | finish .. => true

def suppressReasoning : Call P → Bool
  | stream ..                     => false
  | finish _ _ _ suppressReasoning _ => suppressReasoning

def emittedText : Call P → Chars
  | stream ..               => []
  | finish _ _ _ _ emittedText => emittedText

end Call

section Payload

variable {P : Type*} (text : Text) (payloads : Payloads P)

def trustsReasoning (event : Dict) : Bool :=
  ["v8_trusted_reasoning", "trusted_reasoning", "reasoning_trusted"].any (fun key =>
    metadataTruthy text ((metadataOf event).get key)) ||
  ((tagsOf event).map text.lowered).any
    ["v8:trusted_reasoning", "trusted_reasoning", "reasoning:trusted"].contains

def reasoningPayloadDecision (event : Dict) (payload : P) (reasoningSurface : Json) : Dict :=
  let surface := payloads.normalizeReasoningSurface reasoningSurface
  let decision := payloads.evaluateReasoningPayload surface payload
  if (decision.get "accepted").truthy then decision
  else if !(surface.get "mode").eq (.str "hidden") && trustsReasoning text event then
    decision.merge
      [("accepted", .bool true),
       ("matchedField", orElse (decision.get "matchedField") (.str "metadata.trusted_reasoning")),
       ("reasoningKind", .str (match text.orEmpty (surface.get "mode") with
          | "typed_thinking"     => "raw_thinking"
          | "reasoning_summary"  => "summary"
          | "provider_reasoning" => "provider_reasoning"
          | _                    => "hidden"))]
  else decision

-- The reasoning that may be shown of what an accepted payload carries.
def publicReasoning (decision : Dict) (payload : P) (rawReasoning : Chars) : Chars :=
  if (decision.get "reasoningKind").eq (.str "summary") then
    -- OpenAI's typed summary is public; sibling raw fields are not.
    if (decision.get "reasoningRequestStyle").eq (.str "openai_reasoning") then payloads.extractReasoningSummary payload
    -- Gemini maps public thought summaries and opaque signatures into the same typed block.
    else if (decision.get "reasoningRequestStyle").eq (.str "gemini_include_thoughts") &&
      (decision.get "matchedField").eq (.str "content[type=thinking]") then payloads.extractTypedThinkingText payload
    else []
  else rawReasoning

def suppressedDiagnostics (decision : Dict) (rawReasoning : Chars) : Dict :=
  [("reasoningSuppressed", .bool true),
   ("reason", .str "reasoning_surface_not_trusted"),
   ("surface", orElse (decision.get "reasoningSurfaceMode") (.str "hidden")),
   ("reasoningKind", .str "hidden"),
   ("reasoningSurfaceMode", orElse (decision.get "reasoningSurfaceMode") (.str "hidden")),
   ("reasoningSurfaceTrust", orElse (decision.get "reasoningSurfaceTrust") (.str "unknown")),
   ("reasoningDisplayKind", orElse (decision.get "reasoningDisplayKind") (.str "hidden")),
   ("matchedField", orElse (decision.get "matchedField") (.str "")),
   ("looksLikeProgress", .bool (looksLikeUntrustedReasoningProgress text (String.ofList rawReasoning)))]

def reasoningDiagnostics (decision : Dict) : Dict :=
  [("trustedReasoning", .bool true),
   ("reasoningKind", orElse (decision.get "reasoningKind") (.str "provider_reasoning")),
   ("reasoningSurfaceMode", decision.get "reasoningSurfaceMode"),
   ("reasoningSurfaceTrust", decision.get "reasoningSurfaceTrust"),
   ("reasoningDisplayKind", decision.get "reasoningDisplayKind"),
   ("reasoningRequestStyle", decision.get "reasoningRequestStyle"),
   ("matchedField", decision.get "matchedField"),
   ("reasoningUnverified", .bool (decision.get "reasoningUnverified").truthy),
   ("reasoningSurface", orElse (decision.get "reasoningSurface") (.dict []))]

def mergeTerminalText (previous current emittedText : Chars) : (Chars × Chars) × Dict :=
  if current = [] then (([], previous), [])
  else if previous = [] then
    if current <:+: emittedText then (([], current), []) else ((current, current), [])
  else if current = previous then (([], current), [])
  else if previous <+: current then ((current.drop previous.length, current), [])
  -- A completed response is authoritative even when shorter or partly overlapping.
  else ((current, current), [("terminalTextCorrection", .bool true), ("previousRunTextChars", .int previous.length)])

def consumeTerminalText (snapshots : Snapshots) (modelRunId : String) (rawValue emittedText : Chars) :
    ((Chars × Chars) × Dict) × Snapshots :=
  let runKey := normalizedModelRunId modelRunId
  let merged := mergeTerminalText (snapshots runKey) rawValue emittedText
  (merged, Function.update snapshots runKey merged.1.2)

def consumeText (call : Call P) (snapshots : Snapshots) (modelRunId : String) (rawText : Chars) :
    ((Chars × Chars) × Dict) × Snapshots :=
  if call.terminal then consumeTerminalText snapshots modelRunId rawText call.emittedText
  else if payloads.isChunk call.payload then
    -- LangChain chunks are additive, including repeated tokens.
    let runKey := normalizedModelRunId modelRunId
    let textSnapshot := snapshots runKey ++ rawText
    (((rawText, textSnapshot), [("textStreamMode", .str "delta")]), Function.update snapshots runKey textSnapshot)
  else
    let consumed := consumeCanonicalStreamValue snapshots modelRunId rawText false
    ((consumed.1, []), consumed.2)

def normalizeText (call : Call P) (runId modelRunId : String) (rawText : Chars) (snapshots : Snapshots) :
    Snapshots × List CanonicalModelEvent :=
  if rawText = [] then (snapshots, [])
  else
    let consumed := consumeText payloads call snapshots modelRunId rawText
    (consumed.2,
      if consumed.1.1.1 = [] then []
      else [⟨.textDelta, runId, modelRunId, .assistantRoot, consumed.1.1.1, consumed.1.1.2, consumed.1.2⟩])

def normalizeReasoning (call : Call P) (runId modelRunId : String) (rawReasoning : Chars) (snapshots : Snapshots) :
    Snapshots × List CanonicalModelEvent :=
  let decision := reasoningPayloadDecision text payloads call.event call.payload call.surface
  if !(decision.get "accepted").truthy then
    let consumed :=
      consumeCanonicalStreamValue snapshots ("__suppressed__::" ++ normalizedModelRunId modelRunId) rawReasoning true
    (consumed.2,
      if consumed.1.1 = [] then []
      else [⟨.reasoningSuppressed, runId, modelRunId, .assistantRoot, consumed.1.1, consumed.1.2,
        suppressedDiagnostics text decision rawReasoning⟩])
  else
    let reasoning := publicReasoning payloads decision call.payload rawReasoning
    if reasoning = [] then (snapshots, [])
    else
      let consumed := consumeCanonicalStreamValue snapshots modelRunId reasoning true
      (consumed.2,
        if consumed.1.1 = [] then []
        else [⟨.reasoningDelta, runId, modelRunId, .assistantRoot, consumed.1.1, consumed.1.2,
          reasoningDiagnostics decision⟩])

-- The text and the reasoning of a call's payload
def rawText (call : Call P) : Chars :=
  let extracted := (payloads.extractTextAndReasoning call.payload).1
  if extracted = [] then (payloads.asText call.payload).getD [] else extracted

def rawReasoning (call : Call P) : Chars :=
  (payloads.extractTextAndReasoning call.payload).2

def modelRunId (call : Call P) : String :=
  text.stripped (call.event.get "run_id")

-- `_normalize_chat_model_payload`
def normalize (call : Call P) : Emission Stores CanonicalModelEvent := fun stores =>
  let runId := text.stripped (orElse (call.event.get "parent_run_id") (call.event.get "run_id"))
  let modelRunId := modelRunId text call
  if scopeForEvent text call.event ≠ .assistantRoot then (stores, [])
  else
    let rawText := rawText payloads call
    let rawReasoning := rawReasoning payloads call
    let texts := normalizeText payloads call runId modelRunId rawText stores.text
    -- A terminal payload can be the first and only provider response.
    let streamed := call.terminal && rawText ≠ [] && stores.reasoning (normalizedModelRunId modelRunId) ≠ []
    if rawReasoning = [] || call.suppressReasoning || streamed then (⟨texts.1, stores.reasoning⟩, texts.2)
    else
      let reasonings := normalizeReasoning text payloads call runId modelRunId rawReasoning stores.reasoning
      (⟨texts.1, reasonings.1⟩, texts.2 ++ reasonings.2)

end Payload
end ModelEvents
