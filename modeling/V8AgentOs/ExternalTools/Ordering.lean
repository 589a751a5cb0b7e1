import V8AgentOs.ExternalTools.Messages
import V8AgentOs.Lib.Replies

-- What the chat messages of a client keep of its messages
namespace ExternalTools

open Python Replies

-- An assistant message has a call with the id of a tool message.
def Calls (a m : ChatMessage) : Prop :=
  a.role = "assistant" ∧ m.toolCallId.isSome ∧ ∃ call ∈ a.toolCalls, call.id = m.toolCallId

-- A message, and what follows it, one message after another
def withFollowups (messages : List ChatMessage) : List ChatMessage :=
  messages.flatMap (·.withFollowup)

-- What a list of messages becomes: the messages are in order, and only the tool results are followed by a message of
-- the user each.
structure Ordered (messages result : List ChatMessage) : Prop where
  shape  : result = withFollowups messages
  tools  : result.filter (·.isTool) = messages.filter (·.isTool)
  calls  : result.flatMap (·.toolCalls) = messages.flatMap (·.toolCalls)
  direct : Direct (·.isTool) Calls messages → DirectUpTo (·.isTool) Calls (·.followup) result

variable {text : Text} {wireToInternal names : List (String × String)} {limits : MessageLimits} {total : ℕ}
  {messages result : List ChatMessage} {m a : ChatMessage}

theorem isTool_followup : m.followup.isTool = false := by
  rfl

theorem withFollowup_of_not (h : m.isTool = false) : m.withFollowup = [m] := by
  simp [ChatMessage.withFollowup, h]

theorem withFollowups_append (messages after : List ChatMessage) :
    withFollowups (messages ++ after) = withFollowups messages ++ withFollowups after :=
  List.flatMap_append

theorem ordered_withFollowups (messages : List ChatMessage) : Ordered messages (withFollowups messages) where
  shape  := rfl
  tools  := by
    induction messages
    case nil => rfl
    case cons m messages hi =>
      have hcons : withFollowups (m :: messages) = m.withFollowup ++ withFollowups messages := rfl
      rw [hcons, List.filter_append, hi, List.filter_cons]
      cases hm : m.isTool <;> simp [ChatMessage.withFollowup, hm, isTool_followup]
  calls  := by
    induction messages
    case nil => rfl
    case cons m messages hi =>
      have hcons : withFollowups (m :: messages) = m.withFollowup ++ withFollowups messages := rfl
      rw [hcons, List.flatMap_append, hi, List.flatMap_cons]
      cases hm : m.isTool <;> simp [ChatMessage.withFollowup, hm, ChatMessage.followup]
  direct := by
    intro h
    apply DirectUpTo.of_direct h
    case hremark => simp [isTool_followup]
    case hasks =>
      intro a m ha
      simp [ChatMessage.isTool, ha.1]

theorem totalTokens_append (messages after : List ChatMessage) :
    totalTokens (messages ++ after) = totalTokens messages + totalTokens after := by
  simp [totalTokens]

namespace Openai

-- The messages that the loop does not skip
def accepted (text : Text) (raws : List Json) : List Dict :=
  raws.filterMap fun
    | .dict raw => if accepts text raw then some raw else none
    | _         => none

theorem of_normalizeFrom {raws : List Json} (h : normalizeFrom text wireToInternal limits total raws = .ok result) :
    result = withFollowups ((accepted text raws).map (message text wireToInternal)) ∧
      (accepted text raws ≠ [] →
        total + totalTokens ((accepted text raws).map (message text wireToInternal)) ≤ limits.messageTokens) := by
  induction raws generalizing total result
  case nil =>
    cases h
    exact ⟨rfl, fun h => absurd rfl h⟩
  case cons raw raws hi =>
    cases raw
    case dict raw =>
      unfold normalizeFrom at h
      dsimp only at h
      cases ha : accepts text raw
      case false =>
        have hskip : accepted text (.dict raw :: raws) = accepted text raws := by simp [accepted, ha]
        rw [ha] at h
        rw [hskip]
        exact hi h
      case true =>
        have hkeep : accepted text (.dict raw :: raws) = raw :: accepted text raws := by simp [accepted, ha]
        rw [ha] at h
        rw [hkeep]
        simp only [Bool.not_true, Bool.false_eq_true, if_false] at h
        split_ifs at h with hsystem hlimit hcalls
        cases hrest : normalizeFrom text wireToInternal limits (total + (message text wireToInternal raw).tokens) raws
        case error => simp [hrest, Except.map] at h
        case ok rest =>
          have ⟨hshape, hbudget⟩ := hi hrest
          simp only [hrest, Except.map, Except.ok.injEq] at h
          constructor
          case left =>
            rw [← h, hshape]
            rfl
          case right =>
            intro _
            have hcons : totalTokens ((raw :: accepted text raws).map (message text wireToInternal)) =
                (message text wireToInternal raw).tokens +
                  totalTokens ((accepted text raws).map (message text wireToInternal)) := rfl
            rw [hcons]
            by_cases hnil : accepted text raws = []
            case pos =>
              have hzero : totalTokens ((accepted text raws).map (message text wireToInternal)) = 0 := by
                rw [hnil]
                rfl
              push_cast
              push_cast at hlimit
              omega
            case neg =>
              have hbudget := hbudget hnil
              push_cast at hbudget ⊢
              omega
    all_goals exact hi h

end Openai

namespace Anthropic

-- The messages that a raw message gives, without what follows the tool results
def translate (text : Text) (wireToInternal names : List (String × String)) (raw : Dict) : List ChatMessage :=
  if role text raw = "assistant" then [assistantMessage text wireToInternal raw]
  else if role text raw = "user" then (blocks raw).filterMap (toolResult text names) ++ userMessage text raw
  else []

def translated (text : Text) (wireToInternal : List (String × String)) :
    List (String × String) → List Dict → List ChatMessage
  | _, []            => []
  | names, raw :: raws =>
    translate text wireToInternal names raw ++ translated text wireToInternal
      (if role text raw = "assistant" then nameTools text wireToInternal names raw else names) raws

theorem isTool_assistantMessage {raw : Dict} : (assistantMessage text wireToInternal raw).isTool = false := by
  rfl

theorem isTool_userMessage {raw : Dict} : ∀ m ∈ userMessage text raw, m.isTool = false := by
  unfold userMessage
  dsimp only
  split_ifs
  case pos => simp
  case neg =>
    intro m hm
    rw [List.mem_singleton.mp hm]
    rfl

theorem isTool_toolResult {block : Json} (h : toolResult text names block = some m) : m.isTool := by
  unfold toolResult at h
  split at h
  case h_1 block =>
    split_ifs at h
    cases h
    rfl
  case h_2 => cases h

theorem withFollowups_of_not (h : ∀ m ∈ messages, m.isTool = false) : withFollowups messages = messages := by
  induction messages
  case nil => rfl
  case cons m messages hi =>
    have hcons : withFollowups (m :: messages) = m.withFollowup ++ withFollowups messages := rfl
    rw [hcons, withFollowup_of_not (h m List.mem_cons_self), hi fun x hx => h x (List.mem_cons_of_mem _ hx)]
    rfl

theorem of_normalizeFrom {raws : List Dict}
    (h : normalizeFrom text wireToInternal limits names total raws = .ok result) :
    result = withFollowups (translated text wireToInternal names raws) ∧
      ∀ before raw after, raws = before ++ raw :: after → role text raw = "user" →
        total + totalTokens (withFollowups (translated text wireToInternal names (before ++ [raw]))) ≤
          limits.messageTokens := by
  induction raws generalizing names total result
  case nil =>
    cases h
    exact ⟨rfl, by simp⟩
  case cons raw raws hi =>
    -- What the loop adds for this message, and with which names and count it goes on
    have hstep : ∃ rest names', translated text wireToInternal names (raw :: raws) =
          translate text wireToInternal names raw ++ translated text wireToInternal names' raws ∧
        (∀ before, translated text wireToInternal names (raw :: before) =
          translate text wireToInternal names raw ++ translated text wireToInternal names' before) ∧
        normalizeFrom text wireToInternal limits names'
          (total + totalTokens (withFollowups (translate text wireToInternal names raw))) raws = .ok rest ∧
        result = withFollowups (translate text wireToInternal names raw) ++ rest ∧
        (role text raw = "user" →
          total + totalTokens (withFollowups (translate text wireToInternal names raw)) ≤ limits.messageTokens) := by
      unfold normalizeFrom at h
      dsimp only at h
      by_cases hassistant : role text raw = "assistant"
      case pos =>
        have htranslate : withFollowups (translate text wireToInternal names raw) =
            [assistantMessage text wireToInternal raw] := by
          rw [translate, if_pos hassistant]
          rfl
        rw [if_pos hassistant] at h
        rw [htranslate]
        generalize hrest : normalizeFrom _ _ _ _ _ _ = rest at h
        cases rest
        case error => cases h
        case ok rest =>
          refine ⟨rest, _, rfl, fun _ => rfl, ?_, ?_, ?_⟩
          case refine_1 =>
            rw [if_pos hassistant]
            exact hrest
          case refine_2 => exact (Except.ok.inj h).symm
          case refine_3 =>
            intro huser
            rw [hassistant] at huser
            exact absurd huser (by decide)
      case neg =>
        by_cases huser : role text raw = "user"
        case pos =>
          have htranslate : withFollowups (translate text wireToInternal names raw) =
              ((blocks raw).filterMap (toolResult text names)).flatMap (·.withFollowup) ++ userMessage text raw := by
            rw [translate, if_neg hassistant, if_pos huser, withFollowups_append,
              withFollowups_of_not isTool_userMessage]
            rfl
          rw [if_neg hassistant, if_pos huser] at h
          rw [htranslate]
          split_ifs at h with hlimit
          generalize hrest : normalizeFrom _ _ _ _ _ _ = rest at h
          cases rest
          case error => cases h
          case ok rest =>
            refine ⟨rest, _, rfl, fun _ => rfl, ?_, (Except.ok.inj h).symm, ?_⟩
            case refine_1 =>
              rw [if_neg hassistant]
              exact hrest
            case refine_2 =>
              intro _
              push_cast at hlimit
              omega
        case neg =>
          have htranslate : translate text wireToInternal names raw = [] := by
            rw [translate, if_neg hassistant, if_neg huser]
          rw [if_neg hassistant, if_neg huser] at h
          refine ⟨result, _, rfl, fun _ => rfl, ?_, ?_, fun h => absurd h huser⟩
          case refine_1 =>
            rw [if_neg hassistant, htranslate]
            exact h
          case refine_2 =>
            rw [htranslate]
            rfl
    obtain ⟨rest, names', hraws, hbefores, hrest, hresult, hown⟩ := hstep
    have ⟨hshape, hbudget⟩ := hi hrest
    constructor
    case left => rw [hraws, hresult, hshape, withFollowups_append]
    case right =>
      intro before last after heq huser
      cases before
      case nil =>
        rw [List.nil_append, List.cons.injEq] at heq
        obtain ⟨rfl, -⟩ := heq
        have hsingle := hbefores []
        rw [translated, List.append_nil] at hsingle
        rw [List.nil_append, hsingle]
        exact hown huser
      case cons first before =>
        rw [List.cons_append, List.cons.injEq] at heq
        obtain ⟨rfl, heq⟩ := heq
        have hbudget := hbudget before last after heq huser
        rw [List.cons_append, hbefores, withFollowups_append, totalTokens_append]
        push_cast at hbudget ⊢
        omega

-- The ids of the tool results in a message, and of the calls in one
def resultIds (text : Text) (raw : Dict) : List (Option String) :=
  ((blocks raw).filterMap (toolResult text [])).map (·.toolCallId)

def callIds (text : Text) (raw : Dict) : List (Option String) :=
  (assistantMessage text [] raw).toolCalls.map (·.id)

-- The results in a message of the user answer calls in the message before it, which is one of the assistant.
def AnsweredFrom (text : Text) : Option Dict → List Dict → Prop
  | _, []               => True
  | previous, raw :: raws =>
    if role text raw = "assistant" then AnsweredFrom text (some raw) raws
    else if role text raw = "user" then
      (∀ id ∈ resultIds text raw, id.isSome ∧ ∃ asked, previous = some asked ∧ role text asked = "assistant" ∧
        id ∈ callIds text asked) ∧ AnsweredFrom text (some raw) raws
    else AnsweredFrom text previous raws

-- The names of the tools make no difference to the ids.
theorem toolCallId_toolResult (text : Text) (names : List (String × String)) (block : Json) :
    (toolResult text names block).map (·.toolCallId) = (toolResult text [] block).map (·.toolCallId) := by
  unfold toolResult
  split
  case h_1 block => split_ifs <;> rfl
  case h_2 => rfl

theorem id_toolUse (text : Text) (wireToInternal : List (String × String)) (block : Json) :
    (toolUse text wireToInternal block).map (·.id) = (toolUse text [] block).map (·.id) := by
  unfold toolUse
  split
  case h_1 block =>
    dsimp only
    split_ifs <;> rfl
  case h_2 => rfl

theorem mem_resultIds {raw : Dict} (h : m ∈ (blocks raw).filterMap (toolResult text names)) :
    m.toolCallId ∈ resultIds text raw := by
  unfold resultIds
  rw [List.map_filterMap]
  obtain ⟨block, hblock, hm⟩ := List.mem_filterMap.mp h
  apply List.mem_filterMap.mpr
  refine ⟨block, hblock, ?_⟩
  rw [← toolCallId_toolResult text names, hm]
  rfl

theorem mem_callIds {raw : Dict} {id : Option String} (h : id ∈ callIds text raw) :
    ∃ call ∈ (assistantMessage text wireToInternal raw).toolCalls, call.id = id := by
  unfold callIds assistantMessage at h
  dsimp only at h
  rw [List.map_filterMap] at h
  obtain ⟨block, hblock, hid⟩ := List.mem_filterMap.mp h
  rw [← id_toolUse text wireToInternal] at hid
  obtain ⟨call, hcall, hid⟩ := Option.map_eq_some_iff.mp hid
  exact ⟨call, List.mem_filterMap.mpr ⟨block, hblock, hcall⟩, hid⟩

-- The results of a message stand right behind the calls of the message before it.
theorem direct_translated {raws : List Dict} {previous : Option Dict} (h : Direct (·.isTool) Calls messages)
    (hp : ∀ asked, previous = some asked → role text asked = "assistant" →
      ∃ earlier, messages = earlier ++ [assistantMessage text wireToInternal asked])
    (ha : AnsweredFrom text previous raws) :
    Direct (·.isTool) Calls (messages ++ translated text wireToInternal names raws) := by
  induction raws generalizing messages previous names
  case nil => rwa [translated, List.append_nil]
  case cons raw raws hi =>
    rw [translated, ← List.append_assoc]
    unfold AnsweredFrom at ha
    by_cases hassistant : role text raw = "assistant"
    case pos =>
      rw [if_pos hassistant] at ha
      rw [translate, if_pos hassistant]
      refine hi ?h ?hp ha
      case h =>
        apply h.append
        simp [isTool_assistantMessage]
      case hp =>
        rintro asked heq -
        cases heq
        exact ⟨messages, rfl⟩
    case neg =>
      rw [if_neg hassistant] at ha
      by_cases huser : role text raw = "user"
      case neg =>
        rw [if_neg huser] at ha
        rw [translate, if_neg hassistant, if_neg huser, List.append_nil]
        exact hi h hp ha
      case pos =>
        rw [if_pos huser] at ha
        rw [translate, if_neg hassistant, if_pos huser, ← List.append_assoc]
        refine hi ?h ?hp ha.2
        case hp =>
          rintro asked heq hasked
          cases heq
          exact absurd hasked hassistant
        case h =>
          apply Direct.append
          case hafter => simpa using isTool_userMessage
          case h =>
            cases hresults : (blocks raw).filterMap (toolResult text names)
            case nil => rwa [List.append_nil]
            case cons first rest =>
              -- There is a result, so the message before is one of the assistant.
              have hanswers := ha.1
              have hid (m : ChatMessage) (hm : m ∈ (blocks raw).filterMap (toolResult text names)) :=
                hanswers m.toolCallId (mem_resultIds hm)
              obtain ⟨-, asked, hprevious, hasked, -⟩ := hid first (by simp [hresults])
              obtain ⟨earlier, hmessages⟩ := hp asked hprevious hasked
              rw [hmessages] at h ⊢
              apply h.answer
              intro m hm
              rw [← hresults] at hm
              obtain ⟨block, -, hblock⟩ := List.mem_filterMap.mp hm
              obtain ⟨hsome, asked', hprevious', -, hcall⟩ := hid m hm
              rw [hprevious] at hprevious'
              cases hprevious'
              exact ⟨isTool_toolResult hblock, rfl, hsome, mem_callIds hcall⟩

end Anthropic

-- The messages that an Anthropic payload gives, without what follows the tool results
def anthropicMessages (text : Text) (wireToInternal : List (String × String)) (payload : Dict) (raws : List Dict) :
    List ChatMessage :=
  Anthropic.systemMessage text payload ++ Anthropic.translated text wireToInternal [] raws

-- Both functions keep the messages in order, with each tool result as one tool message and a message of the user
-- behind it. Without the latter, or up to the last message of the user, the contents keep to the limit.
theorem normalized_messages (text : Text) (tools : List ExternalToolSpec) (limits : MessageLimits) :
    (∀ raws result, normalizeOpenaiMessagesToChatMessages text raws tools limits = .ok result →
      ∃ messages, messages = (Openai.accepted text raws).map
          (Openai.message text (buildExternalToolAliasMaps text tools).wireToInternal) ∧
        Ordered messages result ∧ (messages ≠ [] → totalTokens messages ≤ limits.messageTokens)) ∧
    ∀ payload result, normalizeAnthropicMessagesToChatMessages text payload tools limits = .ok result →
      ∃ raws messages, iterated (payload.get "messages") = some raws ∧
        messages = anthropicMessages text (buildExternalToolAliasMaps text tools).wireToInternal payload raws ∧
        Ordered messages result ∧
        (Anthropic.AnsweredFrom text none raws → Direct (·.isTool) Calls messages) ∧
        ∀ before raw after, raws = before ++ raw :: after → Anthropic.role text raw = "user" →
          totalTokens (withFollowups (anthropicMessages text (buildExternalToolAliasMaps text tools).wireToInternal
            payload (before ++ [raw]))) ≤ limits.messageTokens := by
  constructor
  case left =>
    intro raws result h
    have ⟨hshape, hbudget⟩ := Openai.of_normalizeFrom h
    refine ⟨_, rfl, ?_, ?_⟩
    case refine_1 =>
      rw [hshape]
      exact ordered_withFollowups _
    case refine_2 =>
      intro hne
      have hbudget := hbudget fun hnil => hne (by rw [hnil]; rfl)
      simpa using hbudget
  case right =>
    intro payload result h
    unfold normalizeAnthropicMessagesToChatMessages at h
    dsimp only at h
    split_ifs at h
    cases hraws : iterated (payload.get "messages")
    case none => simp [hraws] at h
    case some raws =>
      simp only [hraws] at h
      have hsystem : ∀ m ∈ Anthropic.systemMessage text payload, m.isTool = false := by
        unfold Anthropic.systemMessage
        dsimp only
        split_ifs
        case pos => simp
        case neg =>
          intro m hm
          rw [List.mem_singleton.mp hm]
          rfl
      generalize hloop : Anthropic.normalizeFrom _ _ _ _ _ _ = loop at h
      cases loop
      case error => cases h
      case ok rest =>
        have ⟨hshape, hbudget⟩ := Anthropic.of_normalizeFrom hloop
        have hresult : withFollowups (anthropicMessages text (buildExternalToolAliasMaps text tools).wireToInternal
            payload raws) = result := by
          rw [anthropicMessages, withFollowups_append, Anthropic.withFollowups_of_not hsystem, ← hshape]
          exact Except.ok.inj h
        refine ⟨raws, _, rfl, rfl, ?ordered, ?direct, ?budget⟩
        case ordered =>
          rw [← hresult]
          exact ordered_withFollowups _
        case direct =>
          intro ha
          have hdirect : Direct (·.isTool) Calls (Anthropic.systemMessage text payload) := by
            rw [← List.nil_append (Anthropic.systemMessage text payload)]
            exact direct_nil.append (by simpa using hsystem)
          exact Anthropic.direct_translated hdirect (by simp) ha
        case budget =>
          intro before raw after heq huser
          have hbudget := hbudget before raw after heq huser
          rw [anthropicMessages, withFollowups_append, Anthropic.withFollowups_of_not hsystem, totalTokens_append]
          push_cast at hbudget ⊢
          exact hbudget

def openaiCall (id : String) : Json :=
  .dict [("id", .str id), ("function", .dict [("name", .str "Read")])]

def openaiResult (id : String) : Json :=
  .dict [("role", .str "tool"), ("tool_call_id", .str id), ("content", .str "ok")]

-- Two parallel calls, answered together
def parallelCalls : List Json :=
  [.dict [("role", .str "assistant"), ("tool_calls", .list [openaiCall "a", openaiCall "b"])],
    openaiResult "a", openaiResult "b"]

-- A text before a tool result in one message of the user
def anthropicPayload : Dict :=
  [("messages", .list [
    .dict [("role", .str "assistant"), ("content", .list [
      .dict [("type", .str "tool_use"), ("id", .str "a"), ("name", .str "Read")]])],
    .dict [("role", .str "user"), ("content", .list [
      .dict [("type", .str "text"), ("text", .str "x")],
      .dict [("type", .str "tool_result"), ("tool_use_id", .str "a"), ("content", .str "ok")]])]])]

theorem followup_tokens (m : ChatMessage) : 7 ≤ m.followup.tokens := by
  have hhead : ("[EXTERNAL TOOL RESULT RECEIVED]\n".toList.countP fun c => !isCjk c && !isSpace c) = 28 := by decide
  unfold ChatMessage.tokens ChatMessage.followup externalToolResultFollowupText estimatePromptTokens
  simp only [String.toList_append, List.countP_append, hhead]
  omega

theorem totalTokens_withFollowups (hm : m ∈ messages) (htool : m.isTool) :
    7 ≤ totalTokens (withFollowups messages) := by
  obtain ⟨before, after, rfl⟩ := List.append_of_mem hm
  have hcons : withFollowups (m :: after) = [m] ++ ([m.followup] ++ withFollowups after) := by
    have hself : m.withFollowup = [m] ++ [m.followup] := by simp [ChatMessage.withFollowup, htool]
    rw [← List.append_assoc, ← hself]
    rfl
  have hfollowup : totalTokens [m.followup] = m.followup.tokens := by simp [totalTokens]
  have hseven := followup_tokens m
  rw [withFollowups_append, hcons, totalTokens_append, totalTokens_append, totalTokens_append, hfollowup]
  omega

-- The message behind the first result parts the second one from the calls, the messages behind tool results do not
-- count for the limit, and texts of the user move behind tool results.
theorem normalized_messages_fails :
    (∃ result, normalizeOpenaiMessagesToChatMessages asciiText parallelCalls [] { messageTokens := 6 } = .ok result ∧
      Direct (·.isTool) Calls ((Openai.accepted asciiText parallelCalls).map (Openai.message asciiText [])) ∧
      ¬Direct (·.isTool) Calls result ∧ 6 < totalTokens result) ∧
    (normalizeAnthropicMessagesToChatMessages asciiText anthropicPayload [] {}).toOption.map
      (fun result => (result.map (·.role), result.getLast?.map (·.content))) =
        some (["assistant", "tool", "user", "user"], some "x") := by
  constructor
  case right => decide +kernel
  case left =>
    have hok : (normalizeOpenaiMessagesToChatMessages asciiText parallelCalls [] { messageTokens := 6 }).isOk := by
      decide +kernel
    cases h : normalizeOpenaiMessagesToChatMessages asciiText parallelCalls [] { messageTokens := 6 }
    case error => simp [h, Except.isOk, Except.toBool] at hok
    case ok result =>
      have hshape := (Openai.of_normalizeFrom h).1
      have hmaps : (buildExternalToolAliasMaps asciiText []).wireToInternal = [] := rfl
      rw [hmaps] at hshape
      have hflags : ((Openai.accepted asciiText parallelCalls).map (Openai.message asciiText [])).map (·.isTool) =
          [false, true, true] := by
        decide +kernel
      have hcalls : (((Openai.accepted asciiText parallelCalls).map (Openai.message asciiText [])).map fun m =>
          (m.role, m.toolCallId, m.toolCalls.map (·.id))) =
            [("assistant", none, [some "a", some "b"]), ("tool", some "a", []), ("tool", some "b", [])] := by
        decide +kernel
      generalize (Openai.accepted asciiText parallelCalls).map (Openai.message asciiText []) = messages at *
      -- The assistant's message and the two results
      obtain ⟨a, first, second, rfl⟩ : ∃ a first second, messages = [a, first, second] :=
        List.length_eq_three.mp (by simpa using congrArg List.length hflags)
      simp only [List.map_cons, List.map_nil, List.cons.injEq, and_true, Prod.mk.injEq] at hflags hcalls
      obtain ⟨ha, hfirst, hsecond⟩ := hflags
      obtain ⟨hrole, hids⟩ : a.role = "assistant" ∧ a.toolCalls.map (·.id) = [some "a", some "b"] :=
        ⟨hcalls.1.1, hcalls.1.2.2⟩
      have hasked (m : ChatMessage) (id : String) (hid : m.toolCallId = some id)
          (hmem : some id ∈ a.toolCalls.map (·.id)) : Calls a m := by
        obtain ⟨call, hcall, heq⟩ := List.mem_map.mp hmem
        exact ⟨hrole, by simp [hid], call, hcall, heq.trans hid.symm⟩
      have hresult : result = [a, first] ++ [first.followup] ++ second :: [second.followup] := by
        rw [hshape]
        simp [withFollowups, ChatMessage.withFollowup, ha, hfirst, hsecond]
      refine ⟨result, rfl, ?direct, ?parted, ?tokens⟩
      case direct =>
        have halone : Direct (·.isTool) Calls ([] ++ [a]) := direct_nil.append (by simp [ha])
        have hanswered : Direct (·.isTool) Calls ([] ++ [a] ++ [first, second]) := by
          apply halone.answer
          intro m hm
          cases List.mem_pair.mp hm
          case inl heq => exact heq ▸ ⟨hfirst, hasked first "a" hcalls.2.1.2.1 (by simp [hids])⟩
          case inr heq => exact heq ▸ ⟨hsecond, hasked second "b" hcalls.2.2.2.1 (by simp [hids])⟩
        exact hanswered
      case parted =>
        intro hdirect
        obtain ⟨earlier, x, between, heq, hx, hbetween⟩ := hdirect _ _ _ hresult hsecond
        cases List.eq_nil_or_concat between
        case inl hnil =>
          rw [hnil] at heq
          have hlast := List.append_inj_right' heq rfl
          rw [← List.singleton_inj.mp hlast] at hx
          exact absurd hx.1 (by simp [ChatMessage.followup])
        case inr hconcat =>
          obtain ⟨inner, y, rfl⟩ := hconcat
          rw [List.concat_eq_append, ← List.cons_append, ← List.append_assoc] at heq
          have hlast := List.append_inj_right' heq rfl
          have hy : y.isTool := (hbetween y (by simp)).1
          rw [← List.singleton_inj.mp hlast] at hy
          cases hy
      case tokens =>
        rw [hshape]
        exact totalTokens_withFollowups (m := first) (by simp) hfirst

end ExternalTools
