import Mathlib.Data.List.Forall2
import V8AgentOs.ExternalTools.Maps

-- runtimes/network_supervisor/openai_compat.py, anthropic_compat.py: the calls of external tools in the events of a run
namespace ExternalTools

open Python Lookup

-- What the calls take from elsewhere: `json.loads` of a text, if it can be decoded, and `hashlib.sha1` of its UTF-8
-- in hexadecimal digits
structure WireHost extends Host where
  loads : String → Option Json
  sha1  : String → String

structure ToolCall where
  id        : String
  type      : String
  name      : String
  arguments : String

structure ToolUse where
  type  : String
  id    : String
  name  : String
  input : Json

namespace WireHost

variable (host : WireHost)

-- The digest in the ids that a client gets
def wireDigest (internalToolCallId wireName : String) : String :=
  let trimmed := strip internalToolCallId
  take 24 (host.sha1 (if trimmed = "" then wireName ++ ":call" else trimmed))

def wireToolCallId (internalToolCallId wireName : String) : String :=
  "call_" ++ host.wireDigest internalToolCallId wireName

def anthropicWireToolUseId (internalToolCallId wireName : String) : String :=
  "toolu_" ++ host.wireDigest internalToolCallId wireName

-- `dict(event.get("tool") or {})`, which raises for a text or a number. A list of pairs, which it takes as well, is in
-- none of the engine's events.
def toolOf : Json → Option Dict
  | .dict members => some members
  | value         => if value.truthy then none else some []

-- `parsed_args or {}`
def parsedArgs (args : Json) : Json :=
  let parsed := match args with
    | .str raw      => (host.loads raw).getD (.dict [("input", .str raw)])
    | .dict members => .dict members
    | _             => .dict []
  if parsed.truthy then parsed else .dict []

-- Whether the event is one that the extractions look at
def isToolStart (event : Dict) : Bool :=
  host.text.stripped (event.get "type") = "tool_start"

variable {α : Type}

-- The loop of both extractions. An exception of `dict` leaves no result.
def extractFrom (internalToWire : List (String × String)) (wireId : String → String → String)
    (build : String → String → Json → α) : List String → List Json → Option (List α)
  | _, []                        => some []
  | seenIds, .dict event :: events =>
    if !host.isToolStart event then extractFrom internalToWire wireId build seenIds events
    else
      match toolOf (Dict.get event "tool") with
      | none      => none
      | some tool =>
        match internalToWire.lookup (host.text.stripped (tool.get "toolName")) with
        | none          => extractFrom internalToWire wireId build seenIds events
        | some wireName =>
          if wireName = "" then extractFrom internalToWire wireId build seenIds events
          else
            let id := wireId (host.text.stripped (tool.get "toolCallId")) wireName
            if id ∈ seenIds then extractFrom internalToWire wireId build seenIds events
            else (extractFrom internalToWire wireId build (id :: seenIds) events).map
              (build id wireName (host.parsedArgs (tool.get "args")) :: ·)
  | seenIds, _ :: events           => extractFrom internalToWire wireId build seenIds events

def extractExternalToolCallsFromEvents (events : List Json) (externalTools : List ExternalToolSpec) :
    Option (List ToolCall) :=
  host.extractFrom (buildExternalToolAliasMaps host.text externalTools).internalToWire host.wireToolCallId
    (fun id wireName args => ⟨id, "function", wireName, String.ofList (args.write .plain)⟩) [] events

def extractAnthropicToolUseBlocksFromEvents (events : List Json) (externalTools : List ExternalToolSpec) :
    Option (List ToolUse) :=
  host.extractFrom (buildExternalToolAliasMaps host.text externalTools).internalToWire host.anthropicWireToolUseId
    (fun id wireName args => ⟨"tool_use", id, wireName, args⟩) [] events

-- The tool that an event starts
def started : Json → Option Dict
  | .dict event => if host.isToolStart event then toolOf (Dict.get event "tool") else none
  | _           => none

-- The external tools that the events start, with what the events say of them
def starts (tools : List ExternalToolSpec) (events : List Json) : List (ExternalToolSpec × Dict) :=
  events.filterMap fun event => (host.started event).bind fun tool =>
    (tools.find? fun item => host.text.stripped (tool.get "toolName") == item.internalAlias).map
      fun item => (item, tool)

def callId (start : ExternalToolSpec × Dict) : String :=
  host.text.stripped (start.2.get "toolCallId")

-- The tool of every `tool_start` event is an object, or missing.
def Sound (events : List Json) : Prop :=
  ∀ event : Dict, .dict event ∈ events → host.isToolStart event → (toolOf (event.get "tool")).isSome

-- The call ids are there and differ.
structure Distinct (starts : List (ExternalToolSpec × Dict)) : Prop where
  nodup    : (starts.map host.callId).Nodup
  nonempty : ∀ start ∈ starts, host.callId start ≠ ""

-- No two of the call ids have one digest.
def NoCollision (starts : List (ExternalToolSpec × Dict)) : Prop :=
  ∀ start ∈ starts, ∀ other ∈ starts,
    take 24 (host.sha1 (host.callId start)) = take 24 (host.sha1 (host.callId other)) →
      host.callId start = host.callId other

-- A call and a block that answer the start of a tool
structure Answers (start : ExternalToolSpec × Dict) (answer : ToolCall × ToolUse) : Prop where
  ids     : answer.1.id = "call_" ++ take 24 (host.sha1 (host.callId start)) ∧
    answer.2.id = "toolu_" ++ take 24 (host.sha1 (host.callId start))
  names   : answer.1.name = start.1.wireName ∧ answer.2.name = start.1.wireName
  same    : answer.1.arguments = String.ofList (answer.2.input.write .plain)
  object  : ∀ members, start.2.get "args" = .dict members → answer.2.input = .dict members
  decoded : ∀ raw members, start.2.get "args" = .str raw → host.loads raw = some (.dict members) →
    answer.2.input = .dict members
  wrapped : ∀ raw, start.2.get "args" = .str raw → host.loads raw = none →
    answer.2.input = .dict [("input", .str raw)]
  missing : (∀ members, start.2.get "args" ≠ .dict members) → (∀ raw, start.2.get "args" ≠ .str raw) →
    answer.2.input = .dict []

end WireHost

variable {host : WireHost} {tools : List ExternalToolSpec} {events : List Json} {α : Type}

theorem truthy_dict (members : Dict) : (if (Json.dict members).truthy then Json.dict members else .dict []) =
    .dict members := by
  cases members <;> rfl

theorem wireDigest_of_callId {start : ExternalToolSpec × Dict} {wireName : String} (h : host.callId start ≠ "") :
    host.wireDigest (host.callId start) wireName = take 24 (host.sha1 (host.callId start)) := by
  have htrim : strip (host.callId start) = host.callId start := by rw [WireHost.callId, Text.stripped, strip_strip]
  unfold WireHost.wireDigest
  dsimp only
  rw [htrim, if_neg h]

-- The loop answers each start once, when all ids differ and none has been seen.
theorem extractFrom_eq {wireId : String → String → String} {build : String → String → Json → α} {seenIds : List String}
    (h : Selected tools) (hsound : host.Sound events)
    (hnodup : ((host.starts tools events).map fun s => wireId (host.callId s) s.1.wireName).Nodup)
    (hseen : ∀ s ∈ host.starts tools events, wireId (host.callId s) s.1.wireName ∉ seenIds) :
    host.extractFrom (mapsOf tools).internalToWire wireId build seenIds events =
      some ((host.starts tools events).map fun s =>
        build (wireId (host.callId s) s.1.wireName) s.1.wireName (host.parsedArgs (s.2.get "args"))) := by
  induction events generalizing seenIds
  case nil => rfl
  case cons event events hi =>
    have hrest : host.Sound events := fun e he => hsound e (List.mem_cons_of_mem _ he)
    unfold WireHost.starts at hnodup hseen ⊢
    rw [List.filterMap_cons] at hnodup hseen ⊢
    cases event
    case dict event =>
      unfold WireHost.extractFrom
      cases hstart : host.isToolStart event
      case false =>
        simp only [WireHost.started, hstart, Bool.false_eq_true, if_false, Option.bind_none, Bool.not_false, if_true]
          at hnodup hseen ⊢
        exact hi hrest hnodup hseen
      case true =>
        have ⟨tool, htool⟩ := Option.isSome_iff_exists.mp (hsound event List.mem_cons_self hstart)
        have hlookup : (mapsOf tools).internalToWire.lookup (host.text.stripped (tool.get "toolName")) =
            (tools.find? fun item => host.text.stripped (tool.get "toolName") == item.internalAlias).map
              (·.wireName) := lookup_map_eq_find
        simp only [WireHost.started, hstart, htool, if_true, Option.bind_some, Bool.not_true, Bool.false_eq_true,
          if_false, hlookup] at hnodup hseen ⊢
        cases hfind : tools.find? fun item => host.text.stripped (tool.get "toolName") == item.internalAlias
        case none =>
          simp only [hfind, Option.map_none] at hnodup hseen ⊢
          exact hi hrest hnodup hseen
        case some item =>
          have hname := (h.named item (List.mem_of_find?_eq_some hfind)).2
          simp only [hfind, Option.map_some, List.map_cons, List.nodup_cons, List.forall_mem_cons] at hnodup hseen ⊢
          have hlater : ∀ s ∈ host.starts tools events, wireId (host.callId s) s.1.wireName ∉
              wireId (host.text.stripped (tool.get "toolCallId")) item.wireName :: seenIds := by
            intro s hs
            rw [List.mem_cons, not_or]
            refine ⟨?_, hseen.2 s hs⟩
            intro heq
            exact hnodup.1 (List.mem_map.mpr ⟨s, hs, heq⟩)
          have hid : wireId (host.text.stripped (tool.get "toolCallId")) item.wireName ∉ seenIds := hseen.1
          have hi := hi hrest hnodup.2 hlater
          rw [if_neg hname, if_neg hid, hi]
          rfl
    all_goals exact hi hrest hnodup hseen

theorem answers (host : WireHost) (start : ExternalToolSpec × Dict) (hid : host.callId start ≠ "") :
    let args := host.parsedArgs (start.2.get "args")
    host.Answers start (⟨host.wireToolCallId (host.callId start) start.1.wireName, "function", start.1.wireName,
        String.ofList (args.write .plain)⟩,
      ⟨"tool_use", host.anthropicWireToolUseId (host.callId start) start.1.wireName, start.1.wireName, args⟩) := by
  dsimp only
  constructor
  case ids =>
    unfold WireHost.wireToolCallId WireHost.anthropicWireToolUseId
    rw [wireDigest_of_callId hid]
    exact ⟨rfl, rfl⟩
  case names => exact ⟨rfl, rfl⟩
  case same => rfl
  case object =>
    intro members hargs
    simp only [hargs, WireHost.parsedArgs, truthy_dict]
  case decoded =>
    intro raw members hargs hloads
    simp only [hargs, WireHost.parsedArgs, hloads, Option.getD_some, truthy_dict]
  case wrapped =>
    intro raw hargs hloads
    simp only [hargs, WireHost.parsedArgs, hloads, Option.getD_none, truthy_dict]
  case missing =>
    intro hdict hstr
    cases hargs : start.2.get "args"
    case dict members => exact absurd hargs (hdict members)
    case str raw => exact absurd hargs (hstr raw)
    all_goals rfl

-- Calls and blocks answer the starts one by one.
structure Answered (host : WireHost) (starts : List (ExternalToolSpec × Dict)) (calls : List ToolCall)
    (blocks : List ToolUse) : Prop where
  length    : calls.length = blocks.length
  answers   : List.Forall₂ host.Answers starts (calls.zip blocks)
  callIds   : (calls.map (·.id)).Nodup
  blockIds  : (blocks.map (·.id)).Nodup

-- The calls carry the names of the client, in the order of the starts.
theorem Answered.names {starts : List (ExternalToolSpec × Dict)} {calls : List ToolCall} {blocks : List ToolUse}
    (h : Answered host starts calls blocks) : calls.map (·.name) = starts.map (·.1.wireName) := by
  have hfst : (calls.zip blocks).map Prod.fst = calls := List.map_fst_zip h.length.le
  have hnames : List.Forall₂ (· = ·) (starts.map (·.1.wireName)) ((calls.zip blocks).map (·.1.name)) := by
    rw [List.forall₂_map_left_iff, List.forall₂_map_right_iff]
    exact h.answers.imp fun _ _ answer => answer.names.1.symm
  rw [List.forall₂_eq_eq_eq] at hnames
  rw [hnames]
  conv_lhs => rw [← hfst, List.map_map]
  rfl

theorem nodup_ids (label : String) (hd : host.Distinct (host.starts tools events))
    (hc : host.NoCollision (host.starts tools events)) : ((host.starts tools events).map fun s =>
      label ++ host.wireDigest (host.callId s) s.1.wireName).Nodup := by
  have hnodup := hd.nodup
  generalize host.starts tools events = starts at *
  have hids : (starts.map fun s => label ++ host.wireDigest (host.callId s) s.1.wireName) =
      (starts.map host.callId).map fun id => label ++ take 24 (host.sha1 id) := by
    rw [List.map_map]
    apply List.map_congr_left
    intro s hs
    rw [wireDigest_of_callId (hd.nonempty s hs)]
    rfl
  rw [hids]
  apply List.Nodup.map_on _ hnodup
  intro id hid other hother heq
  obtain ⟨s, hs, rfl⟩ := List.mem_map.mp hid
  obtain ⟨t, ht, rfl⟩ := List.mem_map.mp hother
  exact hc s hs t ht (by simpa using heq)

-- The tools that a request selects have names that the two maps take to each other. Where the call ids that the
-- events carry differ, both extractions answer each start of such a tool once, in order and by the client's name.
theorem external_tools_round_trip (host : WireHost) (raws : List Json) (toolChoice : Json) (limits : Limits)
    (tools : List ExternalToolSpec) (h : host.selectExternalToolsForRequest raws toolChoice limits = .ok tools) :
    Inverse tools (buildExternalToolAliasMaps host.text tools) ∧
    ∀ events, host.Sound events → host.Distinct (host.starts tools events) →
      host.NoCollision (host.starts tools events) → ∃ calls blocks,
        host.extractExternalToolCallsFromEvents events tools = some calls ∧
        host.extractAnthropicToolUseBlocksFromEvents events tools = some blocks ∧
        Answered host (host.starts tools events) calls blocks := by
  have hselected := selected_of_select h
  refine ⟨inverse_of_selected hselected, ?_⟩
  intro events hsound hd hc
  have hcallIds := nodup_ids "call_" hd hc
  have hblockIds := nodup_ids "toolu_" hd hc
  unfold WireHost.extractExternalToolCallsFromEvents WireHost.extractAnthropicToolUseBlocksFromEvents
  rw [build_of_selected hselected, extractFrom_eq hselected hsound hcallIds (fun _ _ => List.not_mem_nil),
    extractFrom_eq hselected hsound hblockIds (fun _ _ => List.not_mem_nil)]
  refine ⟨_, _, rfl, rfl, ?length, ?answers, ?callIds, ?blockIds⟩
  case length => simp
  case callIds =>
    rw [List.map_map]
    exact hcallIds
  case blockIds =>
    rw [List.map_map]
    exact hblockIds
  case answers =>
    rw [List.zip_map', List.forall₂_map_right_iff, List.forall₂_same]
    exact fun start hstart => answers host start (hd.nonempty start hstart)

-- A host that knows ASCII only, and of SHA-1 and of JSON what the samples need
def sampleHost : WireHost where
  text                            := asciiText
  recordExternalToolSchemaRef _ _ := none
  loads raw                       := if raw = "[]" then some (.list []) else none
  sha1 id                         :=
    if id = "a" then "86f7e437faa5a7fce15d1ddcb9eaeaea377667b8" else "e9d71f5ee7c92d6dc9e92ffdad17b8bd49418f98"

def sampleTool (name : String) : Json :=
  .dict [("type", .str "function"), ("function", .dict [("name", .str name)])]

def sampleTools : List ExternalToolSpec :=
  match sampleHost.selectExternalToolsForRequest [sampleTool "Read", sampleTool "read"] .null {} with
  | .ok tools => tools
  | .error _  => []

def toolStart (name callId : String) (args : Json) : Json :=
  .dict [("type", .str "tool_start"),
    ("tool", .dict [("toolName", .str name), ("toolCallId", .str callId), ("args", args)])]

theorem select_sample :
    sampleHost.selectExternalToolsForRequest [sampleTool "Read", sampleTool "read"] .null {} = .ok sampleTools := by
  have hok : (sampleHost.selectExternalToolsForRequest [sampleTool "Read", sampleTool "read"] .null {}).isOk := by
    decide +kernel
  unfold sampleTools
  cases h : sampleHost.selectExternalToolsForRequest [sampleTool "Read", sampleTool "read"] .null {}
  case error => simp [h, Except.isOk, Except.toBool] at hok
  case ok => rfl

-- Two names with one stem, and a call of each tool
theorem external_tools_sample : ∃ calls blocks,
    sampleHost.extractExternalToolCallsFromEvents
      [toolStart "network_read" "a" (.dict []), toolStart "network_read_2" "b" (.str "ls")] sampleTools = some calls ∧
    sampleHost.extractAnthropicToolUseBlocksFromEvents
      [toolStart "network_read" "a" (.dict []), toolStart "network_read_2" "b" (.str "ls")] sampleTools = some blocks ∧
    calls.map (·.name) = ["Read", "read"] := by
  have hids : (sampleHost.starts sampleTools
      [toolStart "network_read" "a" (.dict []), toolStart "network_read_2" "b" (.str "ls")]).map sampleHost.callId =
      ["a", "b"] := by
    decide +kernel
  have hnames : (sampleHost.starts sampleTools [toolStart "network_read" "a" (.dict []),
      toolStart "network_read_2" "b" (.str "ls")]).map (·.1.wireName) = ["Read", "read"] := by
    decide +kernel
  have hsound : sampleHost.Sound
      [toolStart "network_read" "a" (.dict []), toolStart "network_read_2" "b" (.str "ls")] := by
    intro event hevent _
    simp only [List.mem_cons, List.not_mem_nil, or_false, toolStart, Json.dict.injEq] at hevent
    cases hevent
    case inl heq =>
      rw [heq]
      decide
    case inr heq =>
      rw [heq]
      decide
  have hall := (external_tools_round_trip sampleHost _ _ _ _ select_sample).2 _ hsound
  generalize sampleHost.starts sampleTools
    [toolStart "network_read" "a" (.dict []), toolStart "network_read_2" "b" (.str "ls")] = starts at *
  have hmem : ∀ start ∈ starts, sampleHost.callId start ∈ ["a", "b"] := by
    intro start hstart
    rw [← hids]
    exact List.mem_map_of_mem hstart
  have hdistinct : sampleHost.Distinct starts := by
    constructor
    case nodup =>
      rw [hids]
      decide
    case nonempty =>
      intro start hstart hempty
      have hab := hmem start hstart
      rw [hempty] at hab
      exact absurd hab (by decide)
  have hdigest : ∀ id ∈ ["a", "b"], ∀ other ∈ ["a", "b"],
      take 24 (sampleHost.sha1 id) = take 24 (sampleHost.sha1 other) → id = other := by
    decide +kernel
  have ⟨calls, blocks, hcalls, hblocks, hanswered⟩ := hall hdistinct
    fun start hstart other hother => hdigest _ (hmem start hstart) _ (hmem other hother)
  refine ⟨calls, blocks, hcalls, hblocks, ?_⟩
  rw [← hnames]
  exact hanswered.names

-- A text that is no JSON is wrapped, and ids are trimmed before they are compared.
theorem external_tools_fails :
    sampleHost.selectExternalToolsForRequest [sampleTool "Read", sampleTool "read"] .null {} = .ok sampleTools ∧
    (sampleHost.extractExternalToolCallsFromEvents [toolStart "network_read" "a" (.str "ls")] sampleTools).map
      (fun calls => calls.map (·.arguments)) = some ["\x7b\"input\": \"ls\"\x7d"] ∧
    (sampleHost.extractExternalToolCallsFromEvents
      [toolStart "network_read" "a" (.dict []), toolStart "network_read_2" " a" (.dict [])] sampleTools).map
      (fun calls => calls.map (·.name)) = some ["Read"] :=
  ⟨select_sample, by decide +kernel, by decide +kernel⟩

end ExternalTools
