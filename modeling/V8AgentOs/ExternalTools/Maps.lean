import Mathlib.Data.List.Infix
import V8AgentOs.ExternalTools.Alias
import V8AgentOs.Lib.Lookup
import V8AgentOs.Python.Dict
import V8AgentOs.Python.Writer

-- runtimes/network_supervisor/openai_compat.py: the external tools that are taken from a request
namespace ExternalTools

open Python

-- What the selection takes from elsewhere: the texts of values, and `_record_external_tool_schema_ref`, which says
-- under which name the tool of a request has been kept.
structure Host where
  text                        : Text
  recordExternalToolSchemaRef : String → Dict → Option String

-- api/models.py
structure ExternalToolFunctionSpec where
  name                    : String
  description             : Option String
  visibleDescription      : Option String
  parameters              : Dict
  internalAliasName       : Option String
  toolKind                : Option String
  sideEffect              : Option String
  preconditions           : List String
  recoveryHints           : List String
  clientOwnedWorkspace    : Bool
  rawSchemaRef            : Option String
  reservoirMode           : Bool
  descriptionOmittedChars : ℕ
  schemaOmissionReason    : Option String

structure ExternalToolSpec where
  type     : String
  function : ExternalToolFunctionSpec

-- The keyword arguments of `select_external_tools_for_request`
structure Limits where
  externalTools         : ℤ := 256
  toolDescriptionTokens : ℤ := 32000
  toolSchemaBytes       : ℤ := 2000000
  toolsPayloadTokens    : ℤ := 1000000

-- core/prompt_budget.py
def isCjk (c : Char) : Bool :=
  let codepoint := c.toNat
  (0x4E00 ≤ codepoint && codepoint ≤ 0x9FFF) || (0x3400 ≤ codepoint && codepoint ≤ 0x4DBF) ||
    (0x3040 ≤ codepoint && codepoint ≤ 0x30FF) || (0xAC00 ≤ codepoint && codepoint ≤ 0xD7AF)

def estimatePromptTokens (raw : List Char) : ℕ :=
  raw.countP isCjk + (raw.countP (fun c => !isCjk c && !isSpace c) + 3) / 4

-- `_json_size_bytes`
def jsonSizeBytes (payload : Dict) : ℕ :=
  (utf8 ((Json.dict payload).write .compact)).length

-- `_max_json_depth`
mutual

def maxJsonDepth (depth : ℕ) : Json → ℕ
  | .dict members => if members.isEmpty then depth + 1 else maxMembersDepth (depth + 1) members
  | .list items   => if items.isEmpty then depth + 1 else maxItemsDepth (depth + 1) items
  | _             => depth + 1

def maxItemsDepth (depth : ℕ) : List Json → ℕ
  | []      => 0
  | x :: xs => max (maxJsonDepth depth x) (maxItemsDepth depth xs)

def maxMembersDepth (depth : ℕ) : Dict → ℕ
  | []           => 0
  | (_, x) :: xs => max (maxJsonDepth depth x) (maxMembersDepth depth xs)

end

def omissionMarker : String :=
  "\n\n...[external tool description omitted; full original preserved in rawSchemaRef]...\n\n"

-- `_line_safe_excerpt`. For these lengths `int(available * 0.6)` is `available * 6 // 10`.
def lineSafeExcerpt (raw : String) (maxChars : ℕ) : String × ℕ :=
  let length := raw.toList.length
  if maxChars = 0 ∨ length ≤ maxChars then (raw, 0)
  else
    let available := maxChars - omissionMarker.toList.length
    if available = 0 then (take maxChars omissionMarker, length - maxChars)
    else
      let head := max 1 (available * 6 / 10)
      let tail := max 1 (available - head)
      (String.ofList ((raw.toList.take head).rdropWhile isSpace) ++ omissionMarker ++
        String.ofList ((raw.toList.drop (length - tail)).dropWhile isSpace), length - available)

structure BudgetAdjustments where
  visibleDescription      : String
  descriptionOmittedChars : ℕ
  parameters              : Dict
  reservoirMode           : Bool
  schemaOmissionReason    : Option String
  recoveryHints           : List String

def number (n : ℤ) : String :=
  String.ofList (intText n)

def maxSchemaDepth : ℕ :=
  12

-- `_external_tool_budget_adjustments`
def externalToolBudgetAdjustments (wireName description : String) (parameters : Dict)
    (maxDescriptionTokens maxSchemaBytes : ℤ) : BudgetAdjustments :=
  let descriptionTokens := estimatePromptTokens description.toList
  let long := maxDescriptionTokens < descriptionTokens
  let excerpt :=
    if long then lineSafeExcerpt description (min (max 400 (maxDescriptionTokens * 4)) 12000).toNat
    else (description, 0)
  let schemaBytes := jsonSizeBytes parameters
  let schemaDepth := maxJsonDepth 0 (.dict parameters)
  let reason :=
    if maxSchemaBytes < schemaBytes then
      some ("parameters schema too large: " ++ number schemaBytes ++ " bytes > " ++ number maxSchemaBytes)
    else if maxSchemaDepth < schemaDepth then
      some ("parameters schema too deeply nested: " ++ number schemaDepth ++ " > " ++ number maxSchemaDepth)
    else none
  { visibleDescription      := excerpt.1
    descriptionOmittedChars := excerpt.2
    parameters              := match reason with
      | none        => parameters
      | some reason =>
        [("type", .str "object"), ("additionalProperties", .bool true),
          ("description", .str ("Model-visible schema omitted for external tool '" ++ wireName ++ "' because " ++
            reason ++ ". Full original schema is preserved in rawSchemaRef."))]
    reservoirMode           := long || reason.isSome
    schemaOmissionReason    := reason
    recoveryHints           :=
      (if long then ["External tool description exceeded model-visible budget (" ++ number descriptionTokens ++
        " estimated tokens); use rawSchemaRef for the full original description."] else []) ++
      (if reason.isSome then ["This external tool is in reservoir mode: preserve the wire tool name and call it " ++
        "with arguments matching the client tool manual or recent transcript context."] else []) }

-- `part in text`
def mentions (text part : String) : Bool :=
  part.toList <:+: text.toList

structure Semantics where
  toolKind      : String
  sideEffect    : String
  preconditions : List String
  recoveryHints : List String

-- `_infer_external_tool_semantics`
def inferExternalToolSemantics (text : Text) (wireName description : String) (parameters : Dict) : Semantics :=
  let lowered := text.lower (strip wireName)
  let schemaBlob := text.lower (String.ofList ((Json.dict parameters).write .sorting))
  let haystack := lowered ++ " " ++ text.lower description ++ " " ++ schemaBlob
  let kinds : String × String :=
    if lowered = "read" ∨ "_read".toList <:+ lowered.toList ∨ mentions haystack "read a file" then ("read", "none")
    else if lowered = "write" ∨ "_write".toList <:+ lowered.toList ∨ mentions lowered "write" then
      ("write", "filesystem_write")
    else if lowered ∈ ["edit", "multiedit", "multi_edit"] ∨ mentions lowered "edit" then ("edit", "filesystem_write")
    else if lowered ∈ ["bash", "shell", "run_command"] ∨ mentions lowered "bash" ∨ mentions haystack "shell" then
      ("shell", "process_or_shell")
    else if lowered ∈ ["grep", "glob", "ls", "search"] ∨
        ["grep", "glob", "search", "list"].any (mentions lowered) then ("search", "none")
    else if ["fetch", "web", "url", "http"].any (mentions lowered) then ("network_read", "none")
    else ("other", "none")
  let mutates := kinds.1 = "write" ∨ kinds.1 = "edit"
  { toolKind      := kinds.1
    sideEffect    := kinds.2
    preconditions :=
      if mutates then ["Claude Code-style mutation tools may require the target file to be read in the external " ++
        "client before writing or editing it."]
      else if kinds.1 = "shell" then ["Shell commands are executed by the external client, not by V8OS; destructive " ++
        "or ambiguous commands still require safety review."]
      else if kinds.1 = "search" then
        ["Use this for external-client workspace discovery; it is not a V8 filesystem tool."]
      else []
    recoveryHints :=
      if mutates then ["If the external client reports 'File has not been read yet', request the external Read tool " ++
        "for that path first, then retry Write/Edit/MultiEdit.",
        "For new files inside the V8 workspace, prefer the external Write tool in this compat session; use V8 " ++
        "internal write_native_file only if the user explicitly asks V8OS to fall back to internal tools."]
      else [] }

def schemaError : String :=
  "External tool parameters must be an object schema with an object properties map"

def requiredError : String :=
  "External tool schema required must be an array of property names"

def isDict : Json → Bool
  | .dict _ => true
  | _       => false

def isStr : Json → Bool
  | .str _ => true
  | _      => false

-- The parameters of a tool, as far as they are checked
def checkedParameters (function : Dict) : Except String Dict :=
  match (function.lookup "parameters").getD (.dict []) with
  | .dict parameters =>
    if Dict.has parameters "properties" && !isDict (Dict.get parameters "properties") then .error schemaError
    else if Dict.has parameters "required" && !(match Dict.get parameters "required" with
      | .list names => names.all isStr
      | _           => false) then .error requiredError
    else .ok parameters
  | _                => .error schemaError

def orNone (text : String) : Option String :=
  if text = "" then none else some text

namespace Host

variable (host : Host)

-- The specification of one tool
def externalToolSpec (raw : Dict) (wireName description : String) (parameters : Dict) (internalAlias : String)
    (visibleDescriptionBudget maxSchemaBytes : ℤ) : ExternalToolSpec :=
  let adjustments :=
    externalToolBudgetAdjustments wireName description parameters visibleDescriptionBudget maxSchemaBytes
  let semantics := inferExternalToolSemantics host.text wireName description parameters
  { type     := "function"
    function :=
      { name                    := wireName
        description             := orNone description
        visibleDescription      := (orNone adjustments.visibleDescription).or (orNone description)
        parameters              := adjustments.parameters
        internalAliasName       := some internalAlias
        toolKind                := some semantics.toolKind
        sideEffect              := some semantics.sideEffect
        preconditions           := semantics.preconditions
        recoveryHints           := semantics.recoveryHints ++ adjustments.recoveryHints
        clientOwnedWorkspace    := true
        rawSchemaRef            := host.recordExternalToolSchemaRef wireName raw
        reservoirMode           := adjustments.reservoirMode
        descriptionOmittedChars := adjustments.descriptionOmittedChars
        schemaOmissionReason    := adjustments.schemaOmissionReason } }

-- `dict(raw.get("function") or {})`
def functionOf (raw : Dict) : Dict :=
  match raw.get "function" with
  | .dict function => function
  | _              => []

-- `str(raw.get("type") or "function").strip().lower()`
def typeOf (raw : Dict) : String :=
  let type := raw.get "type"
  host.text.lower (strip (if type.truthy then host.text.str type else "function"))

-- The loop of `select_external_tools_for_request`
def selectFrom (selectedWireName : String) (visibleDescriptionBudget maxSchemaBytes : ℤ) :
    List String → List String → List Dict → Except String (List ExternalToolSpec)
  | _, _, []                                  => .ok []
  | seenAliases, seenWireNames, raw :: tools =>
    if host.typeOf raw ≠ "function" then
      selectFrom selectedWireName visibleDescriptionBudget maxSchemaBytes seenAliases seenWireNames tools
    else
      let function := functionOf raw
      let wireName := host.text.stripped (function.get "name")
      if wireName = "" ∨ wireName ∈ seenWireNames ∨ selectedWireName ≠ "" ∧ wireName ≠ selectedWireName then
        selectFrom selectedWireName visibleDescriptionBudget maxSchemaBytes seenAliases seenWireNames tools
      else do
        let parameters ← checkedParameters function
        let internalAlias := uniqueInternalAliasName host.text wireName seenAliases
        let spec := host.externalToolSpec raw wireName (host.text.orEmpty (function.get "description")) parameters
          internalAlias visibleDescriptionBudget maxSchemaBytes
        let specs ← selectFrom selectedWireName visibleDescriptionBudget maxSchemaBytes (internalAlias :: seenAliases)
          (wireName :: seenWireNames) tools
        return spec :: specs

-- What the model sees of a tool
def visiblePayload (item : ExternalToolSpec) : Json :=
  .dict [("name", .str item.function.name),
    ("description", ((item.function.visibleDescription).or item.function.description).elim .null .str),
    ("parameters", .dict item.function.parameters)]

def selectExternalToolsForRequest (rawTools : List Json) (toolChoice : Json) (limits : Limits) :
    Except String (List ExternalToolSpec) :=
  let tools := rawTools.filterMap fun
    | .dict members => some members
    | _             => none
  let refused : Bool := match toolChoice with
    | .str choice => host.text.lower (strip choice) = "none"
    | _           => false
  if tools.isEmpty || refused then .ok []
  else
    let selectedWireName := match toolChoice with
      | .dict choice => host.text.stripped ((functionOf choice).get "name")
      | _            => ""
    let visibleDescriptionBudget :=
      if 0 < limits.toolsPayloadTokens then
        min limits.toolDescriptionTokens (max 32 (limits.toolsPayloadTokens / (max 1 (tools.length * 3) : ℕ)))
      else limits.toolDescriptionTokens
    do
      let normalized ←
        host.selectFrom selectedWireName visibleDescriptionBudget limits.toolSchemaBytes [] [] tools
      if limits.externalTools < normalized.length then
        .error ("Too many external tools: " ++ number normalized.length ++ " > " ++ number limits.externalTools)
      else
        let tokens := estimatePromptTokens ((Json.list (normalized.map visiblePayload)).write .compact)
        if limits.toolsPayloadTokens < tokens then
          .error ("External tools payload is too large after compaction: " ++ number tokens ++
            " estimated tokens > " ++ number limits.toolsPayloadTokens)
        else .ok normalized

end Host
end ExternalTools

-- The maps between the names that a client gives to its tools and the internal names
namespace ExternalTools

open Python Lookup

structure AliasMaps where
  wireToInternal : List (String × String)
  internalToWire : List (String × String)
  seenAliases    : List String

def AliasMaps.visit (text : Text) (maps : AliasMaps) (item : ExternalToolSpec) : AliasMaps :=
  let wireName := strip item.function.name
  let internalAlias := strip (item.function.internalAliasName.getD "")
  if wireName = "" then maps
  else
    let internalAlias :=
      if internalAlias = "" then uniqueInternalAliasName text wireName maps.seenAliases else internalAlias
    { wireToInternal := assign maps.wireToInternal wireName internalAlias
      internalToWire := assign maps.internalToWire internalAlias wireName
      seenAliases    := internalAlias :: maps.seenAliases }

def buildExternalToolAliasMaps (text : Text) (externalTools : List ExternalToolSpec) : AliasMaps :=
  externalTools.foldl (·.visit text) ⟨[], [], []⟩

namespace ExternalToolSpec

variable (item : ExternalToolSpec)

def wireName : String :=
  item.function.name

def internalAlias : String :=
  item.function.internalAliasName.getD ""

end ExternalToolSpec

-- Tools whose names and internal names differ and are trimmed
structure Selected (tools : List ExternalToolSpec) : Prop where
  names   : (tools.map (·.wireName)).Nodup
  aliases : (tools.map (·.internalAlias)).Nodup
  named   : ∀ item ∈ tools, strip item.wireName = item.wireName ∧ item.wireName ≠ ""
  aliased : ∀ item ∈ tools, strip item.internalAlias = item.internalAlias ∧ item.internalAlias ≠ ""

variable {text : Text} {host : Host} {tools before : List ExternalToolSpec} {item : ExternalToolSpec}

-- What the loop selects is new in both of its sets.
theorem selectFrom_spec {selectedWireName : String} {budget bytes : ℤ} {aliases names : List String} {raws : List Dict}
    (h : host.selectFrom selectedWireName budget bytes aliases names raws = .ok tools) : Selected tools ∧
      (∀ item ∈ tools, item.wireName ∉ names) ∧ ∀ item ∈ tools, item.internalAlias ∉ aliases := by
  induction raws generalizing aliases names tools
  case nil =>
    cases h
    exact ⟨⟨List.nodup_nil, List.nodup_nil, by simp, by simp⟩, by simp, by simp⟩
  case cons raw raws hi =>
    unfold Host.selectFrom at h
    dsimp only at h
    split_ifs at h with htype hname
    case pos => exact hi h
    case pos => exact hi h
    case neg =>
      rw [not_or, not_or] at hname
      cases hp : checkedParameters (Host.functionOf raw)
      case error => simp [hp, bind, Except.bind] at h
      case ok parameters =>
        generalize hwire : host.text.stripped ((Host.functionOf raw).get "name") = wire at h hname
        generalize hrest : host.selectFrom selectedWireName budget bytes
          (uniqueInternalAliasName host.text wire aliases :: aliases) (wire :: names) raws = rest at h
        cases rest
        case error => simp [hp, bind, Except.bind] at h
        case ok specs =>
          simp only [hp, bind, Except.bind, pure, Except.pure, Except.ok.injEq] at h
          have ⟨hspecs, hnames, haliases⟩ := hi hrest
          have htrim : strip wire = wire := by rw [← hwire, Text.stripped, strip_strip]
          subst h
          refine ⟨⟨?names, ?aliases, ?named, ?aliased⟩, ?new, ?fresh⟩
          case names =>
            rw [List.map_cons, List.nodup_cons]
            refine ⟨?_, hspecs.names⟩
            intro hmem
            obtain ⟨other, hother, heq⟩ := List.mem_map.mp hmem
            exact hnames other hother (heq ▸ List.mem_cons_self)
          case aliases =>
            rw [List.map_cons, List.nodup_cons]
            refine ⟨?_, hspecs.aliases⟩
            intro hmem
            obtain ⟨other, hother, heq⟩ := List.mem_map.mp hmem
            exact haliases other hother (heq ▸ List.mem_cons_self)
          case named => exact List.forall_mem_cons.mpr ⟨⟨htrim, hname.1⟩, hspecs.named⟩
          case aliased =>
            exact List.forall_mem_cons.mpr ⟨⟨strip_unique, uniqueInternalAliasName_ne⟩, hspecs.aliased⟩
          case new =>
            refine List.forall_mem_cons.mpr ⟨hname.2.1, fun other hother hmem => ?_⟩
            exact hnames other hother (List.mem_cons_of_mem _ hmem)
          case fresh =>
            refine List.forall_mem_cons.mpr ⟨uniqueInternalAliasName_fresh _ _ _, fun other hother hmem => ?_⟩
            exact haliases other hother (List.mem_cons_of_mem _ hmem)

theorem selected_of_select {raws : List Json} {toolChoice : Json} {limits : Limits}
    (h : host.selectExternalToolsForRequest raws toolChoice limits = .ok tools) : Selected tools := by
  have hnone : Selected [] := ⟨List.nodup_nil, List.nodup_nil, by simp, by simp⟩
  unfold Host.selectExternalToolsForRequest at h
  dsimp only at h
  split_ifs at h
  case pos =>
    cases h
    exact hnone
  all_goals
    generalize hloop : Host.selectFrom _ _ _ _ _ _ _ = result at h
    cases result
    case error => cases h
    case ok specs =>
      simp only [bind, Except.bind] at h
      split_ifs at h
      cases h
      exact (selectFrom_spec hloop).1

-- The maps that the tools give one by one
def mapsOf (tools : List ExternalToolSpec) : AliasMaps where
  wireToInternal := tools.map fun item => (item.wireName, item.internalAlias)
  internalToWire := tools.map fun item => (item.internalAlias, item.wireName)
  seenAliases    := (tools.map (·.internalAlias)).reverse

theorem visit_mapsOf (h : Selected (before ++ [item])) :
    (mapsOf before).visit text item = mapsOf (before ++ [item]) := by
  have hitem : item ∈ before ++ [item] := by simp
  have hname := h.named item hitem
  have halias := h.aliased item hitem
  have hwire : item.wireName ∉ before.map (·.wireName) := by
    have hnodup := h.names
    rw [List.map_append, List.nodup_append] at hnodup
    intro hmem
    exact hnodup.2.2 _ hmem _ (by simp) rfl
  have hinternal : item.internalAlias ∉ before.map (·.internalAlias) := by
    have hnodup := h.aliases
    rw [List.map_append, List.nodup_append] at hnodup
    intro hmem
    exact hnodup.2.2 _ hmem _ (by simp) rfl
  have hstripped : strip item.function.name = item.wireName ∧
      strip (item.function.internalAliasName.getD "") = item.internalAlias := ⟨hname.1, halias.1⟩
  unfold AliasMaps.visit
  dsimp only
  rw [hstripped.1, hstripped.2, if_neg hname.2, if_neg halias.2]
  simp [mapsOf, assign_of_none (lookup_map_none hwire), assign_of_none (lookup_map_none hinternal)]

theorem foldl_visit (h : Selected (before ++ tools)) :
    tools.foldl (·.visit text) (mapsOf before) = mapsOf (before ++ tools) := by
  induction tools generalizing before
  case nil => simp
  case cons item tools hi =>
    have hassoc : before ++ item :: tools = before ++ [item] ++ tools := by simp
    rw [hassoc] at h ⊢
    have hsub : (before ++ [item]).Sublist (before ++ [item] ++ tools) := List.sublist_append_left _ _
    have hfirst : Selected (before ++ [item]) := {
      names   := h.names.sublist (hsub.map _)
      aliases := h.aliases.sublist (hsub.map _)
      named   := fun other hother => h.named other (hsub.subset hother)
      aliased := fun other hother => h.aliased other (hsub.subset hother) }
    rw [List.foldl_cons, visit_mapsOf hfirst, hi h]

theorem build_of_selected (h : Selected tools) : buildExternalToolAliasMaps text tools = mapsOf tools := by
  have hfold := @foldl_visit text tools [] h
  exact hfold

-- Each of the maps takes back what the other one does.
structure Inverse (tools : List ExternalToolSpec) (maps : AliasMaps) : Prop where
  iff   : ∀ wireName internalAlias, maps.wireToInternal.lookup wireName = some internalAlias ↔
    maps.internalToWire.lookup internalAlias = some wireName
  wire  : ∀ item ∈ tools, maps.wireToInternal.lookup item.wireName = some item.internalAlias
  range : ∀ wireName internalAlias, maps.wireToInternal.lookup wireName = some internalAlias →
    ∃ item ∈ tools, item.wireName = wireName ∧ item.internalAlias = internalAlias

theorem inverse_of_selected (h : Selected tools) : Inverse tools (buildExternalToolAliasMaps text tools) := by
  rw [build_of_selected h]
  have hwire (wireName internalAlias : String) := lookup_map_iff (g := (·.internalAlias)) (a := wireName)
    (b := internalAlias) h.names
  have hinternal (wireName internalAlias : String) := lookup_map_iff (g := (·.wireName)) (a := internalAlias)
    (b := wireName) h.aliases
  constructor
  case iff =>
    intro wireName internalAlias
    apply (hwire wireName internalAlias).trans (Iff.trans _ (hinternal wireName internalAlias).symm)
    simp only [and_comm]
  case wire => exact fun item hitem => (hwire _ _).mpr ⟨item, hitem, rfl, rfl⟩
  case range => exact fun wireName internalAlias hlookup => (hwire _ _).mp hlookup

end ExternalTools
