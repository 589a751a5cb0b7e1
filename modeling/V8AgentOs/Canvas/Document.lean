import V8AgentOs.Python.Dict
import V8AgentOs.Python.Numbers

-- core/creative_canvas_graph.py: the document of a canvas graph, and how it is normalised and validated.
namespace Canvas

open Python (Dict Json Text Numbers strip)

structure InputPort where
  portId     : String
  mediaTypes : List String
  maximum    : ℕ

-- The parameters that an action takes besides its prompt
inductive ParameterEditor
  | proxyScene
  | psdComposition
  | psdLayers
  | other
  deriving DecidableEq

structure ActionDefinition where
  inputs           : List InputPort
  outputSlot       : String
  outputMediaTypes : List String
  parameterEditor  : ParameterEditor

-- What documents are normalised with: texts and numbers, the catalogue of actions, and `normalize_scene`.
structure Rules where
  text           : Text
  numbers        : Numbers
  definitions    : String → Option ActionDefinition
  normalizeScene : Json → Option Json

-- `graph_json` without the schema and the version, which are constants
structure Document where
  graphId  : String
  nodes    : List Dict
  edges    : List Dict
  viewport : Dict

def Document.empty (graphId : String) : Document where
  graphId  := graphId
  nodes    := []
  edges    := []
  viewport := [("x", .int 24), ("y", .int 24), ("scale", .int 1)]

def Document.toDict (d : Document) : Dict :=
  [("schema", .str "v8.creative_canvas_graph.v1"), ("version", .int 3), ("graphId", .str d.graphId),
    ("nodes", .list (d.nodes.map .dict)), ("edges", .list (d.edges.map .dict)), ("viewport", .dict d.viewport)]

-- `_record` and `_list`
def recordOf : Json → Dict
  | .dict d => d
  | _       => []

def listOf : Json → List Json
  | .list items => items
  | _           => []

-- `items[-n:]`
def lastOf {α : Type} (n : ℕ) (items : List α) : List α :=
  items.drop (items.length - n)

namespace Rules

variable (r : Rules)

def cleanText (v : Json) (limit : ℕ) : String :=
  Python.take limit (strip (String.ofList ((r.text.orEmpty v).toList.filter (· ≠ '\x00'))))

def isIdChar (c : Char) : Bool :=
  ('A' ≤ c && c ≤ 'Z') || ('a' ≤ c && c ≤ 'z') || ('0' ≤ c && c ≤ '9') || ['_', '.', ':', '-'].contains c

-- `_clean_id`, which raises where it gives nothing
def cleanId (v : Json) : Option String :=
  let normalized := r.text.stripped v
  if normalized.toList.all isIdChar && 1 ≤ normalized.length && normalized.length ≤ 160 then some normalized else none

-- `str(value or default).strip().lower()`
def lowered (v : Json) (default : String) : String :=
  r.text.lower (strip (r.text.str (Python.orElse v (.str default))))

def boundedFloat (v default minimum maximum : Json) : Option Json :=
  match v with
  | .bool _ => none
  | v => match r.numbers.float (Python.given v default) with
    | .finite s d e => some (Python.maxOf minimum (Python.minOf (.float s d e) maximum))
    | _             => none

def boundedInt (v : Json) (default minimum maximum : ℤ) : Option Json :=
  match v with
  | .bool _ => none
  | v       => (r.numbers.int (Python.given v (.int default))).map fun n => .int (max minimum (min n maximum))

section Masks

-- A point of a stroke, nothing where it is left out, or an exception
def maskPoint (v : Json) : Option (Option Json) :=
  let point := recordOf v
  match r.numbers.float (point.get "x"), r.numbers.float (point.get "y") with
  | .overflow, _ => none
  | .invalid, _  => some none
  | _, .overflow => none
  | .finite s d e, .finite s' d' e' =>
    let unit := fun v => Python.maxOf (.float false 0 0) (Python.minOf v (.float false 1 0))
    some (some (.dict [("x", unit (.float s d e)), ("y", unit (.float s' d' e'))]))
  | _, _ => some none

def maskStrokes : List Json → List Json → Option (List Json)
  | strokes, []      => some strokes
  | strokes, v :: vs =>
    let stroke := recordOf v
    do
      let points ← (lastOf 512 (listOf (stroke.get "points"))).mapM r.maskPoint
      let points := points.reduceOption
      if points.isEmpty then maskStrokes strokes vs
      else
        let id ← r.cleanId (Python.orElse (stroke.get "id") (.str (s!"stroke-{strokes.length + 1}")))
        let size ← r.boundedFloat (stroke.get "size") (.float false 45 (-3)) (.float false 5 (-3)) (.float false 2 (-1))
        let mode := if (stroke.get "mode").eq (.str "erase") then "erase" else "paint"
        let stroke := [("id", .str id), ("mode", .str mode), ("size", size), ("points", .list points)]
        maskStrokes (strokes ++ [.dict stroke]) vs

-- `_normalize_mask`
def normalizeMask (v : Json) : Option (Option Dict) := do
  let mask := recordOf v
  let strokes ← r.maskStrokes [] (lastOf 64 (listOf (mask.get "strokes")))
  if strokes.isEmpty then some none
  else
    let revision ← r.boundedInt (mask.get "revision") 0 0 2147483647
    let frozen ← ((lastOf 20 (listOf (mask.get "frozenSourceIds"))).filter (r.text.stripped · ≠ "")).mapM r.cleanId
    let width ← r.boundedInt (mask.get "sourceWidth") 1024 1 32768
    let height ← r.boundedInt (mask.get "sourceHeight") 1024 1 32768
    some (some [("revision", revision), ("strokes", .list strokes), ("frozenSourceIds", .list (frozen.map .str)),
      ("sourceWidth", width), ("sourceHeight", height)])

end Masks

section Parameters

-- A member that is there only if the value is
def optional (d : Dict) (key : String) (normalize : Json → Option Json) : Option Dict :=
  match d.lookup key with
  | none   => some []
  | some v => (normalize v).map fun v => [(key, v)]

def psdLayer (index : ℕ) (v : Json) : Option Dict := do
  let layer := recordOf v
  let source := r.text.stripped (layer.get "sourceNodeId")
  let source ← if source = "" then some "" else r.cleanId (.str source)
  let x ← r.boundedInt (layer.get "x") 0 (-32768) 32768
  let y ← r.boundedInt (layer.get "y") 0 (-32768) 32768
  let scale ← r.boundedFloat (layer.get "scalePercent") (.int 100) (.int 1) (.int 800)
  let opacity ← r.boundedFloat (layer.get "opacityPercent") (.int 100) (.int 0) (.int 100)
  let order ← r.boundedInt (layer.get "order") index 0 59
  let size := fun key => match layer.get key with
    | .null   => some []
    | .str "" => some []
    | v       => (r.boundedInt v 1 1 32768).map fun v => [(key, v)]
  let width ← size "width"
  let height ← size "height"
  some ([("sourceNodeId", .str source),
    ("name", .str (r.cleanText (Python.orElse (layer.get "name") (.str s!"Layer {index + 1}")) 80)),
    ("x", x), ("y", y), ("scalePercent", scale), ("opacityPercent", opacity),
    ("visible", .bool (layer.get "visible" (.bool true)).truthy), ("order", order)] ++ width ++ height)

-- The key by which layers are sorted
def layerLe (a b : Dict) : Bool :=
  Python.less (a.get "order") (b.get "order") ||
    ((a.get "order").eq (b.get "order") && r.text.str (a.get "sourceNodeId") ≤ r.text.str (b.get "sourceNodeId"))

def psdComposition (parameters : Dict) : Option Dict := do
  let canvas := recordOf (parameters.get "canvas")
  let layers ← ((listOf (parameters.get "layers")).take 60).zipIdx.mapM fun v => r.psdLayer v.2 v.1
  let width ← r.boundedInt (canvas.get "width") 1920 1 32768
  let height ← r.boundedInt (canvas.get "height") 1080 1 32768
  some [("canvas", .dict [("width", width), ("height", height),
      ("background", .str (r.cleanText (Python.orElse (canvas.get "background") (.str "transparent")) 32))]),
    ("layers", .list ((layers.mergeSort r.layerLe).map .dict))]

-- `re.fullmatch(r"\d+(?:/\d+)*", path)`
def isLayerPath (path : String) : Bool :=
  (path.toList.splitOn '/').all fun part => !part.isEmpty && part.all Python.isDecimal

-- `str(value or "").strip().strip("/")`
def layerPath (v : Json) : String :=
  String.ofList (((r.text.stripped v).toList.dropWhile (· = '/')).rdropWhile (· = '/'))

-- An edit of a layer, nothing where it is left out, or an exception
def psdEdit (v : Json) : Option (Option Json) :=
  let edit := recordOf v
  let path := r.layerPath (edit.get "layerPath")
  if !isLayerPath path then some none
  else do
    let name ← optional edit "name" fun v => some (.str (r.cleanText v 80))
    let visible ← optional edit "visible" fun v => some (.bool v.truthy)
    let opacity ← optional edit "opacityPercent" (r.boundedFloat · (.int 100) (.int 0) (.int 100))
    let x ← optional edit "x" (r.boundedInt · 0 (-32768) 32768)
    let y ← optional edit "y" (r.boundedInt · 0 (-32768) 32768)
    let order ← optional edit "order" (r.boundedInt · 0 0 199)
    let parent ← optional edit "targetParentPath" fun v =>
      if r.layerPath v = "" ∨ isLayerPath (r.layerPath v) then some (.str (r.layerPath v)) else none
    let changes := name ++ visible ++ opacity ++ x ++ y ++ order ++ parent
    some (if changes.isEmpty then none else some (.dict (("layerPath", .str path) :: changes)))

-- `_normalize_action_parameters`
def normalizeActionParameters (definition : ActionDefinition) (v : Json) : Option Dict :=
  let parameters := recordOf v
  match definition.parameterEditor with
  | .proxyScene     => (r.normalizeScene (parameters.get "scene")).map fun scene => parameters.set "scene" scene
  | .psdComposition => r.psdComposition parameters
  | .psdLayers      => do
    let edits ← ((listOf (parameters.get "edits")).take 200).mapM r.psdEdit
    some [("edits", .list edits.reduceOption)]
  | .other          => some parameters

end Parameters

section Nodes

def resourceNode (node : Dict) : Option Dict := do
  let origin := r.text.stripped (node.get "origin")
  let resourceId ← r.cleanId (node.get "resourceId")
  let mask ← r.normalizeMask (node.get "mask")
  if ["source", "artifact", "workspace_asset"].contains origin then
    some ([("origin", .str origin), ("resourceId", .str resourceId),
      ("mediaType", .str (r.lowered (node.get "mediaType") "unknown"))] ++
        mask.elim [] fun mask => [("mask", .dict mask)])
  else none

def inputNode (node : Dict) : Dict :=
  let mediaTypes := ((listOf (node.get "acceptedMediaTypes")).map fun v => r.text.lower (strip (r.text.str v))).filter
    (· ≠ "")
  let first := match mediaTypes with
    | mediaType :: _ => .str mediaType
    | []             => .str "unknown"
  [("acceptedMediaTypes", .list ((if mediaTypes.isEmpty then ["unknown"] else mediaTypes.eraseDups).map .str)),
    ("mediaType", .str (r.text.str (Python.orElse (node.get "mediaType") first)))]

def actionNode (node : Dict) : Option Dict := do
  let actionId ← r.cleanId (node.get "actionDefinitionId")
  let definition ← r.definitions actionId
  let parameters ← r.normalizeActionParameters definition (node.get "parameters")
  let revision ← r.boundedInt (node.get "configurationRevision") 1 1 2147483647
  let prompt := (r.text.orEmpty (node.get "prompt")).toList.filter (· ≠ '\x00')
  some [("actionDefinitionId", .str actionId), ("prompt", .str (strip (String.ofList prompt))),
    ("parameters", .dict parameters), ("configurationRevision", revision)]

def resultNode (node : Dict) : Option Dict := do
  let producer ← r.cleanId (node.get "producerActionNodeId")
  let slot ← r.cleanId (Python.orElse (node.get "outputSlot") (.str "output"))
  some [("producerActionNodeId", .str producer), ("outputSlot", .str slot),
    ("mediaType", .str (r.lowered (node.get "mediaType") "unknown"))]

def sinkNode (node : Dict) : Option Dict :=
  let sinkKind := r.lowered (node.get "sinkKind") "preview"
  if ["preview", "download"].contains sinkKind then some [("sinkKind", .str sinkKind)] else none

def normalizeNode (index : ℕ) (v : Json) : Option Dict := do
  let node := recordOf v
  let nodeId ← r.cleanId (Python.orElse (node.get "nodeId") (.str s!"canvas-node-{index + 1}"))
  let kind := r.lowered (node.get "kind") "resource"
  let x ← r.boundedFloat (node.get "x") (.int 0) (.int (-1000000)) (.int 1000000)
  let y ← r.boundedFloat (node.get "y") (.int 0) (.int (-1000000)) (.int 1000000)
  let width ← r.boundedFloat (node.get "width") (.int 280) (.int 180) (.int 720)
  let height ← r.boundedFloat (node.get "height") (.int 190) (.int 96) (.int 720)
  let members ← match kind with
    | "resource" => r.resourceNode node
    | "input"    => some (r.inputNode node)
    | "action"   => r.actionNode node
    | "result"   => r.resultNode node
    | "sink"     => r.sinkNode node
    | _          => none
  some ([("nodeId", .str nodeId), ("kind", .str kind), ("x", x), ("y", y), ("width", width), ("height", height),
    ("title", .str (r.cleanText (node.get "title") 160))] ++ members)

end Nodes

section Edges

-- The members of an edge that binds an entity
def binding (edge : Dict) : Dict :=
  if (edge.get "entityId").truthy || (edge.get "bindingKey").truthy then
    ["entityId", "bindingKey", "semanticRole", "purpose", "resourceDigest"].map fun key =>
      (key, .str (r.text.stripped (edge.get key)))
  else []

def normalizeEdge (nodeIds : List String) (index : ℕ) (v : Json) : Option Dict := do
  let edge := recordOf v
  let edgeId ← r.cleanId (Python.orElse (edge.get "edgeId") (.str s!"canvas-edge-{index + 1}"))
  let fromId ← r.cleanId (edge.get "from")
  let toId ← r.cleanId (edge.get "to")
  let role := r.lowered (edge.get "role") "relation"
  let order ← r.boundedInt (edge.get "order") 0 0 320
  let portId := fun key (data : String) =>
    strip (r.text.str (Python.orElse (edge.get key) (.str (if role = "data" then data else "relation"))))
  let joined := fromId ≠ toId && nodeIds.contains fromId && nodeIds.contains toId
  if !joined || !(["data", "relation"].contains role) then none
  else some ([("edgeId", .str edgeId), ("from", .str fromId), ("to", .str toId),
    ("fromPort", .str (r.text.str (Python.orElse (edge.get "fromPort") (.str "right")))),
    ("toPort", .str (r.text.str (Python.orElse (edge.get "toPort") (.str "left")))),
    ("fromPortId", .str (portId "fromPortId" "output")), ("toPortId", .str (portId "toPortId" "input")),
    ("dataType", .str (r.lowered (edge.get "dataType") "unknown")), ("role", .str role), ("order", order),
    ("note", .str (r.cleanText (edge.get "note") 2000))] ++ r.binding edge)

end Edges

-- The text of a member of a normalised node or edge
def member (d : Dict) (key : String) : String :=
  r.text.orEmpty (d.get key)

-- `_normalize_graph`
def normalizeGraph (graph : Dict) (graphId : String) : Option Document := do
  let nodesRaw := listOf (graph.get "nodes")
  let edgesRaw := listOf (graph.get "edges")
  let nodes ← nodesRaw.zipIdx.mapM fun v => r.normalizeNode v.2 v.1
  let nodeIds := nodes.map (r.member · "nodeId")
  let edges ← edgesRaw.zipIdx.mapM fun v => r.normalizeEdge nodeIds v.2 v.1
  let edgeIds := edges.map (r.member · "edgeId")
  let viewport := recordOf (graph.get "viewport")
  let x ← r.boundedFloat (viewport.get "x") (.int 24) (.int (-1000000)) (.int 1000000)
  let y ← r.boundedFloat (viewport.get "y") (.int 24) (.int (-1000000)) (.int 1000000)
  let scale ← r.boundedFloat (viewport.get "scale") (.int 1) (.float false 2 (-1)) (.int 3)
  if nodesRaw.length ≤ 160 ∧ edgesRaw.length ≤ 320 ∧ nodeIds.Nodup ∧ edgeIds.Nodup then
    some ⟨if graphId = "" then r.text.stripped (graph.get "graphId") else graphId, nodes, edges,
      [("x", x), ("y", y), ("scale", scale)]⟩
  else none

section Validation

def nodeOf (d : Document) (nodeId : String) : Dict :=
  (d.nodes.find? (r.member · "nodeId" = nodeId)).getD []

def dataEdges (d : Document) : List Dict :=
  d.edges.filter (r.member · "role" = "data")

def incoming (d : Document) (nodeId : String) : List Dict :=
  (r.dataEdges d).filter (r.member · "to" = nodeId)

def outgoing (d : Document) (nodeId : String) : List Dict :=
  (r.dataEdges d).filter (r.member · "from" = nodeId)

def sourceOf (d : Document) (edge : Dict) : Dict :=
  r.nodeOf d (r.member edge "from")

def isMaterial (node : Dict) : Bool :=
  ["resource", "result", "input"].contains (r.member node "kind")

def acceptsPort (d : Document) (values : List Dict) (port : InputPort) : Bool :=
  values.length ≤ port.maximum && values.all fun edge =>
    let mediaType := Python.orElse ((r.sourceOf d edge).get "mediaType") (edge.get "dataType")
    port.mediaTypes.contains (r.text.str (Python.orElse mediaType (.str "unknown")))

-- The layers of a composition are bound to different nodes, all of them connected.
def layersBound (node : Dict) (values : List Dict) : Bool :=
  let configured := ((listOf ((recordOf (node.get "parameters")).get "layers")).map
    fun v => r.member (recordOf v) "sourceNodeId").filter (· ≠ "")
  decide configured.Nodup && configured.all (values.map (r.member · "from")).contains

def validAction (d : Document) (node : Dict) (definition : ActionDefinition) : Bool :=
  let values := r.incoming d (r.member node "nodeId")
  let byPort := fun portId => values.filter (r.member · "toPortId" = portId)
  let results := ((r.outgoing d (r.member node "nodeId")).map fun edge => r.nodeOf d (r.member edge "to")).filter
    (r.member · "kind" = "result")
  values.all (fun edge => r.isMaterial (r.sourceOf d edge)) &&
  definition.inputs.all (fun port => r.acceptsPort d (byPort port.portId) port) &&
  values.all (fun edge => (definition.inputs.map (·.portId)).contains (r.member edge "toPortId")) &&
  (definition.parameterEditor ≠ .psdComposition || r.layersBound node (byPort "layers")) &&
  match results with
  | [result] =>
    r.member result "producerActionNodeId" = r.member node "nodeId" &&
    r.member result "outputSlot" = definition.outputSlot &&
    definition.outputMediaTypes.contains (r.member result "mediaType")
  | _        => false

def validNode (available : Dict → Bool) (d : Document) (node : Dict) : Bool :=
  let values := r.incoming d (r.member node "nodeId")
  match r.member node "kind" with
  | "resource" => available node
  | "action"   => (r.definitions (r.member node "actionDefinitionId")).any (r.validAction d node)
  | "result"   => match values.filter fun edge => r.member (r.sourceOf d edge) "kind" = "action" with
    | [producer] => r.member producer "from" = r.member node "producerActionNodeId"
    | _          => false
  | "sink"     => match values with
    | []     => true
    | [edge] => r.isMaterial (r.sourceOf d edge)
    | _      => false
  | _          => true

-- The targets of a node lose an edge, and those that lost their last one join the queue.
def release : List String → List String → (String → ℕ) → List String × (String → ℕ)
  | [], queue, indegree                => (queue, indegree)
  | target :: targets, queue, indegree =>
    let indegree := Function.update indegree target (indegree target - 1)
    release targets (if indegree target = 0 then queue ++ [target] else queue) indegree

-- How many nodes are visited. A node joins the queue once at most, so that the number of nodes is fuel enough.
def visit (d : Document) : ℕ → List String → (String → ℕ) → ℕ
  | 0, _, _                              => 0
  | _, [], _                             => 0
  | fuel + 1, current :: queue, indegree =>
    let next := release ((r.outgoing d current).map (r.member · "to")) queue indegree
    visit d fuel next.1 next.2 + 1

def acyclic (d : Document) : Bool :=
  let nodeIds := d.nodes.map (r.member · "nodeId")
  let indegree := fun nodeId => (r.incoming d nodeId).length
  r.visit d nodeIds.length (nodeIds.filter (indegree · = 0)) indegree = nodeIds.length

-- `validate_graph` where nothing has to be executable. Whether the resource of a node is available is for the
-- databases to say.
def validateGraph (available : Dict → Bool) (graph : Dict) : Option Document :=
  (r.normalizeGraph graph (r.text.orEmpty (graph.get "graphId"))).filter fun d =>
    d.nodes.all (r.validNode available d) && r.acyclic d

end Validation

end Rules
end Canvas
