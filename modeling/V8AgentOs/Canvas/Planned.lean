import Mathlib.Logic.Relation
import V8AgentOs.Canvas.Acyclic
import V8AgentOs.Canvas.Document

-- core/creative_canvas_graph.py: the plan for the actions of a graph, `_compile_plan`.
namespace Canvas

open Python (Dict Json strip)

-- What the catalogue says of running an action
structure ExecutionNeeds where
  capability     : String
  requiresPrompt : Bool
  minimum        : String → ℕ

inductive PlanError
  | invalid   -- `validate_graph` raises.
  | recursion -- `collect` does not come to an end.
  | noActions
  | cycle
  deriving DecidableEq

structure PlanAction where
  actionNodeId          : String
  actionDefinitionId    : String
  capability            : String
  prompt                : Json
  parameters            : Json
  configurationRevision : Json
  inputs                : List Dict
  relationshipNotes     : List Dict
  resultNodeId          : String
  outputSlot            : String
  outputMediaType       : Json
  dependsOn             : List String

structure Plan where
  graphId       : String
  targetNodeIds : List String
  actions       : List PlanAction

-- `sorted(ids)`
def sortedIds (ids : List String) : List String :=
  ids.insertionSort (· ≤ ·)

namespace Rules

variable (r : Rules)

section Executable

variable (execution : String → ExecutionNeeds)

def executableNode (actions : List String) (d : Document) (node : Dict) : Bool :=
  if r.member node "kind" = "action" ∧ r.member node "nodeId" ∈ actions then
    let definitionId := r.member node "actionDefinitionId"
    let values := r.incoming d (r.member node "nodeId")
    (r.definitions definitionId).any fun definition =>
      (!(execution definitionId).requiresPrompt || strip (r.member node "prompt") ≠ "") &&
      definition.inputs.all (fun port =>
        let values := values.filter (r.member · "toPortId" = port.portId)
        (execution definitionId).minimum port.portId ≤ values.length &&
        values.all fun edge => r.member (r.sourceOf d edge) "kind" ≠ "input") &&
      (definition.parameterEditor ≠ .psdLayers || !(listOf ((recordOf (node.get "parameters")).get "edits")).isEmpty)
  else true

-- `validate_graph` where some actions have to be executable
def validateExecutable (available : Dict → Bool) (actions : List String) (graph : Dict) : Option Document :=
  (r.validateGraph available graph).filter fun d => d.nodes.all (r.executableNode execution actions d)

end Executable

variable (d : Document)

def idsOfKind (kind : String) : List String :=
  (d.nodes.filter (r.member · "kind" = kind)).map (r.member · "nodeId")

-- A node and all that feeds it
def collect : ℕ → List String → String → Option (List String)
  | 0, _, _                          => none
  | fuel + 1, targetActions, nodeId =>
    let node := r.nodeOf d nodeId
    let targetActions := if r.member node "kind" = "action" then targetActions.insert nodeId else targetActions
    let targetActions :=
      if r.member node "kind" = "result" then targetActions.insert (r.member node "producerActionNodeId")
      else targetActions
    (r.incoming d nodeId).foldlM (fun found edge => collect fuel found (r.member edge "from")) targetActions

-- The producers of what feeds an action
def dependencies (targetActions : List String) (actionId : String) : List String :=
  let sources := ((r.incoming d actionId).map (r.sourceOf d)).filter (r.member · "kind" = "result")
  ((sources.map (r.member · "producerActionNodeId")).filter (· ∈ targetActions)).eraseDups

-- What is ready, and what remains, when the current action has been ordered
def finish (current : String) (ordered : List String) :
    List String → List (String × List String) → List String × List (String × List String)
  | ready, []                         => (ready, [])
  | ready, (nodeId, values) :: remaining =>
    let values' := if current ∈ values then values.erase current else values
    let isReady := current ∈ values ∧ values' = [] ∧ nodeId ∉ ordered ∧ nodeId ∉ ready
    let next := finish current ordered (if isReady then ready ++ [nodeId] else ready) remaining
    (next.1, (nodeId, values') :: next.2)

-- An action is ready once at most, so that the number of actions is fuel enough.
def order : ℕ → List String → List String → List (String × List String) → List String
  | 0, ordered, _, _                             => ordered
  | _, ordered, [], _                            => ordered
  | fuel + 1, ordered, current :: ready, remaining =>
    let next := finish current (ordered ++ [current]) ready remaining
    order fuel (ordered ++ [current]) next.1 next.2

-- `collect_context`. Every call that goes on adds a node, so that the number of nodes is fuel enough.
def collectContext : ℕ → List String → String → List String
  | 0, context, _             => context
  | fuel + 1, context, nodeId =>
    if nodeId ∈ context then context
    else (r.incoming d nodeId).foldl (fun context edge => collectContext fuel context (r.member edge "from"))
      (context ++ [nodeId])

-- The keys by which the inputs of an action and the notes are sorted
def inputLe (a b : Dict) : Bool :=
  r.member a "toPortId" < r.member b "toPortId" || (r.member a "toPortId" = r.member b "toPortId" &&
    (Python.less (a.get "order") (b.get "order") || ((a.get "order").eq (b.get "order") &&
      r.member a "edgeId" ≤ r.member b "edgeId")))

def planInput (edge : Dict) : Dict :=
  let source := r.sourceOf d edge
  let kind := r.member source "kind"
  [("edgeId", edge.get "edgeId"), ("portId", edge.get "toPortId"), ("sourceNodeId", edge.get "from"),
    ("sourceKind", source.get "kind"),
    ("resource", if kind = "resource" then .dict [("origin", source.get "origin"), ("id", source.get "resourceId"),
      ("mediaType", source.get "mediaType")] else .null),
    ("resultNodeId", if kind = "result" then edge.get "from" else .null), ("order", edge.get "order"),
    ("note", Python.orElse (edge.get "note") (.str ""))] ++
  (["entityId", "bindingKey", "semanticRole", "purpose", "resourceDigest"].filter edge.has).map fun key =>
    (key, edge.get key)

def relationshipNotes (context : List String) : List Dict :=
  let noted := d.edges.filter fun edge => (edge.get "note").truthy && context.contains (r.member edge "from") &&
    context.contains (r.member edge "to")
  (noted.insertionSort fun a b => r.member a "edgeId" ≤ r.member b "edgeId").map fun edge =>
    [("edgeId", edge.get "edgeId"), ("fromNodeId", edge.get "from"), ("toNodeId", edge.get "to"),
      ("note", edge.get "note")]

def planAction (execution : String → ExecutionNeeds) (targetActions : List String) (actionId : String) : PlanAction :=
  let node := r.nodeOf d actionId
  let definitionId := r.member node "actionDefinitionId"
  let results := ((r.outgoing d actionId).map (r.member · "to")).filter fun nodeId =>
    r.member (r.nodeOf d nodeId) "kind" = "result"
  let resultId := results.headD "" -- the graph is valid, and the action has a result.
  { actionNodeId          := actionId
    actionDefinitionId    := definitionId
    capability            := (execution definitionId).capability
    prompt                := Python.orElse (node.get "prompt") (.str "")
    parameters            := Python.orElse (node.get "parameters") (.dict [])
    configurationRevision := Python.orElse (node.get "configurationRevision") (.int 1)
    inputs                := ((r.incoming d actionId).insertionSort fun a b => r.inputLe a b).map (r.planInput d)
    relationshipNotes     := r.relationshipNotes d (r.collectContext d (d.nodes.length + 1) [] actionId)
    resultNodeId          := resultId
    outputSlot            := (r.definitions definitionId).elim "" (·.outputSlot)
    outputMediaType       := (r.nodeOf d resultId).get "mediaType"
    dependsOn             := sortedIds (r.dependencies d targetActions actionId) }

-- The second half of `_compile_plan`, on the graph that has been validated for execution
def planOf (execution : String → ExecutionNeeds) (targetNodeIds targetActions : List String) : Except PlanError Plan :=
  let remaining := (sortedIds targetActions).map fun nodeId => (nodeId, r.dependencies d targetActions nodeId)
  let ready := sortedIds (targetActions.filter (r.dependencies d targetActions · = []))
  let ordered := order targetActions.length [] ready remaining
  if ordered.length ≠ targetActions.length then .error .cycle
  else .ok ⟨d.graphId, targetNodeIds, ordered.map (r.planAction d execution targetActions)⟩

omit d in
-- `_compile_plan` without the digest of the actions and the list of their resources
def compilePlan (execution : String → ExecutionNeeds) (available : Dict → Bool) (graph : Dict)
    (targetNodeIds : List String) : Except PlanError Plan :=
  match r.validateGraph available graph with
  | none   => .error .invalid
  | some d =>
    let requested := (targetNodeIds.filter (· ∈ d.nodes.map (r.member · "nodeId"))).eraseDups
    match requested.foldlM (r.collect d (d.nodes.length + 1)) [] with
    | none           => .error .recursion
    | some collected =>
      let targetActions := if requested = [] then r.idsOfKind d "action" else collected
      let shown :=
        if requested = [] then
          if r.idsOfKind d "sink" = [] then sortedIds targetActions else r.idsOfKind d "sink"
        else requested
      if targetActions = [] then .error .noActions
      else match r.validateExecutable execution available targetActions d.toDict with
        | none   => .error .invalid
        | some d => r.planOf d execution shown targetActions

end Rules
end Canvas

-- Which actions a plan has, and in which order.
namespace Canvas

open Python (Dict Json)
open Relation (ReflTransGen)

-- What a graph that has been validated is like
structure Valid (r : Rules) (d : Document) : Prop where
  nodup    : (r.nodeIds d).Nodup
  within   : ∀ arc ∈ r.arcs d, arc.1 ∈ r.nodeIds d ∧ arc.2 ∈ r.nodeIds d
  rank     : ∃ rank : String → ℕ, (∀ a, rank a ≤ d.nodes.length) ∧ ∀ a b, (a, b) ∈ r.arcs d → rank a < rank b
  produced : ∀ nodeId ∈ r.nodeIds d, r.kindOf d nodeId = "result" →
    (r.producerOf d nodeId, nodeId) ∈ r.arcs d ∧ r.kindOf d (r.producerOf d nodeId) = "action"

def Feeds (r : Rules) (d : Document) (a b : String) : Prop :=
  (a, b) ∈ r.arcs d

def IsAction (r : Rules) (d : Document) (nodeId : String) : Prop :=
  nodeId ∈ r.nodeIds d ∧ r.kindOf d nodeId = "action"

-- The result of one action is an input of the other.
def DependsOn (r : Rules) (d : Document) (actionId producer : String) : Prop :=
  ∃ nodeId, (nodeId, actionId) ∈ r.arcs d ∧ r.kindOf d nodeId = "result" ∧ r.producerOf d nodeId = producer

-- What is claimed of a plan for some targets
structure Planned (r : Rules) (d : Document) (targets : List String) (plan : Plan) : Prop where
  exactly : ∀ nodeId, nodeId ∈ plan.actions.map (·.actionNodeId) ↔
    IsAction r d nodeId ∧ (targets = [] ∨ ∃ target ∈ targets, ReflTransGen (Feeds r d) nodeId target)
  once    : (plan.actions.map (·.actionNodeId)).Nodup
  depends : ∀ action ∈ plan.actions, ∀ nodeId, nodeId ∈ action.dependsOn ↔
    nodeId ∈ plan.actions.map (·.actionNodeId) ∧ DependsOn r d action.actionNodeId nodeId
  inputs  : ∀ action ∈ plan.actions, ∀ nodeId, DependsOn r d action.actionNodeId nodeId →
    nodeId ∈ plan.actions.map (·.actionNodeId)
  after   : ∀ front action back, plan.actions = front ++ action :: back →
    ∀ nodeId ∈ action.dependsOn, nodeId ∈ front.map (·.actionNodeId)

variable {r : Rules} {d d' : Document} {graph : Dict} {available : Dict → Bool} {nodeId target : String}
  {targets found : List String}

theorem nodeOf_of_mem (h : nodeId ∈ r.nodeIds d) :
    ∃ node ∈ d.nodes, r.nodeOf d nodeId = node ∧ r.member node "nodeId" = nodeId := by
  obtain ⟨node, hnode, hid⟩ := List.mem_map.mp h
  have hsome : (d.nodes.find? (r.member · "nodeId" = nodeId)).isSome = true :=
    List.find?_isSome.mpr ⟨node, hnode, by simpa using hid⟩
  obtain ⟨found, hfound⟩ := Option.isSome_iff_exists.mp hsome
  refine ⟨found, List.mem_of_find?_eq_some hfound, ?_, by simpa using List.find?_some hfound⟩
  rw [Rules.nodeOf, hfound]
  rfl

theorem valid_of_validate (h : r.validateGraph available graph = some d) : Valid r d := by
  obtain ⟨hnormal, hvalid⟩ := Option.filter_eq_some_iff.mp h
  rw [Bool.and_eq_true] at hvalid
  obtain ⟨hnodes, hacyclic⟩ := hvalid
  have hnodup : (r.nodeIds d).Nodup := (nodup_of_normalize hnormal).left
  have hwithin : ∀ arc ∈ r.arcs d, arc.1 ∈ r.nodeIds d ∧ arc.2 ∈ r.nodeIds d := by
    intro arc harc
    obtain ⟨edge, hedge, rfl⟩ := List.mem_map.mp harc
    obtain ⟨v, -, hv⟩ := exists_of_mapM (lists_of_normalize hnormal).right (List.mem_filter.mp hedge).left
    have hmade := madeEdge hv
    obtain ⟨source, hsource, -, hfrom⟩ := hmade.source
    obtain ⟨target, htarget, -, hto⟩ := hmade.target
    rw [member_str hfrom, member_str hto]
    exact ⟨hsource, htarget⟩
  refine ⟨hnodup, hwithin, exists_rank hnodup (fun arc harc => (hwithin arc harc).right) hacyclic, ?_⟩
  intro nodeId hnodeId hkind
  obtain ⟨node, hnode, hfound, hid⟩ := nodeOf_of_mem hnodeId
  have hvalid := List.all_eq_true.mp hnodes node hnode
  rw [Rules.kindOf, hfound] at hkind
  simp only [Rules.validNode, hkind] at hvalid
  split at hvalid
  case h_2 => cases hvalid
  case h_1 producer hproducers =>
    have hproducer : producer ∈ (r.incoming d (r.member node "nodeId")).filter fun edge =>
        r.member (r.sourceOf d edge) "kind" = "action" := hproducers ▸ List.mem_cons_self
    obtain ⟨hincoming, haction⟩ := List.mem_filter.mp hproducer
    obtain ⟨hdata, hto⟩ := List.mem_filter.mp hincoming
    have hname : r.member producer "from" = r.producerOf d nodeId := by
      rw [Rules.producerOf, hfound]
      exact of_decide_eq_true hvalid
    rw [decide_eq_true_iff, hid] at hto
    constructor
    · exact List.mem_map.mpr ⟨producer, hdata, by rw [hname, hto]⟩
    · rw [← hname]
      exact of_decide_eq_true haction

section Collected

-- What a node adds to the actions
def Collects (r : Rules) (d : Document) (nodeId added : String) : Prop :=
  (r.kindOf d nodeId = "action" ∧ added = nodeId) ∨ (r.kindOf d nodeId = "result" ∧ added = r.producerOf d nodeId)

theorem mem_incoming {source : String} :
    source ∈ (r.incoming d nodeId).map (r.member · "from") ↔ (source, nodeId) ∈ r.arcs d := by
  simp only [Rules.incoming, Rules.arcs, List.mem_map, List.mem_filter, decide_eq_true_iff, Prod.mk.injEq]
  constructor
  · rintro ⟨edge, ⟨hdata, hto⟩, hfrom⟩
    exact ⟨edge, hdata, hfrom, hto⟩
  · rintro ⟨edge, hdata, hfrom, hto⟩
    exact ⟨edge, ⟨hdata, hto⟩, hfrom⟩

-- What is collected from several nodes, if it is known what is collected from each of them
theorem foldlM_collected {α : Type} {f : List String → α → Option (List String)} {adds : α → String → Prop}
    {items : List α} (h : ∀ item ∈ items, ∀ found : List String, found.Nodup →
      ∃ found', f found item = some found' ∧ found'.Nodup ∧ ∀ x, x ∈ found' ↔ x ∈ found ∨ adds item x)
    (hnodup : found.Nodup) : ∃ found', items.foldlM f found = some found' ∧ found'.Nodup ∧
      ∀ x, x ∈ found' ↔ x ∈ found ∨ ∃ item ∈ items, adds item x := by
  induction items generalizing found
  case nil => exact ⟨found, rfl, hnodup, by simp⟩
  case cons item items hi =>
    obtain ⟨found', hf, hnodup', hmem⟩ := h item List.mem_cons_self found hnodup
    have hitems := fun other hother => h other (List.mem_cons_of_mem item hother)
    obtain ⟨found'', hrest, hnodup'', hmem'⟩ := hi hitems hnodup'
    refine ⟨found'', ?_, hnodup'', ?_⟩
    · rw [List.foldlM_cons, hf]
      exact hrest
    · intro x
      rw [hmem', hmem, or_assoc]
      simp

theorem mem_adds {x : String} : x ∈ (if r.kindOf d nodeId = "result" then
      List.insert (r.producerOf d nodeId) (if r.kindOf d nodeId = "action" then found.insert nodeId else found)
    else if r.kindOf d nodeId = "action" then found.insert nodeId else found) ↔
      x ∈ found ∨ Collects r d nodeId x := by
  unfold Collects
  split
  case isTrue hresult =>
    have haction : r.kindOf d nodeId ≠ "action" := by simp [hresult]
    simp [hresult, or_comm]
  case isFalse hresult =>
    split
    case isTrue haction  => simp [haction, or_comm]
    case isFalse haction => simp [hresult, haction]

theorem collect_eq (rank : String → ℕ) (hrank : ∀ a b, (a, b) ∈ r.arcs d → rank a < rank b) {fuel : ℕ}
    (hfuel : rank nodeId < fuel) (hnodup : found.Nodup) :
    ∃ found', r.collect d fuel found nodeId = some found' ∧ found'.Nodup ∧
      ∀ x, x ∈ found' ↔ x ∈ found ∨ ∃ other, ReflTransGen (Feeds r d) other nodeId ∧ Collects r d other x := by
  induction fuel generalizing nodeId found
  case zero => exact absurd hfuel (Nat.not_lt_zero _)
  case succ fuel hi =>
    have hsources : ∀ edge ∈ r.incoming d nodeId, ∀ found : List String, found.Nodup →
        ∃ found', r.collect d fuel found (r.member edge "from") = some found' ∧ found'.Nodup ∧
          ∀ x, x ∈ found' ↔ x ∈ found ∨
            ∃ other, ReflTransGen (Feeds r d) other (r.member edge "from") ∧ Collects r d other x := by
      intro edge hedge found hnodup
      have := hrank _ _ (mem_incoming.mp (List.mem_map_of_mem hedge))
      exact hi (by omega) hnodup
    have hstart : (if r.kindOf d nodeId = "result" then
        List.insert (r.producerOf d nodeId) (if r.kindOf d nodeId = "action" then found.insert nodeId else found)
        else if r.kindOf d nodeId = "action" then found.insert nodeId else found).Nodup := by
      have hself : (if r.kindOf d nodeId = "action" then found.insert nodeId else found).Nodup := by
        split
        case isTrue  => exact hnodup.insert
        case isFalse => exact hnodup
      split
      case isTrue  => exact hself.insert
      case isFalse => exact hself
    obtain ⟨found', hfold, hnodup', hmem⟩ := foldlM_collected hsources hstart
    refine ⟨found', hfold, hnodup', ?_⟩
    intro x
    rw [hmem, mem_adds, or_assoc]
    apply or_congr_right
    constructor
    case mp =>
      intro h
      cases h
      case inl hadds => exact ⟨nodeId, .refl, hadds⟩
      case inr hedge =>
        obtain ⟨edge, hedge, other, hreach, hadds⟩ := hedge
        exact ⟨other, hreach.tail (mem_incoming.mp (List.mem_map_of_mem hedge)), hadds⟩
    case mpr =>
      rintro ⟨other, hreach, hadds⟩
      cases ReflTransGen.cases_tail hreach
      case inl hself => exact .inl (hself ▸ hadds)
      case inr hsource =>
        obtain ⟨source, hreach, hfeeds⟩ := hsource
        obtain ⟨edge, hedge, hfrom⟩ := List.mem_map.mp (mem_incoming.mpr hfeeds)
        exact .inr ⟨edge, hedge, other, hfrom ▸ hreach, hadds⟩

end Collected

section Ordered

theorem nodup_eraseDups {α : Type} [BEq α] [LawfulBEq α] (l : List α) : l.eraseDups.Nodup := by
  induction hn : l.length using Nat.strongRecOn generalizing l
  case ind n hi =>
    cases l
    case nil => simp
    case cons a l =>
      rw [List.eraseDups_cons, List.nodup_cons]
      have hlt : (l.filter fun b => !b == a).length < n := by
        have := List.length_filter_le (fun b => !b == a) l
        simp only [List.length_cons] at hn
        omega
      exact ⟨by simp, hi _ hlt _ rfl⟩

theorem mem_sortedIds {ids : List String} : nodeId ∈ sortedIds ids ↔ nodeId ∈ ids :=
  List.mem_insertionSort _

theorem sortedIds_perm (ids : List String) : (sortedIds ids).Perm ids :=
  List.perm_insertionSort _ _

theorem mem_dependencies {b : String} :
    b ∈ r.dependencies d targets nodeId ↔ DependsOn r d nodeId b ∧ b ∈ targets := by
  simp only [Rules.dependencies, List.mem_eraseDups, List.mem_filter, List.mem_map, decide_eq_true_iff]
  constructor
  case mp =>
    rintro ⟨⟨_, ⟨⟨edge, hedge, rfl⟩, hkind⟩, hproducer⟩, htarget⟩
    exact ⟨⟨r.member edge "from", mem_incoming.mp (List.mem_map_of_mem hedge), hkind, hproducer⟩, htarget⟩
  case mpr =>
    rintro ⟨⟨source, harc, hkind, hproducer⟩, htarget⟩
    obtain ⟨edge, hedge, hfrom⟩ := List.mem_map.mp (mem_incoming.mpr harc)
    refine ⟨⟨r.sourceOf d edge, ⟨⟨edge, hedge, rfl⟩, ?_⟩, ?_⟩, htarget⟩
    · rw [Rules.sourceOf, hfrom]
      exact hkind
    · rw [Rules.sourceOf, hfrom]
      exact hproducer

variable {current : String} {ordered ready ids : List String} {values : String → List String}

-- The actions that have lost their last dependency become ready.
theorem finish_eq (hnodup : ids.Nodup)
    (hfresh : ∀ nodeId ∈ ids, current ∈ values nodeId → nodeId ∉ ordered ∧ nodeId ∉ ready) :
    Rules.finish current ordered ready (ids.map fun nodeId => (nodeId, values nodeId)) =
      (ready ++ ids.filter fun nodeId => current ∈ values nodeId && (values nodeId).erase current = [],
        ids.map fun nodeId => (nodeId, (values nodeId).erase current)) := by
  induction ids generalizing ready
  case nil => simp [Rules.finish]
  case cons nodeId ids hi =>
    obtain ⟨hnew, hnodup⟩ := List.nodup_cons.mp hnodup
    have herase : (if current ∈ values nodeId then (values nodeId).erase current else values nodeId) =
        (values nodeId).erase current := by
      split
      case isTrue      => rfl
      case isFalse hno => exact (List.erase_of_not_mem hno).symm
    by_cases hready : current ∈ values nodeId ∧ (values nodeId).erase current = []
    case pos =>
      have hcond : current ∈ values nodeId ∧ (values nodeId).erase current = [] ∧ nodeId ∉ ordered ∧ nodeId ∉ ready :=
        ⟨hready.left, hready.right, hfresh nodeId List.mem_cons_self hready.left⟩
      have hrest := @hi (ready ++ [nodeId]) hnodup fun other hother hcurrent => by
        obtain ⟨hordered, hreadied⟩ := hfresh other (List.mem_cons_of_mem nodeId hother) hcurrent
        refine ⟨hordered, fun hmem => ?_⟩
        cases List.mem_append.mp hmem
        case inl hmem => exact hreadied hmem
        case inr hmem => exact hnew (List.mem_singleton.mp hmem ▸ hother)
      rw [List.map_cons, Rules.finish, herase, if_pos hcond, hrest, List.filter_cons_of_pos (by simpa using hready)]
      simp
    case neg =>
      have hcond : ¬(current ∈ values nodeId ∧ (values nodeId).erase current = [] ∧ nodeId ∉ ordered ∧
          nodeId ∉ ready) := fun h => hready ⟨h.left, h.right.left⟩
      have hrest := @hi ready hnodup fun other hother =>
        hfresh other (List.mem_cons_of_mem nodeId hother)
      rw [List.map_cons, Rules.finish, herase, if_neg hcond, hrest, List.filter_cons_of_neg (by simpa using hready)]
      simp

-- The dependencies that have not been ordered
def Rules.pending (r : Rules) (d : Document) (targets ordered : List String) (nodeId : String) : List String :=
  (r.dependencies d targets nodeId).filter (· ∉ ordered)

theorem erase_pending :
    (r.pending d targets ordered nodeId).erase current = r.pending d targets (ordered ++ [current]) nodeId := by
  have hnodup : (r.pending d targets ordered nodeId).Nodup := (nodup_eraseDups _).filter _
  rw [hnodup.erase_eq_filter, Rules.pending, Rules.pending, List.filter_filter]
  apply List.filter_congr
  intro b _
  rw [Bool.eq_iff_iff]
  simp [and_comm]

theorem pending_eq_nil : r.pending d targets ordered nodeId = [] ↔
    ∀ b, b ∈ r.dependencies d targets nodeId → b ∈ ordered := by
  simp [Rules.pending, List.filter_eq_nil_iff]

-- Who has to be ordered before whom
def Needs (r : Rules) (d : Document) (targets : List String) (a b : String) : Prop :=
  b ∈ r.dependencies d targets a

theorem order_peeled {fuel : ℕ} (hnodup : targets.Nodup) (h : Peeling.Peeled targets (Needs r d targets) ordered ready)
    (hfuel : targets.length ≤ ordered.length + fuel) :
    Peeling.Peeled targets (Needs r d targets) (Rules.order fuel ordered ready
      ((sortedIds targets).map fun nodeId => (nodeId, r.pending d targets ordered nodeId))) [] := by
  induction fuel generalizing ordered ready
  case zero =>
    have hlength := h.length_le
    have hnil : ready = [] := List.length_eq_zero_iff.mp (by omega)
    subst hnil
    exact h
  case succ fuel hi =>
    cases ready
    case nil => exact h
    case cons current ready =>
      have hcurrent : current ∉ ordered := fun hmem =>
        (List.nodup_append.mp h.nodup).right.right current hmem current List.mem_cons_self rfl
      have hfresh : ∀ nodeId ∈ sortedIds targets, current ∈ r.pending d targets ordered nodeId →
          nodeId ∉ ordered ++ [current] ∧ nodeId ∉ ready := by
        intro nodeId _ hpending
        have hneeds : Needs r d targets nodeId current := (List.mem_filter.mp hpending).left
        have hnot : nodeId ∉ ordered ++ current :: ready := fun hmem =>
          hcurrent (((h.mem nodeId).mp hmem).right current hneeds)
        rw [← List.singleton_append, ← List.append_assoc, List.mem_append, not_or] at hnot
        exact hnot
      have hsorted : (sortedIds targets).Nodup := (sortedIds_perm targets).nodup_iff.mpr hnodup
      have hfinish := finish_eq hsorted hfresh
      simp only [erase_pending] at hfinish
      rw [Rules.order, hfinish]
      apply hi (h.step (hsorted.filter _) ?_) (by rw [List.length_append, List.length_singleton]; omega)
      intro nodeId
      rw [List.mem_filter, mem_sortedIds, Bool.and_eq_true, decide_eq_true_iff, decide_eq_true_iff, pending_eq_nil]
      apply and_congr_right
      intro _
      apply and_congr_left
      intro _
      rw [Rules.pending, List.mem_filter]
      simp [hcurrent, Needs]

-- The actions and what they depend on, which are actions of the plan too
structure Closed (r : Rules) (d : Document) (targets : List String) : Prop where
  nodup   : targets.Nodup
  actions : ∀ nodeId ∈ targets, IsAction r d nodeId
  needs   : ∀ nodeId ∈ targets, ∀ b, DependsOn r d nodeId b → b ∈ targets

variable (execution : String → ExecutionNeeds) (shown : List String)

theorem planOf_eq (hvalid : Valid r d) (h : Closed r d targets) : ∃ ids : List String,
    Peeling.Peeled targets (Needs r d targets) ids [] ∧ ids.Perm targets ∧
    r.planOf d execution shown targets = .ok ⟨d.graphId, shown, ids.map (r.planAction d execution targets)⟩ := by
  have hstart : Peeling.Peeled targets (Needs r d targets) []
      (sortedIds (targets.filter (r.dependencies d targets · = []))) := by
    apply Peeling.Peeled.start ((sortedIds_perm _).nodup_iff.mpr (h.nodup.filter _))
    intro nodeId
    rw [mem_sortedIds, List.mem_filter, decide_eq_true_iff, List.eq_nil_iff_forall_not_mem]
    rfl
  have hremaining : (r.pending d targets []) = r.dependencies d targets := by
    funext nodeId
    simp [Rules.pending]
  have hfuel : targets.length ≤ ([] : List String).length + targets.length := Nat.le_add_left _ _
  have hpeeled := order_peeled h.nodup hstart hfuel
  rw [hremaining] at hpeeled
  obtain ⟨rank, -, hrank⟩ := hvalid.rank
  have hall := hpeeled.complete rank (by
    intro a _ b hneeds
    obtain ⟨⟨source, harc, hkind, hproducer⟩, htarget⟩ := mem_dependencies.mp hneeds
    obtain ⟨hproduced, -⟩ := hvalid.produced source (hvalid.within _ harc).left hkind
    rw [hproducer] at hproduced
    exact ⟨htarget, (hrank _ _ hproduced).trans (hrank _ _ harc)⟩)
  have hnodup := hpeeled.nodup
  have hsubset := hpeeled.subset
  rw [List.append_nil] at hnodup hsubset
  have hperm := (List.perm_ext_iff_of_nodup hnodup h.nodup).mpr fun a => ⟨fun ha => hsubset ha, hall a⟩
  refine ⟨_, hpeeled, hperm, ?_⟩
  rw [Rules.planOf, if_neg (by simpa using hperm.length_eq)]

variable {execution shown}

theorem planned_of_peeled {ids : List String} {plan : Plan}
    (hpeeled : Peeling.Peeled targets (Needs r d targets) ids [])
    (hperm : ids.Perm targets) (h : Closed r d targets)
    (hactions : plan.actions = ids.map (r.planAction d execution targets))
    (hexactly : ∀ nodeId, nodeId ∈ targets ↔
      IsAction r d nodeId ∧ (found = [] ∨ ∃ target ∈ found, ReflTransGen (Feeds r d) nodeId target)) :
    Planned r d found plan := by
  have hids : plan.actions.map (·.actionNodeId) = ids := by
    rw [hactions, List.map_map]
    exact List.map_id ids
  have haction {action : PlanAction} (hmem : action ∈ plan.actions) :
      action.actionNodeId ∈ targets ∧ action = r.planAction d execution targets action.actionNodeId := by
    rw [hactions] at hmem
    obtain ⟨nodeId, hnodeId, rfl⟩ := List.mem_map.mp hmem
    exact ⟨hperm.mem_iff.mp hnodeId, rfl⟩
  have hdepends {action : PlanAction} (hmem : action ∈ plan.actions) (nodeId : String) :
      nodeId ∈ action.dependsOn ↔ DependsOn r d action.actionNodeId nodeId ∧ nodeId ∈ targets := by
    rw [(haction hmem).right]
    exact mem_sortedIds.trans mem_dependencies
  refine ⟨?exactly, ?once, ?depends, ?inputs, ?after⟩
  case exactly => exact fun nodeId => by rw [hids, hperm.mem_iff, hexactly]
  case once    => rw [hids]; exact hperm.nodup_iff.mpr h.nodup
  case depends => exact fun action hmem nodeId => by rw [hids, hperm.mem_iff, hdepends hmem, and_comm]
  case inputs  =>
    intro action hmem nodeId hdep
    rw [hids, hperm.mem_iff]
    exact h.needs action.actionNodeId (haction hmem).left nodeId hdep
  case after =>
    intro front action back hsplit nodeId hdep
    have hmem : action ∈ plan.actions := by simp [hsplit]
    have hsplit' : ids = front.map (·.actionNodeId) ++ action.actionNodeId :: back.map (·.actionNodeId) := by
      rw [← hids, hsplit, List.map_append, List.map_cons]
    exact hpeeled.ordered _ _ _ hsplit' nodeId (mem_dependencies.mpr ((hdepends hmem nodeId).mp hdep))

end Ordered

section Compiled

variable {execution : String → ExecutionNeeds} {requested : List String} {plan : Plan}

theorem reached_mem {a b : String} (hvalid : Valid r d) (h : ReflTransGen (Feeds r d) a b) :
    a ∈ r.nodeIds d ↔ b ∈ r.nodeIds d := by
  induction h
  case refl => exact Iff.rfl
  case tail b c _ hbc hi =>
    have := hvalid.within _ hbc
    exact hi.trans ⟨fun _ => this.right, fun _ => this.left⟩

theorem collected (hvalid : Valid r d) (hrequested : ∀ target ∈ requested, target ∈ r.nodeIds d) :
    ∃ found, requested.foldlM (r.collect d (d.nodes.length + 1)) [] = some found ∧ found.Nodup ∧
      ∀ x, x ∈ found ↔ IsAction r d x ∧ ∃ target ∈ requested, ReflTransGen (Feeds r d) x target := by
  obtain ⟨rank, hbound, hrank⟩ := hvalid.rank
  have hcollect : ∀ target ∈ requested, ∀ found : List String, found.Nodup →
      ∃ found', r.collect d (d.nodes.length + 1) found target = some found' ∧ found'.Nodup ∧
        ∀ x, x ∈ found' ↔ x ∈ found ∨ ∃ other, ReflTransGen (Feeds r d) other target ∧ Collects r d other x :=
    fun target _ found hnodup => collect_eq rank hrank (Nat.lt_succ_of_le (hbound target)) hnodup
  obtain ⟨found, hfound, hnodup, hmem⟩ := foldlM_collected hcollect List.nodup_nil
  refine ⟨found, hfound, hnodup, ?_⟩
  intro x
  rw [hmem, List.mem_nil_iff, false_or]
  constructor
  case mp =>
    rintro ⟨target, htarget, other, hreach, hadds⟩
    have hother := (reached_mem hvalid hreach).mpr (hrequested target htarget)
    cases hadds
    case inl haction =>
      obtain ⟨hkind, rfl⟩ := haction
      exact ⟨⟨hother, hkind⟩, target, htarget, hreach⟩
    case inr hresult =>
      obtain ⟨hkind, rfl⟩ := hresult
      obtain ⟨harc, haction⟩ := hvalid.produced other hother hkind
      exact ⟨⟨(hvalid.within _ harc).left, haction⟩, target, htarget, hreach.head harc⟩
  case mpr =>
    rintro ⟨haction, target, htarget, hreach⟩
    exact ⟨target, htarget, x, hreach, .inl ⟨haction.right, rfl⟩⟩

theorem closed_collected (hvalid : Valid r d) (hnodup : found.Nodup) (hfound : ∀ x, x ∈ found ↔
    IsAction r d x ∧ ∃ target ∈ requested, ReflTransGen (Feeds r d) x target) : Closed r d found where
  nodup := hnodup
  actions x hx := ((hfound x).mp hx).left
  needs x hx b hneeds := by
    obtain ⟨source, harc, hkind, rfl⟩ := hneeds
    obtain ⟨-, target, htarget, hreach⟩ := (hfound x).mp hx
    obtain ⟨hproduced, haction⟩ := hvalid.produced source (hvalid.within _ harc).left hkind
    have hreached := (hreach.head harc).head hproduced
    exact (hfound _).mpr ⟨⟨(hvalid.within _ hproduced).left, haction⟩, target, htarget, hreached⟩

theorem mem_idsOfKind {kind : String} (hvalid : Valid r d) :
    nodeId ∈ r.idsOfKind d kind ↔ nodeId ∈ r.nodeIds d ∧ r.kindOf d nodeId = kind := by
  have hkind {node : Dict} (hnode : node ∈ d.nodes) : r.nodeOf d (r.member node "nodeId") = node := by
    obtain ⟨node', hnode', hfound, hid⟩ := nodeOf_of_mem (r := r) (List.mem_map_of_mem hnode)
    exact hfound.trans (List.inj_on_of_nodup_map hvalid.nodup hnode' hnode hid)
  simp only [Rules.idsOfKind, Rules.nodeIds, List.mem_map, List.mem_filter, decide_eq_true_iff, Rules.kindOf]
  constructor
  case mp =>
    rintro ⟨node, ⟨hnode, hnodeKind⟩, rfl⟩
    exact ⟨⟨node, hnode, rfl⟩, by rwa [hkind hnode]⟩
  case mpr =>
    rintro ⟨⟨node, hnode, rfl⟩, hnodeKind⟩
    exact ⟨node, ⟨hnode, by rwa [hkind hnode] at hnodeKind⟩, rfl⟩

theorem closed_actions (hvalid : Valid r d) : Closed r d (r.idsOfKind d "action") where
  nodup := hvalid.nodup.sublist (List.filter_sublist.map _)
  actions x hx := (mem_idsOfKind hvalid).mp hx
  needs x hx b hneeds := by
    obtain ⟨source, harc, hkind, rfl⟩ := hneeds
    obtain ⟨hproduced, haction⟩ := hvalid.produced source (hvalid.within _ harc).left hkind
    exact (mem_idsOfKind hvalid).mpr ⟨(hvalid.within _ hproduced).left, haction⟩

section Again

theorem feeds_again (h : SameGraph d d') : Feeds r d' = Feeds r d := by
  funext a b
  rw [Feeds, Feeds, h.arcs]

theorem isAction_again (h : SameGraph d d') : IsAction r d' = IsAction r d := by
  funext nodeId
  rw [IsAction, IsAction, h.nodeIds, Rules.kindOf, Rules.kindOf, h.nodeOf (by decide)]

theorem dependsOn_again (h : SameGraph d d') : DependsOn r d' = DependsOn r d := by
  have hkind (nodeId : String) : r.member (r.nodeOf d' nodeId) "kind" = r.member (r.nodeOf d nodeId) "kind" :=
    h.nodeOf (by decide)
  have hproducer (nodeId : String) : r.member (r.nodeOf d' nodeId) "producerActionNodeId" =
      r.member (r.nodeOf d nodeId) "producerActionNodeId" := h.nodeOf (by decide)
  funext a b
  simp only [DependsOn, Rules.kindOf, Rules.producerOf, h.arcs, hkind, hproducer]

theorem Closed.again (hsame : SameGraph d d') (h : Closed r d targets) : Closed r d' targets where
  nodup   := h.nodup
  actions := isAction_again (r := r) hsame ▸ h.actions
  needs   := dependsOn_again (r := r) hsame ▸ h.needs

theorem Planned.again (hsame : SameGraph d d') (h : Planned r d' targets plan) : Planned r d targets plan where
  exactly := isAction_again (r := r) hsame ▸ feeds_again (r := r) hsame ▸ h.exactly
  once    := h.once
  depends := dependsOn_again (r := r) hsame ▸ h.depends
  inputs  := dependsOn_again (r := r) hsame ▸ h.inputs
  after   := h.after

end Again

-- A second validation, for actions that have to be executable
theorem sameGraph_of_validate (h : r.validateGraph available graph = some d) {actions : List String}
    (h' : r.validateExecutable execution available actions d.toDict = some d') : SameGraph d d' ∧ Valid r d' := by
  have hvalidated := (Option.filter_eq_some_iff.mp h').left
  exact ⟨sameGraph (Option.filter_eq_some_iff.mp h).left (Option.filter_eq_some_iff.mp hvalidated).left,
    valid_of_validate hvalidated⟩

-- What is made of actions that are closed
theorem planOf_planned (shown : List String) (hsame : SameGraph d d') (hvalid : Valid r d') (h : Closed r d found)
    (hexactly : ∀ nodeId, nodeId ∈ found ↔
      IsAction r d nodeId ∧ (targets = [] ∨ ∃ target ∈ targets, ReflTransGen (Feeds r d) nodeId target)) :
    ∃ plan, r.planOf d' execution shown found = .ok plan ∧ Planned r d targets plan := by
  obtain ⟨ids, hpeeled, hperm, hplan⟩ := planOf_eq execution shown hvalid (h.again hsame)
  refine ⟨_, hplan, Planned.again hsame ?_⟩
  apply planned_of_peeled hpeeled hperm (h.again hsame) rfl
  rwa [isAction_again hsame, feeds_again hsame]

-- The graph as a whole can be executed.
def Executable (r : Rules) (execution : String → ExecutionNeeds) (available : Dict → Bool) (d : Document) : Prop :=
  r.idsOfKind d "action" ≠ [] ∧
    (r.validateExecutable execution available (r.idsOfKind d "action") d.toDict).isSome = true

-- No target is asked for, or one that there is, or the graph as a whole cannot be executed.
def Aimed (r : Rules) (execution : String → ExecutionNeeds) (available : Dict → Bool) (targets : List String)
    (d : Document) : Prop :=
  targets = [] ∨ (∃ target ∈ targets, target ∈ r.nodeIds d) ∨ ¬Executable r execution available d

-- What is claimed of the compilation of a graph
def Compiles (r : Rules) (execution : String → ExecutionNeeds) (available : Dict → Bool) (graph : Dict)
    (targets : List String) (d : Document) : Prop :=
  r.compilePlan execution available graph targets ≠ .error .cycle ∧
  r.compilePlan execution available graph targets ≠ .error .recursion ∧
  ∀ plan, r.compilePlan execution available graph targets = .ok plan → Planned r d targets plan

theorem Compiles.error {error : PlanError} (h : r.compilePlan execution available graph targets = .error error)
    (hcycle : error ≠ .cycle) (hrecursion : error ≠ .recursion) : Compiles r execution available graph targets d := by
  refine ⟨?_, ?_, ?_⟩
  · simpa [h] using hcycle
  · simpa [h] using hrecursion
  · simp [h]

theorem Compiles.ok (h : r.compilePlan execution available graph targets = .ok plan)
    (hplan : Planned r d targets plan) : Compiles r execution available graph targets d := by
  refine ⟨by simp [h], by simp [h], ?_⟩
  intro plan' h'
  cases h.symm.trans h'
  exact hplan

theorem mem_requested : nodeId ∈ (targets.filter (· ∈ d.nodes.map (r.member · "nodeId"))).eraseDups ↔
    nodeId ∈ targets ∧ nodeId ∈ r.nodeIds d := by
  rw [List.mem_eraseDups, List.mem_filter, decide_eq_true_iff]
  rfl

-- The end of the compilation, for the actions that are to be planned
def Rules.planFor (r : Rules) (execution : String → ExecutionNeeds) (available : Dict → Bool) (d : Document)
    (shown targetActions : List String) : Except PlanError Plan :=
  if targetActions = [] then .error .noActions
  else match r.validateExecutable execution available targetActions d.toDict with
    | none    => .error .invalid
    | some d' => r.planOf d' execution shown targetActions

theorem planFor_eq (shown : List String) (hd : r.validateGraph available graph = some d) (h : Closed r d found)
    (hexactly : ∀ nodeId, nodeId ∈ found ↔
      IsAction r d nodeId ∧ (targets = [] ∨ ∃ target ∈ targets, ReflTransGen (Feeds r d) nodeId target)) :
    (r.planFor execution available d shown found = .error .noActions ∧ found = []) ∨
    (r.planFor execution available d shown found = .error .invalid ∧
      r.validateExecutable execution available found d.toDict = none) ∨
    ∃ plan, r.planFor execution available d shown found = .ok plan ∧ Planned r d targets plan ∧ found ≠ [] ∧
      (r.validateExecutable execution available found d.toDict).isSome = true := by
  unfold Rules.planFor
  split
  case isTrue hnil => exact .inl ⟨rfl, hnil⟩
  case isFalse hne =>
    apply Or.inr
    cases hexecutable : r.validateExecutable execution available found d.toDict
    case none    => exact .inl ⟨rfl, rfl⟩
    case some d' =>
      obtain ⟨hsame, hvalid⟩ := sameGraph_of_validate hd hexecutable
      obtain ⟨plan, hplan, hplanned⟩ := planOf_planned shown hsame hvalid h hexactly
      exact .inr ⟨plan, hplan, hplanned, hne, rfl⟩

-- The compilation when there is a target
theorem compiles_of_target (hd : r.validateGraph available graph = some d)
    (htarget : ∃ target ∈ targets, target ∈ r.nodeIds d) : Compiles r execution available graph targets d := by
  have hvalid := valid_of_validate hd
  have hrequested : ∀ target ∈ (targets.filter (· ∈ d.nodes.map (r.member · "nodeId"))).eraseDups,
      target ∈ r.nodeIds d := fun target htarget => (mem_requested.mp htarget).right
  obtain ⟨found, hfound, hnodup, hmem⟩ := collected hvalid hrequested
  have hsome : (targets.filter (· ∈ d.nodes.map (r.member · "nodeId"))).eraseDups ≠ [] := by
    obtain ⟨target, htarget⟩ := htarget
    exact List.ne_nil_of_mem (mem_requested.mpr htarget)
  have hcompile : r.compilePlan execution available graph targets = r.planFor execution available d
      (targets.filter (· ∈ d.nodes.map (r.member · "nodeId"))).eraseDups found := by
    simp only [Rules.compilePlan, hd, hfound, if_neg hsome]
    rfl
  have hexactly : ∀ nodeId, nodeId ∈ found ↔
      IsAction r d nodeId ∧ (targets = [] ∨ ∃ target ∈ targets, ReflTransGen (Feeds r d) nodeId target) := by
    intro nodeId
    rw [hmem]
    apply and_congr_right
    intro haction
    constructor
    case mp =>
      rintro ⟨target, htarget, hreach⟩
      exact .inr ⟨target, (mem_requested.mp htarget).left, hreach⟩
    case mpr =>
      intro h
      cases h
      case inl hnil =>
        subst hnil
        simp at hsome
      case inr h =>
        obtain ⟨target, htarget, hreach⟩ := h
        exact ⟨target, mem_requested.mpr ⟨htarget, (reached_mem hvalid hreach).mp haction.left⟩, hreach⟩
  obtain ⟨hplan, -⟩ | ⟨hplan, -⟩ | ⟨plan, hplan, hplanned, -, -⟩ :=
    planFor_eq _ hd (closed_collected hvalid hnodup hmem) hexactly
  · exact .error (hcompile.trans hplan) (by decide) (by decide)
  · exact .error (hcompile.trans hplan) (by decide) (by decide)
  · exact .ok (hcompile.trans hplan) hplanned

-- The compilation when there is none
theorem compile_of_none (hd : r.validateGraph available graph = some d)
    (hnone : ∀ target ∈ targets, target ∉ r.nodeIds d) : ∃ shown, r.compilePlan execution available graph targets =
      r.planFor execution available d shown (r.idsOfKind d "action") := by
  have hnil : (targets.filter (· ∈ d.nodes.map (r.member · "nodeId"))).eraseDups = [] := by
    apply List.eq_nil_iff_forall_not_mem.mpr
    intro target htarget
    obtain ⟨hmem, hnode⟩ := mem_requested.mp htarget
    exact hnone target hmem hnode
  exact ⟨_, by simp only [Rules.compilePlan, hd, hnil, List.foldlM_nil, Option.pure_def, if_true]; rfl⟩

theorem compiles_iff (hd : r.validateGraph available graph = some d) :
    Compiles r execution available graph targets d ↔ Aimed r execution available targets d := by
  have hvalid := valid_of_validate hd
  have hall : ∀ nodeId, nodeId ∈ r.idsOfKind d "action" ↔ IsAction r d nodeId ∧
      (([] : List String) = [] ∨ ∃ target ∈ ([] : List String), ReflTransGen (Feeds r d) nodeId target) := by
    intro nodeId
    rw [mem_idsOfKind hvalid]
    simp [IsAction]
  by_cases htarget : ∃ target ∈ targets, target ∈ r.nodeIds d
  case pos => exact ⟨fun _ => .inr (.inl htarget), fun _ => compiles_of_target hd htarget⟩
  case neg =>
    have hnone : ∀ target ∈ targets, target ∉ r.nodeIds d := by simpa using htarget
    obtain ⟨shown, hcompile⟩ : ∃ shown, r.compilePlan execution available graph targets =
      r.planFor execution available d shown (r.idsOfKind d "action") := compile_of_none hd hnone
    obtain ⟨hplan, hempty⟩ | ⟨hplan, hinvalid⟩ | ⟨plan, hplan, hplanned, hne, hvalidated⟩ :=
      planFor_eq shown hd (closed_actions hvalid) hall
    · refine ⟨fun _ => .inr (.inr ?_), fun _ => .error (hcompile.trans hplan) (by decide) (by decide)⟩
      exact fun h => h.left hempty
    · refine ⟨fun _ => .inr (.inr ?_), fun _ => .error (hcompile.trans hplan) (by decide) (by decide)⟩
      rintro ⟨-, hvalidated⟩
      rw [hinvalid] at hvalidated
      exact Bool.false_ne_true hvalidated
    · have hok := hcompile.trans hplan
      constructor
      case mp =>
        intro hcompiles
        have hclaimed := hcompiles.right.right plan hok
        obtain ⟨nodeId, hnodeId⟩ := List.exists_mem_of_ne_nil _ hne
        have hplannedId := (hplanned.exactly nodeId).mpr ((hall nodeId).mp hnodeId)
        -- The action is planned, and there is no target that it could have been planned for.
        obtain ⟨haction, hnil | ⟨target, hmem, hreach⟩⟩ := (hclaimed.exactly nodeId).mp hplannedId
        · exact .inl hnil
        · exact absurd ((reached_mem hvalid hreach).mp haction.left) (hnone target hmem)
      case mpr =>
        intro h
        obtain hnil | hsome | hexecutable := h
        · exact .ok hok (hnil ▸ hplanned)
        · exact absurd hsome htarget
        · exact absurd ⟨hne, hvalidated⟩ hexecutable

-- Only what was aimed at is planned, unless ids were asked for and none of them was a node.
theorem plan_iff_aimed (r : Rules) (execution : String → ExecutionNeeds) (available : Dict → Bool) (graph : Dict)
    (targets : List String) :
    (∀ d, r.validateGraph available graph = some d → Compiles r execution available graph targets d) ↔
      ∀ d, r.validateGraph available graph = some d → Aimed r execution available targets d := by
  constructor
  case mp  => exact fun h d hd => (compiles_iff hd).mp (h d hd)
  case mpr => exact fun h d hd => (compiles_iff hd).mpr (h d hd)

end Compiled

section Sample

def paintRules : Rules where
  text           := Python.asciiText
  numbers        := {
    float v := match v with
      | .int n       => .finite (n < 0) n.natAbs 0
      | .float s d e => .finite s d e
      | _            => .invalid
    int v   := match v with
      | .int n => some n
      | _      => none }
  definitions _  := some ⟨[], "output", ["image"], .other⟩
  normalizeScene := some

def paintExecution (_ : String) : ExecutionNeeds where
  capability     := "image.generate"
  requiresPrompt := true
  minimum _      := 0

-- An action and its result
def paintGraph : Dict :=
  [("nodes", .list [
      .dict [("nodeId", .str "paint"), ("kind", .str "action"), ("actionDefinitionId", .str "image.generate"),
        ("prompt", .str "a tree")],
      .dict [("nodeId", .str "tree"), ("kind", .str "result"), ("producerActionNodeId", .str "paint"),
        ("mediaType", .str "image")]]),
    ("edges", .list [.dict [("from", .str "paint"), ("to", .str "tree"), ("role", .str "data")]])]

-- The target is not a node any more, and the action is planned all the same.
theorem gone_target_plans_all : ∃ d plan, paintRules.validateGraph (fun _ => true) paintGraph = some d ∧
    paintRules.compilePlan paintExecution (fun _ => true) paintGraph ["gone"] = .ok plan ∧
    plan.actions.map (·.actionNodeId) = ["paint"] ∧ ¬ Planned paintRules d ["gone"] plan := by
  have hvalidated : (paintRules.validateGraph (fun _ => true) paintGraph).map paintRules.nodeIds =
    some ["paint", "tree"] := by decide +kernel
  have hcompiled : (paintRules.compilePlan paintExecution (fun _ => true) paintGraph ["gone"]).toOption.map
    (fun plan => plan.actions.map (·.actionNodeId)) = some ["paint"] := by decide +kernel
  obtain ⟨d, hd, hids⟩ := Option.map_eq_some_iff.mp hvalidated
  obtain ⟨plan, hplan, hactions⟩ := Option.map_eq_some_iff.mp hcompiled
  refine ⟨d, plan, hd, ?_, hactions, ?_⟩
  case refine_1 =>
    cases h : paintRules.compilePlan paintExecution (fun _ => true) paintGraph ["gone"]
    case error => rw [h] at hplan; cases hplan
    case ok    => rw [h] at hplan; cases hplan; rfl
  case refine_2 =>
    intro h
    have hpaint : "paint" ∈ plan.actions.map (·.actionNodeId) := by simp [hactions]
    obtain ⟨haction, hnil | ⟨target, htarget, hreach⟩⟩ := (h.exactly "paint").mp hpaint
    · cases hnil
    · have hgone := (reached_mem (valid_of_validate hd) hreach).mp haction.left
      rw [List.mem_singleton.mp htarget, hids] at hgone
      exact absurd hgone (by decide)

end Sample

end Canvas
