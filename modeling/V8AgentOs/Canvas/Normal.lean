import V8AgentOs.Canvas.Document

-- What a normalised document is like, and what stays when it is normalised again.
namespace Canvas

open Python (Dict Json strip strip_strip)

variable {r : Rules} {d d' : Document} {graph node edge : Dict} {graphId s : String} {v default : Json} {i : ℕ}

-- What is made of the nodes and the edges
theorem lists_of_normalize (h : r.normalizeGraph graph graphId = some d) :
    (listOf (graph.get "nodes")).zipIdx.mapM (fun v => r.normalizeNode v.2 v.1) = some d.nodes ∧
      (listOf (graph.get "edges")).zipIdx.mapM
        (fun v => r.normalizeEdge (d.nodes.map (r.member · "nodeId")) v.2 v.1) = some d.edges := by
  simp only [Rules.normalizeGraph, Option.bind_eq_bind, Option.bind_eq_some_iff] at h
  obtain ⟨nodes, hn, edges, he, x, _, y, _, scale, _, h⟩ := h
  split at h
  case isTrue  => cases h; exact ⟨hn, he⟩
  case isFalse => cases h

theorem nodup_of_normalize (h : r.normalizeGraph graph graphId = some d) :
    (d.nodes.map (r.member · "nodeId")).Nodup ∧ (d.edges.map (r.member · "edgeId")).Nodup := by
  simp only [Rules.normalizeGraph, Option.bind_eq_bind, Option.bind_eq_some_iff] at h
  obtain ⟨nodes, hn, edges, he, x, _, y, _, scale, _, h⟩ := h
  split at h
  case isTrue hcond => cases h; exact hcond.right.right
  case isFalse      => cases h

theorem forall₂_of_mapM {α β : Type} {f : α → Option β} {l : List α} {l' : List β} (h : l.mapM f = some l') :
    List.Forall₂ (fun a b => f a = some b) l l' := by
  induction l generalizing l'
  case nil =>
    cases h
    exact .nil
  case cons a l hi =>
    simp only [List.mapM_cons, Option.pure_def, Option.bind_eq_bind, Option.bind_eq_some_iff] at h
    obtain ⟨b, hb, rest, hrest, h⟩ := h
    cases h
    exact .cons hb (hi hrest)

theorem exists_of_mapM {α β : Type} {f : α → Option β} {l : List α} {l' : List β} {b : β} (h : l.mapM f = some l')
    (hb : b ∈ l') : ∃ a ∈ l, f a = some b := by
  have hall := forall₂_of_mapM h
  clear h
  induction hall
  case nil => cases hb
  case cons a b' l l' hab _ hi =>
    cases hb
    case head => exact ⟨a, List.mem_cons_self, hab⟩
    case tail hb =>
      obtain ⟨c, hc, hcb⟩ := hi hb
      exact ⟨c, List.mem_cons_of_mem a hc, hcb⟩

-- The same without the indices
theorem forall₂_of_zipIdx {α β : Type} {f : α × ℕ → Option β} {l : List α} {l' : List β}
    (h : l.zipIdx.mapM f = some l') : List.Forall₂ (fun a b => ∃ i, f (a, i) = some b) l l' := by
  rw [← List.zipIdx_map_fst 0 l, List.forall₂_map_left_iff]
  exact (forall₂_of_mapM h).imp fun a _ hab => ⟨a.2, hab⟩

section Texts

theorem Rules.cleanId_iff : r.cleanId v = some s ↔ r.text.stripped v = s ∧
    s.toList.all isIdChar = true ∧ 1 ≤ s.length ∧ s.length ≤ 160 := by
  simp only [Rules.cleanId, Option.ite_none_right_eq_some, Option.some.injEq, Bool.and_eq_true, decide_eq_true_eq]
  constructor
  case mp =>
    rintro ⟨hvalid, rfl⟩
    exact ⟨rfl, hvalid.left.left, hvalid.left.right, hvalid.right⟩
  case mpr =>
    rintro ⟨rfl, hchars, hmin, hmax⟩
    exact ⟨⟨⟨hchars, hmin⟩, hmax⟩, rfl⟩

theorem Rules.cleanId_ne_empty (h : r.cleanId v = some s) : s ≠ "" := by
  rintro rfl
  have hmin := (cleanId_iff.mp h).right.right.left
  simp at hmin

theorem truthy_str (h : s ≠ "") : (Json.str s).truthy = true := by
  simp [Json.truthy, h]

theorem stripped_str (text : Python.Text) : text.stripped (.str s) = strip s := by
  by_cases h : s = ""
  case pos => subst h; rfl
  case neg => simp [Python.Text.stripped, Python.Text.orEmpty, truthy_str h, Python.Text.str]

theorem orEmpty_str (text : Python.Text) : text.orEmpty (.str s) = s := by
  by_cases h : s = ""
  case pos => subst h; rfl
  case neg => simp [Python.Text.orEmpty, truthy_str h, Python.Text.str]

-- A clean id is clean once more.
theorem Rules.cleanId_self (h : r.cleanId v = some s) : r.cleanId (.str s) = some s := by
  obtain ⟨hstripped, hvalid⟩ := cleanId_iff.mp h
  apply cleanId_iff.mpr ⟨?_, hvalid⟩
  rw [stripped_str, ← hstripped, Python.Text.stripped, strip_strip]

theorem orElse_str (h : s ≠ "") : Python.orElse (.str s) default = .str s := by
  simp [Python.orElse, truthy_str h]

-- The constants that are lower-case already
theorem Rules.lowered_self {text : String}
    (h : s ∈ ["resource", "input", "action", "result", "sink", "data", "relation"]) :
    r.lowered (.str s) text = s := by
  have hne : s ≠ "" := by
    rintro rfl
    exact absurd h (by decide)
  have hsame : strip s = s ∧ s.toList.all (·.toNat < 128) ∧ String.ofList (s.toList.map Char.toLower) = s := by
    simp only [List.mem_cons, List.not_mem_nil, or_false] at h
    obtain rfl | rfl | rfl | rfl | rfl | rfl | rfl := h
    all_goals decide
  rw [Rules.lowered, orElse_str hne, Python.Text.str, hsame.left, r.text.ascii s hsame.right.left, hsame.right.right]

end Texts

section Members

def nodeKinds : List String :=
  ["resource", "input", "action", "result", "sink"]

-- An id that the nodes of one kind have
def HasId (r : Rules) (raw node : Dict) (has : Bool) (key : String) : Prop :=
  if has then ∃ s, r.cleanId (raw.get key) = some s ∧ node.get key = .str s else node.get key = .null

-- What a node is made of, as far as the graph is concerned
structure MadeNode (r : Rules) (index : ℕ) (raw node : Dict) (kind : String) : Prop where
  nodeId     : ∃ s, r.cleanId (Python.orElse (raw.get "nodeId") (.str s!"canvas-node-{index + 1}")) = some s ∧
    node.get "nodeId" = .str s
  known      : kind ∈ nodeKinds
  named      : node.get "kind" = .str kind
  producer   : HasId r raw node (kind = "result") "producerActionNodeId"
  definition : HasId r raw node (kind = "action") "actionDefinitionId"

theorem get_cons {key key' : String} {value : Json} {members : Dict} :
    Dict.get ((key', value) :: members) key = if key = key' then value else members.get key := by
  rw [Dict.get, Python.Dict.lookup_cons]
  split
  case isTrue  => rfl
  case isFalse => rfl

theorem member_str {key : String} (h : node.get key = .str s) : r.member node key = s := by
  rw [Rules.member, h, orEmpty_str]

theorem actionNode_get {members : Dict} (h : r.actionNode node = some members) :
    (∃ s, r.cleanId (node.get "actionDefinitionId") = some s ∧ members.get "actionDefinitionId" = .str s) ∧
      members.get "producerActionNodeId" = .null := by
  simp only [Rules.actionNode, Option.bind_eq_bind, Option.bind_eq_some_iff] at h
  obtain ⟨actionId, hid, definition, -, parameters, -, revision, -, h⟩ := h
  cases h
  exact ⟨⟨actionId, hid, rfl⟩, rfl⟩

theorem resultNode_get {members : Dict} (h : r.resultNode node = some members) :
    (∃ s, r.cleanId (node.get "producerActionNodeId") = some s ∧ members.get "producerActionNodeId" = .str s) ∧
      members.get "actionDefinitionId" = .null := by
  simp only [Rules.resultNode, Option.bind_eq_bind, Option.bind_eq_some_iff] at h
  obtain ⟨producer, hid, slot, -, h⟩ := h
  cases h
  exact ⟨⟨producer, hid, rfl⟩, rfl⟩

theorem resourceNode_get {members : Dict} (h : r.resourceNode node = some members) :
    members.get "producerActionNodeId" = .null ∧ members.get "actionDefinitionId" = .null := by
  simp only [Rules.resourceNode, Option.bind_eq_bind, Option.bind_eq_some_iff] at h
  obtain ⟨resourceId, -, mask, -, h⟩ := h
  split at h
  case isFalse => cases h
  case isTrue =>
    cases h
    cases mask <;> exact ⟨rfl, rfl⟩

theorem sinkNode_get {members : Dict} (h : r.sinkNode node = some members) :
    members.get "producerActionNodeId" = .null ∧ members.get "actionDefinitionId" = .null := by
  unfold Rules.sinkNode at h
  obtain ⟨-, h⟩ := Option.ite_none_right_eq_some.mp h
  cases h
  exact ⟨rfl, rfl⟩

theorem madeNode (h : r.normalizeNode i v = some node) :
    MadeNode r i (recordOf v) node (r.lowered ((recordOf v).get "kind") "resource") := by
  simp only [Rules.normalizeNode, Option.bind_eq_bind, Option.bind_eq_some_iff] at h
  obtain ⟨nodeId, hid, x, -, y, -, width, -, height, -, h⟩ := h
  generalize r.lowered ((recordOf v).get "kind") "resource" = kind at h
  have hmade {members : Dict} (hkind : kind ∈ nodeKinds)
      (hproducer : HasId r (recordOf v) members (kind = "result") "producerActionNodeId")
      (hdefinition : HasId r (recordOf v) members (kind = "action") "actionDefinitionId")
      (hnode : [("nodeId", Json.str nodeId), ("kind", .str kind), ("x", x), ("y", y), ("width", width),
        ("height", height), ("title", .str (r.cleanText ((recordOf v).get "title") 160))] ++ members = node) :
      MadeNode r i (recordOf v) node kind := by
    subst hnode
    exact ⟨⟨nodeId, hid, rfl⟩, hkind, rfl, hproducer, hdefinition⟩
  split at h
  case h_1 =>
    obtain ⟨members, hmembers, h⟩ := Option.bind_eq_some_iff.mp h
    obtain ⟨hproducer, hdefinition⟩ := resourceNode_get hmembers
    exact hmade (by decide) hproducer hdefinition (Option.some.inj h)
  case h_2 =>
    have hnode := Option.some.inj h
    refine hmade (by decide) ?_ ?_ hnode
    · exact rfl
    · exact rfl
  case h_3 =>
    obtain ⟨members, hmembers, h⟩ := Option.bind_eq_some_iff.mp h
    obtain ⟨hdefinition, hproducer⟩ := actionNode_get hmembers
    exact hmade (by decide) hproducer hdefinition (Option.some.inj h)
  case h_4 =>
    obtain ⟨members, hmembers, h⟩ := Option.bind_eq_some_iff.mp h
    obtain ⟨hproducer, hdefinition⟩ := resultNode_get hmembers
    exact hmade (by decide) hproducer hdefinition (Option.some.inj h)
  case h_5 =>
    obtain ⟨members, hmembers, h⟩ := Option.bind_eq_some_iff.mp h
    obtain ⟨hproducer, hdefinition⟩ := sinkNode_get hmembers
    exact hmade (by decide) hproducer hdefinition (Option.some.inj h)
  case h_6 => simp at h

-- What an edge is made of
structure MadeEdge (r : Rules) (nodeIds : List String) (index : ℕ) (raw edge : Dict) : Prop where
  edgeId : ∃ s, r.cleanId (Python.orElse (raw.get "edgeId") (.str s!"canvas-edge-{index + 1}")) = some s ∧
    edge.get "edgeId" = .str s
  source : ∃ s ∈ nodeIds, r.cleanId (raw.get "from") = some s ∧ edge.get "from" = .str s
  target : ∃ s ∈ nodeIds, r.cleanId (raw.get "to") = some s ∧ edge.get "to" = .str s
  role   : r.lowered (raw.get "role") "relation" ∈ ["data", "relation"] ∧
    edge.get "role" = .str (r.lowered (raw.get "role") "relation")

theorem madeEdge {nodeIds : List String} (h : r.normalizeEdge nodeIds i v = some edge) :
    MadeEdge r nodeIds i (recordOf v) edge := by
  simp only [Rules.normalizeEdge, Option.bind_eq_bind, Option.bind_eq_some_iff] at h
  obtain ⟨edgeId, hid, fromId, hfrom, toId, hto, order, -, h⟩ := h
  split at h
  case isTrue  => cases h
  case isFalse hvalid =>
    simp only [Bool.or_eq_true, Bool.not_eq_true', not_or, Bool.not_eq_false, Bool.and_eq_true,
      List.contains_iff_mem] at hvalid
    cases h
    exact ⟨⟨edgeId, hid, rfl⟩, ⟨fromId, hvalid.left.left.right, hfrom, rfl⟩, ⟨toId, hvalid.left.right, hto, rfl⟩,
      hvalid.right, rfl⟩

end Members

section Again

-- The members that make the graph
def SameNode (node node' : Dict) : Prop :=
  ∀ key ∈ ["nodeId", "kind", "producerActionNodeId", "actionDefinitionId"], node'.get key = node.get key

def SameEdge (edge edge' : Dict) : Prop :=
  ∀ key ∈ ["edgeId", "from", "to", "role"], edge'.get key = edge.get key

variable {j : ℕ} {node' edge' : Dict} {known known' : List String} {kind key : String}

theorem HasId.again {has : Bool} {raw : Dict} (h : HasId r raw node has key) (h' : HasId r node node' has key) :
    node'.get key = node.get key := by
  cases has
  case false => exact Eq.trans h' (Eq.symm h)
  case true =>
    obtain ⟨s, hs, hnode⟩ := h
    obtain ⟨s', hs', hnode'⟩ := h'
    rw [hnode, Rules.cleanId_self hs] at hs'
    cases hs'
    rw [hnode', hnode]

theorem sameNode (h : r.normalizeNode i v = some node) (h' : r.normalizeNode j (.dict node) = some node') :
    SameNode node node' := by
  have hm := madeNode h
  have hm' := madeNode h'
  rw [recordOf, hm.named, Rules.lowered_self (List.mem_append_left ["data", "relation"] hm.known)] at hm'
  obtain ⟨s, hs, hid⟩ := hm.nodeId
  obtain ⟨s', hs', hid'⟩ := hm'.nodeId
  rw [hid, orElse_str (Rules.cleanId_ne_empty hs), Rules.cleanId_self hs] at hs'
  cases hs'
  intro key hkey
  simp only [List.mem_cons, List.not_mem_nil, or_false] at hkey
  obtain rfl | rfl | rfl | rfl := hkey
  · rw [hid, hid']
  · rw [hm.named, hm'.named]
  · exact hm.producer.again hm'.producer
  · exact hm.definition.again hm'.definition

theorem sameEdge (h : r.normalizeEdge known i v = some edge)
    (h' : r.normalizeEdge known' j (.dict edge) = some edge') : SameEdge edge edge' := by
  have hm := madeEdge h
  have hm' := madeEdge h'
  obtain ⟨s, hs, hid⟩ := hm.edgeId
  obtain ⟨s', hs', hid'⟩ := hm'.edgeId
  obtain ⟨source, -, hsource, hfrom⟩ := hm.source
  obtain ⟨source', -, hsource', hfrom'⟩ := hm'.source
  obtain ⟨target, -, htarget, hto⟩ := hm.target
  obtain ⟨target', -, htarget', hto'⟩ := hm'.target
  have hrole' := hm'.role.right
  simp only [recordOf] at hs' hsource' htarget' hrole'
  rw [hid, orElse_str (Rules.cleanId_ne_empty hs), Rules.cleanId_self hs] at hs'
  rw [hfrom, Rules.cleanId_self hsource] at hsource'
  rw [hto, Rules.cleanId_self htarget] at htarget'
  rw [hm.role.right, Rules.lowered_self (List.mem_append_right nodeKinds hm.role.left)] at hrole'
  cases hs'
  cases hsource'
  cases htarget'
  intro key hkey
  simp only [List.mem_cons, List.not_mem_nil, or_false] at hkey
  obtain rfl | rfl | rfl | rfl := hkey
  · rw [hid, hid']
  · rw [hfrom, hfrom']
  · rw [hto, hto']
  · rw [hrole', hm.role.right]

structure SameGraph (d d' : Document) : Prop where
  nodes : List.Forall₂ SameNode d.nodes d'.nodes
  edges : List.Forall₂ SameEdge d.edges d'.edges

-- What is normalised again keeps its graph.
theorem sameGraph {graphId' : String} (h : r.normalizeGraph graph graphId = some d)
    (h' : r.normalizeGraph d.toDict graphId' = some d') : SameGraph d d' := by
  obtain ⟨hnodes, hedges⟩ := lists_of_normalize h
  obtain ⟨hnodes', hedges'⟩ := lists_of_normalize h'
  have hmade : ∀ node ∈ d.nodes, ∃ i v, r.normalizeNode i v = some node := by
    intro node hnode
    obtain ⟨v, -, hv⟩ := exists_of_mapM hnodes hnode
    exact ⟨v.2, v.1, hv⟩
  have hmade' : ∀ edge ∈ d.edges, ∃ i v, r.normalizeEdge (d.nodes.map (r.member · "nodeId")) i v = some edge := by
    intro edge hedge
    obtain ⟨v, -, hv⟩ := exists_of_mapM hedges hedge
    exact ⟨v.2, v.1, hv⟩
  constructor
  case nodes =>
    have hagain := List.forall₂_map_left_iff.mp (forall₂_of_zipIdx hnodes')
    refine List.Forall₂.imp ?_ ((List.forall₂_and_left _ _).mpr ⟨hmade, hagain⟩)
    rintro node node' ⟨⟨i, v, hv⟩, j, hj⟩
    exact sameNode hv hj
  case edges =>
    have hagain := List.forall₂_map_left_iff.mp (forall₂_of_zipIdx hedges')
    refine List.Forall₂.imp ?_ ((List.forall₂_and_left _ _).mpr ⟨hmade', hagain⟩)
    rintro edge edge' ⟨⟨i, v, hv⟩, j, hj⟩
    exact sameEdge hv hj

-- What the graph consists of: who feeds whom, what kind of node each one is, and which action makes a result
def Rules.arcs (r : Rules) (d : Document) : List (String × String) :=
  (r.dataEdges d).map fun edge => (r.member edge "from", r.member edge "to")

def Rules.kindOf (r : Rules) (d : Document) (nodeId : String) : String :=
  r.member (r.nodeOf d nodeId) "kind"

def Rules.producerOf (r : Rules) (d : Document) (nodeId : String) : String :=
  r.member (r.nodeOf d nodeId) "producerActionNodeId"

def Rules.nodeIds (r : Rules) (d : Document) : List String :=
  d.nodes.map (r.member · "nodeId")

theorem SameNode.member (h : SameNode node node')
    (hkey : key ∈ ["nodeId", "kind", "producerActionNodeId", "actionDefinitionId"]) :
    r.member node' key = r.member node key := by
  rw [Rules.member, Rules.member, h key hkey]

theorem SameEdge.member (h : SameEdge edge edge') (hkey : key ∈ ["edgeId", "from", "to", "role"]) :
    r.member edge' key = r.member edge key := by
  rw [Rules.member, Rules.member, h key hkey]

theorem SameGraph.nodeIds (h : SameGraph d d') : r.nodeIds d' = r.nodeIds d := by
  have hmap : List.Forall₂ (fun a b => b = a) (d.nodes.map (r.member · "nodeId"))
      (d'.nodes.map (r.member · "nodeId")) := by
    rw [List.forall₂_map_left_iff, List.forall₂_map_right_iff]
    exact h.nodes.imp fun _ _ hsame => hsame.member (by decide)
  exact (List.forall₂_eq_eq_eq ▸ hmap.flip : d'.nodes.map (r.member · "nodeId") = d.nodes.map (r.member · "nodeId"))

theorem SameGraph.arcs (h : SameGraph d d') : r.arcs d' = r.arcs d := by
  obtain ⟨-, hedges⟩ := h
  unfold Rules.arcs Rules.dataEdges
  generalize d.edges = edges at hedges ⊢
  generalize d'.edges = edges' at hedges ⊢
  induction hedges
  case nil => rfl
  case cons edge edge' rest rest' hsame _ hi =>
    have hrole : r.member edge' "role" = r.member edge "role" := hsame.member (by decide)
    have hfrom : r.member edge' "from" = r.member edge "from" := hsame.member (by decide)
    have hto : r.member edge' "to" = r.member edge "to" := hsame.member (by decide)
    by_cases hdata : r.member edge "role" = "data"
    case pos => simp [hrole, hdata, hfrom, hto, hi]
    case neg => simp [hrole, hdata, hi]

theorem SameGraph.nodeOf (h : SameGraph d d') {nodeId : String}
    (hkey : key ∈ ["nodeId", "kind", "producerActionNodeId", "actionDefinitionId"]) :
    r.member (r.nodeOf d' nodeId) key = r.member (r.nodeOf d nodeId) key := by
  obtain ⟨hnodes, -⟩ := h
  unfold Rules.nodeOf
  generalize d.nodes = nodes at hnodes ⊢
  generalize d'.nodes = nodes' at hnodes ⊢
  induction hnodes
  case nil => rfl
  case cons node node' rest rest' hsame _ hi =>
    have hid : r.member node' "nodeId" = r.member node "nodeId" := hsame.member (by decide)
    by_cases hfound : r.member node "nodeId" = nodeId
    case pos => simp [hid, hfound, hsame.member hkey]
    case neg => simpa [List.find?_cons, hid, hfound] using hi

end Again

end Canvas
