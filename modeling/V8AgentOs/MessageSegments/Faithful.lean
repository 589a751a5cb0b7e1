import Mathlib.Data.List.Chain
import V8AgentOs.MessageSegments.Build
import V8AgentOs.MessageSegments.Names

-- What `coalesceNarrativeFragments` makes of the nodes
namespace MessageSegments

open Script

variable {ν δ : Type}

-- A node and the nodes that have joined it
structure Run (ν δ : Type) where
  first : TimelineSegmentNode ν δ
  more  : List (TimelineSegmentNode ν δ) := []

namespace Run

def nodes (run : Run ν δ) : List (TimelineSegmentNode ν δ) :=
  run.first :: run.more

def whole (run : Run ν δ) : TimelineSegmentNode ν δ :=
  run.more.foldl TimelineSegmentNode.join run.first

-- The nodes are adjacent fragments of one narrative.
def Joined (run : Run ν δ) : Prop :=
  List.IsChain TimelineSegmentNode.Continues run.nodes

end Run

-- The narrative text of some owners
def said (speaker : Owner ν → Bool) (nodes : List (TimelineSegmentNode ν δ)) : Text :=
  nodes.flatMap fun node => if node.isNarrative && speaker node.owner then node.content.getD [] else []

-- The nodes go on with the last one of others, fragment by fragment.
def Extends (nodes more : List (TimelineSegmentNode ν δ)) : Prop :=
  ∃ last, nodes.getLast? = some last ∧ last.content.isSome = true ∧
    List.IsChain TimelineSegmentNode.Continues (last :: more)

variable {nodes more : List (TimelineSegmentNode ν δ)} {node previous last : TimelineSegmentNode ν δ}
  {run : Run ν δ} {runs : List (Run ν δ)} {speaker : Owner ν → Bool}

theorem said_append (nodes more : List (TimelineSegmentNode ν δ)) :
    said speaker (nodes ++ more) = said speaker nodes ++ said speaker more :=
  List.flatMap_append

theorem fragment_isNarrative (h : node.fragment ≠ none) : node.isNarrative = true := by
  unfold TimelineSegmentNode.fragment at h
  split at h
  case isTrue hn  => simp [TimelineSegmentNode.isNarrative, hn.left]
  case isFalse hn => exact absurd rfl h

-- Two nodes of one narrative
def Same (previous node : TimelineSegmentNode ν δ) : Prop :=
  previous.isNarrative = true ∧ node.isNarrative = true ∧ previous.owner = node.owner

theorem TimelineSegmentNode.Continues.same (h : previous.Continues node) : Same previous node := by
  obtain ⟨base, digits, digits', hprevious, hnode, -, howner, -⟩ := h
  refine ⟨fragment_isNarrative ?_, fragment_isNarrative ?_, howner⟩
  · simp [hprevious]
  · simp [hnode]

theorem said_whole (speaker : Owner ν → Bool) (h : ∀ node ∈ run.more, Same run.first node) :
    said speaker [run.whole] = said speaker run.nodes := by
  obtain ⟨first, more⟩ := run
  induction more generalizing first
  case nil => rfl
  case cons node more hi =>
    obtain ⟨hfirst, hnode, howner⟩ := h node List.mem_cons_self
    have hrest := hi (first.join node) fun later hlater => h later (List.mem_cons_of_mem node hlater)
    have hjoin : said speaker [first.join node] = said speaker [first, node] := by
      have hjoined : (first.join node).isNarrative = true := hfirst
      simp only [said, List.flatMap_cons, List.flatMap_nil, hjoined, hfirst, hnode, ← howner]
      cases hs : speaker first.owner <;> simp [TimelineSegmentNode.join, hs]
    calc said speaker [Run.whole ⟨first, node :: more⟩]
      _ = said speaker (first.join node :: more) := hrest
      _ = said speaker [first.join node] ++ said speaker more := said_append [first.join node] more
      _ = said speaker [first, node] ++ said speaker more := by rw [hjoin]
      _ = said speaker (first :: node :: more) := (said_append [first, node] more).symm

theorem Run.Joined.same (h : run.Joined) : ∀ node ∈ run.more, Same run.first node := by
  have htrans : Trans (Same (ν := ν) (δ := δ)) Same Same :=
    ⟨fun hab hbc => ⟨hab.left, hbc.right.left, hab.right.right.trans hbc.right.right⟩⟩
  have hchain : List.IsChain Same run.nodes := h.imp fun _ _ => TimelineSegmentNode.Continues.same
  exact (List.pairwise_cons.mp hchain.pairwise).left

-- A run that ends with the node before can go on.
theorem Run.Joined.snoc (h : run.Joined) (hlast : run.nodes.getLast? = some previous) (hc : previous.Continues node) :
    Run.Joined ⟨run.first, run.more ++ [node]⟩ := by
  apply List.isChain_append.mpr ⟨h, List.isChain_singleton node, ?_⟩
  intro a ha b hb
  cases hlast.symm.trans ha
  cases hb
  exact hc

theorem isSome_content_whole (h : run.nodes.getLast? = some last) (hcontent : last.content.isSome = true) :
    run.whole.content.isSome = true := by
  obtain ⟨first, more⟩ := run
  cases List.eq_nil_or_concat more
  case inl hnil =>
    subst hnil
    cases h
    exact hcontent
  case inr hsplit =>
    obtain ⟨front, node, hmore⟩ := hsplit
    simp [Run.whole, hmore, TimelineSegmentNode.join]

variable {s : Coalescing ν δ}

-- The result is that of runs which are made of the nodes so far.
structure Coalesced (s : Coalescing ν δ) (nodes : List (TimelineSegmentNode ν δ)) (runs : List (Run ν δ)) : Prop where
  parts    : runs.flatMap Run.nodes = nodes
  result   : s.result = runs.map Run.whole
  joined   : ∀ run ∈ runs, run.Joined
  previous : s.previousSource = nodes.getLast?

-- The last run ends with the last node.
theorem Coalesced.lastRun (h : Coalesced s nodes runs) (hlast : nodes.getLast? = some previous) :
    ∃ front run, runs = front ++ [run] ∧ run.nodes.getLast? = some previous := by
  rw [← h.parts] at hlast
  cases List.eq_nil_or_concat runs
  case inl hnil => simp [hnil] at hlast
  case inr hsplit =>
    obtain ⟨front, run, hruns⟩ := hsplit
    rw [List.concat_eq_append] at hruns
    rw [hruns, List.flatMap_append, List.flatMap_singleton, List.getLast?_append] at hlast
    exact ⟨front, run, hruns, by simpa [Run.nodes, List.getLast?_cons] using hlast⟩

variable [DecidableEq ν]

theorem visit_of_joins (hprevious : s.previousSource = some previous) (hlast : s.result.getLast? = some last)
    (hc : previous.Continues node) (hcontent : last.content.isSome = true) :
    (s.visit node).result = s.result.dropLast ++ [last.join node] := by
  simp [Coalescing.visit, hprevious, hlast, hc, hcontent]

theorem visit_of_alone (h : ∀ previous last, s.previousSource = some previous → s.result.getLast? = some last →
    previous.Continues node → last.content.isSome = false) : (s.visit node).result = s.result ++ [node] := by
  unfold Coalescing.visit
  cases hprevious : s.previousSource
  case none          => rfl
  case some previous =>
    cases hlast : s.result.getLast?
    case none      => rfl
    case some last =>
      apply if_neg
      intro hjoins
      simp [h previous last hprevious hlast hjoins.left] at hjoins

theorem visit_result (s : Coalescing ν δ) (node : TimelineSegmentNode ν δ) :
    (∃ previous last, s.previousSource = some previous ∧ s.result.getLast? = some last ∧ previous.Continues node ∧
      last.content.isSome = true ∧ (s.visit node).result = s.result.dropLast ++ [last.join node]) ∨
    (s.visit node).result = s.result ++ [node] := by
  by_cases h : ∃ previous last, s.previousSource = some previous ∧ s.result.getLast? = some last ∧
    previous.Continues node ∧ last.content.isSome = true
  case pos =>
    obtain ⟨previous, last, hprevious, hlast, hc, hcontent⟩ := h
    exact .inl ⟨previous, last, hprevious, hlast, hc, hcontent, visit_of_joins hprevious hlast hc hcontent⟩
  case neg =>
    apply Or.inr
    apply visit_of_alone
    intro previous last hprevious hlast hc
    cases hcontent : last.content.isSome
    case false => rfl
    case true  => exact absurd ⟨previous, last, hprevious, hlast, hc, hcontent⟩ h

theorem Coalesced.visit (node : TimelineSegmentNode ν δ) (h : Coalesced s nodes runs) :
    ∃ runs', Coalesced (s.visit node) (nodes ++ [node]) runs' := by
  have hnext : (s.visit node).previousSource = (nodes ++ [node]).getLast? := by rw [List.getLast?_concat]; rfl
  cases visit_result s node
  case inr halone =>
    refine ⟨runs ++ [⟨node, []⟩], ?parts, ?result, ?joined, hnext⟩
    case parts  => simp [h.parts, Run.nodes]
    case result => simp [halone, h.result, Run.whole]
    case joined =>
      intro run hrun
      cases List.mem_append.mp hrun
      case inl hrun => exact h.joined run hrun
      case inr hrun =>
        rw [List.mem_singleton.mp hrun]
        exact List.isChain_singleton node
  case inl hjoins =>
    obtain ⟨previous, last, hprevious, hlast, hc, -, hresult⟩ := hjoins
    obtain ⟨front, run, hruns, hend⟩ := h.lastRun (h.previous.symm.trans hprevious)
    subst hruns
    have hwhole : run.whole = last := by simpa [h.result] using hlast
    refine ⟨front ++ [⟨run.first, run.more ++ [node]⟩], ?parts, ?result, ?joined, hnext⟩
    case parts  => simp [← h.parts, Run.nodes]
    case result => simp [hresult, h.result, ← hwhole, Run.whole]
    case joined =>
      intro run' hrun'
      cases List.mem_append.mp hrun'
      case inl hfront => exact h.joined run' (List.mem_append_left _ hfront)
      case inr hlast' =>
        rw [List.mem_singleton.mp hlast']
        exact (h.joined run (by simp)).snoc hend hc

theorem Coalesced.foldl (more : List (TimelineSegmentNode ν δ)) (h : Coalesced s nodes runs) :
    ∃ runs', Coalesced (more.foldl Coalescing.visit s) (nodes ++ more) runs' := by
  induction more generalizing s nodes runs
  case nil => exact ⟨runs, by simpa using h⟩
  case cons node more hi =>
    obtain ⟨runs', h'⟩ := h.visit node
    simpa using hi h'

theorem coalesced (nodes : List (TimelineSegmentNode ν δ)) : ∃ runs : List (Run ν δ),
    runs.flatMap Run.nodes = nodes ∧ coalesceNarrativeFragments nodes = runs.map Run.whole ∧
      ∀ run ∈ runs, run.Joined := by
  have hstart : Coalesced (ν := ν) (δ := δ) {} [] [] := ⟨rfl, rfl, by simp, rfl⟩
  obtain ⟨runs, h⟩ := hstart.foldl nodes
  exact ⟨runs, h.parts, h.result, h.joined⟩

theorem said_coalesce : said speaker (coalesceNarrativeFragments nodes) = said speaker nodes := by
  obtain ⟨runs, hparts, hresult, hjoined⟩ := coalesced nodes
  rw [hresult, ← hparts]
  clear hparts hresult
  induction runs
  case nil => rfl
  case cons run runs hi =>
    have hwhole := said_whole speaker (hjoined run List.mem_cons_self).same
    rw [List.map_cons, List.flatMap_cons, said_append, ← hwhole,
      ← hi fun later h => hjoined later (List.mem_cons_of_mem run h)]
    exact said_append [run.whole] _

theorem joins_foldl {front : List (TimelineSegmentNode ν δ)} (hprevious : s.previousSource = some previous)
    (hresult : s.result = front ++ [last]) (hcontent : last.content.isSome = true)
    (hchain : List.IsChain TimelineSegmentNode.Continues (previous :: more)) :
    (more.foldl Coalescing.visit s).result = front ++ [more.foldl TimelineSegmentNode.join last] := by
  induction more generalizing s previous last
  case nil => exact hresult
  case cons node more hi =>
    obtain ⟨hc, hrest⟩ := List.isChain_cons_cons.mp hchain
    have hjoins : (s.visit node).result = front ++ [last.join node] := by
      rw [visit_of_joins hprevious (by simp [hresult]) hc hcontent, hresult, List.dropLast_concat]
    exact hi (s := s.visit node) rfl hjoins rfl hrest

-- Fragments that go on with the last node join it.
theorem coalesce_extends (h : Extends nodes more) : ∃ front last,
    coalesceNarrativeFragments nodes = front ++ [last] ∧
    coalesceNarrativeFragments (nodes ++ more) = front ++ [more.foldl TimelineSegmentNode.join last] := by
  obtain ⟨previous, hlast, hcontent, hchain⟩ := h
  have hstart : Coalesced (ν := ν) (δ := δ) {} [] [] := ⟨rfl, rfl, by simp, rfl⟩
  obtain ⟨runs, h⟩ := hstart.foldl nodes
  rw [List.nil_append] at h
  obtain ⟨front, run, hruns, hend⟩ := h.lastRun hlast
  subst hruns
  have hresult : coalesceNarrativeFragments nodes = front.map Run.whole ++ [run.whole] := by
    rw [coalesceNarrativeFragments, h.result, List.map_append, List.map_singleton]
  refine ⟨front.map Run.whole, run.whole, hresult, ?_⟩
  rw [coalesceNarrativeFragments, List.foldl_append]
  exact joins_foldl (h.previous.trans hlast) hresult (isSome_content_whole hend hcontent) hchain

end MessageSegments

-- What the segments of a message keep of its nodes
namespace MessageSegments

open Script Segments

variable {ν δ : Type}

-- The traces that a segment groups
def MessageTimelineSegment.group : MessageTimelineSegment ν δ → Option (List (TimelineSegmentNode ν δ))
  | .node _ _              => none
  | .traceGroup _ nodes _ _ => some nodes

structure Faithful [DecidableEq ν] (nodes : List (TimelineSegmentNode ν δ)) (active : Bool) : Prop where
  merged   : ∃ runs : List (Run ν δ), runs.flatMap Run.nodes = nodes ∧ (∀ run ∈ runs, run.Joined) ∧
    (buildMessageTimelineSegments nodes active).flatMap (·.nodes) = runs.map Run.whole
  said     : ∀ speaker,
    said speaker ((buildMessageTimelineSegments nodes active).flatMap (·.nodes)) = said speaker nodes
  distinct : ((buildMessageTimelineSegments nodes active).map (·.id)).Nodup
  groups   : ∀ group ∈ (buildMessageTimelineSegments nodes active).filterMap (·.group),
    (∀ node ∈ group, node.isTrace = true) ∧
    ∀ node ∈ group, ∀ node' ∈ group, node.groupId ≠ [] → node'.groupId ≠ [] → node.groupId = node'.groupId
  running  : ∀ front segment back, buildMessageTimelineSegments nodes active = front ++ segment :: back →
    segment.active = true → active = true ∧ ∀ node ∈ back.flatMap (·.nodes), node.isNarrative = false
  stable   : ∀ more active', Extends nodes more →
    (buildMessageTimelineSegments (nodes ++ more) active').map (·.id) =
      (buildMessageTimelineSegments nodes active).map (·.id)

-- The traces behind one without a group have no two groups.
def Grouped (bs : List (List (TimelineSegmentNode ν δ))) : Prop :=
  ∀ first more, first :: more ∈ bs → first.isTrace = true → first.groupId = [] → ∀ node ∈ more, ∀ node' ∈ more,
    node.groupId ≠ [] → node'.groupId ≠ [] → node.groupId = node'.groupId

structure Unambiguous [DecidableEq ν] (nodes : List (TimelineSegmentNode ν δ)) : Prop where
  clear   : Clear (blocks (coalesceNarrativeFragments nodes))
  grouped : Grouped (blocks (coalesceNarrativeFragments nodes))

variable {nodes more front back : List (TimelineSegmentNode ν δ)} {first node last : TimelineSegmentNode ν δ}
  {bs : List (List (TimelineSegmentNode ν δ))} {active active' : Bool} {position index : ℕ} {bases : List Text}
  {segment : MessageTimelineSegment ν δ} {segments segments' : List (MessageTimelineSegment ν δ)}

-- The nodes of a block stay with the first one.
def Block (block : List (TimelineSegmentNode ν δ)) : Prop :=
  ∃ first more, block = first :: more ∧ ∀ node ∈ more, breaks first node = false

theorem blocks_block : ∀ block ∈ blocks nodes, Block block :=
  fun _ => segmented_segments.of_mem

theorem isTrace_of_stays (h : breaks first node = false) : first.isTrace = true ∧ node.isTrace = true := by
  simp only [breaks, Bool.or_eq_false_iff, Bool.not_eq_false', Bool.and_eq_true] at h
  exact h.left

theorem groupId_of_stays (h : breaks first node = false) (hfirst : first.groupId ≠ []) (hnode : node.groupId ≠ []) :
    node.groupId = first.groupId := by
  simpa [breaks, isTrace_of_stays h, hfirst, hnode] using h

theorem render_nodes (h : ∀ block ∈ bs, Block block) :
    (render active position index bases bs).flatMap (·.nodes) = bs.flatten := by
  induction bs generalizing position index bases
  case nil => rfl
  case cons block bs hi =>
    obtain ⟨first, more, rfl, hstays⟩ := h block List.mem_cons_self
    have hrest {position index bases} : (render active position index bases bs).flatMap (·.nodes) = bs.flatten := hi
      fun later hlater => h later (List.mem_cons_of_mem _ hlater)
    unfold render
    split
    case isTrue => rw [List.flatMap_cons, hrest]; rfl
    case isFalse htrace =>
      have hmore : more = [] := by
        apply List.eq_nil_iff_forall_not_mem.mpr
        exact fun node hnode => htrace (isTrace_of_stays (hstays node hnode)).left
      rw [List.flatMap_cons, hrest, hmore]
      rfl

theorem render_groups : (render active position index bases bs).filterMap (·.group) =
    bs.filter (·.head?.any (·.isTrace)) := by
  induction bs generalizing position index bases
  case nil => rfl
  case cons block bs hi =>
    cases block
    case nil => exact hi
    case cons first more =>
      cases htrace : first.isTrace
      case false =>
        rw [render, if_neg (by simp [htrace]), List.filter_cons_of_neg (by simp [htrace])]
        exact hi
      case true =>
        rw [render, if_pos htrace, List.filter_cons_of_pos (by simp [htrace])]
        exact congrArg (List.cons _) hi

theorem grouped_iff (h : ∀ block ∈ bs, Block block) : Grouped bs ↔ ∀ group ∈ bs.filter (·.head?.any (·.isTrace)),
    (∀ node ∈ group, node.isTrace = true) ∧
    ∀ node ∈ group, ∀ node' ∈ group, node.groupId ≠ [] → node'.groupId ≠ [] → node.groupId = node'.groupId := by
  constructor
  case mp =>
    intro hgrouped group hgroup
    obtain ⟨hmem, htrace⟩ := List.mem_filter.mp hgroup
    obtain ⟨first, more, rfl, hstays⟩ := h group hmem
    refine ⟨?traces, ?same⟩
    case traces =>
      intro node hnode
      cases hnode
      case head       => exact htrace
      case tail hnode => exact (isTrace_of_stays (hstays node hnode)).right
    case same =>
      intro node hnode node' hnode' hid hid'
      by_cases hfirst : first.groupId = []
      case pos =>
        have hmore {node} (hnode : node ∈ first :: more) (hid : node.groupId ≠ []) : node ∈ more :=
          (List.mem_cons.mp hnode).resolve_left fun hsame => hid (hsame ▸ hfirst)
        exact hgrouped first more hmem htrace hfirst node (hmore hnode hid) node' (hmore hnode' hid') hid hid'
      case neg =>
        have hall {node} (hnode : node ∈ first :: more) (hid : node.groupId ≠ []) : node.groupId = first.groupId := by
          cases hnode
          case head       => rfl
          case tail hnode => exact groupId_of_stays (hstays node hnode) hfirst hid
        exact (hall hnode hid).trans (hall hnode' hid').symm
  case mpr =>
    intro hgroups first more hmem htrace _ node hnode node' hnode'
    have hgroup : first :: more ∈ bs.filter (·.head?.any (·.isTrace)) := List.mem_filter.mpr ⟨hmem, htrace⟩
    exact (hgroups _ hgroup).right node (List.mem_cons_of_mem first hnode) node' (List.mem_cons_of_mem first hnode')

theorem render_running (h : ∀ block ∈ bs, Block block)
    (hsplit : render active position index bases bs = segments ++ segment :: segments')
    (hactive : segment.active = true) :
    active = true ∧ ∀ node ∈ segments'.flatMap (·.nodes), node.isNarrative = false := by
  induction bs generalizing position index bases segments
  case nil => simp [render] at hsplit
  case cons block bs hi =>
    obtain ⟨first, more, rfl, -⟩ := h block List.mem_cons_self
    have h : ∀ block ∈ bs, Block block := fun later hlater => h later (List.mem_cons_of_mem _ hlater)
    unfold render at hsplit
    cases segments
    case cons before segments =>
      split at hsplit
      case isTrue  => exact hi h (List.cons.inj hsplit).right
      case isFalse => exact hi h (List.cons.inj hsplit).right
    case nil =>
      split at hsplit
      case isFalse =>
        obtain ⟨hsegment, -⟩ := List.cons.inj hsplit
        rw [← hsegment] at hactive
        cases hactive
      case isTrue =>
        obtain ⟨hsegment, hrest⟩ := List.cons.inj hsplit
        rw [← hrest, render_nodes h]
        rw [← hsegment, MessageTimelineSegment.active, Bool.and_eq_true, Bool.not_eq_true',
          List.any_eq_false] at hactive
        simpa using hactive

-- What the ids do not depend on
def bare (node : TimelineSegmentNode ν δ) : TimelineSegmentNode ν δ :=
  { node with content := none, finalized := none, isPartial := none }

theorem bare_foldl : bare (more.foldl TimelineSegmentNode.join last) = bare last := by
  induction more generalizing last
  case nil => rfl
  case cons node more hi => exact hi

theorem blocks_bare : blocks (nodes.map bare) = (blocks nodes).map (List.map bare) :=
  segments_map fun _ _ _ _ => rfl

theorem render_bare (active active' : Bool) :
    (render active position index bases (bs.map (List.map bare))).map (·.id) =
    (render active' position index bases bs).map (·.id) := by
  induction bs generalizing position index bases
  case nil => rfl
  case cons block bs hi =>
    cases block
    case nil => exact hi
    case cons first more =>
      have htrace : (bare first).isTrace = first.isTrace := rfl
      have hbase : baseGroupId (bare first).groupId (bare first) index position =
        baseGroupId first.groupId first index position := rfl
      have hname : nodeSegmentId (bare first) index position = nodeSegmentId first index position := rfl
      simp only [List.map_cons, render, htrace, hbase, List.length_map]
      cases first.isTrace
      case true  => simp [hi]
      case false => simp [hi, hname]

theorem ids_of_bare (h : nodes.map bare = more.map bare) : (render active 0 0 [] (blocks nodes)).map (·.id) =
    (render active' 0 0 [] (blocks more)).map (·.id) := by
  rw [← render_bare active active, ← blocks_bare, h, blocks_bare, render_bare active active']

variable [DecidableEq ν]

theorem build_eq : buildMessageTimelineSegments nodes active =
    render active 0 0 [] (blocks (coalesceNarrativeFragments nodes)) := by
  rw [← segmentsOf_eq, buildMessageTimelineSegments]
  cases nodes
  case nil  => rfl
  case cons => exact if_neg (List.cons_ne_nil _ _)

theorem build_nodes :
    (buildMessageTimelineSegments nodes active).flatMap (·.nodes) = coalesceNarrativeFragments nodes := by
  rw [build_eq, render_nodes blocks_block]
  exact flatten_segments

theorem build_extends (h : Extends nodes more) : (buildMessageTimelineSegments (nodes ++ more) active').map (·.id) =
    (buildMessageTimelineSegments nodes active).map (·.id) := by
  obtain ⟨front, last, hnodes, hlonger⟩ := coalesce_extends h
  rw [build_eq, build_eq, hnodes, hlonger]
  apply ids_of_bare
  rw [List.map_append, List.map_append, List.map_singleton, List.map_singleton, bare_foldl]

theorem shown_iff_unambiguous : Faithful nodes active ↔ Unambiguous nodes := by
  have hblocks : ∀ block ∈ blocks (coalesceNarrativeFragments nodes), Block block := blocks_block
  have hgrouped := grouped_iff hblocks
  constructor
  case mp =>
    intro h
    have hgroups := h.groups
    rw [build_eq, render_groups] at hgroups
    have hdistinct := h.distinct
    rw [build_eq] at hdistinct
    exact ⟨nodup_ids_iff.mp hdistinct, hgrouped.mpr hgroups⟩
  case mpr =>
    intro h
    obtain ⟨runs, hparts, hresult, hjoined⟩ := coalesced nodes
    refine ⟨⟨runs, hparts, hjoined, ?_⟩, ?said, ?distinct, ?groups, ?running, ?stable⟩
    · rw [build_nodes, hresult]
    case said     => intro speaker; rw [build_nodes, said_coalesce]
    case distinct => rw [build_eq]; exact nodup_ids_iff.mpr h.clear
    case groups   => rw [build_eq, render_groups]; exact hgrouped.mp h.grouped
    case running  =>
      intro front segment back hsplit
      rw [build_eq] at hsplit
      exact render_running blocks_block hsplit
    case stable => exact fun more active' hextends => build_extends hextends

def trace (id group : String) : TimelineSegmentNode Unit Unit where
  id            := text id
  kind          := text "execution"
  executionType := text "reasoning"
  traceGroupId  := text group
  owner         := ⟨(), (), (), (), ()⟩
  rest          := ()

def narrative (id : String) : TimelineSegmentNode Unit Unit where
  id      := text id
  kind    := text "narrative"
  content := text "Done."
  owner   := ⟨(), (), (), (), ()⟩
  rest    := ()

-- Behind a trace without a group two groups become one, and a group can be named like the node behind it.
theorem unfaithful :
    ([trace "t1" "", trace "t2" "a", trace "t3" "b"].map (·.id)).Nodup ∧
    ¬Faithful [trace "t1" "", trace "t2" "a", trace "t3" "b"] false ∧
    ([trace "t1" "node-n1-1", narrative "n1"].map (·.id)).Nodup ∧
    ¬Faithful [trace "t1" "node-n1-1", narrative "n1"] false := by
  refine ⟨by decide, ?groups, by decide, ?ids⟩
  case groups =>
    intro h
    have hgroups := h.groups [trace "t1" "", trace "t2" "a", trace "t3" "b"] (by decide)
    have hsame := hgroups.right (trace "t2" "a") (by decide) (trace "t3" "b") (by decide) (by decide) (by decide)
    exact absurd hsame (by decide)
  case ids => exact fun h => absurd h.distinct (by decide)

end MessageSegments
