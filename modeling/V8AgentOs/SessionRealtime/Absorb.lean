import V8AgentOs.SessionRealtime.Streaming

-- A snapshot of a stream makes the one before it superfluous.
namespace SessionRealtime

open Script

-- The later event is a snapshot of the same stream for the same message.
structure Renews (earlier later : UiEvent) : Prop where
  run       : later.run_id = earlier.run_id
  message   : later.message_id = earlier.message_id
  node      : later.node_id = earlier.node_id
  key       : trim (later.ownerFieldsFromEvent.ownerStreamKey.getD []) =
    trim (earlier.ownerFieldsFromEvent.ownerStreamKey.getD [])
  snapshot  : earlier.data.snapshot.isSome
  snapshot' : later.data.snapshot.isSome

theorem streamKeyMatches_congr {existing key key' : Option Text} (h : trim (key.getD []) = trim (key'.getD [])) :
    streamKeyMatches existing key = streamKeyMatches existing key' := by
  rw [Bool.eq_iff_iff, streamKeyMatches_iff, streamKeyMatches_iff, h]

namespace Draft

variable {options : LifecycleOptions} {earlier later : UiEvent} {profile : AgentProfile} {draft : Draft}

-- A node is found at the same place if what is written there changes nothing about how it is found.
theorem findIdx?_set {p : Node → Bool} {nodes : List Node} {i : ℕ} {node : Node} (h : nodes.findIdx? p = some i)
    (hp : p node) : (nodes.set i node).findIdx? p = some i := by
  have ⟨hlt, _, hbefore⟩ := List.findIdx?_eq_some_iff_getElem.mp h
  apply List.findIdx?_eq_some_iff_getElem.mpr
  refine ⟨by simpa using hlt, by simpa using hp, ?_⟩
  intro j hj
  rw [List.getElem_set_ne (by omega)]
  exact hbefore j hj

theorem findIdx?_set_none {p : Node → Bool} {nodes : List Node} {i : ℕ} {node : Node} (h : nodes.findIdx? p = none)
    (hp : ¬p node) : (nodes.set i node).findIdx? p = none := by
  rw [List.findIdx?_eq_none_iff] at h ⊢
  intro n hn
  cases List.mem_or_eq_of_mem_set hn
  case inl hn => exact h n hn
  case inr hn => simpa [hn] using hp

theorem getLast?_set_of_ne {nodes : List Node} {i : ℕ} (node : Node) (h : i ≠ nodes.length - 1) :
    (nodes.set i node).getLast? = nodes.getLast? := by
  rw [List.getLast?_eq_getElem?, List.getLast?_eq_getElem?, List.length_set, List.getElem?_set_ne h]

theorem getLast?_set_last {nodes : List Node} (node : Node) (h : nodes ≠ []) :
    (nodes.set (nodes.length - 1) node).getLast? = some node := by
  have hpos := List.length_pos_iff.mpr h
  rw [List.getLast?_eq_getElem?, List.length_set, List.getElem?_set_self (by omega)]

variable (h : Renews earlier later)

theorem canMergeNarrativeNode_congr (h : Renews earlier later) (node : Node) :
    canMergeNarrativeNode node profile later.ownerFieldsFromEvent.ownerStreamKey =
      canMergeNarrativeNode node profile earlier.ownerFieldsFromEvent.ownerStreamKey := by
  unfold canMergeNarrativeNode
  rw [streamKeyMatches_congr h.key]

theorem isExplicit_congr (h : Renews earlier later) : isExplicit later = isExplicit earlier := by
  funext node
  unfold isExplicit
  rw [h.node]

theorem explicitIndex_congr (h : Renews earlier later) : draft.explicitIndex later = draft.explicitIndex earlier := by
  unfold explicitIndex
  rw [isExplicit_congr h, h.node]

theorem narrativeIndex_congr (h : Renews earlier later) :
    draft.narrativeIndex later profile = draft.narrativeIndex earlier profile := by
  unfold narrativeIndex lastIndex
  simp only [explicitIndex_congr h, canMergeNarrativeNode_congr h]

-- What the later snapshot writes over a node that the earlier one has written or continued
theorem textNode_textNode (node : Node) (id : Text) :
    { textNode later profile { textNode earlier profile node with id := id } with id := id } =
      { textNode later profile node with id := id } := by
  unfold textNode Node.withProfile Node.withOwner Node.withTimeline
  cases profile with | mk name avatar role => cases name <;> cases avatar <;> cases role <;> rfl

theorem ownText_textNode (h : Renews earlier later) {snapshot : Text} (hs : later.data.snapshot = some snapshot)
    (node : Node) (id : Text) :
    { ownText later { textNode earlier profile node with id := id } with content := some snapshot } =
      { textNode later profile node with id := id } := by
  have hrun : later.timelineRunId = earlier.timelineRunId := congrArg trim h.run
  unfold ownText textNode Node.withProfile Node.withOwner Node.withTimeline Node.applyEventTimelineFields
  simp only [hs, hrun, Option.getD_some, ite_self]

theorem ownText_ownText (h : Renews earlier later) (node : Node) (content content' : Option Text) :
    { ownText later { ownText earlier node with content := content } with content := content' } =
      { ownText later node with content := content' } := by
  have hrun : later.timelineRunId = earlier.timelineRunId := congrArg trim h.run
  unfold ownText Node.withOwner Node.applyEventTimelineFields
  simp only [hrun]
  split_ifs with hr <;> simp_all

-- A node that can be continued by the stream of `event`
structure Open (event : UiEvent) (profile : AgentProfile) (node : Node) : Prop where
  kind      : node.kind = .narrative
  role      : node.role = some .assistant
  finalized : node.finalized = false
  agent     : node.agentName = profile.agentName
  key       : trim (node.ownerStreamKey.getD []) = trim (event.ownerFieldsFromEvent.ownerStreamKey.getD [])

theorem Open.canMerge {event : UiEvent} {node : Node} (h : Open event profile node) :
    canMergeNarrativeNode node profile event.ownerFieldsFromEvent.ownerStreamKey := by
  simp [canMergeNarrativeNode, h.kind, h.role, h.finalized, h.agent, streamKeyMatches_iff, h.key]

-- A node at a place where the stream goes on, as the earlier event leaves it
structure Continued (event : UiEvent) (node new : Node) : Prop where
  id        : new.id = node.id
  kind      : new.kind = node.kind
  role      : new.role = node.role
  finalized : new.finalized = false
  agent     : new.agentName = node.agentName
  key       : trim (new.ownerStreamKey.getD []) = trim (event.ownerFieldsFromEvent.ownerStreamKey.getD [])

theorem continued_ownText (h : Renews earlier later) (hfinal : earlier.finalized = false) (node : Node)
    (content : Option Text) : Continued later node { ownText earlier node with content := content } :=
  ⟨rfl, rfl, rfl, hfinal, rfl, h.key.symm⟩

theorem isExplicit_continued {event : UiEvent} {node new : Node} (hc : Continued event node new)
    (hf : node.finalized = false) : isExplicit event new = isExplicit event node := by
  unfold isExplicit
  rw [hc.id, hc.kind, hc.role, hc.finalized, hf]

theorem getD_of_lt {nodes : List Node} {i : ℕ} (h : i < nodes.length) : nodes.getD i Node.empty = nodes[i] := by
  rw [List.getD_eq_getElem?_getD, List.getElem?_eq_getElem h, Option.getD_some]

-- The stream goes on at the same place.
theorem narrativeIndex_set {event : UiEvent} {after : Draft} {i : ℕ} {new : Node}
    (hi : draft.narrativeIndex event profile = some i)
    (hc : Continued event (draft.message.nodes.getD i Node.empty) new)
    (hn : after.message.nodes = draft.message.nodes.set i new) : after.narrativeIndex event profile = some i := by
  unfold narrativeIndex at hi ⊢
  cases (Option.orElse_eq_some _ _ _).mp hi
  case inl hexplicit =>
    unfold explicitIndex at hexplicit
    split_ifs at hexplicit with hid
    obtain ⟨hlt, hp, _⟩ := List.findIdx?_eq_some_iff_getElem.mp hexplicit
    have hf : draft.message.nodes[i].finalized = false := by
      simp only [isExplicit, Bool.and_eq_true, Bool.not_eq_true'] at hp
      exact hp.2
    rw [getD_of_lt hlt] at hc
    have hnew : isExplicit event new := (isExplicit_continued hc hf).trans hp
    have hafter : after.explicitIndex event = some i := by
      unfold explicitIndex
      rw [if_neg hid, hn, findIdx?_set hexplicit hnew]
    rw [hafter]
    rfl
  case inr hlast =>
    obtain ⟨hexplicit, hlast⟩ := hlast
    unfold lastIndex at hlast
    split_ifs at hlast with hmerge
    cases hlast
    cases hl : draft.message.nodes.getLast?
    case none => simp [hl] at hmerge
    case some node =>
      have hne : draft.message.nodes ≠ [] := by
        intro he
        simp [he] at hl
      have hget : draft.message.nodes.getD (draft.message.nodes.length - 1) Node.empty = node := by
        rw [List.getD_eq_getElem?_getD, ← List.getLast?_eq_getElem?, hl, Option.getD_some]
      rw [hget] at hc
      simp only [hl, Option.any_some, canMergeNarrativeNode, Bool.and_eq_true, decide_eq_true_eq,
        Bool.not_eq_true'] at hmerge
      obtain ⟨⟨⟨⟨hkind, hrole⟩, hf⟩, hagent⟩, _⟩ := hmerge
      have hopen : Open event profile new :=
        ⟨hc.kind.trans hkind, hc.role.trans hrole, hc.finalized, hc.agent.trans hagent, hc.key⟩
      have hnone : after.explicitIndex event = none := by
        unfold explicitIndex at hexplicit ⊢
        split_ifs with hid
        case pos => rfl
        case neg =>
          rw [if_neg hid] at hexplicit
          rw [hn]
          apply findIdx?_set_none hexplicit
          rw [isExplicit_continued hc hf]
          simpa using List.findIdx?_eq_none_iff.mp hexplicit node (List.mem_of_getLast? hl)
      have hafter : after.lastIndex event profile = some (draft.message.nodes.length - 1) := by
        unfold lastIndex
        rw [hn, getLast?_set_last _ hne, Option.any_some, hopen.canMerge, if_pos rfl, List.length_set]
      rw [hnone, hafter]
      rfl

-- A snapshot that is merged with a node
theorem mergeText_eq {event : UiEvent} {snapshot : Text} (hs : event.data.snapshot = some snapshot) (i : ℕ) :
    draft.mergeText event i =
      let nodes := draft.message.nodes.set i
        { ownText event (draft.message.nodes.getD i Node.empty) with content := some snapshot }
      let message := { draft.message with nodes := nodes }
      { draft with message := { message with content := message.deriveNarrativeContentFromNodes } } := by
  unfold mergeText modify
  simp only [hs]

theorem mergeText_mergeText (h : Renews earlier later) {i : ℕ} (hi : i < draft.message.nodes.length) :
    (draft.mergeText earlier i).mergeText later i = draft.mergeText later i := by
  have ⟨a, ha⟩ := Option.isSome_iff_exists.mp h.snapshot
  have ⟨b, hb⟩ := Option.isSome_iff_exists.mp h.snapshot'
  rw [mergeText_eq ha, mergeText_eq hb, mergeText_eq hb]
  simp only [List.set_set, List.getD_eq_getElem?_getD, List.getElem?_set_self hi, Option.getD_some,
    ownText_ownText h]
  rfl

theorem narrativeIndex_lt {event : UiEvent} {i : ℕ} (h : draft.narrativeIndex event profile = some i) :
    i < draft.message.nodes.length := by
  unfold narrativeIndex at h
  cases (Option.orElse_eq_some _ _ _).mp h
  case inl h =>
    unfold explicitIndex at h
    split_ifs at h
    exact (List.findIdx?_eq_some_iff_getElem.mp h).1
  case inr h =>
    have hlast := h.2
    unfold lastIndex at hlast
    split_ifs at hlast with hmerge
    cases hlast
    cases hn : draft.message.nodes
    case nil => simp [hn] at hmerge
    case cons => simp

-- No node but one that the event itself names has the id that the event's node gets, and that one is not final.
def Named (options : LifecycleOptions) (event : UiEvent) (draft : Draft) : Prop :=
  ∀ n ∈ draft.message.nodes, trim (draft.nodeId options event.node_id) ≠ [] →
    trim n.id = trim (draft.nodeId options event.node_id) → event.node_id ≠ [] ∧ n.settled = false

-- The node of a new text
def newText (options : LifecycleOptions) (event : UiEvent) (profile : AgentProfile) (draft : Draft)
    (node : Node) : Node :=
  { textNode event profile node with id := draft.nodeId options event.node_id }

theorem insertText_eq {event : UiEvent} (hs : event.data.snapshot.isSome) :
    draft.insertText options event profile =
      let message := draft.message.upsertTimelineNode (newText options event profile draft)
      { message := { message with content := message.deriveNarrativeContentFromNodes }
        calls   := if event.node_id ≠ [] then draft.calls else draft.calls + 1 } := by
  unfold insertText modify upsert newText
  simp only [hs, true_or, if_true]

theorem nodeId_congr (options : LifecycleOptions) (draft : Draft) (h : Renews earlier later) :
    draft.nodeId options later.node_id = draft.nodeId options earlier.node_id := by
  rw [h.node]

theorem open_newText (h : Renews earlier later) (hfinal : earlier.finalized = false) :
    Open later profile (newText options earlier profile draft Node.empty) := by
  refine ⟨rfl, rfl, hfinal, ?_, h.key.symm⟩
  cases profile with | mk name _ _ => cases name <;> rfl

theorem narrativeIndex_concat {event : UiEvent} {after : Draft} {new : Node}
    (hi : draft.narrativeIndex event profile = none) (ho : Open event profile new)
    (hn : after.message.nodes = draft.message.nodes ++ [new]) :
    after.narrativeIndex event profile = some draft.message.nodes.length := by
  have hexplicit := ((Option.orElse_eq_none _ _).mp hi).1
  have hlast : after.lastIndex event profile = some draft.message.nodes.length := by
    simp [lastIndex, hn, ho.canMerge]
  unfold narrativeIndex
  rw [hlast]
  unfold explicitIndex at hexplicit ⊢
  split_ifs with hid
  case pos => rfl
  case neg =>
    rw [if_neg hid] at hexplicit
    rw [hn, List.findIdx?_append, hexplicit]
    by_cases hp : isExplicit event new <;> simp [List.findIdx?_cons, hp]

-- After a node has been written that the stream did not go on with, it goes on there or nowhere.
theorem narrativeIndex_set_none {event : UiEvent} {after : Draft} {j : ℕ} {new : Node}
    (hi : draft.narrativeIndex event profile = none) (hn : after.message.nodes = draft.message.nodes.set j new) :
    after.narrativeIndex event profile = none ∨ after.narrativeIndex event profile = some j := by
  have ⟨hexplicit, hlast⟩ := (Option.orElse_eq_none _ _).mp hi
  have hexplicit' : after.explicitIndex event = none ∨ after.explicitIndex event = some j := by
    cases hk : after.explicitIndex event
    case none => exact .inl rfl
    case some k =>
      apply Or.inr
      unfold explicitIndex at hexplicit hk
      split_ifs at hexplicit hk with hid
      rw [hn] at hk
      have ⟨hlt, hp, _⟩ := List.findIdx?_eq_some_iff_getElem.mp hk
      by_contra hne
      have hjk : j ≠ k := fun he => hne (congrArg some he.symm)
      rw [List.getElem_set_ne hjk] at hp
      have hlt : k < draft.message.nodes.length := by simpa using hlt
      exact absurd hp (by simpa using List.findIdx?_eq_none_iff.mp hexplicit _ (List.getElem_mem hlt))
  have hlast' : after.lastIndex event profile = none ∨ after.lastIndex event profile = some j := by
    unfold lastIndex at hlast ⊢
    by_cases hj : j = draft.message.nodes.length - 1
    case neg =>
      rw [hn, getLast?_set_of_ne _ hj, List.length_set]
      exact .inl hlast
    case pos =>
      rw [hn, List.length_set, ← hj]
      split_ifs
      case pos => exact .inr rfl
      case neg => exact .inl rfl
  unfold narrativeIndex
  cases hexplicit'
  case inr he =>
    rw [he]
    exact .inr rfl
  case inl he =>
    rw [he]
    exact hlast'

theorem newText_newText (h : Renews earlier later) {after : Draft}
    (hid : after.nodeId options later.node_id = draft.nodeId options earlier.node_id) (node : Node) :
    newText options later profile after (newText options earlier profile draft node) =
      newText options later profile draft node := by
  unfold newText
  rw [hid, nodeId_congr options draft h]
  exact textNode_textNode node _

theorem ownText_newText (h : Renews earlier later) {snapshot : Text} (hs : later.data.snapshot = some snapshot)
    (node : Node) :
    { ownText later (newText options earlier profile draft node) with content := some snapshot } =
      newText options later profile draft node := by
  unfold newText
  rw [nodeId_congr options draft h]
  exact ownText_textNode h hs node _

-- The texts of a draft whose nodes have been written
def withNodes (draft : Draft) (nodes : List Node) (calls : ℕ) : Draft :=
  let message := { draft.message with nodes := nodes }
  { message := { message with content := message.deriveNarrativeContentFromNodes }, calls := calls }

theorem withNodes_withNodes (nodes nodes' : List Node) (calls calls' : ℕ) :
    (draft.withNodes nodes calls).withNodes nodes' calls' = draft.withNodes nodes' calls' :=
  rfl

theorem mergeText_eq_withNodes {event : UiEvent} {snapshot : Text} (hs : event.data.snapshot = some snapshot) (i : ℕ) :
    draft.mergeText event i = draft.withNodes (draft.message.nodes.set i
      { ownText event (draft.message.nodes.getD i Node.empty) with content := some snapshot }) draft.calls :=
  mergeText_eq hs i

-- How often `createId` was called after a node has been written
def callsAfter (event : UiEvent) (draft : Draft) : ℕ :=
  if event.node_id ≠ [] then draft.calls else draft.calls + 1

theorem insertText_of_fresh {event : UiEvent} (hs : event.data.snapshot.isSome)
    (hf : ∀ n ∈ draft.message.nodes, trim (draft.nodeId options event.node_id) ≠ [] →
      trim n.id ≠ trim (draft.nodeId options event.node_id)) :
    draft.insertText options event profile = draft.withNodes
      (draft.message.nodes ++ [newText options event profile draft Node.empty]) (draft.callsAfter event) := by
  rw [insertText_eq hs, upsertTimelineNode_fresh rfl hf]
  rfl

theorem insertText_of_found {event : UiEvent} (hs : event.data.snapshot.isSome) {j : ℕ}
    (hj : draft.message.nodes.findIdx? (trim ·.id = trim (draft.nodeId options event.node_id)) = some j)
    (hb : trim (draft.nodeId options event.node_id) ≠ [])
    (hopen : (draft.message.nodes.getD j Node.empty).settled = false) :
    draft.insertText options event profile = draft.withNodes (draft.message.nodes.set j
      (newText options event profile draft (draft.message.nodes.getD j Node.empty))) (draft.callsAfter event) := by
  have hexisting : draft.message.existingIndex (newText options event profile draft Node.empty) = some j := by
    unfold Message.existingIndex
    have hid : (newText options event profile draft Node.empty).id = draft.nodeId options event.node_id := rfl
    rw [hid, if_neg hb, hj]
    rfl
  rw [insertText_eq hs]
  simp only [Message.upsertTimelineNode, hexisting, hopen, Bool.false_eq_true, false_and, if_false]
  rfl

-- A later snapshot writes what it would have written without the earlier one.
theorem writeText_writeText (profile : AgentProfile) (draft : Draft) (h : Renews earlier later)
    (hfinal : earlier.finalized = false) (hnamed : draft.Named options earlier) :
    (draft.writeText options earlier profile).writeText options later profile =
      draft.writeText options later profile := by
  have ⟨a, ha⟩ := Option.isSome_iff_exists.mp h.snapshot
  have ⟨b, hb⟩ := Option.isSome_iff_exists.mp h.snapshot'
  have hcongr : draft.narrativeIndex later profile = draft.narrativeIndex earlier profile := narrativeIndex_congr h
  have hlater := nodeId_congr options draft h
  cases hi : draft.narrativeIndex earlier profile
  case some i =>
    have hlt := narrativeIndex_lt hi
    have hnext : (draft.mergeText earlier i).narrativeIndex later profile = some i := by
      apply narrativeIndex_set (hcongr.trans hi) (continued_ownText h hfinal _ (some a))
      rw [mergeText_eq ha]
    unfold writeText
    rw [hi, hcongr, hi]
    dsimp only
    rw [hnext]
    exact mergeText_mergeText h hlt
  case none =>
    unfold writeText
    rw [hi, hcongr, hi]
    dsimp only
    have hcalls : draft.callsAfter later = draft.callsAfter earlier := by rw [callsAfter, callsAfter, h.node]
    cases hj : draft.message.nodes.findIdx? fun n =>
      trim (draft.nodeId options earlier.node_id) ≠ [] && trim n.id = trim (draft.nodeId options earlier.node_id)
    case none =>
      -- The earlier snapshot has added a node, and the later one goes on with it.
      have hfresh : ∀ n ∈ draft.message.nodes, trim (draft.nodeId options earlier.node_id) ≠ [] →
          trim n.id ≠ trim (draft.nodeId options earlier.node_id) := by
        intro n hn hne he
        have hall := List.findIdx?_eq_none_iff.mp hj n hn
        simp [hne, he] at hall
      have hfresh' := hfresh
      rw [← hlater] at hfresh'
      rw [insertText_of_fresh h.snapshot hfresh, insertText_of_fresh h.snapshot' hfresh', hcalls]
      rw [narrativeIndex_concat (hcongr.trans hi) (open_newText h hfinal) rfl]
      dsimp only
      rw [mergeText_eq_withNodes hb, withNodes_withNodes]
      simp only [withNodes, getD_concat, set_concat, ownText_newText h hb]
    case some j =>
      -- The earlier snapshot has been written over the node at `j`, and so is the later one.
      have ⟨hlt, hp, _⟩ := List.findIdx?_eq_some_iff_getElem.mp hj
      simp only [Bool.and_eq_true, decide_eq_true_eq] at hp
      have hfind : draft.message.nodes.findIdx? (trim ·.id = trim (draft.nodeId options earlier.node_id)) = some j := by
        simpa [hp.1] using hj
      have ⟨hid, hsettled⟩ := hnamed _ (List.getElem_mem hlt) hp.1 hp.2
      rw [← getD_of_lt hlt] at hsettled
      have hfind' := hfind
      rw [← hlater] at hfind'
      rw [insertText_of_found h.snapshot hfind hp.1 hsettled,
        insertText_of_found h.snapshot' hfind' (hlater ▸ hp.1) hsettled, hcalls]
      generalize hafter : draft.withNodes _ (draft.callsAfter earlier) = after
      have hnodes : after.message.nodes = draft.message.nodes.set j
          (newText options earlier profile draft (draft.message.nodes.getD j Node.empty)) := by
        rw [← hafter]
        rfl
      have hget : after.message.nodes.getD j Node.empty =
          newText options earlier profile draft (draft.message.nodes.getD j Node.empty) := by
        rw [hnodes, List.getD_eq_getElem?_getD, List.getElem?_set_self hlt, Option.getD_some]
      cases narrativeIndex_set_none (hcongr.trans hi) hnodes
      case inr hnext =>
        rw [hnext]
        dsimp only
        rw [mergeText_eq_withNodes hb, hget, ownText_newText h hb, hnodes, List.set_set, ← hafter]
        rfl
      case inl hnext =>
        rw [hnext]
        dsimp only
        have hsame : after.nodeId options later.node_id = draft.nodeId options earlier.node_id := by
          rw [h.node, nodeId, nodeId, if_pos hid, if_pos hid]
        have hfound : after.message.nodes.findIdx? (trim ·.id = trim (after.nodeId options later.node_id)) =
            some j := by
          rw [hnodes, hsame]
          exact findIdx?_set hfind (by simp [newText])
        rw [insertText_of_found h.snapshot' hfound (hsame ▸ hp.1) (by rw [hget]; exact hfinal), hget,
          newText_newText h hsame, hnodes, List.set_set, callsAfter, if_pos (h.node ▸ hid), ← hafter]
        rfl

-- The reasoning of a draft whose nodes have been written
def withOnlyNodes (draft : Draft) (nodes : List Node) (calls : ℕ) : Draft :=
  { message := { draft.message with nodes := nodes }, calls := calls }

-- The node of a new piece of reasoning
def newReasoning (options : LifecycleOptions) (event : UiEvent) (profile : AgentProfile) (draft : Draft)
    (node : Node) : Node :=
  { reasoningNode event profile node with id := draft.nodeId options event.node_id }

theorem sameReasoning_congr (h : Renews earlier later) : sameReasoning later = sameReasoning earlier := by
  funext node
  unfold sameReasoning
  rw [streamKeyMatches_congr h.key]

theorem reasoningPlace_congr (h : Renews earlier later) :
    draft.reasoningPlace later = draft.reasoningPlace earlier := by
  unfold reasoningPlace
  rw [h.node]

-- The place depends on the ids only.
theorem reasoningPlace_of_ids {event : UiEvent} {after : Draft}
    (h : after.message.nodes.map (trim ·.id) = draft.message.nodes.map (trim ·.id)) :
    after.reasoningPlace event = draft.reasoningPlace event := by
  have hlen : after.message.nodes.length = draft.message.nodes.length := by
    simpa using congrArg List.length h
  have hfind (nodes : List Node) : nodes.findIdx? (trim ·.id = event.node_id) =
      (nodes.map (trim ·.id)).findIdx? (· = event.node_id) := by
    rw [List.findIdx?_map]
    rfl
  unfold reasoningPlace
  rw [hfind, hfind, h, hlen]

theorem continueReasoning_eq {event : UiEvent} {snapshot : Text} (hs : event.data.snapshot = some snapshot)
    (node : Node) : continueReasoning event node =
      { (node.withOwner event.ownerFieldsFromEvent).applyEventTimelineFields event.timelineRunId with
        content := some snapshot } := by
  unfold continueReasoning
  rw [hs]

theorem continueReasoning_continueReasoning (h : Renews earlier later) (node : Node) :
    continueReasoning later (continueReasoning earlier node) = continueReasoning later node := by
  have ⟨a, ha⟩ := Option.isSome_iff_exists.mp h.snapshot
  have ⟨b, hb⟩ := Option.isSome_iff_exists.mp h.snapshot'
  have hrun : later.timelineRunId = earlier.timelineRunId := congrArg trim h.run
  rw [continueReasoning_eq ha, continueReasoning_eq hb, continueReasoning_eq hb]
  unfold Node.withOwner Node.applyEventTimelineFields
  simp only [hrun]
  split_ifs with hr <;> simp_all

theorem continueReasoning_newReasoning (h : Renews earlier later) (node : Node) :
    continueReasoning later (newReasoning options earlier profile draft node) =
      newReasoning options later profile draft node := by
  have ⟨b, hb⟩ := Option.isSome_iff_exists.mp h.snapshot'
  have hrun : later.timelineRunId = earlier.timelineRunId := congrArg trim h.run
  rw [continueReasoning_eq hb]
  unfold newReasoning reasoningNode Node.withProfile Node.withOwner Node.withTimeline Node.applyEventTimelineFields
  simp only [hb, hrun, h.node, Option.getD_some, ite_self]

theorem newReasoning_newReasoning (h : Renews earlier later) {after : Draft}
    (hid : after.nodeId options later.node_id = draft.nodeId options earlier.node_id) (node : Node) :
    newReasoning options later profile after (newReasoning options earlier profile draft node) =
      newReasoning options later profile draft node := by
  unfold newReasoning reasoningNode Node.withProfile Node.withOwner Node.withTimeline
  rw [hid, nodeId_congr options draft h]
  cases profile with | mk name avatar role => cases name <;> cases avatar <;> cases role <;> rfl

theorem sameReasoning_newReasoning (h : Renews earlier later) (node : Node) :
    sameReasoning later (newReasoning options earlier profile draft node) := by
  have hkey : streamKeyMatches earlier.ownerFieldsFromEvent.ownerStreamKey
      later.ownerFieldsFromEvent.ownerStreamKey := streamKeyMatches_iff.mpr h.key.symm
  simpa [sameReasoning, newReasoning, reasoningNode, Node.withProfile, Node.withOwner, Node.withTimeline] using hkey

theorem sameReasoning_continueReasoning (h : Renews earlier later) {node : Node} (hn : sameReasoning earlier node) :
    sameReasoning later (continueReasoning earlier node) := by
  have ⟨a, ha⟩ := Option.isSome_iff_exists.mp h.snapshot
  have hkey : streamKeyMatches earlier.ownerFieldsFromEvent.ownerStreamKey
      later.ownerFieldsFromEvent.ownerStreamKey := streamKeyMatches_iff.mpr h.key.symm
  simp only [sameReasoning, Bool.and_eq_true, decide_eq_true_eq] at hn
  rw [continueReasoning_eq ha]
  simpa [sameReasoning, Node.withOwner, Node.applyEventTimelineFields, hn.1.1, hn.1.2] using hkey

theorem existingIndex_newReasoning {event : UiEvent} {after : Draft} :
    draft.message.existingIndex (newReasoning options event profile after Node.empty) =
      if trim (after.nodeId options event.node_id) = [] then none
      else draft.message.nodes.findIdx? (trim ·.id = trim (after.nodeId options event.node_id)) := by
  have hid : (newReasoning options event profile after Node.empty).id = after.nodeId options event.node_id := rfl
  have hkind : (newReasoning options event profile after Node.empty).executionType = some .reasoning := rfl
  unfold Message.existingIndex
  simp only [hid, hkind, Option.some.injEq, reduceCtorEq, or_self, false_and, and_false, if_false]
  split_ifs
  case pos => rfl
  case neg => cases draft.message.nodes.findIdx? (trim ·.id = trim (after.nodeId options event.node_id)) <;> rfl

theorem upsert_reasoning_fresh {event : UiEvent}
    (hf : ∀ n ∈ draft.message.nodes, trim (draft.nodeId options event.node_id) ≠ [] →
      trim n.id ≠ trim (draft.nodeId options event.node_id)) :
    draft.upsert options event.node_id (reasoningNode event profile) = draft.withOnlyNodes
      (draft.message.nodes ++ [newReasoning options event profile draft Node.empty]) (draft.callsAfter event) := by
  have hexisting : draft.message.existingIndex (newReasoning options event profile draft Node.empty) = none := by
    rw [existingIndex_newReasoning]
    split_ifs with hb
    case pos => rfl
    case neg =>
      rw [List.findIdx?_eq_none_iff]
      intro n hn
      simpa using hf n hn hb
  have hupsert : draft.message.upsertTimelineNode (newReasoning options event profile draft) =
      draft.message.appendNode (newReasoning options event profile draft Node.empty) := by
    simp only [Message.upsertTimelineNode, hexisting]
  exact congrArg (fun message => (⟨message, draft.callsAfter event⟩ : Draft)) hupsert

theorem upsert_reasoning_found {event : UiEvent} {j : ℕ}
    (hj : draft.message.nodes.findIdx? (trim ·.id = trim (draft.nodeId options event.node_id)) = some j)
    (hb : trim (draft.nodeId options event.node_id) ≠ []) :
    draft.upsert options event.node_id (reasoningNode event profile) = draft.withOnlyNodes
      (draft.message.nodes.set j (newReasoning options event profile draft (draft.message.nodes.getD j Node.empty)))
      (draft.callsAfter event) := by
  have hexisting : draft.message.existingIndex (newReasoning options event profile draft Node.empty) = some j := by
    rw [existingIndex_newReasoning, if_neg hb, hj]
  have hkind : ¬(newReasoning options event profile draft Node.empty).kind = .narrative := by
    intro hk
    cases hk
  have hupsert : draft.message.upsertTimelineNode (newReasoning options event profile draft) =
      { draft.message with
        nodes := draft.message.nodes.set j
          (newReasoning options event profile draft (draft.message.nodes.getD j Node.empty)) } := by
    simp only [Message.upsertTimelineNode, hexisting, hkind, and_false, if_false]
  exact congrArg (fun message => (⟨message, draft.callsAfter event⟩ : Draft)) hupsert

theorem writeReasoning_continue {event : UiEvent} {node : Node}
    (hn : draft.message.nodes[draft.reasoningPlace event]? = some node) (hs : sameReasoning event node) :
    draft.writeReasoning options event profile = draft.withOnlyNodes
      (draft.message.nodes.modify (draft.reasoningPlace event) (continueReasoning event)) draft.calls := by
  unfold writeReasoning
  simp only [hn, Option.any_some, hs, if_true]
  rfl

theorem writeReasoning_upsert {event : UiEvent}
    (hn : ∀ node, draft.message.nodes[draft.reasoningPlace event]? = some node → ¬sameReasoning event node) :
    draft.writeReasoning options event profile =
      draft.upsert options event.node_id (reasoningNode event profile) := by
  unfold writeReasoning
  dsimp only
  rw [if_neg]
  intro hany
  have ⟨node, hnode, hsame⟩ := (Option.any_eq_true _ _).mp hany
  exact hn node hnode hsame

-- The place of the node that has just been added
theorem reasoningPlace_concat {event : UiEvent} {after : Draft} {new : Node}
    (hf : ∀ n ∈ draft.message.nodes, trim (draft.nodeId options event.node_id) ≠ [] →
      trim n.id ≠ trim (draft.nodeId options event.node_id))
    (hn : after.message.nodes = draft.message.nodes ++ [new]) :
    after.reasoningPlace event = draft.message.nodes.length := by
  unfold reasoningPlace
  dsimp only
  rw [hn]
  split_ifs with hid
  case pos => simp
  case neg =>
    have hnone : draft.message.nodes.findIdx? (trim ·.id = event.node_id) = none := by
      rw [List.findIdx?_eq_none_iff]
      intro n hn
      have hne := hf n hn
      rw [nodeId, if_pos hid] at hne
      simp only [decide_eq_false_iff_not]
      intro he
      -- An id that is found without being trimmed is one without white space around it.
      have htrim : trim event.node_id = event.node_id := by rw [← he, trim_trim]
      exact hne (by rwa [htrim]) (he.trans htrim.symm)
    rw [List.findIdx?_append, hnone]
    by_cases hp : trim new.id = event.node_id <;> simp [List.findIdx?_cons, hp]

theorem map_modify {f : Node → Node} (hf : ∀ node, (f node).id = node.id) (nodes : List Node) (i : ℕ) :
    (nodes.modify i f).map (trim ·.id) = nodes.map (trim ·.id) := by
  apply List.ext_getElem?
  intro k
  rw [List.getElem?_map, List.getElem?_map, List.getElem?_modify]
  split_ifs <;> cases nodes[k]? <;> simp [hf]

theorem map_set {nodes : List Node} {j : ℕ} {new : Node} (hlt : j < nodes.length)
    (h : trim new.id = trim nodes[j].id) : (nodes.set j new).map (trim ·.id) = nodes.map (trim ·.id) := by
  rw [List.map_set, h]
  apply List.ext_getElem?
  intro k
  by_cases hk : j = k
  case pos => simp [← hk, hlt]
  case neg => rw [List.getElem?_set_ne hk]

theorem modify_concat {α : Type} (xs : List α) (x : α) (f : α → α) :
    (xs ++ [x]).modify xs.length f = xs ++ [f x] := by
  induction xs
  case nil => rfl
  case cons y ys hi => exact congrArg (y :: ·) hi

theorem modify_set {α : Type} (xs : List α) (i : ℕ) (x : α) (f : α → α) :
    (xs.set i x).modify i f = xs.set i (f x) := by
  induction xs generalizing i
  case nil => simp
  case cons y ys hi =>
    cases i
    case zero => rfl
    case succ i => exact congrArg (y :: ·) (hi i)

-- A later snapshot of a piece of reasoning writes what it would have written without the earlier one.
theorem writeReasoning_writeReasoning (h : Renews earlier later)
    (hnamed : ∀ n ∈ draft.message.nodes, trim (draft.nodeId options earlier.node_id) ≠ [] →
      trim n.id = trim (draft.nodeId options earlier.node_id) → earlier.node_id ≠ []) :
    (draft.writeReasoning options earlier profile).writeReasoning options later profile =
      draft.writeReasoning options later profile := by
  have hplace : draft.reasoningPlace later = draft.reasoningPlace earlier := reasoningPlace_congr h
  have hsame := sameReasoning_congr h
  have hlater := nodeId_congr options draft h
  by_cases hgo : ∃ node, draft.message.nodes[draft.reasoningPlace earlier]? = some node ∧ sameReasoning earlier node
  case pos =>
    have ⟨node, hnode, hs⟩ := hgo
    have ⟨a, ha⟩ := Option.isSome_iff_exists.mp h.snapshot
    rw [writeReasoning_continue hnode hs]
    generalize hafter : draft.withOnlyNodes _ draft.calls = after
    have hnodes : after.message.nodes =
        draft.message.nodes.modify (draft.reasoningPlace earlier) (continueReasoning earlier) := by
      rw [← hafter]
      rfl
    have hkeep : ∀ node, (continueReasoning earlier node).id = node.id := by
      intro node
      rw [continueReasoning_eq ha]
      rfl
    have hnext : after.reasoningPlace later = draft.reasoningPlace earlier := by
      rw [← hplace]
      apply reasoningPlace_of_ids
      rw [hnodes, map_modify hkeep]
    have hget : after.message.nodes[after.reasoningPlace later]? = some (continueReasoning earlier node) := by
      rw [hnext, hnodes, List.getElem?_modify_eq, hnode]
      rfl
    rw [writeReasoning_continue hget (sameReasoning_continueReasoning h hs), hnext, hnodes, List.modify_modify_eq]
    rw [writeReasoning_continue (by rw [hplace, hnode]) (by rw [hsame]; exact hs), hplace, ← hafter]
    have hcompose : continueReasoning later ∘ continueReasoning earlier = continueReasoning later :=
      funext fun node => continueReasoning_continueReasoning h node
    rw [hcompose]
    rfl
  case neg =>
    have hno : ∀ node, draft.message.nodes[draft.reasoningPlace earlier]? = some node → ¬sameReasoning earlier node :=
      fun node hnode hs => hgo ⟨node, hnode, hs⟩
    have hno' : ∀ node, draft.message.nodes[draft.reasoningPlace later]? = some node → ¬sameReasoning later node := by
      rw [hplace, hsame]
      exact hno
    have hcalls : draft.callsAfter later = draft.callsAfter earlier := by rw [callsAfter, callsAfter, h.node]
    rw [writeReasoning_upsert hno, writeReasoning_upsert hno']
    cases hj : draft.message.nodes.findIdx? fun n =>
      trim (draft.nodeId options earlier.node_id) ≠ [] && trim n.id = trim (draft.nodeId options earlier.node_id)
    case none =>
      have hfresh : ∀ n ∈ draft.message.nodes, trim (draft.nodeId options earlier.node_id) ≠ [] →
          trim n.id ≠ trim (draft.nodeId options earlier.node_id) := by
        intro n hn hne he
        have hall := List.findIdx?_eq_none_iff.mp hj n hn
        simp [hne, he] at hall
      have hfresh' := hfresh
      rw [← hlater] at hfresh'
      rw [upsert_reasoning_fresh hfresh, upsert_reasoning_fresh hfresh', hcalls]
      generalize hafter : draft.withOnlyNodes (draft.message.nodes ++ [newReasoning options earlier _ _ _]) _ = after
      have hnodes : after.message.nodes =
          draft.message.nodes ++ [newReasoning options earlier profile draft Node.empty] := by
        rw [← hafter]
        rfl
      have hnext := reasoningPlace_concat hfresh' hnodes
      have hget : after.message.nodes[after.reasoningPlace later]? =
          some (newReasoning options earlier profile draft Node.empty) := by
        rw [hnext, hnodes, List.getElem?_concat_length]
      rw [writeReasoning_continue hget (sameReasoning_newReasoning h _), hnext, hnodes, modify_concat,
        continueReasoning_newReasoning h, ← hafter]
      rfl
    case some j =>
      have ⟨hlt, hp, _⟩ := List.findIdx?_eq_some_iff_getElem.mp hj
      simp only [Bool.and_eq_true, decide_eq_true_eq] at hp
      have hfind : draft.message.nodes.findIdx? (trim ·.id = trim (draft.nodeId options earlier.node_id)) = some j := by
        simpa [hp.1] using hj
      have hid := hnamed _ (List.getElem_mem hlt) hp.1 hp.2
      have hfind' := hfind
      rw [← hlater] at hfind'
      rw [upsert_reasoning_found hfind hp.1, upsert_reasoning_found hfind' (hlater ▸ hp.1), hcalls]
      generalize hafter : draft.withOnlyNodes (draft.message.nodes.set j (newReasoning options earlier _ _ _)) _ = after
      have hnodes : after.message.nodes = draft.message.nodes.set j
          (newReasoning options earlier profile draft (draft.message.nodes.getD j Node.empty)) := by
        rw [← hafter]
        rfl
      have hget : after.message.nodes.getD j Node.empty =
          newReasoning options earlier profile draft (draft.message.nodes.getD j Node.empty) := by
        rw [hnodes, List.getD_eq_getElem?_getD, List.getElem?_set_self hlt, Option.getD_some]
      have hnext : after.reasoningPlace later = draft.reasoningPlace earlier := by
        rw [← hplace]
        apply reasoningPlace_of_ids
        rw [hnodes, map_set hlt hp.2.symm]
      by_cases hk : draft.reasoningPlace earlier = j
      case pos =>
        -- The later snapshot goes on with the node that the earlier one has made of the node at `j`.
        have hplaced : after.message.nodes[after.reasoningPlace later]? =
            some (newReasoning options earlier profile draft (draft.message.nodes.getD j Node.empty)) := by
          rw [hnext, hk, hnodes, List.getElem?_set_self hlt]
        rw [writeReasoning_continue hplaced (sameReasoning_newReasoning h _), hnext, hk, hnodes, modify_set,
          continueReasoning_newReasoning h, ← hafter]
        rfl
      case neg =>
        have hno'' : ∀ node, after.message.nodes[after.reasoningPlace later]? = some node →
            ¬sameReasoning later node := by
          rw [hnext, hnodes, List.getElem?_set_ne (Ne.symm hk), hsame]
          exact hno
        have hsameId : after.nodeId options later.node_id = draft.nodeId options earlier.node_id := by
          rw [h.node, nodeId, nodeId, if_pos hid, if_pos hid]
        have hfound : after.message.nodes.findIdx? (trim ·.id = trim (after.nodeId options later.node_id)) =
            some j := by
          rw [hnodes, hsameId]
          exact findIdx?_set hfind (by simp [newReasoning])
        rw [writeReasoning_upsert hno'', upsert_reasoning_found hfound (hsameId ▸ hp.1), hget,
          newReasoning_newReasoning h hsameId, hnodes, List.set_set, callsAfter, if_pos (h.node ▸ hid), ← hafter]
        rfl

-- A message whose nodes and text have been written
def Rewritten (old new : Message) : Prop :=
  ∃ nodes content, new = { old with nodes := nodes, content := content }

theorem Rewritten.trans {m₁ m₂ m₃ : Message} (h₁ : Rewritten m₁ m₂) (h₂ : Rewritten m₂ m₃) : Rewritten m₁ m₃ := by
  have ⟨_, _, h₁⟩ := h₁
  have ⟨nodes, content, h₂⟩ := h₂
  exact ⟨nodes, content, by rw [h₂, h₁]⟩

theorem nodes_upsertTimelineNode (message : Message) (node : Node → Node) :
    ∃ nodes, message.upsertTimelineNode node = { message with nodes := nodes } := by
  unfold Message.upsertTimelineNode
  dsimp only
  split
  case h_1 => exact ⟨_, rfl⟩
  case h_2 => split_ifs <;> exact ⟨_, rfl⟩

theorem rewritten_writeText (options : LifecycleOptions) (event : UiEvent) (profile : AgentProfile) (draft : Draft) :
    Rewritten draft.message (draft.writeText options event profile).message := by
  unfold writeText
  split
  case h_1 =>
    unfold mergeText modify
    dsimp only
    split
    case h_1 => exact ⟨_, _, rfl⟩
    case h_2 => split_ifs <;> exact ⟨_, _, rfl⟩
  case h_2 =>
    have ⟨nodes, hnodes⟩ := nodes_upsertTimelineNode draft.message (newText options event profile draft)
    have hmessage : Rewritten draft.message (draft.message.upsertTimelineNode (newText options event profile draft)) :=
      ⟨nodes, _, hnodes⟩
    exact hmessage.trans ⟨_, _, rfl⟩

theorem rewritten_replaceSegments (event : UiEvent) (draft : Draft) :
    Rewritten draft.message (draft.replaceSegments event).message := by
  unfold replaceSegments
  split
  case h_1 => exact ⟨_, _, rfl⟩
  case h_2 => exact ⟨_, _, rfl⟩

-- A piece of reasoning is no part of the text.
theorem nodes_writeReasoning (options : LifecycleOptions) (event : UiEvent) (profile : AgentProfile) (draft : Draft) :
    ∃ nodes, (draft.writeReasoning options event profile).message = { draft.message with nodes := nodes } := by
  unfold writeReasoning
  dsimp only
  split_ifs
  case pos => exact ⟨_, rfl⟩
  case neg => exact nodes_upsertTimelineNode draft.message (newReasoning options event profile draft)

-- The node that a new text is merged with has its id.
theorem id_of_existingIndex {event : UiEvent} {j : ℕ} {node : Node}
    (hj : draft.message.existingIndex (newText options event profile draft Node.empty) = some j)
    (hn : draft.message.nodes[j]? = some node) : trim node.id = trim (draft.nodeId options event.node_id) := by
  have hid : (newText options event profile draft Node.empty).id = draft.nodeId options event.node_id := rfl
  have hkind : (newText options event profile draft Node.empty).kind = .narrative := rfl
  unfold Message.existingIndex at hj
  simp only [hid, hkind, reduceCtorEq, false_and, if_false] at hj
  split_ifs at hj
  case pos => cases hj
  case neg =>
    have hj : draft.message.nodes.findIdx? (trim ·.id = trim (draft.nodeId options event.node_id)) = some j := by
      simpa using hj
    have ⟨hlt, hp, _⟩ := List.findIdx?_eq_some_iff_getElem.mp hj
    rw [List.getElem?_eq_getElem hlt] at hn
    cases hn
    simpa using hp

-- A segment is written over a segment, and then removed.
theorem filter_set {α : Type} {p : α → Bool} {xs : List α} {i : ℕ} {x : α} (hi : ∀ y, xs[i]? = some y → p y = false)
    (hx : p x = false) : (xs.set i x).filter p = xs.filter p := by
  induction xs generalizing i
  case nil => simp
  case cons y ys hind =>
    cases i
    case zero => simp [hx, hi y rfl]
    case succ i =>
      have htail := hind (i := i) hi
      simp only [List.set_cons_succ, List.filter_cons, htail]

-- The later snapshot removes all that the earlier one writes, and the earlier one needs no new id.
structure Superseded (key : Text) (earlier later : UiEvent) (profile : AgentProfile) (draft : Draft) : Prop where
  own         : isSegment key later.ownerFieldsFromEvent.toOwner (textNode earlier profile Node.empty)
  continued   : ∀ i node, draft.narrativeIndex earlier profile = some i → draft.message.nodes[i]? = some node →
    isSegment key later.ownerFieldsFromEvent.toOwner node
  overwritten : draft.narrativeIndex earlier profile = none → earlier.node_id ≠ [] ∧
    ∀ node ∈ draft.message.nodes, trim node.id = trim earlier.node_id → node.settled = false →
      isSegment key later.ownerFieldsFromEvent.toOwner node

theorem replaceSegments_eq {key : Text} (hk : replacedStream later = some key) :
    draft.replaceSegments later = draft.withNodes
      (draft.message.nodes.filter fun node => !isSegment key later.ownerFieldsFromEvent.toOwner node) draft.calls := by
  unfold replaceSegments
  rw [hk]
  rfl

theorem withNodes_of_rewritten {after : Draft} (h : Rewritten draft.message after.message) (nodes : List Node)
    (calls : ℕ) : after.withNodes nodes calls = draft.withNodes nodes calls := by
  have ⟨_, _, h⟩ := h
  unfold withNodes
  rw [h]
  rfl

theorem isSegment_of_owner {key : Text} {owner : Owner} {node new : Node} (h : isSegment key owner node)
    (hkind : new.kind = .narrative) (howner : new.toOwner = node.toOwner) : isSegment key owner new := by
  have ⟨hruntime, hagentKind, hagent, hstream⟩ := Owner.mk.inj howner
  simp only [isSegment, Bool.and_eq_true, decide_eq_true_eq] at h ⊢
  rw [hruntime, hagentKind, hagent, hstream]
  exact ⟨⟨⟨⟨hkind, h.1.1.1.2⟩, h.1.1.2⟩, h.1.2⟩, h.2⟩

theorem calls_writeText (hs : earlier.data.snapshot.isSome)
    (h : draft.narrativeIndex earlier profile = none → earlier.node_id ≠ []) :
    (draft.writeText options earlier profile).calls = draft.calls := by
  unfold writeText
  split
  case h_1 => rfl
  case h_2 hnone =>
    rw [insertText_eq hs]
    exact if_pos (h hnone)

-- The later snapshot replaces the segment that the earlier one has written.
theorem replaceSegments_writeText {key : Text} (hs : earlier.data.snapshot.isSome)
    (hk : replacedStream later = some key) (h : draft.Superseded key earlier later profile) :
    (draft.writeText options earlier profile).replaceSegments later = draft.replaceSegments later := by
  rw [replaceSegments_eq hk, replaceSegments_eq hk, withNodes_of_rewritten (rewritten_writeText ..),
    calls_writeText hs fun hnone => (h.overwritten hnone).1]
  congr 1
  have ⟨snapshot, hsnapshot⟩ := Option.isSome_iff_exists.mp hs
  unfold writeText
  split
  case h_1 i hi =>
    rw [mergeText_eq hsnapshot]
    apply filter_set
    case hi =>
      intro node hnode
      simp [h.continued i node hi hnode]
    case hx =>
      have hlt := narrativeIndex_lt hi
      have hseg := h.continued i _ hi (List.getElem?_eq_getElem hlt)
      have hkind : draft.message.nodes[i].kind = .narrative := by
        simp only [isSegment, Bool.and_eq_true, decide_eq_true_eq] at hseg
        exact hseg.1.1.1.1
      rw [getD_of_lt hlt, Bool.not_eq_false']
      exact isSegment_of_owner h.own hkind rfl
  case h_2 hnone =>
    have ⟨hid, hover⟩ := h.overwritten hnone
    have hown (node : Node) (id : Text) : isSegment key later.ownerFieldsFromEvent.toOwner
        { textNode earlier profile node with id := id } := isSegment_of_owner h.own rfl rfl
    rw [insertText_eq hs]
    dsimp only
    unfold Message.upsertTimelineNode
    dsimp only
    split
    case h_1 => simp [Message.appendNode, newText, hown]
    case h_2 j hj =>
      split_ifs with hsettled hsame
      case pos => rfl
      case neg => simp [Message.appendNode, newText, hown]
      case neg =>
        apply filter_set
        case hx => simp [newText, hown]
        case hi =>
          intro node hnode
          have htrim := id_of_existingIndex hj hnode
          rw [nodeId, if_pos hid] at htrim
          have hopen : node.settled = false := by
            rw [List.getD_eq_getElem?_getD, hnode, Option.getD_some] at hsettled
            simpa [newText, textNode, Node.withProfile, Node.withOwner, Node.withTimeline] using hsettled
          simp [hover node (List.mem_of_getElem? hnode) htrim hopen]

theorem Superseded.of_nodes {key : Text} {after : Draft} (h : draft.Superseded key earlier later profile)
    (hn : after.message.nodes = draft.message.nodes) : after.Superseded key earlier later profile := by
  have hindex : after.narrativeIndex earlier profile = draft.narrativeIndex earlier profile := by
    unfold narrativeIndex explicitIndex lastIndex
    rw [hn]
  refine ⟨h.own, ?continued, ?overwritten⟩
  case continued =>
    rw [hindex, hn]
    exact h.continued
  case overwritten =>
    rw [hindex, hn]
    exact h.overwritten

theorem nodes_replaceSegments_streaming (event : UiEvent) (draft : Draft) :
    (draft.streaming.replaceSegments event).message.nodes = (draft.replaceSegments event).message.nodes := by
  unfold replaceSegments
  split <;> rfl

-- Segments that are removed twice
theorem replaceSegments_replaceSegments (draft : Draft) {key : Text} (hk : replacedStream later = some key)
    (h : ∀ key', replacedStream earlier = some key' → ∀ node ∈ draft.message.nodes,
      isSegment key' earlier.ownerFieldsFromEvent.toOwner node →
      isSegment key later.ownerFieldsFromEvent.toOwner node) :
    (draft.replaceSegments earlier).replaceSegments later = draft.replaceSegments later := by
  cases he : replacedStream earlier
  case none =>
    have hsame : draft.replaceSegments earlier = draft := by
      unfold replaceSegments
      rw [he]
    rw [hsame]
  case some key' =>
    rw [replaceSegments_eq he, replaceSegments_eq hk, replaceSegments_eq hk, withNodes_withNodes]
    congr 1
    rw [withNodes, List.filter_filter]
    apply List.filter_congr
    intro node hnode
    have hsegment := h key' he node hnode
    cases hl : isSegment key later.ownerFieldsFromEvent.toOwner node
    case true => rfl
    case false => simpa [hl] using hsegment

theorem streaming_of_rewritten {after : Draft} (h : Rewritten draft.streaming.message after.message) :
    after.streaming = after := by
  have ⟨_, _, h⟩ := h
  have hphase : after.message.uiStreamPhase = some .streaming := by rw [h]; rfl
  unfold streaming modify
  rw [← hphase]

-- In the message `draft`, the later snapshot makes the earlier one superfluous: a snapshot of the same text or of the
-- same reasoning, or a final text that replaces the segment which the earlier snapshot writes.
inductive Absorbs (options : LifecycleOptions) (profile : AgentProfile) (draft : Draft) (earlier later : UiEvent) : Prop
  | text (type : earlier.type = .text_chunk) (renews : Renews earlier later) (artifact : earlier.artifact = none)
    (unfinal : earlier.finalized = false) (named : draft.Named options earlier)
    (unreplaced : replacedStream later = none)
  | replaced (type : earlier.type = .text_chunk) (artifact : earlier.artifact = none) (key : Text)
    (replaced : replacedStream later = some key)
    (segments : ∀ key', replacedStream earlier = some key' → ∀ node ∈ draft.message.nodes,
      isSegment key' earlier.ownerFieldsFromEvent.toOwner node →
      isSegment key later.ownerFieldsFromEvent.toOwner node)
    (superseded : (draft.replaceSegments earlier).Superseded key earlier later profile)
  | reasoning (type : earlier.type = .reasoning_chunk) (renews : Renews earlier later)
    (named : ∀ n ∈ draft.message.nodes, trim (draft.nodeId options earlier.node_id) ≠ [] →
      trim n.id = trim (draft.nodeId options earlier.node_id) → earlier.node_id ≠ [])

theorem textChunk_of_artifact (h : earlier.artifact = none) : draft.textChunk options earlier profile =
    (draft.streaming.replaceSegments earlier).writeText options earlier profile := by
  simp [textChunk, appendEventArtifactIfPresent, h]

theorem textChunk_textChunk (h : draft.Absorbs options profile earlier later) (ht : earlier.type = .text_chunk)
    (hs : earlier.data.snapshot.isSome) :
    (draft.textChunk options earlier profile).textChunk options later profile =
      draft.textChunk options later profile := by
  cases h
  case reasoning type _ _ => exact absurd (ht.symm.trans type) (by decide)
  case text _ renews artifact unfinal named unreplaced =>
    have hearlier : replacedStream earlier = none := by simp [replacedStream, unfinal]
    rw [textChunk_eq hearlier artifact]
    have hphase := streaming_of_rewritten (rewritten_writeText options earlier profile draft.streaming)
    have hkeep (draft : Draft) : draft.replaceSegments later = draft := by
      unfold replaceSegments
      rw [unreplaced]
    have hwrite := writeText_writeText profile draft.streaming renews unfinal named
    unfold textChunk
    dsimp only
    rw [hphase, hkeep, hkeep, hwrite]
  case replaced _ artifact key replaced segments superseded =>
    have hsuperseded : (draft.streaming.replaceSegments earlier).Superseded key earlier later profile :=
      superseded.of_nodes (nodes_replaceSegments_streaming earlier draft)
    rw [textChunk_of_artifact artifact]
    have hphase := streaming_of_rewritten <| (rewritten_replaceSegments earlier draft.streaming).trans
      (rewritten_writeText options earlier profile _)
    unfold textChunk
    dsimp only
    have hsegments := replaceSegments_replaceSegments draft.streaming replaced segments
    rw [hphase, replaceSegments_writeText hs replaced hsuperseded, hsegments]

theorem reasoningChunk_reasoningChunk (h : draft.Absorbs options profile earlier later)
    (ht : earlier.type = .reasoning_chunk) :
    (draft.reasoningChunk options earlier profile).reasoningChunk options later profile =
      draft.reasoningChunk options later profile := by
  cases h
  case text type _ _ _ _ _ => exact absurd (ht.symm.trans type) (by decide)
  case replaced type _ _ _ _ _ => exact absurd (ht.symm.trans type) (by decide)
  case reasoning _ renews named =>
    have ⟨nodes, hnodes⟩ := nodes_writeReasoning options earlier profile (draft.modify (·.working))
    have hphase (after : Draft) (h : after.message = { (draft.modify (·.working)).message with nodes := nodes }) :
        after.modify (·.working) = after := by
      cases after
      cases h
      rfl
    unfold reasoningChunk
    rw [hphase _ hnodes]
    exact writeReasoning_writeReasoning renews named

end Draft
end SessionRealtime
