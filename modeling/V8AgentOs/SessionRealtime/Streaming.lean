import V8AgentOs.SessionRealtime.Isolation

-- The text of a stream of chunks
namespace SessionRealtime

open Script

theorem streamKeyMatches_iff {existing incoming : Option Text} :
    streamKeyMatches existing incoming ↔ trim (existing.getD []) = trim (incoming.getD []) := by
  unfold streamKeyMatches
  dsimp only
  split_ifs with h
  case pos => simp
  case neg =>
    have h : trim (incoming.getD []) = [] := by simpa using h
    simp [h]

namespace Stream

-- An event of the stream that `first` opened: the same run and the same node or stream key. It carries only text.
structure Continues (options : LifecycleOptions) (first event : UiEvent) : Prop where
  type     : event.type = .text_chunk
  applied  : skips options event = false
  run      : event.run_id = first.run_id
  message  : event.message_id = first.message_id
  node     : event.node_id = first.node_id
  stream   : first.node_id ≠ [] ∧ trim first.node_id = first.node_id ∨
    trim (event.ownerFieldsFromEvent.ownerStreamKey.getD []) = trim (first.ownerFieldsFromEvent.ownerStreamKey.getD [])
  shown    : event.eventDisplayInMessage = first.eventDisplayInMessage
  artifact : event.artifact = none
  replaced : Draft.replacedStream event = none

-- The message of `event`, as the event finds it
def opened (stream : Stream) (options : LifecycleOptions) (event : UiEvent) : Draft :=
  let ensured := stream.ensureCurrent options event
  ⟨ensured.1.objects ensured.2, ensured.1.calls⟩

-- The message has no node that the stream continues, and none with the id of the stream's node.
structure Opens (stream : Stream) (options : LifecycleOptions) (first : UiEvent) : Prop where
  narrative : (stream.opened options first).narrativeIndex first stream.activeAgentProfile = none
  fresh     : ∀ n ∈ (stream.opened options first).message.nodes,
    trim ((stream.opened options first).nodeId options first.node_id) ≠ [] →
    trim n.id ≠ trim ((stream.opened options first).nodeId options first.node_id)

-- What `ensureCurrent` has settled for the events that follow with the same run and message id
structure Ensured (after : Stream) (ref : ℕ) (event : UiEvent) : Prop where
  bound : event.run_id = [] ∨ (after.objects ref).runId = event.run_id
  id    : trim event.message_id ≠ [] → trim (after.objects ref).id = trim event.message_id
  found : ∀ r, after.findMessageById event.message_id = some r → r = ref

-- The first element of a kind stays the first one if only that element may have become one of the kind.
theorem find?_of_agree {p q : ℕ → Bool} {ref : ℕ} {refs : List ℕ} (hp : ∀ r, refs.find? p = some r → r = ref)
    (hq : q ref) (hagree : ∀ r, r ≠ ref → q r = p r) : ∀ r, refs.find? q = some r → r = ref := by
  induction refs
  case nil => simp
  case cons x xs hi =>
    intro r hr
    by_cases hx : x = ref
    case pos =>
      rw [hx, List.find?_cons_of_pos hq] at hr
      exact (Option.some.inj hr).symm
    case neg =>
      cases hqx : q x
      case true =>
        have hpx : p x := (hagree x hx).symm.trans hqx
        exact absurd (hp x (List.find?_cons_of_pos hpx)) hx
      case false =>
        have hpx : ¬p x := by simp [← hagree x hx, hqx]
        apply hi _ r
        case _ => rwa [List.find?_cons_of_neg (by simp [hqx])] at hr
        intro r hr
        exact hp r (by rwa [List.find?_cons_of_neg hpx])

variable {stream : Stream} {options : LifecycleOptions} {event first : UiEvent}

theorem findMessageById_eq {messageId : Text} (h : trim messageId ≠ []) : stream.findMessageById messageId =
    stream.localMessages.find? fun ref => trim (stream.objects ref).id = trim messageId := by
  rw [findMessageById, if_neg h]

theorem findMessageById_none {messageId : Text} (h : trim messageId = []) :
    stream.findMessageById messageId = none := by
  rw [findMessageById, if_pos h]

-- A message that is written has the message id afterwards.
theorem found_modify {ref : ℕ} {f : Message → Message} {messageId : Text}
    (hid : trim messageId ≠ [] → trim (f (stream.objects ref)).id = trim messageId)
    (h : ∀ r, stream.findMessageById messageId = some r → r = ref) :
    ∀ r, (stream.modify ref f).findMessageById messageId = some r → r = ref := by
  by_cases hb : trim messageId = []
  case pos => simp [findMessageById_none hb]
  case neg =>
    rw [findMessageById_eq hb] at h ⊢
    apply find?_of_agree h
    case hq => simpa [modify] using hid hb
    case hagree =>
      intro r hr
      simp [modify, hr]

theorem found_upsertCurrentAiMessage {ref : ℕ} {messageId : Text} (hb : trim messageId ≠ [])
    (hid : trim (stream.objects ref).id = trim messageId)
    (h : ∀ r, stream.findMessageById messageId = some r → r = ref) :
    (stream.upsertCurrentAiMessage ref).findMessageById messageId = some ref := by
  rw [findMessageById_eq hb] at h ⊢
  unfold upsertCurrentAiMessage
  split
  case h_2 hnone =>
    cases hf : stream.localMessages.find? fun r => trim (stream.objects r).id = trim messageId
    case some r =>
      have hr := h r hf
      have hraw := List.findIdx?_eq_none_iff.mp hnone r (List.mem_of_find?_eq_some hf)
      simp [hr] at hraw
    case none => simp [List.find?_append, hf, hid]
  case h_1 index hindex =>
    have ⟨hlt, hraw, hbefore⟩ := List.findIdx?_eq_some_iff_getElem.mp hindex
    have hsome : (stream.localMessages.find? fun r => trim (stream.objects r).id = trim messageId).isSome := by
      rw [List.find?_isSome]
      refine ⟨_, List.getElem_mem hlt, ?_⟩
      have hraw : (stream.objects stream.localMessages[index]).id = (stream.objects ref).id := by simpa using hraw
      simp [hraw, hid]
    have ⟨r, hf⟩ := Option.isSome_iff_exists.mp hsome
    cases h r hf
    have ⟨_, before, after, hsplit, hno⟩ := List.find?_eq_some_iff_append.mp hf
    -- What stands before the message has another id, and the message itself has this one.
    have hle : index ≤ before.length := by
      by_contra hgt
      apply hbefore before.length (by omega)
      simp [hsplit]
    have hself : stream.localMessages[index] = ref := by
      cases Nat.lt_or_eq_of_le hle
      case inr heq => simp [hsplit, heq]
      case inl hlt' =>
        have hmem : stream.localMessages[index] ∈ before := by
          simp [hsplit, List.getElem_append_left hlt']
        have hne := hno _ hmem
        have hraw : (stream.objects stream.localMessages[index]).id = (stream.objects ref).id := by simpa using hraw
        simp [hraw, hid] at hne
    have hset : stream.localMessages.set index ref = stream.localMessages := by
      conv_lhs => rw [← hself]
      exact List.set_getElem_self hlt
    dsimp only
    rw [hset, hf]

theorem ensured_ensureCurrent (stream : Stream) (options : LifecycleOptions) (event : UiEvent) :
    Ensured (stream.ensureCurrent options event).1 (stream.ensureCurrent options event).2 event := by
  have hbound (stream : Stream) (message : Message) :
      event.run_id = [] ∨ (stream.bind event message).runId = event.run_id := by
    by_cases h : event.run_id = []
    case pos => exact .inl h
    case neg => exact .inr (by simp [h])
  have hname (id : Text) (h : trim event.message_id ≠ []) :
      trim (if event.message_id = [] then id else event.message_id) = trim event.message_id := by
    rw [if_neg]
    rintro he
    simp [he] at h
  unfold ensureCurrent
  split
  case h_1 ref href =>
    have hid : trim event.message_id ≠ [] →
        trim (stream.bind event (stream.objects ref)).id = trim event.message_id := by
      intro hb
      rw [findMessageById_eq hb] at href
      simpa using List.find?_some href
    refine ⟨?_, ?_, ?_⟩
    case refine_1 => simpa [modify] using hbound stream _
    case refine_2 => simpa [modify] using hid
    case refine_3 =>
      apply found_modify hid
      intro r hr
      exact Option.some.inj (hr.symm.trans href)
  case h_2 hnone =>
    dsimp only
    split
    case h_1 ref _ =>
      refine ⟨?_, ?_, ?_⟩
      case refine_1 => simpa [modify] using hbound stream _
      case refine_2 => simpa [modify] using hname _
      case refine_3 =>
        dsimp only
        apply found_modify
        case hid => exact hname _
        case h => simp [hnone]
    case h_2 =>
      refine ⟨?_, ?_, ?_⟩
      case refine_1 => simpa [modify] using hbound stream _
      case refine_2 => simpa [modify] using hname _
      case refine_3 =>
        by_cases hb : trim event.message_id = []
        case pos => simp [findMessageById_none hb]
        case neg =>
          rw [findMessageById_eq hb] at hnone ⊢
          have hlast : ∀ r, (stream.localMessages ++ [stream.newRef]).find?
              (fun r => r ≠ stream.newRef && trim (stream.objects r).id = trim event.message_id) = some r →
              r = stream.newRef := by
            intro r hr
            have hmem := List.mem_of_find?_eq_some hr
            have hp := List.find?_some hr
            simp only [Bool.and_eq_true, decide_eq_true_eq] at hp
            cases List.mem_append.mp hmem
            case inl hmem => exact absurd (List.find?_eq_none.mp hnone r hmem) (by simp [hp.2])
            case inr hmem => simpa using hmem
          apply find?_of_agree hlast
          case hq => simpa [modify] using hname _ hb
          case hagree =>
            intro r hr
            simp [modify, pushAssistant, hr]

end Stream

namespace Draft

variable {options : LifecycleOptions} {event first : UiEvent} {profile : AgentProfile} {draft : Draft}

-- A chunk that carries nothing but text
theorem textChunk_eq (hreplaced : replacedStream event = none) (hartifact : event.artifact = none) :
    draft.textChunk options event profile = draft.streaming.writeText options event profile := by
  unfold textChunk
  simp only [appendEventArtifactIfPresent, hartifact, Option.isSome_none, Bool.false_eq_true, if_false, replaceSegments,
    hreplaced]

-- The text that a message shows, with a node at its end
theorem derive_concat (message : Message) (nodes : List Node) (node : Node) (h : message.nodes = nodes ++ [node]) :
    message.deriveNarrativeContentFromNodes =
      (nodes.filter (·.narrates)).flatMap (·.text) ++ if node.narrates then node.text else [] := by
  unfold Message.deriveNarrativeContentFromNodes
  rw [h, List.filter_append, List.flatMap_append]
  split_ifs with hn <;> simp [hn]

-- The node of a chunk, new or continued
structure Carries (event : UiEvent) (profile : AgentProfile) (node : Node) : Prop where
  kind      : node.kind = .narrative
  role      : node.role = some .assistant
  finalized : node.finalized = event.finalized
  agent     : node.agentName = profile.agentName
  key       : node.ownerStreamKey = event.ownerFieldsFromEvent.ownerStreamKey
  shown     : node.displayInMessage = some event.eventDisplayInMessage

theorem Carries.narrates_eq {node : Node} (h : Carries event profile node) :
    node.narrates = event.eventDisplayInMessage := by
  unfold Node.narrates Node.displayed
  rw [h.kind, h.role, h.shown]
  cases event.eventDisplayInMessage <;> rfl

theorem carries_textNode (profile : AgentProfile) (event : UiEvent) (id : Text) :
    Carries event profile { textNode event profile Node.empty with id := id } := by
  refine ⟨rfl, rfl, rfl, ?_, rfl, rfl⟩
  cases profile with | mk name _ _ => cases name <;> rfl

theorem carries_ownText {node : Node} (h : Carries first profile node) (content : Option Text) :
    Carries event profile { ownText event node with content := content } :=
  ⟨h.kind, h.role, rfl, h.agent, rfl, rfl⟩

theorem upsertTimelineNode_fresh {message : Message} {node : Node → Node} (hkind : (node Node.empty).kind = .narrative)
    (hfresh : ∀ n ∈ message.nodes, trim (node Node.empty).id ≠ [] → trim n.id ≠ trim (node Node.empty).id) :
    message.upsertTimelineNode node = message.appendNode (node Node.empty) := by
  have hnone : message.existingIndex (node Node.empty) = none := by
    unfold Message.existingIndex
    simp only [hkind, reduceCtorEq, false_and, if_false]
    split_ifs with hb
    case pos => rfl
    case neg =>
      have hfind : message.nodes.findIdx? (trim ·.id = trim (node Node.empty).id) = none := by
        rw [List.findIdx?_eq_none_iff]
        intro n hn
        simpa using hfresh n hn hb
      rw [hfind]
      rfl
  unfold Message.upsertTimelineNode
  simp only [hnone]

-- The first chunk of a stream becomes the last node.
theorem insertText_nodes (profile : AgentProfile) (draft : Draft)
    (hfresh : ∀ n ∈ draft.message.nodes, trim (draft.nodeId options event.node_id) ≠ [] →
    trim n.id ≠ trim (draft.nodeId options event.node_id)) :
    (draft.insertText options event profile).message.nodes =
      draft.message.nodes ++ [{ textNode event profile Node.empty with id := draft.nodeId options event.node_id }] := by
  unfold insertText upsert modify
  dsimp only
  rw [upsertTimelineNode_fresh rfl hfresh]
  rfl

theorem insertText_content (profile : AgentProfile) (draft : Draft)
    (hfresh : ∀ n ∈ draft.message.nodes, trim (draft.nodeId options event.node_id) ≠ [] →
    trim n.id ≠ trim (draft.nodeId options event.node_id)) :
    (draft.insertText options event profile).message.content =
      if event.data.snapshot.isSome ∨ event.eventDisplayInMessage = false then
        (draft.insertText options event profile).message.deriveNarrativeContentFromNodes
      else draft.message.content ++ event.content := by
  unfold insertText upsert modify
  dsimp only
  rw [upsertTimelineNode_fresh rfl hfresh]
  rfl

variable {nodes : List Node} {node : Node}

theorem getD_concat (nodes : List Node) (node other : Node) : (nodes ++ [node]).getD nodes.length other = node := by
  simp [List.getD_eq_getElem?_getD]

theorem set_concat (nodes : List Node) (node new : Node) :
    (nodes ++ [node]).set nodes.length new = nodes ++ [new] := by
  simp

theorem mergeText_delta (hnodes : draft.message.nodes = nodes ++ [node]) (hs : event.data.snapshot = none) :
    ∃ content, (draft.mergeText event nodes.length).message.nodes =
        nodes ++ [{ ownText event node with content := content }] ∧
      content.getD [] = node.text ++ computeStreamingSuffix node.text event.content ∧
      (draft.mergeText event nodes.length).message.content =
        draft.message.content ++ computeStreamingSuffix node.text event.content := by
  unfold mergeText modify
  simp only [hnodes, hs, getD_concat, set_concat]
  split_ifs with h
  case pos =>
    rw [h, List.append_nil, List.append_nil]
    exact ⟨node.content, rfl, rfl, rfl⟩
  case neg => exact ⟨some (node.text ++ computeStreamingSuffix node.text event.content), rfl, rfl, rfl⟩

theorem mergeText_snapshot (hnodes : draft.message.nodes = nodes ++ [node]) {snapshot : Text}
    (hs : event.data.snapshot = some snapshot) :
    (draft.mergeText event nodes.length).message.nodes =
        nodes ++ [{ ownText event node with content := some snapshot }] ∧
      (draft.mergeText event nodes.length).message.content =
        (draft.mergeText event nodes.length).message.deriveNarrativeContentFromNodes := by
  unfold mergeText modify
  simp only [hnodes, hs, getD_concat, set_concat]
  exact ⟨trivial, rfl⟩

end Draft

namespace Stream

open Draft

variable {stream : Stream} {options : LifecycleOptions} {event first : UiEvent} {ref : ℕ} {nodes : List Node}
  {node : Node}

-- The stream of `first` is being written to `node`, the last node of the current message.
structure Streams (stream : Stream) (first : UiEvent) (ref : ℕ) (nodes : List Node) (node : Node) : Prop where
  current : stream.currentAiMsg = some ref
  ensured : Ensured stream ref first
  listed  : trim first.message_id ≠ [] → stream.findMessageById first.message_id = some ref
  written : (stream.objects ref).nodes = nodes ++ [node]
  carries : ∃ event, Carries event stream.activeAgentProfile node ∧
    (first.node_id ≠ [] ∧ trim first.node_id = first.node_id ∨
      trim (event.ownerFieldsFromEvent.ownerStreamKey.getD []) =
        trim (first.ownerFieldsFromEvent.ownerStreamKey.getD []))
  id      : first.node_id ≠ [] → node.id = first.node_id
  others  : first.node_id ≠ [] → ∀ n ∈ nodes,
    ¬(trim n.id = first.node_id ∧ n.kind = .narrative ∧ n.role = some .assistant ∧ n.finalized = false)

-- The next event finds the message of the stream again.
theorem Streams.ensureCurrent (h : stream.Streams first ref nodes node) (hc : Continues options first event) :
    ∃ f : Message → Message, stream.ensureCurrent options event = (stream.modify ref f, ref) ∧
      ∀ m, (f m).nodes = m.nodes ∧ (f m).content = m.content := by
  have hresolve : stream.resolveRun event = some ref := by
    unfold resolveRun
    rw [if_pos, h.current]
    rw [hc.run, h.current]
    simpa using h.ensured.bound
  unfold Stream.ensureCurrent
  by_cases hb : trim first.message_id = []
  case pos =>
    rw [hc.message, findMessageById_none hb, hresolve]
    exact ⟨_, rfl, fun _ => ⟨rfl, rfl⟩⟩
  case neg =>
    rw [hc.message, h.listed hb]
    exact ⟨_, rfl, fun _ => ⟨rfl, rfl⟩⟩

-- The next chunk continues the node of the stream.
theorem Streams.narrativeIndex (h : stream.Streams first ref nodes node) (hc : Continues options first event)
    (hopen : node.finalized = false) {draft : Draft} (hn : draft.message.nodes = nodes ++ [node]) :
    draft.narrativeIndex event stream.activeAgentProfile = some nodes.length := by
  have ⟨last, hcarries, hkey⟩ := h.carries
  have hexplicit : first.node_id ≠ [] →
      (nodes ++ [node]).findIdx? (isExplicit event) = if isExplicit event node then some nodes.length else none := by
    intro hid
    have hnone : nodes.findIdx? (isExplicit event) = none := by
      rw [List.findIdx?_eq_none_iff]
      intro n hm
      simpa [isExplicit, hc.node, and_assoc] using h.others hid n hm
    rw [List.findIdx?_append, hnone]
    by_cases he : isExplicit event node <;> simp [List.findIdx?_cons, he]
  have hself (hid : first.node_id ≠ [] ∧ trim first.node_id = first.node_id) : isExplicit event node := by
    simp [isExplicit, hc.node, h.id hid.1, hid.2, hcarries.kind, hcarries.role, hopen]
  have hmerge : ¬(first.node_id ≠ [] ∧ isExplicit event node) →
      canMergeNarrativeNode node stream.activeAgentProfile event.ownerFieldsFromEvent.ownerStreamKey := by
    intro hno
    have hkeys : trim (node.ownerStreamKey.getD []) = trim (event.ownerFieldsFromEvent.ownerStreamKey.getD []) := by
      rw [hcarries.key]
      cases hkey
      case inl hid => exact absurd ⟨hid.1, hself hid⟩ hno
      case inr hlast =>
        cases hc.stream
        case inl hid => exact absurd ⟨hid.1, hself hid⟩ hno
        case inr hevent => exact hlast.trans hevent.symm
    simp [canMergeNarrativeNode, hcarries.kind, hcarries.role, hopen, hcarries.agent, streamKeyMatches_iff, hkeys]
  unfold Draft.narrativeIndex explicitIndex lastIndex
  rw [hn, hc.node, List.getLast?_concat]
  by_cases hid : first.node_id = []
  case pos => simp [hid, hmerge (by simp [hid])]
  case neg =>
    rw [if_neg hid, hexplicit hid]
    cases he : isExplicit event node
    case true => simp
    case false => simp [hmerge (by simp [he])]

@[simp] theorem activeAgentProfile_upsertCurrentAiMessage :
    (stream.upsertCurrentAiMessage ref).activeAgentProfile = stream.activeAgentProfile := by
  unfold upsertCurrentAiMessage
  split <;> rfl

@[simp] theorem activeAgentProfile_ensureCurrent :
    (stream.ensureCurrent options event).1.activeAgentProfile = stream.activeAgentProfile := by
  unfold ensureCurrent
  split
  case h_1 => rfl
  case h_2 =>
    dsimp only
    split <;> rfl

-- What a chunk does
theorem apply_chunk (hc : Continues options first event) : stream.applyRealtimeEventToMessages options event =
    let ensured := stream.ensureCurrent options event
    (ensured.1.editCurrent ensured.2 fun draft =>
      draft.streaming.writeText options event stream.activeAgentProfile).upsertCurrentAiMessage ensured.2 := by
  unfold applyRealtimeEventToMessages
  have hedit : editOf options event = some (Draft.textChunk options event) := by simp [editOf, hc.type]
  have hprofile : stream.profileOf options event = stream.activeAgentProfile := by simp [profileOf, hc.type]
  have htext : Draft.textChunk options event stream.activeAgentProfile =
      fun draft => draft.streaming.writeText options event stream.activeAgentProfile :=
    funext fun _ => textChunk_eq hc.replaced hc.artifact
  simp only [hc.applied, hc.type, reduceCtorEq, false_and, if_false, Bool.false_eq_true, hedit, write, hprofile, htext]

-- The message that has been edited is found again.
theorem found_editCurrent {edit : Draft → Draft} (he : Ensured stream ref event)
    (hk : ∀ draft, Draft.Kept draft (edit draft)) (hb : trim event.message_id ≠ []) :
    ((stream.editCurrent ref edit).upsertCurrentAiMessage ref).findMessageById event.message_id = some ref := by
  have hkept := hk ⟨stream.objects ref, stream.calls⟩
  have hname : trim ((stream.editCurrent ref edit).objects ref).id = trim event.message_id := by
    rw [objects_editCurrent_self, hkept.id]
    exact he.id hb
  have hfound : ∀ r, (stream.editCurrent ref edit).findMessageById event.message_id = some r → r = ref :=
    found_modify (f := fun _ => (edit ⟨stream.objects ref, stream.calls⟩).message)
      (fun hb => (congrArg trim hkept.id).trans (he.id hb)) he.found
  exact found_upsertCurrentAiMessage hb hname hfound

-- A chunk is written to the message that `ensureCurrent` has found.
theorem streams_editCurrent {edit : Draft → Draft} (he : Ensured stream ref first)
    (hk : ∀ draft, Draft.Kept draft (edit draft))
    (hn : (edit ⟨stream.objects ref, stream.calls⟩).message.nodes = nodes ++ [node])
    (hcarries : ∃ event, Carries event stream.activeAgentProfile node ∧
      (first.node_id ≠ [] ∧ trim first.node_id = first.node_id ∨
        trim (event.ownerFieldsFromEvent.ownerStreamKey.getD []) =
          trim (first.ownerFieldsFromEvent.ownerStreamKey.getD [])))
    (hid : first.node_id ≠ [] → node.id = first.node_id)
    (hothers : first.node_id ≠ [] → ∀ n ∈ nodes,
      ¬(trim n.id = first.node_id ∧ n.kind = .narrative ∧ n.role = some .assistant ∧ n.finalized = false)) :
    ((stream.editCurrent ref edit).upsertCurrentAiMessage ref).Streams first ref nodes node := by
  have hkept := hk ⟨stream.objects ref, stream.calls⟩
  have hlisted := found_editCurrent he hk
  refine ⟨by simp [editCurrent], ⟨?bound, ?id, ?found⟩, hlisted, by simpa using hn, ?carries, hid, hothers⟩
  case bound =>
    rw [objects_upsertCurrentAiMessage, objects_editCurrent_self, hkept.runId]
    exact he.bound
  case id =>
    intro hb
    rw [objects_upsertCurrentAiMessage, objects_editCurrent_self, hkept.id]
    exact he.id hb
  case found =>
    intro r hr
    by_cases hb : trim first.message_id = []
    case pos => simp [findMessageById_none hb] at hr
    case neg => exact Option.some.inj (hr.symm.trans (hlisted hb))
  case carries => simpa [editCurrent, modify] using hcarries

theorem Ensured.of_continues (h : Ensured stream ref event) (hc : Continues options first event) :
    Ensured stream ref first := by
  have ⟨hbound, hid, hfound⟩ := h
  rw [hc.run] at hbound
  rw [hc.message] at hid hfound
  exact ⟨hbound, hid, hfound⟩

-- The shown text of the nodes before the stream's own, with a text after it if the stream is shown
def shownWith (nodes : List Node) (event : UiEvent) (text : Text) : Text :=
  (nodes.filter (·.narrates)).flatMap (·.text) ++ if event.eventDisplayInMessage then text else []

theorem derive_carries {message : Message} {profile : AgentProfile} (h : message.nodes = nodes ++ [node])
    (hcarries : Carries event profile node) :
    message.deriveNarrativeContentFromNodes = shownWith nodes event node.text := by
  rw [derive_concat message nodes node h, hcarries.narrates_eq, shownWith]

-- The first chunk
theorem streams_first (hc : Continues options first first) (ho : stream.Opens options first) :
    ∃ node, (stream.applyRealtimeEventToMessages options first).Streams first (stream.ensureCurrent options first).2
        (stream.opened options first).message.nodes node ∧
      node.finalized = first.finalized ∧ node.text = first.data.snapshot.getD first.content ∧
      ((stream.applyRealtimeEventToMessages options first).objects (stream.ensureCurrent options first).2).content =
        if first.data.snapshot.isSome ∨ first.eventDisplayInMessage = false then
          shownWith (stream.opened options first).message.nodes first node.text
        else (stream.opened options first).message.content ++ first.content := by
  let draft := stream.opened options first
  have hwrite : draft.streaming.writeText options first stream.activeAgentProfile =
      draft.streaming.insertText options first stream.activeAgentProfile := by
    have hnone : draft.streaming.narrativeIndex first stream.activeAgentProfile = none := ho.narrative
    rw [Draft.writeText, hnone]
  have hnodes := insertText_nodes stream.activeAgentProfile draft.streaming ho.fresh
  have hcontent := insertText_content stream.activeAgentProfile draft.streaming ho.fresh
  have hcarries := carries_textNode stream.activeAgentProfile first (draft.nodeId options first.node_id)
  refine ⟨{ textNode first stream.activeAgentProfile Node.empty with id := draft.nodeId options first.node_id },
    ?streams, rfl, rfl, ?content⟩
  case streams =>
    rw [apply_chunk hc]
    apply streams_editCurrent (ensured_ensureCurrent stream options first)
    case hk => exact fun draft => (kept_streaming draft).trans (kept_writeText ..)
    case hn => exact (congrArg (·.message.nodes) hwrite).trans hnodes
    case hcarries => exact ⟨first, by simpa using hcarries, hc.stream⟩
    case hid =>
      intro hne
      exact if_pos hne
    case hothers =>
      intro hne n hn hexplicit
      have hnone := ho.narrative
      unfold Draft.narrativeIndex explicitIndex at hnone
      simp only [hne, if_false, Option.orElse_eq_none] at hnone
      have hall := List.findIdx?_eq_none_iff.mp hnone.1 n hn
      simp [isExplicit, hexplicit] at hall
  case content =>
    rw [apply_chunk hc, objects_upsertCurrentAiMessage, objects_editCurrent_self]
    rw [derive_carries hnodes hcarries] at hcontent
    exact (congrArg (·.message.content) hwrite).trans hcontent

-- A later chunk
theorem streams_next (h : stream.Streams first ref nodes node) (hc : Continues options first event)
    (hopen : node.finalized = false) :
    ∃ next, (stream.applyRealtimeEventToMessages options event).Streams first ref nodes next ∧
      next.finalized = event.finalized ∧
      (event.data.snapshot = none →
        next.text = node.text ++ computeStreamingSuffix node.text event.content ∧
        ((stream.applyRealtimeEventToMessages options event).objects ref).content =
          (stream.objects ref).content ++ computeStreamingSuffix node.text event.content) ∧
      ∀ snapshot, event.data.snapshot = some snapshot → next.text = snapshot ∧
        ((stream.applyRealtimeEventToMessages options event).objects ref).content =
          shownWith nodes event snapshot := by
  obtain ⟨f, hensured, hkeeps⟩ := h.ensureCurrent hc
  let draft : Draft := ⟨(stream.modify ref f).objects ref, (stream.modify ref f).calls⟩
  have hn : draft.streaming.message.nodes = nodes ++ [node] := by
    simpa [draft, Draft.streaming, Draft.modify, modify] using (hkeeps (stream.objects ref)).1.trans h.written
  have hcontent : draft.streaming.message.content = (stream.objects ref).content := by
    simpa [draft, Draft.streaming, Draft.modify, modify] using (hkeeps (stream.objects ref)).2
  have hwrite : draft.streaming.writeText options event stream.activeAgentProfile =
      draft.streaming.mergeText event nodes.length := by
    rw [Draft.writeText, h.narrativeIndex hc hopen hn]
  obtain ⟨last, hcarries, _⟩ := h.carries
  have hstep : ∀ content : Option Text, (draft.streaming.mergeText event nodes.length).message.nodes =
      nodes ++ [{ ownText event node with content := content }] →
      (stream.applyRealtimeEventToMessages options event).Streams first ref nodes
        { ownText event node with content := content } := by
    intro content hnodes
    rw [apply_chunk hc, hensured]
    apply streams_editCurrent
    case he =>
      have he := ensured_ensureCurrent stream options event
      rw [hensured] at he
      exact he.of_continues hc
    case hk => exact fun draft => (kept_streaming draft).trans (kept_writeText ..)
    case hn => exact (congrArg (·.message.nodes) hwrite).trans hnodes
    case hcarries => exact ⟨event, carries_ownText hcarries content, hc.stream⟩
    case hid => exact h.id
    case hothers => exact h.others
  have hafter : ((stream.applyRealtimeEventToMessages options event).objects ref).content =
      (draft.streaming.mergeText event nodes.length).message.content := by
    rw [apply_chunk hc, hensured, objects_upsertCurrentAiMessage, objects_editCurrent_self]
    exact congrArg (·.message.content) hwrite
  cases hs : event.data.snapshot
  case none =>
    obtain ⟨content, hnodes, htext, hmessage⟩ := mergeText_delta hn hs
    rw [hcontent] at hmessage
    exact ⟨_, hstep content hnodes, rfl, fun _ => ⟨htext, hafter.trans hmessage⟩, by simp⟩
  case some snapshot =>
    obtain ⟨hnodes, hmessage⟩ := mergeText_snapshot hn hs
    rw [derive_carries hnodes (carries_ownText hcarries _)] at hmessage
    refine ⟨_, hstep _ hnodes, rfl, by simp, ?_⟩
    intro _ heq
    cases heq
    exact ⟨rfl, hafter.trans hmessage⟩

-- The chunks that follow `previous`, of which only the last may be final
structure Follow (options : LifecycleOptions) (first previous : UiEvent) (events : List UiEvent) : Prop where
  continues : ∀ e ∈ events, Continues options first e
  unfinal   : ∀ e ∈ (previous :: events).dropLast, e.finalized = false

theorem Follow.unfold {previous : UiEvent} {events : List UiEvent}
    (h : Follow options first previous (event :: events)) :
    Continues options first event ∧ previous.finalized = false ∧ Follow options first event events := by
  refine ⟨h.continues event (List.mem_cons_self ..), h.unfinal previous (List.mem_cons_self ..), ?_, ?_⟩
  case refine_1 => exact fun e he => h.continues e (List.mem_cons_of_mem _ he)
  case refine_2 => exact fun e he => h.unfinal e (List.mem_cons_of_mem _ he)

theorem streams_deltas {previous : UiEvent} (events : List UiEvent) (h : stream.Streams first ref nodes node)
    (hf : Follow options first previous events) (hopen : node.finalized = previous.finalized)
    (hs : ∀ e ∈ events, e.data.snapshot = none) :
    ∃ next tail, (stream.applyAll options events).Streams first ref nodes next ∧
      next.text = streamed node.text (events.map (·.content)) ∧ next.text = node.text ++ tail ∧
      ((stream.applyAll options events).objects ref).content = (stream.objects ref).content ++ tail := by
  induction events generalizing stream previous node
  case nil => exact ⟨node, [], h, rfl, by simp, by simp [applyAll]⟩
  case cons event events hi =>
    have ⟨hc, hp, hf⟩ := hf.unfold
    have ⟨next, hnext, hfinal, hdelta, _⟩ := streams_next h hc (hopen.trans hp)
    have ⟨htext, hcontent⟩ := hdelta (hs event (List.mem_cons_self ..))
    have ⟨last, tail, hlast, hstreamed, htail, hmessage⟩ :=
      hi hnext hf hfinal fun e he => hs e (List.mem_cons_of_mem _ he)
    refine ⟨last, computeStreamingSuffix node.text event.content ++ tail, hlast, ?_, ?_, ?_⟩
    case refine_1 => simpa [streamed, htext] using hstreamed
    case refine_2 => rw [htail, htext, List.append_assoc]
    case refine_3 =>
      rw [← List.append_assoc, ← hcontent]
      exact hmessage

-- Each event carries the whole text so far, and the last one `text`.
def Grows : Text → List UiEvent → Text → Prop
  | sofar, [], text            => text = sofar
  | sofar, event :: events, text =>
    ∃ snapshot, event.data.snapshot = some snapshot ∧ sofar <+: snapshot ∧ Grows snapshot events text

theorem shownWith_of_continues (hc : Continues options first event) (text : Text) :
    shownWith nodes event text = shownWith nodes first text := by
  rw [shownWith, shownWith, hc.shown]

theorem streams_snapshots {previous : UiEvent} {text : Text} (events : List UiEvent)
    (h : stream.Streams first ref nodes node) (hf : Follow options first previous events)
    (hopen : node.finalized = previous.finalized) (hg : Grows node.text events text)
    (hm : (stream.objects ref).content = shownWith nodes first node.text) :
    ∃ next, (stream.applyAll options events).Streams first ref nodes next ∧ next.text = text ∧
      ((stream.applyAll options events).objects ref).content = shownWith nodes first text := by
  induction events generalizing stream previous node
  case nil =>
    cases hg
    exact ⟨node, h, rfl, hm⟩
  case cons event events hi =>
    have ⟨hc, hp, hf⟩ := hf.unfold
    have ⟨next, hnext, hfinal, _, hsnapshot⟩ := streams_next h hc (hopen.trans hp)
    have ⟨snapshot, hs, _, hg⟩ := hg
    have ⟨htext, hcontent⟩ := hsnapshot snapshot hs
    rw [shownWith_of_continues hc, ← htext] at hcontent
    exact hi hnext hf hfinal (htext ▸ hg) hcontent

-- The message of the stream has one more node, a narrative node with the text, and `text` at the end of its content.
def Delivered (stream : Stream) (options : LifecycleOptions) (first : UiEvent) (events : List UiEvent)
    (text : Text) : Prop :=
  let message := (stream.opened options first).message
  let ref := (stream.ensureCurrent options first).2
  let after := stream.applyAll options (first :: events)
  after.currentAiMsg = some ref ∧ (after.objects ref).content = message.content ++ text ∧
  ∃ node, (after.objects ref).nodes = message.nodes ++ [node] ∧ node.kind = .narrative ∧ node.text = text

theorem Streams.shown_iff {text : Text} {events : List UiEvent}
    (h : (stream.applyAll options (first :: events)).Streams first (stream.ensureCurrent options first).2
      (stream.opened options first).message.nodes node) :
    stream.Delivered options first events text ↔ node.text = text ∧
      ((stream.applyAll options (first :: events)).objects (stream.ensureCurrent options first).2).content =
        (stream.opened options first).message.content ++ text := by
  constructor
  case mp =>
    rintro ⟨_, hcontent, other, hnodes, _, htext⟩
    have heq : [node] = [other] := List.append_cancel_left (h.written.symm.trans hnodes)
    cases heq
    exact ⟨htext, hcontent⟩
  case mpr =>
    rintro ⟨htext, hcontent⟩
    have ⟨_, hcarries, _⟩ := h.carries
    exact ⟨h.current, hcontent, node, h.written, hcarries.kind, htext⟩

-- Deltas deliver their text if and only if no chunk looks like a repetition of the text before it; growing snapshots
-- deliver it if and only if the message had no other text than that of its nodes. (A stream that is not shown also
-- sets the content to the text of the shown nodes.)
theorem delivered_iff (stream : Stream) (options : LifecycleOptions) (first : UiEvent) (events : List UiEvent)
    (hc : Continues options first first) (hf : Follow options first first events) (ho : stream.Opens options first) :
    let message := (stream.opened options first).message
    ((∀ e ∈ first :: events, e.data.snapshot = none) →
      (stream.Delivered options first events ((first :: events).map (·.content)).flatten ↔
        NoRepeats first.content (events.map (·.content)) ∧ (first.eventDisplayInMessage = false →
          message.deriveNarrativeContentFromNodes = message.content ++ first.content))) ∧
    ∀ text, Grows [] (first :: events) text →
      (stream.Delivered options first events text ↔
        message.deriveNarrativeContentFromNodes =
          message.content ++ if first.eventDisplayInMessage then [] else text) := by
  intro message
  have ⟨node, hstreams, hfinal, htext, hcontent⟩ := streams_first hc ho
  have hshown (text : Text) : shownWith message.nodes first text =
      message.deriveNarrativeContentFromNodes ++ if first.eventDisplayInMessage then text else [] := rfl
  rw [hshown] at hcontent
  constructor
  case left =>
    intro hs
    rw [hs first (List.mem_cons_self ..)] at htext hcontent
    have ⟨last, tail, hlast, hstreamed, htail, hmessage⟩ :=
      streams_deltas events hstreams hf hfinal fun e he => hs e (List.mem_cons_of_mem _ he)
    rw [hlast.shown_iff, List.map_cons, List.flatten_cons]
    have hrepeats : last.text = first.content ++ (events.map (·.content)).flatten ↔
        NoRepeats first.content (events.map (·.content)) := by
      rw [hstreamed, htext]
      exact streamed_eq_iff _
    rw [← hrepeats]
    apply and_congr_right
    intro hlast
    have htail : tail = (events.map (·.content)).flatten := by
      rw [hlast, htext] at htail
      exact (List.append_cancel_left htail).symm
    have hafter : ((stream.applyAll options (first :: events)).objects (stream.ensureCurrent options first).2).content =
        _ ++ tail := hmessage
    rw [hafter, hcontent, ← htail, ← List.append_assoc, List.append_left_inj]
    cases first.eventDisplayInMessage <;> simp [message]
  case right =>
    intro text ⟨snapshot, hs, _, hg⟩
    rw [hs] at htext hcontent
    have hgrows : Grows node.text events text := htext ▸ hg
    have hmessage : ((stream.applyRealtimeEventToMessages options first).objects
        (stream.ensureCurrent options first).2).content = shownWith message.nodes first node.text := by
      simpa [hshown] using hcontent
    have ⟨last, hlast, hlasttext, hafter⟩ := streams_snapshots events hstreams hf hfinal hgrows hmessage
    have hafter : ((stream.applyAll options (first :: events)).objects (stream.ensureCurrent options first).2).content =
        shownWith message.nodes first text := hafter
    rw [hlast.shown_iff, hafter, hshown]
    cases first.eventDisplayInMessage
    case false => simp [hlasttext, message]
    case true => simp [hlasttext, message]

-- A stream that has no message yet, and a delta of the run `r`
def emptyStream : Stream :=
  listing (fun _ => streamingMessage) [] none

def delta (content : String) : UiEvent :=
  { type := .text_chunk, content := text content, run_id := text "r", node_id := text "n",
    targets := [text "message"] }

theorem continues_delta (content later : String) : Continues numberedOptions (delta content) (delta later) where
  type     := rfl
  applied  := by rfl
  run      := rfl
  message  := rfl
  node     := rfl
  stream   := .inr rfl
  shown    := rfl
  artifact := rfl
  replaced := rfl

theorem delivered_sample : emptyStream.Delivered numberedOptions (delta "Hell") [delta "o"] (text "Hello") := by
  have hf : Follow numberedOptions (delta "Hell") (delta "Hell") [delta "o"] := by
    constructor
    case continues =>
      intro e he
      cases List.mem_singleton.mp he
      exact continues_delta "Hell" "o"
    case unfinal =>
      intro e he
      cases List.mem_singleton.mp he
      rfl
  have ho : emptyStream.Opens numberedOptions (delta "Hell") := by
    have hnodes : (emptyStream.opened numberedOptions (delta "Hell")).message.nodes = [] := rfl
    exact ⟨rfl, by simp [hnodes]⟩
  have hdelta : ∀ e ∈ [delta "Hell", delta "o"], e.data.snapshot = none := by
    intro e he
    simp only [List.mem_cons, List.not_mem_nil, or_false] at he
    cases he <;> subst_vars <;> rfl
  have hiff := delivered_iff emptyStream numberedOptions (delta "Hell") [delta "o"] (continues_delta _ _) hf ho
  apply (hiff.1 hdelta).mpr
  refine ⟨⟨computeStreamingSuffix_eq_self_iff.mp ?_, trivial⟩, ?_⟩
  case refine_1 => decide
  case refine_2 => decide

-- The `l` of the second chunk is taken for the one at the end of the first.
theorem delivered_fails : ¬emptyStream.Delivered numberedOptions (delta "Hel") [delta "lo"] (text "Hello") := by
  rintro ⟨_, hcontent, _⟩
  exact absurd hcontent (by decide)

end Stream
end SessionRealtime
