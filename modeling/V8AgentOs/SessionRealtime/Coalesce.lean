import V8AgentOs.SessionRealtime.Absorb

-- session-realtime/src/cdc.ts: the queue of the events that wait for a flush
namespace SessionRealtime

open Script

namespace UiEvent

variable (event : UiEvent)

-- `streamIdentity`
def streamIdentity : Text :=
  trim (firstTruthy [event.node_id, event.data.ownerStreamKey.getD [], event.data.owner_stream_key.getD []])

def snapshotStreamCoalesceKey : Text :=
  let key (type : String) := text type ++ text ":" ++ trim event.run_id ++ text ":" ++ event.streamIdentity
  if event.data.snapshot.isNone ∨ event.streamIdentity = [] then []
  else match event.type with
    | .text_chunk      => key "text_chunk"
    | .reasoning_chunk => key "reasoning_chunk"
    | _                => []

-- The event takes the place of `last`.
def collapses (last event : UiEvent) : Bool :=
  event.snapshotStreamCoalesceKey ≠ [] && last.snapshotStreamCoalesceKey = event.snapshotStreamCoalesceKey

end UiEvent

-- `state.pendingRuntimeEvents` after the call
def queueSessionRealtimeRuntimeEvent (options : LifecycleOptions) (pending : List UiEvent) (event : UiEvent) :
    List UiEvent :=
  if !shouldApplyRuntimeEventToMessage options event then pending
  else if pending.getLast?.any (·.collapses event) then pending.dropLast ++ [event]
  else pending ++ [event]

def queueAll (options : LifecycleOptions) (pending events : List UiEvent) : List UiEvent :=
  events.foldl (queueSessionRealtimeRuntimeEvent options) pending

namespace Stream

variable (stream : Stream) (options : LifecycleOptions)

-- `defaultCloneMessages`. The current message is not cloned.
def cloneMessages : Stream :=
  { stream with
    objects       := fun ref =>
      if ref < stream.newRef then stream.objects ref
      else stream.messages.getD (ref - stream.newRef) (stream.objects ref)
    localMessages := (List.range stream.localMessages.length).map (stream.newRef + ·) }

def flushQueuedSessionRealtimeRuntimeEvents (pending : List UiEvent) : Stream :=
  if pending = [] then stream else stream.cloneMessages.applyAll options pending

variable {stream options} {event earlier later : UiEvent} {ref : ℕ}

@[simp] theorem messages_cloneMessages : stream.cloneMessages.messages = stream.messages := by
  apply List.ext_getElem
  case hl => simp [messages, cloneMessages]
  case h =>
    intro i hi hi'
    simp only [messages, cloneMessages, List.getElem_map, List.getElem_range]
    rw [if_neg (by omega), Nat.add_sub_cancel_left, List.getD_eq_getElem?_getD, List.getElem?_map]
    have hlt : i < stream.localMessages.length := by simpa [messages] using hi'
    simp [List.getElem?_eq_getElem hlt]

-- The message of an event depends on the event's run and message only.
theorem ensureCurrent_congr (hrun : later.run_id = earlier.run_id) (hmessage : later.message_id = earlier.message_id) :
    stream.ensureCurrent options later = stream.ensureCurrent options earlier := by
  unfold ensureCurrent resolveRun bind pushAssistant
  rw [hrun, hmessage]

-- The names that `ensureAssistantIdentity` fills in
def Identified (profile : AgentProfile) : Prop :=
  profile.agentName.getD [] ≠ [] ∧ profile.agentAvatar.getD [] ≠ [] ∧ profile.agentRoleLabel.getD [] ≠ []

theorem firstTruthy_ne_nil {values : List Text} {value : Text} (hv : value ∈ values) (h : value ≠ []) :
    firstTruthy values ≠ [] := by
  unfold firstTruthy
  cases hf : values.find? (· ≠ [])
  case none => exact absurd (List.find?_eq_none.mp hf value hv) (by simp [h])
  case some found => simpa using List.find?_some hf

theorem identityField_ne_nil {own given : Option Text} {fallback : Text} (h : fallback ≠ []) :
    (Message.identityField false own given fallback).getD [] ≠ [] := by
  unfold Message.identityField
  by_cases hown : own.getD [] = []
  case pos => simpa [hown] using firstTruthy_ne_nil (by simp) h
  case neg => simp [hown]

theorem identified_bind (event : UiEvent) (m : Message) : Identified (stream.bind event m).toAgentProfile :=
  ⟨identityField_ne_nil (by decide), identityField_ne_nil (by decide), identityField_ne_nil (by decide)⟩

theorem bind_eq_self {m : Message} (hrun : event.run_id = [] ∨ m.runId = event.run_id)
    (hm : Identified m.toAgentProfile) : stream.bind event m = m := by
  have ⟨hname, havatar, hrole⟩ := hm
  have hid : (if event.run_id = [] then m.runId else event.run_id) = m.runId := by
    split_ifs with hb
    case pos => rfl
    case neg => exact (hrun.resolve_left hb).symm
  unfold bind Message.ensureAssistantIdentity Message.identityField
  simp only [hid, Bool.false_eq_true, false_or, hname, havatar, hrole, if_false]

-- The message that the event finds or makes has its names, and the event's message id even if that one is blank.
theorem identified_ensureCurrent (stream : Stream) (options : LifecycleOptions) (event : UiEvent) :
    Identified
      ((stream.ensureCurrent options event).1.objects (stream.ensureCurrent options event).2).toAgentProfile ∧
    (event.message_id ≠ [] → trim event.message_id = [] →
      ((stream.ensureCurrent options event).1.objects (stream.ensureCurrent options event).2).id =
        event.message_id) := by
  unfold ensureCurrent
  split
  case h_1 ref href =>
    constructor
    case left => simpa [modify] using identified_bind event _
    case right =>
      intro _ hb
      simp [findMessageById_none hb] at href
  case h_2 =>
    dsimp only
    split
    all_goals
      constructor
      case left => simpa [modify] using identified_bind event _
      case right =>
        intro hid _
        simp [modify, hid]

-- The list after `upsertCurrentAiMessage`
def placed (ids : ℕ → Text) (ref : ℕ) (refs : List ℕ) : List ℕ :=
  match refs.findIdx? fun r => ids r = ids ref with
  | some index => refs.set index ref
  | none       => refs ++ [ref]

theorem upsertCurrentAiMessage_eq (stream : Stream) (ref : ℕ) : stream.upsertCurrentAiMessage ref =
    { stream with localMessages := placed (fun r => (stream.objects r).id) ref stream.localMessages } := by
  unfold upsertCurrentAiMessage placed
  cases stream.localMessages.findIdx? fun r => (stream.objects r).id = (stream.objects ref).id <;> rfl

theorem placed_placed (ids : ℕ → Text) (ref : ℕ) (refs : List ℕ) :
    placed ids ref (placed ids ref refs) = placed ids ref refs := by
  unfold placed
  cases h : refs.findIdx? fun r => ids r = ids ref
  case none => simp [List.findIdx?_append, h, List.findIdx?_cons]
  case some i =>
    have ⟨hlt, _, hbefore⟩ := List.findIdx?_eq_some_iff_getElem.mp h
    have hagain : (refs.set i ref).findIdx? (fun r => ids r = ids ref) = some i := by
      apply List.findIdx?_eq_some_iff_getElem.mpr
      refine ⟨by simpa using hlt, by simp, ?_⟩
      intro j hj
      rw [List.getElem_set_ne (by omega)]
      exact hbefore j hj
    dsimp only
    rw [hagain]
    exact List.set_set ..

-- The event's message is edited, and is the current one from then on.
def written (stream : Stream) (options : LifecycleOptions) (event : UiEvent) (edit : Draft → Draft) : Stream :=
  let ensured := stream.ensureCurrent options event
  (ensured.1.editCurrent ensured.2 edit).upsertCurrentAiMessage ensured.2

-- An event of the same run and message finds the message as it is.
theorem ensureCurrent_written (stream : Stream) (options : LifecycleOptions) (event : UiEvent)
    {edit : Draft → Draft} (hkept : ∀ draft, Draft.Kept draft (edit draft))
    (hprofile : ∀ draft, (edit draft).message.toAgentProfile = draft.message.toAgentProfile) :
    (stream.written options event edit).ensureCurrent options event =
      (stream.written options event edit, (stream.ensureCurrent options event).2) := by
  have hensured := ensured_ensureCurrent stream options event
  have hidentified := identified_ensureCurrent stream options event
  unfold written
  generalize stream.ensureCurrent options event = ensured at *
  generalize hafter : (ensured.1.editCurrent ensured.2 edit).upsertCurrentAiMessage ensured.2 = after
  have hobject : after.objects ensured.2 = (edit ⟨ensured.1.objects ensured.2, ensured.1.calls⟩).message := by
    simp [← hafter]
  have hk := hkept ⟨ensured.1.objects ensured.2, ensured.1.calls⟩
  have hcurrent : after.currentAiMsg = some ensured.2 := by simp [← hafter, editCurrent]
  have hrun : event.run_id = [] ∨ (after.objects ensured.2).runId = event.run_id := by
    rw [hobject, hk.runId]
    exact hensured.bound
  have hsame : after.bind event (after.objects ensured.2) = after.objects ensured.2 := by
    apply bind_eq_self hrun
    rw [hobject, hprofile]
    exact hidentified.1
  have hself (f : Message → Message) (hf : f (after.objects ensured.2) = after.objects ensured.2) :
      after.modify ensured.2 f = after := by
    unfold modify
    rw [hf, Function.update_eq_self]
  unfold ensureCurrent
  by_cases hb : trim event.message_id = []
  case pos =>
    have hresolve : after.resolveRun event = some ensured.2 := by
      unfold resolveRun
      rw [if_pos (by simpa [hcurrent] using hrun), hcurrent]
    rw [findMessageById_none hb, hresolve]
    dsimp only
    rw [hself]
    have hid : (if event.message_id = [] then (after.objects ensured.2).id else event.message_id) =
        (after.objects ensured.2).id := by
      split_ifs with hid
      case pos => rfl
      case neg =>
        rw [hobject, hk.id]
        exact (hidentified.2 hid hb).symm
    rw [hsame, hid]
  case neg =>
    have hfound := found_editCurrent hensured hkept hb
    rw [hafter] at hfound
    rw [hfound]
    dsimp only
    rw [hself _ hsame]

theorem ids_editCurrent {edit : Draft → Draft} (hkept : ∀ draft, Draft.Kept draft (edit draft)) :
    (fun r => ((stream.editCurrent ref edit).objects r).id) = fun r => (stream.objects r).id := by
  funext r
  by_cases hr : r = ref
  case pos => rw [hr, objects_editCurrent_self, (hkept _).id]
  case neg => simp [editCurrent, modify, hr]

-- Two edits of one message, the second of which makes the first superfluous
theorem editCurrent_editCurrent {edit edit' : Draft → Draft} (hkept : ∀ draft, Draft.Kept draft (edit draft))
    (hkept' : ∀ draft, Draft.Kept draft (edit' draft))
    (h : edit' (edit ⟨stream.objects ref, stream.calls⟩) = edit' ⟨stream.objects ref, stream.calls⟩) :
    (((stream.editCurrent ref edit).upsertCurrentAiMessage ref).editCurrent ref edit').upsertCurrentAiMessage ref =
      (stream.editCurrent ref edit').upsertCurrentAiMessage ref := by
  have hedit (refs : List ℕ) : { stream.editCurrent ref edit with localMessages := refs }.editCurrent ref edit' =
      { stream.editCurrent ref edit' with localMessages := refs } := by
    simp [editCurrent, modify, h]
  have hlist : (stream.editCurrent ref edit).localMessages = (stream.editCurrent ref edit').localMessages := rfl
  rw [upsertCurrentAiMessage_eq (stream.editCurrent ref edit) ref, hedit, upsertCurrentAiMessage_eq,
    upsertCurrentAiMessage_eq, ids_editCurrent hkept]
  dsimp only
  rw [ids_editCurrent hkept', placed_placed, hlist]

-- If the later edit makes the earlier one superfluous for the message, so does the later event for the messages.
theorem written_written {edit edit' : Draft → Draft} (hrun : later.run_id = earlier.run_id)
    (hmessage : later.message_id = earlier.message_id) (hkept : ∀ draft, Draft.Kept draft (edit draft))
    (hkept' : ∀ draft, Draft.Kept draft (edit' draft))
    (hprofile : ∀ draft, (edit draft).message.toAgentProfile = draft.message.toAgentProfile)
    (h : edit' (edit (stream.opened options earlier)) = edit' (stream.opened options earlier)) :
    (stream.written options earlier edit).written options later edit' = stream.written options later edit' := by
  have hagain := ensureCurrent_written stream options earlier hkept hprofile
  unfold written at hagain ⊢
  rw [ensureCurrent_congr hrun hmessage, ensureCurrent_congr hrun hmessage, hagain]
  exact editCurrent_editCurrent hkept hkept' h

@[simp] theorem activeAgentProfile_written {edit : Draft → Draft} :
    (stream.written options event edit).activeAgentProfile = stream.activeAgentProfile := by
  simp [written, editCurrent, modify]

theorem apply_text (ha : shouldApplyRuntimeEventToMessage options event) (ht : event.type = .text_chunk) :
    stream.applyRealtimeEventToMessages options event =
      stream.written options event (Draft.textChunk options event stream.activeAgentProfile) := by
  simp [applyRealtimeEventToMessages, skips, ha, ht, editOf, write, profileOf, written]

theorem apply_reasoning (ha : shouldApplyRuntimeEventToMessage options event) (ht : event.type = .reasoning_chunk) :
    stream.applyRealtimeEventToMessages options event =
      stream.written options event (Draft.reasoningChunk options event stream.activeAgentProfile) := by
  simp [applyRealtimeEventToMessages, skips, ha, ht, editOf, write, profileOf, written]

-- The later event belongs to the same run and message, and makes the earlier one superfluous there.
structure Absorbs (stream : Stream) (options : LifecycleOptions) (earlier later : UiEvent) : Prop where
  run     : later.run_id = earlier.run_id
  message : later.message_id = earlier.message_id
  draft   : (stream.opened options earlier).Absorbs options stream.activeAgentProfile earlier later

-- A key tells whether it is one of a text or of a piece of reasoning.
theorem type_of_key (h : event.snapshotStreamCoalesceKey ≠ []) : event.data.snapshot.isSome ∧
    (event.type = .text_chunk ∧ event.snapshotStreamCoalesceKey.head? = (text "t").head? ∨
      event.type = .reasoning_chunk ∧ event.snapshotStreamCoalesceKey.head? = (text "r").head?) := by
  unfold UiEvent.snapshotStreamCoalesceKey at h ⊢
  dsimp only at h ⊢
  split_ifs at h ⊢ with hno
  case pos => exact absurd rfl h
  case neg =>
    constructor
    case left =>
      cases hs : event.data.snapshot
      case none => exact absurd (.inl (by simp [hs])) hno
      case some => rfl
    case right =>
      cases ht : event.type <;> rw [ht] at h
      case text_chunk => exact .inl ⟨rfl, rfl⟩
      case reasoning_chunk => exact .inr ⟨rfl, rfl⟩
      all_goals exact absurd rfl h

theorem snapshot_of_collapses (h : earlier.collapses later) :
    earlier.data.snapshot.isSome ∧ later.type = earlier.type := by
  unfold UiEvent.collapses at h
  simp only [Bool.and_eq_true, decide_eq_true_eq] at h
  have ⟨hne, heq⟩ := h
  have ⟨hs, hearlier⟩ := type_of_key (heq ▸ hne)
  have ⟨_, hlater⟩ := type_of_key hne
  rw [heq] at hearlier
  refine ⟨hs, ?_⟩
  rcases hearlier with ⟨ht, hhead⟩ | ⟨ht, hhead⟩ <;> rcases hlater with ⟨ht', hhead'⟩ | ⟨ht', hhead'⟩
  case inl.inl => rw [ht, ht']
  case inr.inr => rw [ht, ht']
  case inl.inr => exact absurd (hhead.symm.trans hhead') (by decide)
  case inr.inl => exact absurd (hhead.symm.trans hhead') (by decide)

theorem profile_textChunk (hartifact : event.artifact = none) (profile : AgentProfile) (draft : Draft) :
    (draft.textChunk options event profile).message.toAgentProfile = draft.message.toAgentProfile := by
  rw [Draft.textChunk_of_artifact hartifact]
  have ⟨_, _, h⟩ := (Draft.rewritten_replaceSegments event draft.streaming).trans
    (Draft.rewritten_writeText options event profile _)
  rw [h]
  rfl

theorem profile_reasoningChunk (profile : AgentProfile) (draft : Draft) :
    (draft.reasoningChunk options event profile).message.toAgentProfile = draft.message.toAgentProfile := by
  have ⟨_, h⟩ := Draft.nodes_writeReasoning options event profile (draft.modify (·.working))
  unfold Draft.reasoningChunk
  rw [h]
  rfl

theorem apply_apply (ha' : shouldApplyRuntimeEventToMessage options later) (hc : earlier.collapses later)
    (h : stream.Absorbs options earlier later) :
    (stream.applyRealtimeEventToMessages options earlier).applyRealtimeEventToMessages options later =
      stream.applyRealtimeEventToMessages options later := by
  by_cases ha : shouldApplyRuntimeEventToMessage options earlier
  case neg =>
    have hskip : stream.applyRealtimeEventToMessages options earlier = stream := by
      simp [applyRealtimeEventToMessages, skips, ha]
    rw [hskip]
  case pos =>
    have ⟨hs, htype⟩ := snapshot_of_collapses hc
    have hdraft := h.draft
    have htext (ht : earlier.type = .text_chunk) (hartifact : earlier.artifact = none) :
        (stream.applyRealtimeEventToMessages options earlier).applyRealtimeEventToMessages options later =
          stream.applyRealtimeEventToMessages options later := by
      rw [apply_text ha ht, apply_text ha' (htype.trans ht), apply_text ha' (htype.trans ht),
        activeAgentProfile_written]
      apply written_written h.run h.message
      case hkept => exact fun draft => Draft.kept_textChunk ..
      case hkept' => exact fun draft => Draft.kept_textChunk ..
      case hprofile => exact profile_textChunk hartifact _
      case h => exact Draft.textChunk_textChunk hdraft ht hs
    cases hdraft
    case text ht _ hartifact _ _ _ => exact htext ht hartifact
    case replaced ht hartifact _ _ _ _ => exact htext ht hartifact
    case reasoning ht _ _ =>
      rw [apply_reasoning ha ht, apply_reasoning ha' (htype.trans ht), apply_reasoning ha' (htype.trans ht),
        activeAgentProfile_written]
      apply written_written h.run h.message
      case hkept => exact fun draft => Draft.kept_reasoningChunk ..
      case hkept' => exact fun draft => Draft.kept_reasoningChunk ..
      case hprofile => exact profile_reasoningChunk _
      case h => exact Draft.reasoningChunk_reasoningChunk h.draft ht

-- The events that are left of a sequence of events that are queued
def coalesced : List UiEvent → List UiEvent
  | earlier :: later :: events =>
    if earlier.collapses later then coalesced (later :: events) else earlier :: coalesced (later :: events)
  | events                     => events

-- Each event whose place is taken is superfluous, in the state that the events before its burst lead to.
def Smooth (options : LifecycleOptions) : Stream → List UiEvent → Prop
  | stream, earlier :: later :: events =>
    if earlier.collapses later then stream.Absorbs options earlier later ∧ Smooth options stream (later :: events)
    else Smooth options (stream.applyRealtimeEventToMessages options earlier) (later :: events)
  | _, _                               => True

theorem queueAll_eq (options : LifecycleOptions) (pending events : List UiEvent) : queueAll options pending events =
    pending.dropLast ++
      coalesced (pending.getLast?.toList ++ events.filter (shouldApplyRuntimeEventToMessage options)) := by
  induction events generalizing pending
  case nil => cases hp : pending.getLast? <;> simp_all [queueAll, coalesced, List.dropLast_append_getLast?]
  case cons event events hi =>
    have hstep : queueAll options pending (event :: events) =
        queueAll options (queueSessionRealtimeRuntimeEvent options pending event) events := rfl
    rw [hstep, hi]
    unfold queueSessionRealtimeRuntimeEvent
    by_cases ha : shouldApplyRuntimeEventToMessage options event
    case neg => simp [ha]
    case pos =>
      cases hp : pending.getLast?
      case none => simp [ha, List.getLast?_eq_none_iff.mp hp]
      case some last =>
        have hsplit := List.dropLast_append_getLast? last hp
        by_cases hc : last.collapses event
        case pos => simp [ha, hc, coalesced]
        case neg =>
          have hlist : pending ++ coalesced (event :: events.filter (shouldApplyRuntimeEventToMessage options)) =
              pending.dropLast ++
                last :: coalesced (event :: events.filter (shouldApplyRuntimeEventToMessage options)) := by
            conv_lhs => rw [← hsplit]
            simp
          simp [ha, hc, coalesced, hlist]

theorem applyAll_coalesced (events : List UiEvent)
    (ha : ∀ e ∈ events.tail, shouldApplyRuntimeEventToMessage options e) (h : Smooth options stream events) :
    stream.applyAll options (coalesced events) = stream.applyAll options events := by
  induction events generalizing stream
  case nil => rfl
  case cons earlier events hi =>
    cases events
    case nil => rfl
    case cons later events =>
      have hrest : ∀ e ∈ events, shouldApplyRuntimeEventToMessage options e :=
        fun e he => ha e (List.mem_cons_of_mem _ he)
      have hlater : shouldApplyRuntimeEventToMessage options later := ha later List.mem_cons_self
      unfold Smooth at h
      rw [coalesced]
      split_ifs at h ⊢ with hc
      case pos =>
        rw [hi hrest h.2]
        have habsorb := apply_apply hlater hc h.1
        simp only [applyAll, List.foldl_cons, habsorb]
      case neg => exact hi hrest h

theorem applyAll_append (stream : Stream) (options : LifecycleOptions) (events events' : List UiEvent) :
    stream.applyAll options (events ++ events') = (stream.applyAll options events).applyAll options events' :=
  List.foldl_append ..

-- The messages after a flush are those that the queued events, one by one, lead to.
theorem flush_queueAll (stream : Stream) (options : LifecycleOptions) (pending events : List UiEvent)
    (h : Smooth options (stream.cloneMessages.applyAll options pending.dropLast)
      (pending.getLast?.toList ++ events.filter (shouldApplyRuntimeEventToMessage options))) :
    (stream.flushQueuedSessionRealtimeRuntimeEvents options (queueAll options pending events)).messages =
      (stream.cloneMessages.applyAll options
        (pending ++ events.filter (shouldApplyRuntimeEventToMessage options))).messages := by
  have hflush (pending : List UiEvent) : (stream.flushQueuedSessionRealtimeRuntimeEvents options pending).messages =
      (stream.cloneMessages.applyAll options pending).messages := by
    unfold flushQueuedSessionRealtimeRuntimeEvents
    split_ifs with hp
    case pos => simp [hp, applyAll]
    case neg => rfl
  have htail : ∀ e ∈ (pending.getLast?.toList ++ events.filter (shouldApplyRuntimeEventToMessage options)).tail,
      shouldApplyRuntimeEventToMessage options e := by
    intro e he
    cases hp : pending.getLast?
    case none =>
      rw [hp] at he
      exact List.of_mem_filter (List.mem_of_mem_tail he)
    case some last =>
      rw [hp] at he
      exact List.of_mem_filter he
  have hsplit : pending = pending.dropLast ++ pending.getLast?.toList := by
    cases hp : pending.getLast?
    case none => simp [List.getLast?_eq_none_iff.mp hp]
    case some last => exact (List.dropLast_append_getLast? last hp).symm
  rw [hflush, queueAll_eq, applyAll_append, applyAll_coalesced _ htail h, ← applyAll_append, ← List.append_assoc,
    ← hsplit]

-- A snapshot of the stream `k` of the run `r`
def snapshot (content messageId : String) (finalized : Bool) : UiEvent :=
  { type := .text_chunk, run_id := text "r", message_id := text messageId, targets := [text "message"],
    data := { ownerStreamKey := some (text "k"), snapshot := some (text content), finalized := finalized } }

theorem flush_queueAll_sample :
    (emptyStream.flushQueuedSessionRealtimeRuntimeEvents numberedOptions
      (queueAll numberedOptions [] [snapshot "Hel" "m" false, snapshot "Hello" "m" true])).messages =
    (emptyStream.cloneMessages.applyAll numberedOptions
      [snapshot "Hel" "m" false, snapshot "Hello" "m" true]).messages := by
  have hsmooth : Smooth numberedOptions emptyStream.cloneMessages
      [snapshot "Hel" "m" false, snapshot "Hello" "m" true] := by
    have hnodes :
        (emptyStream.cloneMessages.opened numberedOptions (snapshot "Hel" "m" false)).message.nodes = [] := rfl
    unfold Smooth
    rw [if_pos (by decide)]
    refine ⟨⟨rfl, rfl, ?_⟩, trivial⟩
    apply Draft.Absorbs.text
    case type => rfl
    case renews => exact ⟨rfl, rfl, rfl, rfl, rfl, rfl⟩
    case artifact => rfl
    case unfinal => rfl
    case named => simp [Draft.Named, hnodes]
    case unreplaced => rfl
  exact flush_queueAll emptyStream numberedOptions [] [snapshot "Hel" "m" false, snapshot "Hello" "m" true] hsmooth

-- A stream that shows a message of the run `s`, without a current one
def shownSample : Stream :=
  listing (fun _ => streamingMessage) [0] none

-- The flush leaves out a snapshot that takes over a shown message, and a final snapshot after which the stream starts
-- a new node.
theorem flush_queueAll_fails :
    (shownSample.flushQueuedSessionRealtimeRuntimeEvents numberedOptions
      (queueAll numberedOptions [] [snapshot "Hel" "a" false, snapshot "lo" "b" false])).messages ≠
    (shownSample.cloneMessages.applyAll numberedOptions
      [snapshot "Hel" "a" false, snapshot "lo" "b" false]).messages ∧
    (emptyStream.flushQueuedSessionRealtimeRuntimeEvents numberedOptions
      (queueAll numberedOptions [] [snapshot "Hel" "m" true, snapshot "lo" "m" false])).messages ≠
    (emptyStream.cloneMessages.applyAll numberedOptions
      [snapshot "Hel" "m" true, snapshot "lo" "m" false]).messages := by
  decide

end Stream
end SessionRealtime
