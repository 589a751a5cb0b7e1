import V8AgentOs.SessionRealtime.Reducer

-- What every edit of a message keeps
namespace SessionRealtime

open Script

-- The fields by which messages are found
structure Message.Kept (old new : Message) : Prop where
  id              : new.id = old.id
  role            : new.role = old.role
  runId           : new.runId = old.runId
  clientMessageId : new.clientMessageId = old.clientMessageId
  uiEphemeral     : new.uiEphemeral = old.uiEphemeral

namespace Message.Kept

theorem refl (m : Message) : Kept m m :=
  ⟨rfl, rfl, rfl, rfl, rfl⟩

theorem trans {m₁ m₂ m₃ : Message} (h₁ : Kept m₁ m₂) (h₂ : Kept m₂ m₃) : Kept m₁ m₃ where
  id              := h₂.id.trans h₁.id
  role            := h₂.role.trans h₁.role
  runId           := h₂.runId.trans h₁.runId
  clientMessageId := h₂.clientMessageId.trans h₁.clientMessageId
  uiEphemeral     := h₂.uiEphemeral.trans h₁.uiEphemeral

theorem upsertTimelineNode (m : Message) (node : Node → Node) : Kept m (m.upsertTimelineNode node) := by
  unfold Message.upsertTimelineNode
  dsimp only
  split
  case h_1 => exact ⟨rfl, rfl, rfl, rfl, rfl⟩
  case h_2 => split_ifs <;> exact ⟨rfl, rfl, rfl, rfl, rfl⟩

end Message.Kept

namespace Draft

-- The draft is one of the same message.
def Kept (old new : Draft) : Prop :=
  old.message.Kept new.message

theorem Kept.trans {d₁ d₂ d₃ : Draft} (h₁ : d₁.Kept d₂) (h₂ : d₂.Kept d₃) : d₁.Kept d₃ :=
  Message.Kept.trans h₁ h₂

variable (options : LifecycleOptions) (event : UiEvent) (profile : AgentProfile) (draft : Draft)

theorem kept_modify {f : Message → Message} (h : ∀ m, Message.Kept m (f m)) : draft.Kept (draft.modify f) :=
  h draft.message

theorem kept_working : draft.Kept (draft.modify (·.working)) :=
  ⟨rfl, rfl, rfl, rfl, rfl⟩

theorem kept_appendNew (node : Node) : draft.Kept (draft.appendNew options node) :=
  ⟨rfl, rfl, rfl, rfl, rfl⟩

theorem kept_upsert (given : Text) (node : Node → Node) : draft.Kept (draft.upsert options given node) := by
  unfold Kept upsert
  dsimp only
  apply Message.Kept.upsertTimelineNode

theorem kept_called : draft.Kept draft.called :=
  Message.Kept.refl _

theorem kept_appendNarrativeContent (owner : Option OwnerFields) (runId content : Text) :
    draft.Kept (draft.appendNarrativeContent options profile owner runId content) := by
  unfold appendNarrativeContent
  dsimp only
  split_ifs
  case pos => exact .refl _
  all_goals exact ⟨rfl, rfl, rfl, rfl, rfl⟩

theorem kept_appendArtifactNode (artifact : Option Artifact) :
    draft.Kept (draft.appendArtifactNode options event profile artifact) := by
  unfold appendArtifactNode
  split
  case h_1 => exact .refl _
  case h_2 =>
    dsimp only
    split_ifs
    case pos => exact .refl _
    case neg => exact ⟨rfl, rfl, rfl, rfl, rfl⟩

theorem kept_appendEventArtifactIfPresent :
    draft.Kept (draft.appendEventArtifactIfPresent options event profile) := by
  unfold appendEventArtifactIfPresent
  split_ifs
  case pos => exact kept_appendArtifactNode ..
  case neg => exact .refl _

theorem kept_promote : draft.Kept (draft.promote options profile) := by
  unfold promote
  apply kept_modify
  intro m
  dsimp only
  split_ifs <;> exact ⟨rfl, rfl, rfl, rfl, rfl⟩

theorem kept_agentStart : draft.Kept (draft.agentStart options event profile) := by
  unfold agentStart
  dsimp only
  apply (kept_promote options profile draft).trans
  split_ifs
  case pos => exact .refl _
  case neg => exact kept_upsert ..

theorem kept_replaceSegments : draft.Kept (draft.replaceSegments event) := by
  unfold replaceSegments
  split
  case h_1 => exact .refl _
  case h_2 => exact ⟨rfl, rfl, rfl, rfl, rfl⟩

theorem kept_mergeText (index : ℕ) : draft.Kept (draft.mergeText event index) := by
  unfold mergeText
  apply kept_modify
  intro m
  dsimp only
  split
  case h_1 => exact ⟨rfl, rfl, rfl, rfl, rfl⟩
  case h_2 => split_ifs <;> exact ⟨rfl, rfl, rfl, rfl, rfl⟩

theorem kept_insertText : draft.Kept (draft.insertText options event profile) :=
  (kept_upsert options draft event.node_id _).trans ⟨rfl, rfl, rfl, rfl, rfl⟩

theorem kept_writeText : draft.Kept (draft.writeText options event profile) := by
  unfold writeText
  split
  case h_1 => exact kept_mergeText ..
  case h_2 => exact kept_insertText ..

theorem kept_streaming : draft.Kept draft.streaming :=
  ⟨rfl, rfl, rfl, rfl, rfl⟩

theorem kept_textChunk : draft.Kept (draft.textChunk options event profile) :=
  (kept_streaming draft).trans <| (kept_replaceSegments event _).trans <|
    (kept_writeText options event profile _).trans <| kept_appendEventArtifactIfPresent options event profile _

theorem kept_writeReasoning : draft.Kept (draft.writeReasoning options event profile) := by
  unfold writeReasoning
  dsimp only
  split_ifs
  case pos => exact ⟨rfl, rfl, rfl, rfl, rfl⟩
  case neg => exact kept_upsert ..

theorem kept_reasoningChunk : draft.Kept (draft.reasoningChunk options event profile) :=
  (kept_working draft).trans (kept_writeReasoning options event profile _)

theorem kept_toolNarrative : draft.Kept (draft.toolNarrative options event profile) :=
  (kept_appendNarrativeContent options profile draft _ _ _).trans
    (kept_appendEventArtifactIfPresent options event profile _)

theorem kept_toolStart : draft.Kept (draft.toolStart options event profile) := by
  unfold toolStart
  dsimp only
  exact (kept_working draft).trans ((kept_upsert options _ _ _).trans (kept_toolNarrative options event profile _))

theorem kept_toolResult : draft.Kept (draft.toolResult options event profile) := by
  unfold toolResult
  dsimp only
  refine .trans (kept_working draft) (.trans ?_ (kept_toolNarrative options event profile _))
  split
  case h_1 =>
    split_ifs
    case pos => exact kept_upsert ..
    case neg => exact ⟨rfl, rfl, rfl, rfl, rfl⟩
  case h_2 =>
    split_ifs
    case pos => exact kept_upsert ..
    case neg => exact (kept_called _).trans (kept_upsert ..)

theorem kept_artifactRecorded : draft.Kept (draft.artifactRecorded options event profile) :=
  (kept_working draft).trans (kept_appendArtifactNode options event profile _ _)

theorem kept_runtimeProgress : draft.Kept (draft.runtimeProgress options event profile) :=
  (kept_working draft).trans <| (kept_appendNarrativeContent options profile _ _ _ _).trans <|
    kept_appendEventArtifactIfPresent options event profile _

theorem kept_governed (governanceType : GovernanceType) (content : Text) :
    draft.Kept (draft.governed options event profile governanceType content) :=
  (kept_working draft).trans <| (kept_appendNarrativeContent options profile _ _ _ _).trans <|
    kept_appendNew options _ _

theorem kept_guided (governanceType : GovernanceType) :
    draft.Kept (draft.guided options event profile governanceType) :=
  (kept_working draft).trans (kept_upsert options _ _ _)

theorem kept_settle : draft.Kept (draft.settle options event profile) := by
  have hphase : draft.Kept (draft.modify fun message => { message with uiStreamPhase := some .settling }) :=
    ⟨rfl, rfl, rfl, rfl, rfl⟩
  exact hphase.trans (kept_appendEventArtifactIfPresent ..)

theorem kept_fail : draft.Kept draft.fail :=
  ⟨rfl, rfl, rfl, rfl, rfl⟩

end Draft

theorem Stream.kept_editOf {options : LifecycleOptions} {event : UiEvent} {edit : AgentProfile → Draft → Draft}
    (h : editOf options event = some edit) (profile : AgentProfile) (draft : Draft) :
    draft.Kept (edit profile draft) := by
  unfold editOf at h
  split at h <;> cases h
  case h_1 => exact Draft.kept_agentStart ..
  case h_2 => exact Draft.kept_textChunk ..
  case h_3 => exact Draft.kept_reasoningChunk ..
  case h_4 => exact Draft.kept_toolStart ..
  case h_5 => exact Draft.kept_toolResult ..
  case h_6 => exact Draft.kept_artifactRecorded ..
  case h_7 => exact Draft.kept_runtimeProgress ..
  case h_8 => exact Draft.kept_runtimeProgress ..
  case h_16 => exact Draft.kept_guided ..
  case h_17 => exact Draft.kept_guided ..
  all_goals exact Draft.kept_governed ..

end SessionRealtime
